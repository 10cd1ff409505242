import NetdataPlugins.DetailsAccounting
import NetdataPlugins.PluginRuns
import NetdataPlugins.ScannerCharts
import NetdataPlugins.ScannerdCounts

/-!
# scanner.plugin

The main loop over the two logs of a scannerd directory. With one such directory
every watcher has charts of its own, and over whole runs each counter of the
`details` log, and each error and fixed warning of the `current` log, reports
the lines that raise it.

`duration` stands for `atof(buf) * FRACTIONAL_CONVERSION` as an `int`.
-/
namespace NetdataPlugins.ScannerPlugin
open MemoryBlock CString Netdata Timer FileWatch IndexedLoop LogWatch Runs Scanner DetailsLog
  ScannerdLog WarningDimensions ScannerdCounts PluginLoop
open ScannerCharts (dirWatches isScannerd ofEntry_dirWatches)
open LogDirectory (DirEntry ofEntry)

inductive Data where
  | details (data : DetailsStatistics)
  | scannerd (data : ScannerdStatistics)

/-- What the local arrays hold on entry. -/
structure Input where
  buf : Block 256
  frame : Frame

def scannerFunc (duration : Bytes → ℤ) : StatFunc Input Unit Data where
  printHdr
    | name, .details _ => detailsPrintHdr name
    | name, .scannerd _ => scannerdPrintHdr name
  process
    | x, mem, .details data => (detailsProcess duration x.buf mem data).map .details
    | x, mem, .scannerd data => (scannerdProcess x.frame mem data).map .scannerd
  measure _ data := data
  postprocess
    | shared, .details data => (.details (detailsPostprocess data), shared)
    | shared, .scannerd data => (.scannerd data, shared)
  print
    | name, .details data, time => (.details data, detailsPrint name data time)
    | name, .scannerd data, time =>
        (.scannerd (scannerdPrint name data time).1, (scannerdPrint name data time).2)
  clear
    | .details data => .details (detailsClear data)
    | .scannerd data => .scannerd (scannerdClear data)

def scannerPlugin (duration : Bytes → ℤ) : Plugin Input Unit Data where
  toStatFunc := scannerFunc duration
  label _ fileName := fileName
  preamble := []
  epilogue shared _ := (shared, [])

/-- `func->init()`. -/
def init : ScannerCharts.Func → Data
  | .details => .details detailsDataInit
  | .scannerd => .scannerd scannerdDataInit

def prepare (bufsiz : ℕ) (logs : Key → LogFile) (e : DirEntry) (fileName : Bytes)
    (func : ScannerCharts.Func) : Option (Watch bufsiz Data) :=
  prepareWatcher logs e fileName (init func)

def detectLogDirs (bufsiz : ℕ) (logs : Key → LogFile) (entries : List DirEntry) :
    List (Watch bufsiz Data) :=
  LogDirectory.detectLogDirs (dirWatches (prepare bufsiz logs)) entries

/-- The state when the loop of `main` begins. -/
def main (duration : Bytes → ℤ) (bufsiz : ℕ) (logs : Key → LogFile) (entries : List DirEntry)
    (readings : ℕ → Timespec) : System bufsiz Unit Data :=
  start (scannerPlugin duration) logs (detectLogDirs bufsiz logs entries) () readings

/-! ### The charts -/

theorem printTypePrefixId_inj (type name a b : Bytes) :
    printTypePrefixId type (some name) (some a) = printTypePrefixId type (some name) (some b) ↔
      a = b := by
  simp [printTypePrefixId]

def Data.func : Data → ScannerCharts.Func
  | .details _ => .details
  | .scannerd _ => .scannerd

def charts (name : Bytes) : ScannerCharts.Func → List Bytes
  | .details => defined (detailsPrintHdr name)
  | .scannerd => defined (scannerdPrintHdr name)

theorem newHeaders_closed (name : Bytes) (warn : List WarnT) :
    Closed (newHeaders name warn).2 := by
  induction warn with
  | nil => exact closed_nil
  | cons w warn ih =>
      unfold newHeaders
      split_ifs
      · exact closed_nil
      · exact Closed.append rfl ih

theorem scannerdPrint_closed (name : Bytes) (data : ScannerdStatistics) (time : ℕ) :
    Closed (scannerdPrint name data time).2 :=
  ((newHeaders_closed name _).append (block_closed _ _ _)).append (block_closed _ _ _)

variable {duration : Bytes → ℤ}

def interface (duration : Bytes → ℤ) : Interface (scannerPlugin duration) ScannerCharts.Func where
  kind := Data.func
  charts := charts
  epilogueCharts := []
  kind_process x mem d d' h := by
    cases d <;> obtain ⟨data, -, rfl⟩ := Option.map_eq_some_iff.mp h <;> rfl
  kind_measure _ _ := rfl
  kind_postprocess _ d := by cases d <;> rfl
  kind_print _ d _ := by cases d <;> rfl
  kind_clear d := by cases d <;> rfl
  printHdr_quiet _ d := by cases d <;> exact ⟨rfl, rfl⟩
  preamble_quiet := ⟨rfl, rfl⟩
  print_closed name d time := by
    cases d with
    | details data =>
        exact ((((block_closed _ _ _).append (block_closed _ _ _)).append
          (block_closed _ _ _)).append (block_closed _ _ _)).append (block_closed _ _ _)
    | scannerd data => exact scannerdPrint_closed name data time
  begun_print name d time c hc := by
    cases d with
    | details data => exact hc
    | scannerd data =>
        change c ∈ begun (scannerdPrint name data time).2 at hc
        rw [ScannerCharts.begun_scannerdPrint] at hc
        have hdefined : charts name (Data.func (.scannerd data)) =
            [errorsId name, warningsId name] := rfl
        rw [hdefined]
        exact List.mem_pair.mpr (List.mem_pair.mp hc).symm
  epilogue_closed _ _ := closed_nil
  epilogue_headed _ _ _ h := by cases h
  begun_epilogue _ _ _ h := by cases h

/-! ### The counters of the details log -/

inductive ScanType where
  | clear | clamdscan | spamTagged | spamRejected | spamDeleted | other
  deriving DecidableEq, Repr

def typeOf (status : Bytes) : ScanType :=
  if contains status (lit "Clear") then .clear
  else if contains status (lit "CLAMDSCAN") then .clamdscan
  else if contains status (lit ":SPAM-TAGGED") then .spamTagged
  else if contains status (lit ":SPAM-REJECTED") then .spamRejected
  else if contains status (lit ":SPAM-DELETED") then .spamDeleted
  else .other

inductive Counter where
  | type (t : ScanType)
  | sc (b : Bool)
  | cc (b : Bool)
  deriving DecidableEq, Repr

def value : Counter → DetailsStatistics → ℤ
  | .type .clear, data => data.clear
  | .type .clamdscan, data => data.clamdscan
  | .type .spamTagged, data => data.spamTagged
  | .type .spamRejected, data => data.spamRejected
  | .type .spamDeleted, data => data.spamDeleted
  | .type .other, data => data.other
  | .sc false, data => data.sc0
  | .sc true, data => data.sc1
  | .cc false, data => data.cc0
  | .cc true, data => data.cc1

def Counter.chart : Counter → Bytes
  | .type _ => lit "type"
  | .sc _ => lit "cached"
  | .cc _ => lit "cached"

def Counter.dimension : Counter → Bytes
  | .type .clear => lit "clear"
  | .type .clamdscan => lit "clamdscan"
  | .type .spamTagged => lit "spam_tagged"
  | .type .spamRejected => lit "spam_rejected"
  | .type .spamDeleted => lit "spam_deleted"
  | .type .other => lit "other"
  | .sc false => lit "sc_0"
  | .sc true => lit "sc_1"
  | .cc false => lit "cc_0"
  | .cc true => lit "cc_1"

def Counter.chartId (c : Counter) (name : Bytes) : Bytes :=
  printTypePrefixId Scanner.scannerd (some name) (some c.chart)

/-- The status says this. -/
def Counter.Says (c : Counter) (status : Bytes) : Bool :=
  match c with
  | .type t => typeOf status = t
  | .sc b => scStat status = some b
  | .cc b => ccStat status = some b

/-- A line counts if it has a third column. -/
def Counter.counts (c : Counter) (line : Bytes) : Bool :=
  match columns line with
  | _ :: status :: _ :: _ => c.Says status
  | _ => false

theorem value_counted (c : Counter) (status : Bytes) (data : DetailsStatistics) :
    value c (counted status data) = value c data + (if c.Says status then 1 else 0 : ℕ) := by
  cases c with
  | type t =>
      have hstatus : value (.type t) (countStatus status data) =
          value (.type t) data + (if typeOf status = t then 1 else 0 : ℕ) := by
        unfold countStatus typeOf
        cases t <;> split_ifs <;> simp_all [value]
      simp only [Counter.Says, decide_eq_true_eq, ← hstatus, counted]
      rcases ccStat status with _ | _ | _ <;> rcases scStat status with _ | _ | _ <;> cases t <;>
        rfl
  | sc b =>
      have h := DetailsAccounting.scCount_counted b status data
      cases b <;> simpa [value, Counter.Says, DetailsAccounting.scCount] using h
  | cc b =>
      have h := DetailsAccounting.ccCount_counted b status data
      cases b <;> simpa [value, Counter.Says, DetailsAccounting.ccCount] using h

theorem value_flagged (c : Counter) (n e i : ℤ) (data : DetailsStatistics) :
    value c (flagged n e i data) = value c data := by
  rcases c with (_ | _ | _ | _ | _ | _) | (_ | _) | (_ | _) <;> rfl

theorem value_sample (c : Counter) (b : Bucket) (d : ℤ) (data : DetailsStatistics) :
    value c (sample b d data) = value c data := by
  rcases c with (_ | _ | _ | _ | _ | _) | (_ | _) | (_ | _) <;> rfl

theorem value_processed (c : Counter) (line : Bytes) (data : DetailsStatistics) :
    value c (processed duration (columns line) data) =
      value c data + (if c.counts line then 1 else 0 : ℕ) := by
  unfold Counter.counts
  rcases columns line with _ | ⟨date, _ | ⟨status, _ | ⟨time, _ | ⟨x, cs⟩⟩⟩⟩
  · exact (value_flagged c _ _ _ data).trans (by simp)
  · exact (value_flagged c _ _ _ data).trans (by simp)
  · exact (value_flagged c _ _ _ data).trans (by simp)
  · exact (value_flagged c _ _ _ _).trans (value_counted c status data)
  · obtain ⟨n, e, i, hchecked⟩ := checked_flagged (numOfFields - 3) (x :: cs)
      (sample (bucket (scStat status) (ccStat status)) (duration time) (counted status data))
    rw [processed, hchecked, value_flagged, value_sample, value_counted]

theorem values_detailsPrint (c : Counter) (name : Bytes) (data : DetailsStatistics) (time : ℕ) :
    values (c.chartId name) c.dimension (detailsPrint name data time) = [value c data] := by
  have hids (a b : Bytes) : (printTypePrefixId Scanner.scannerd (some name) (some a) =
      printTypePrefixId Scanner.scannerd (some name) (some b)) = (a = b) :=
    propext (printTypePrefixId_inj _ _ _ _)
  have hne : lit "type" ≠ lit "cached" ∧ lit "duration" ≠ lit "type" ∧
      lit "duration" ≠ lit "cached" ∧ lit "duration_ratio" ≠ lit "type" ∧
      lit "duration_ratio" ≠ lit "cached" ∧ lit "incorrect_data_fields" ≠ lit "type" ∧
      lit "incorrect_data_fields" ≠ lit "cached" := by decide
  have hreported : reported (c.chartId name) (detailsPrint name data time) =
      if c.chart = lit "type" then
        [(lit "clear", data.clear), (lit "clamdscan", data.clamdscan),
          (lit "spam_tagged", data.spamTagged), (lit "spam_rejected", data.spamRejected),
          (lit "spam_deleted", data.spamDeleted), (lit "other", data.other)]
      else [(lit "sc_0", data.sc0), (lit "sc_1", data.sc1), (lit "cc_0", data.cc0),
        (lit "cc_1", data.cc1)] := by
    rw [detailsPrint, Counter.chartId]
    simp only [ndBeginTime, List.append_assoc, (block_closed _ _ _).reported_append,
      reported_block, hids]
    cases c <;> simp [Counter.chart, hne, Ne.symm hne.1]
  rw [values, hreported]
  rcases c with (_ | _ | _ | _ | _ | _) | (_ | _) | (_ | _) <;> rfl

theorem cstr_cstr (mem : Bytes) : cstr (cstr mem) = cstr mem := by
  rw [cstr, List.takeWhile_eq_self_iff]
  intro c hc
  simpa using fun h0 : c = 0 => nul_notMem_cstr mem (h0 ▸ hc)

def onDetails {α : Type} (otherwise : α) (f : DetailsStatistics → α) : Data → α
  | .details data => f data
  | .scannerd _ => otherwise

def statuses (duration : Bytes → ℤ) (c : Counter) : Series (interface duration) where
  chart := c.chartId
  dimension := c.dimension
  weight line := if c.counts line then 1 else 0
  meter := onDetails 0 (value c)
  Valid d := d.func = .details
  process x mem d d' hd hnul h := by
    cases d with
    | scannerd data => cases hd
    | details data =>
        obtain ⟨data', hprocess, rfl⟩ := Option.map_eq_some_iff.mp h
        rcases detailsProcess_cases duration x.buf hnul data with hsome | ⟨hnone, -⟩
        · rw [hsome, Option.some.injEq] at hprocess
          subst hprocess
          have hcolumns : columns (cstr mem) = columns mem := by rw [columns, columns, cstr_cstr]
          exact ⟨rfl, by rw [← hcolumns]; exact value_processed c _ _⟩
        · rw [hnone] at hprocess
          cases hprocess
  postprocess g d hd := by
    cases d with
    | scannerd data => cases hd
    | details data =>
        exact ⟨rfl, by rcases c with (_ | _ | _ | _ | _ | _) | (_ | _) | (_ | _) <;> rfl⟩
  print name d time hd := by
    cases d with
    | scannerd data => cases hd
    | details data => exact ⟨rfl, rfl, values_detailsPrint c name data time⟩
  clear d hd := by
    cases d with
    | scannerd data => cases hd
    | details data =>
        exact ⟨rfl, by rcases c with (_ | _ | _ | _ | _ | _) | (_ | _) | (_ | _) <;> rfl⟩

/-! ### The scalars of the current log -/

def onScannerd {α : Type} (otherwise : α) (f : ScannerdStatistics → α) : Data → α
  | .details _ => otherwise
  | .scannerd data => f data

/-- The vector of warnings is as it can become in a run. -/
def Reachable (data : ScannerdStatistics) : Prop :=
  ∀ name, ∃ out, Inv name ⟨data, out⟩

theorem reachable_init : Reachable scannerdDataInit := fun name => ⟨_, inv_start name⟩

theorem Reachable.congr {data data' : ScannerdStatistics} (h : Reachable data)
    (hflags : flags data'.swv = flags data.swv) : Reachable data' := by
  intro name
  obtain ⟨out, hinv⟩ := h name
  exact ⟨out, hinv.congr hflags rfl⟩

theorem Reachable.process {x : Frame} {mem : Bytes} {data data' : ScannerdStatistics}
    (h : Reachable data) (hnul : 0 ∈ mem) (hp : scannerdProcess x mem data = some data') :
    Reachable data' := by
  rcases swv_scannerdProcess hnul hp with hswv | ⟨w, hswv⟩
  · exact h.congr (by rw [hswv])
  · intro name
    obtain ⟨out, hinv⟩ := h name
    exact ⟨out, (inv_add hinv w x.room).congr (by rw [hswv]) rfl⟩

theorem Reachable.print {data : ScannerdStatistics} (h : Reachable data) (name : Bytes)
    (time : ℕ) : Reachable (scannerdPrint name data time).1 := by
  intro other
  obtain ⟨out, hinv⟩ := h other
  have hprint := inv_print hinv time
  refine ⟨_, hprint.congr ?_ rfl⟩
  show flags (scannerdPrint name data time).1.swv = flags (scannerdPrint other data time).1.swv
  rw [scannerdPrint_swv name hinv.order, scannerdPrint_swv other hinv.order]

theorem Reachable.clear {data : ScannerdStatistics} (h : Reachable data) :
    Reachable (scannerdClear data) :=
  h.congr (by simp [flags, scannerdClear, warnClear])

/-- A row of the tables, with the chart it belongs to. -/
inductive Row where
  | error (d : String × Scalar) (h : d ∈ errorNames)
  | warning (d : String × Scalar) (h : d ∈ warningNames)

def Row.entry : Row → String × Scalar
  | .error d _ => d
  | .warning d _ => d

def Row.chartId : Row → Bytes → Bytes
  | .error _ _ => errorsId
  | .warning _ _ => warningsId

theorem sss_raised (s : Scalar) (o : Option Scalar) (sss : Scalar → ℤ) :
    raised o sss s = sss s + (if o = some s then 1 else 0 : ℕ) := by
  cases o with
  | none => simp [raised]
  | some t =>
      by_cases h : s = t
      · subst h
        simp [raised]
      · simp [raised, Function.update_of_ne h, Ne.symm h]

theorem values_table {table : List (String × Scalar)} (hnodup : (table.map fun d => lit d.1).Nodup)
    {d : String × Scalar} (hd : d ∈ table) (sss : Scalar → ℤ) :
    (table.filterMap fun e => if lit e.1 = lit d.1 then some (sss e.2) else none) = [sss d.2] := by
  have hone := KeyedTally.counts_of_nodup (fun e : String × Scalar => sss e.2) hnodup (lit d.1)
  rw [if_pos (List.mem_map_of_mem hd), KeyedTally.tally_of_nodup hnodup hd] at hone
  exact hone

theorem reported_errors (name : Bytes) (data : ScannerdStatistics) (time : ℕ) :
    reported (errorsId name) (scannerdPrint name data time).2 =
      errorNames.map fun d => (lit d.1, data.sss d.2) := by
  have hne : printTypePrefixId Scanner.scannerd (some name) (some (lit "warnings")) ≠
      errorsId name := by
    rw [errorsId, ne_eq, printTypePrefixId_inj]
    decide
  have hown : printTypePrefixId Scanner.scannerd (some name) (some (lit "errors")) =
      errorsId name := rfl
  have hheaders : reported (errorsId name) (newHeaders name data.swv.reverse).2 = [] :=
    reported_eq_nil (by rw [ScannerCharts.begun_newHeaders]; exact List.not_mem_nil)
  rw [scannerdPrint, printNewHeaderWarn]
  dsimp only
  rw [List.append_assoc, (newHeaders_closed _ _).reported_append, hheaders, List.nil_append,
    ndBeginTime, ndBeginTime, (block_closed _ _ _).reported_append, reported_block,
    reported_block, if_neg hne, if_pos hown, List.nil_append]

theorem values_row (r : Row) {data : ScannerdStatistics} (h : Reachable data) (name : Bytes)
    (time : ℕ) :
    values (r.chartId name) (lit r.entry.1) (scannerdPrint name data time).2 =
      [data.sss r.entry.2] := by
  cases r with
  | error d hd =>
      have hnodup : (errorNames.map fun d => lit d.1).Nodup := by decide
      simp only [Row.chartId, Row.entry]
      rw [← values_table hnodup hd data.sss, values, reported_errors, List.filterMap_map]
      rfl
  | warning d hd =>
      obtain ⟨out, hinv⟩ := h name
      have hnodup : (warningNames.map fun d => lit d.1).Nodup := by decide
      have hothers : (data.swv.map fun w => (w.name, w.count)).filterMap
          (fun r => if r.1 = lit d.1 then some r.2 else none) = [] := by
        apply List.filterMap_eq_nil_iff.mpr
        intro r hr
        obtain ⟨w, hw, rfl⟩ := List.mem_map.mp hr
        have hne : w.name ≠ lit d.1 := fun heq =>
          hinv.fixed w hw (heq ▸ List.mem_map_of_mem hd)
        exact if_neg hne
      simp only [Row.chartId, Row.entry]
      rw [← values_table hnodup hd data.sss, values, reported_scannerdPrint hinv.order,
        List.filterMap_append, hothers, List.append_nil, List.filterMap_map]
      rfl

def scalars (duration : Bytes → ℤ) (r : Row) : Series (interface duration) where
  chart := r.chartId
  dimension := lit r.entry.1
  weight line := if scalarOf line = some r.entry.2 then 1 else 0
  meter := onScannerd 0 fun data => data.sss r.entry.2
  Valid := onScannerd False Reachable
  process x mem d d' hd hnul h := by
    cases d with
    | details data => exact hd.elim
    | scannerd data =>
        obtain ⟨data', hprocess, rfl⟩ := Option.map_eq_some_iff.mp h
        refine ⟨Reachable.process hd hnul hprocess, ?_⟩
        show data'.sss _ = data.sss _ + _
        rw [sss_scannerdProcess hnul hprocess, sss_raised]
  postprocess g d hd := by
    cases d with
    | details data => exact hd.elim
    | scannerd data => exact ⟨hd, rfl⟩
  print name d time hd := by
    cases d with
    | details data => exact hd.elim
    | scannerd data => exact ⟨Reachable.print hd name time, rfl, values_row r hd name time⟩
  clear d hd := by
    cases d with
    | details data => exact hd.elim
    | scannerd data => exact ⟨Reachable.clear hd, rfl⟩

/-! ### Runs -/

section Start
variable {bufsiz : ℕ} {logs : Key → LogFile} {entries : List DirEntry}
  {readings : ℕ → Timespec}

theorem mem_detectLogDirs {w : Watch bufsiz Data} (h : w ∈ detectLogDirs bufsiz logs entries) :
    ∃ e ∈ entries, Prepared logs e (lit "details") (.details detailsDataInit) w ∨
      Prepared logs e (lit "current") (.scannerd scannerdDataInit) w := by
  obtain ⟨e, he, hw⟩ := LogDirectory.mem_detectLogDirs h
  unfold dirWatches at hw
  split_ifs at hw
  · rcases List.mem_append.mp hw with hw | hw
    · exact ⟨e, he, .inl (mem_prepareWatcher hw)⟩
    · exact ⟨e, he, .inr (mem_prepareWatcher hw)⟩
  · cases hw

theorem ofEntry_nodup (e : DirEntry) :
    ((ofEntry (dirWatches (prepare bufsiz logs)) e).map fun w =>
      w.watcher.watch.fileName).Nodup := by
  have htwo : [lit "details", lit "current"].Nodup := by decide
  rw [ofEntry_dirWatches]
  split_ifs
  · rw [List.map_append]
    exact htwo.sublist ((prepareWatcher_sublist fun w hw => hw.fileName).append
      (prepareWatcher_sublist fun w hw => hw.fileName))
  · exact List.nodup_nil

/-- With one scannerd directory the watchers have different files. -/
theorem detectLogDirs_nodup (hone : entries.countP isScannerd ≤ 1) :
    ((detectLogDirs bufsiz logs entries).map fun w => w.watcher.watch.fileName).Nodup := by
  induction entries with
  | nil => exact List.nodup_nil
  | cons e entries ih =>
      rw [List.countP_cons] at hone
      rw [detectLogDirs, LogDirectory.detectLogDirs, List.flatMap_cons]
      by_cases he : isScannerd e = true
      · rw [if_pos he] at hone
        have hnone : ∀ d ∈ entries, ¬ isScannerd d = true :=
          List.countP_eq_zero.mp (by omega)
        have hrest : entries.flatMap (ofEntry (dirWatches (prepare bufsiz logs))) = [] :=
          List.flatMap_eq_nil_iff.mpr fun d hd => by
            rw [ofEntry_dirWatches, if_neg (hnone d hd)]
        rw [hrest, List.append_nil]
        exact ofEntry_nodup e
      · rw [if_neg he] at hone
        rw [ofEntry_dirWatches, if_neg he, List.nil_append]
        exact ih hone

theorem charts_disjoint :
    ∀ c ∈ charts (lit "details") .details, c ∉ charts (lit "current") .scannerd := by
  decide

/-- A chart of a watcher belongs to it alone. -/
theorem chart_alone {S : Series (interface duration)} (hone : entries.countP isScannerd ≤ 1)
    {i : ℕ} {w : Watch bufsiz Data} (hw : (detectLogDirs bufsiz logs entries)[i]? = some w)
    (hchart : S.chart w.watcher.watch.fileName ∈ charts w.watcher.watch.fileName w.data.func) :
    Alone S w.watcher.watch.fileName i (main duration bufsiz logs entries readings) := by
  refine ⟨List.not_mem_nil, fun j v hv hj => ?_⟩
  rw [main, start_getElem?, Option.map_eq_some_iff] at hv
  obtain ⟨u, hu, rfl⟩ := hv
  have hne : u.watcher.watch.fileName ≠ w.watcher.watch.fileName := fun heq =>
    hj (index_unique (detectLogDirs_nodup hone) hu hw heq)
  show S.chart w.watcher.watch.fileName ∉ charts u.watcher.watch.fileName u.data.func
  obtain ⟨e, -, hu⟩ := mem_detectLogDirs (List.mem_of_getElem? hu)
  obtain ⟨e', -, hw⟩ := mem_detectLogDirs (List.mem_of_getElem? hw)
  rcases hu with hu | hu <;> rcases hw with hw | hw
  · exact absurd (hu.fileName.trans hw.fileName.symm) hne
  · rw [hw.fileName, hw.data] at hchart
    rw [hu.fileName, hu.data, hw.fileName]
    exact fun h => charts_disjoint _ h hchart
  · rw [hw.fileName, hw.data] at hchart
    rw [hu.fileName, hu.data, hw.fileName]
    exact charts_disjoint _ hchart
  · exact absurd (hu.fileName.trans hw.fileName.symm) hne

/-- What every state of a run has reported of a series, as for parser.plugin. -/
theorem series_reported (S : Series (interface duration)) (hn : 0 < bufsiz)
    (hlogs : Untouched logs) (hone : entries.countP isScannerd ≤ 1) {i : ℕ}
    {w₀ : Watch bufsiz Data} (hw : (detectLogDirs bufsiz logs entries)[i]? = some w₀)
    (hopen : w₀.watcher.watch.fd ≠ none)
    (hchart : S.chart w₀.watcher.watch.fileName ∈ charts w₀.watcher.watch.fileName w₀.data.func)
    (hvalid : S.Valid w₀.data) (hmeter : S.meter w₀.data = 0) {steps : List (Step Input)}
    {s : System bufsiz Unit Data}
    (ho : Along (exec (scannerPlugin duration)) (OrderlyAt i)
      (main duration bufsiz logs entries readings) steps)
    (hr : run (exec (scannerPlugin duration)) (main duration bufsiz logs entries readings) steps =
      some s) :
    Invariant S w₀.watcher.watch.fileName i s := by
  have hprep : ∃ e fileName, Prepared logs e fileName w₀.data w₀ := by
    obtain ⟨e, -, h | h⟩ := mem_detectLogDirs (List.mem_of_getElem? hw)
    · exact ⟨e, _, h.data ▸ h⟩
    · exact ⟨e, _, h.data ▸ h⟩
  obtain ⟨e, fileName, hprep⟩ := hprep
  exact run_invariant_at hn (start_setUpAt hlogs hw hprep hopen rfl hvalid hmeter
    (chart_alone hone hw hchart)) ho hr

/-- How many lines of a text count for a counter. -/
def countedBy (bufsiz : ℕ) (c : Counter) (text : Bytes) : ℕ :=
  (seen bufsiz text).countP fun line => c.counts (cstr line)

/-- How many lines of a text raise a scalar. -/
def raisedBy (bufsiz : ℕ) (s : Scalar) (text : Bytes) : ℕ :=
  (seen bufsiz text).countP fun line => scalarOf (cstr line) = some s

theorem total_statuses (c : Counter) (text : Bytes) :
    (statuses duration c).total bufsiz text = countedBy bufsiz c text :=
  Series.total_eq_countP _ (p := c.counts) (fun _ => rfl) bufsiz text

theorem total_scalars (r : Row) (text : Bytes) :
    (scalars duration r).total bufsiz text = raisedBy bufsiz r.entry.2 text :=
  Series.total_eq_countP _ (p := fun line => scalarOf line = some r.entry.2)
    (fun line => by simp [scalars]) bufsiz text

theorem Counter.chartId_mem (c : Counter) :
    c.chartId (lit "details") ∈ charts (lit "details") .details := by
  have htype : (Counter.type .clear).chartId (lit "details") ∈
      charts (lit "details") .details := by decide
  have hcached : (Counter.sc false).chartId (lit "details") ∈
      charts (lit "details") .details := by decide
  cases c with
  | type t => exact htype
  | sc b => exact hcached
  | cc b => exact hcached

theorem Row.chartId_mem (r : Row) :
    r.chartId (lit "current") ∈ charts (lit "current") .scannerd := by
  have herrors : errorsId (lit "current") ∈ charts (lit "current") .scannerd := by decide
  have hwarnings : warningsId (lit "current") ∈ charts (lit "current") .scannerd := by
    decide
  cases r with
  | error d h => exact herrors
  | warning d h => exact hwarnings

def reportedStatus (c : Counter) (out : List Command) : ℤ :=
  (values (c.chartId (lit "details")) c.dimension out).sum

def reportedScalar (r : Row) (out : List Command) : ℤ :=
  (values (r.chartId (lit "current")) (lit r.entry.1) out).sum

end Start

/-- A directory with both logs, and what happens to one of them: a line, a
rotation, and the event for it answered before a tick. -/
def scannerdDirectory : List DirEntry := [⟨lit "scannerd", true, fun _ => some 1, fun _ => true⟩]

def rotatedOnce (fileName line : Bytes) : List (Step Input) :=
  [.append (1, fileName) (line ++ [10]), .rotate (1, fileName), .poll false true true,
    .event fun _ => ⟨[line ++ [10]], fun _ => ⟨emptyBuf, WarningLines.anyFrame⟩⟩, .drained]

def watchOf (fileName : Bytes) (data : Data) : Watch 8192 Data where
  watcher := ⟨FileWatch.prepareWatcher 8192 (lit "scannerd") fileName 1 (some ⟨0, 0⟩), []⟩
  type := .logFile
  time := ⟨0, 0⟩
  data := data

theorem scannerdDirectory_detected :
    detectLogDirs 8192 emptyLog scannerdDirectory =
      [watchOf (lit "details") (.details detailsDataInit),
        watchOf (lit "current") (.scannerd scannerdDataInit)] := by
  have hname : isScannerd ⟨lit "scannerd", true, fun _ => some 1, fun _ => true⟩ = true := by
    decide
  simp only [detectLogDirs, LogDirectory.detectLogDirs, scannerdDirectory, List.flatMap_cons,
    List.flatMap_nil, ofEntry_dirWatches, hname, if_true]
  rfl

def scannerdStart : System 8192 Unit Data :=
  main (fun _ => 0) 8192 emptyLog scannerdDirectory fun _ => ⟨0, 0⟩

theorem rotatedOnce_orderly {i : ℕ} {fileName : Bytes}
    (h : (i, fileName) = (0, lit "details") ∨ (i, fileName) = (1, lit "current")) (line : Bytes) :
    Along (exec (scannerPlugin fun _ => 0)) (OrderlyAt i) scannerdStart
      (rotatedOnce fileName line) := by
  refine ⟨trivial, fun s₁ h₁ => ⟨trivial, fun s₂ h₂ => ⟨trivial, fun s₃ h₃ =>
    ⟨?_, fun _ _ => ⟨trivial, fun _ _ => trivial⟩⟩⟩⟩⟩
  cases h₁
  cases h₂
  cases h₃
  intro e queue _ w hw _ p hp
  rcases h with h | h
  all_goals
    cases h
    cases hw
    cases hp
    exact .inl ⟨Nat.zero_lt_one, rfl⟩

/-- A rotated line of the second watcher, and the turn of the first one, which
finds nothing to read. -/
def daemonRun : List (Step Input) :=
  rotatedOnce (lit "current") (lit "now error: daemon( connection error: x") ++
    [.turn ⟨⟨[], fun _ => ⟨emptyBuf, WarningLines.anyFrame⟩⟩, ⟨emptyBuf, WarningLines.anyFrame⟩,
      ⟨1, 0⟩, none⟩]

theorem daemonRun_orderly :
    Along (exec (scannerPlugin fun _ => 0)) (OrderlyAt 1) scannerdStart daemonRun := by
  refine along_append.mpr ⟨rotatedOnce_orderly (.inr rfl) _, fun t _ => ?_⟩
  exact ⟨trivial, fun _ _ => trivial⟩

/-- A warning with an address. -/
def addressLine : Bytes :=
  lit "@4000 warning: rspamd(127) unable to connect to \"10.0.0.17\" (timeout)"

/-- A tick in which a line of the second watcher is read and printed. -/
def currentTick (line : Bytes) (failed : Option ℕ) : List (Step Input) :=
  let answers : Answers Input := ⟨[line ++ [10]], fun _ => ⟨emptyBuf, WarningLines.anyFrame⟩⟩
  [.append (1, lit "current") (line ++ [10]), .poll false false true,
    .turn ⟨⟨[], answers.input⟩, answers.input 0, ⟨1, 0⟩, none⟩,
    .turn ⟨answers, answers.input 0, ⟨1, 0⟩, failed⟩, .finish ⟨1, 0⟩ none]

end NetdataPlugins.ScannerPlugin
