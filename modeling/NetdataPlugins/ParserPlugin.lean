import NetdataPlugins.Parser
import NetdataPlugins.PluginAudience
import NetdataPlugins.PluginText

/-!
# parser.plugin

The main loop over the logs of parser, one for each directory with `parser` in
its name. Over whole runs, with rotations and failing writes, each of the eight
counters reports the lines that raise it, and a strict collector takes all that
is printed.
-/
namespace NetdataPlugins.ParserPlugin
open MemoryBlock CString Netdata Timer FileWatch IndexedLoop LogWatch Runs PluginLoop PrintedText
open NetdataPlugins.Parser DeclaredOnce
open LogDirectory (DirEntry)
open DeclaredOnce.Collector (Takes takes_header takes_block declared stable_knows)

def parserFunc : StatFunc Unit Unit ParserStatistics where
  printHdr name _ := parserPrintHdr name
  process _ mem data := some (parserProcess (cstr mem) data)
  measure _ data := data
  postprocess shared data := (data, shared)
  print name data time := (data, parserPrint name data time)
  clear := parserClear

def parserPlugin : Plugin Unit Unit ParserStatistics where
  toStatFunc := parserFunc
  label dirName _ := dirName
  preamble := []
  epilogue shared _ := (shared, [])

def dirWatches (bufsiz : ℕ) (logs : Key → LogFile) (e : DirEntry) :
    List (Watch bufsiz ParserStatistics) :=
  if contains e.name (lit "parser") then
    (prepareWatcher logs e (lit "current") parserDataInit).toList
  else []

def detectLogDirs (bufsiz : ℕ) (logs : Key → LogFile) (entries : List DirEntry) :
    List (Watch bufsiz ParserStatistics) :=
  LogDirectory.detectLogDirs (dirWatches bufsiz logs) entries

/-- The state when the loop of `main` begins. -/
def main (bufsiz : ℕ) (logs : Key → LogFile) (entries : List DirEntry)
    (readings : ℕ → Timespec) : System bufsiz Unit ParserStatistics :=
  start parserPlugin logs (detectLogDirs bufsiz logs entries) () readings

/-! ### The counter of a line -/

/-- The counter that a line raises. -/
def counterOf (line : Bytes) : Option Counter :=
  if let some ptr := strstr line (lit "Successfully updated table ") then
    if contains ptr (lit "scanner") then some .scannerSuccess
    else if contains ptr (lit "delivery") then some .deliverySuccess
    else some .unknownSuccess
  else if let some ptr := strstr line (lit "Failed to update table ") then
    if contains ptr (lit "scanner") then some .scannerFailed
    else if contains ptr (lit "delivery") then some .deliveryFailed
    else some .unknownFailed
  else if let some ptr := strstr line (lit "Can't connect to MySQL server on ") then
    if contains ptr (lit "[Errno 111] Connection refused") then some .connFailed else none
  else some .other

/-- A line raises its counter and leaves the others, or leaves them all. -/
theorem parserProcess_eq (line : Bytes) (data : ParserStatistics) :
    parserProcess line data = ((counterOf line).map data.raise).getD data := by
  unfold parserProcess counterOf
  cases strstr line (lit "Successfully updated table ") with
  | some ptr =>
      dsimp only
      split_ifs <;> rfl
  | none =>
  cases strstr line (lit "Failed to update table ") with
  | some ptr =>
      dsimp only
      split_ifs <;> rfl
  | none =>
  cases strstr line (lit "Can't connect to MySQL server on ") with
  | some ptr =>
      dsimp only
      split_ifs <;> rfl
  | none => rfl

def value : Counter → ParserStatistics → ℤ
  | .connFailed, data => data.connFailed
  | .scannerSuccess, data => data.scannerSuccess
  | .scannerFailed, data => data.scannerFailed
  | .deliverySuccess, data => data.deliverySuccess
  | .deliveryFailed, data => data.deliveryFailed
  | .unknownSuccess, data => data.unknownSuccess
  | .unknownFailed, data => data.unknownFailed
  | .other, data => data.other

def dimension : Counter → Bytes
  | .connFailed => lit "conn_failed"
  | .scannerSuccess => lit "scanner_success"
  | .scannerFailed => lit "scanner_failed"
  | .deliverySuccess => lit "delivery_success"
  | .deliveryFailed => lit "delivery_failed"
  | .unknownSuccess => lit "unknown_success"
  | .unknownFailed => lit "unknown_failed"
  | .other => lit "other"

theorem value_raise (c k : Counter) (data : ParserStatistics) :
    value c (data.raise k) = value c data + if k = c then 1 else 0 := by
  cases c <;> cases k <;> simp [value, ParserStatistics.raise]

theorem value_process (c : Counter) (line : Bytes) (data : ParserStatistics) :
    value c (parserProcess line data) =
      value c data + (if counterOf line = some c then 1 else 0 : ℕ) := by
  rw [parserProcess_eq]
  cases counterOf line with
  | none => simp
  | some k =>
      simp only [Option.map_some, Option.getD_some, value_raise, Option.some.injEq]
      split_ifs <;> rfl

theorem values_parserPrint (c : Counter) (name : Bytes) (data : ParserStatistics) (time : ℕ) :
    values (tableUpdates name) (dimension c) (parserPrint name data time) = [value c data] := by
  rw [values, reported_parserPrint]
  cases c <;> rfl

/-! ### The series of a counter -/

def interface : Interface parserPlugin Unit where
  kind _ := ()
  charts name _ := [tableUpdates name]
  epilogueCharts := []
  printHdr_quiet _ _ := ⟨rfl, rfl⟩
  preamble_quiet := ⟨rfl, rfl⟩
  kind_process _ _ _ _ _ := rfl
  kind_measure _ _ := rfl
  kind_postprocess _ _ := rfl
  kind_print _ _ _ := rfl
  kind_clear _ := rfl
  print_closed _ _ _ := block_closed _ _ _
  begun_print name d time c hc := by
    have hbegun : begun (parserPrint name d time) = [tableUpdates name] := begun_block _ _ _
    exact hbegun ▸ hc
  epilogue_closed _ _ := closed_nil
  epilogue_headed _ _ _ h := by cases h
  begun_epilogue _ _ _ h := by cases h

def updates (c : Counter) : Series interface where
  chart := tableUpdates
  dimension := dimension c
  weight line := if counterOf line = some c then 1 else 0
  meter := value c
  Valid _ := True
  process _ mem d d' _ _ h := by
    obtain rfl := Option.some.inj h
    exact ⟨trivial, value_process c (cstr mem) d⟩
  postprocess _ _ _ := ⟨trivial, rfl⟩
  print name d time _ := ⟨trivial, rfl, values_parserPrint c name d time⟩
  clear _ _ := ⟨trivial, by cases c <;> rfl⟩

theorem updates_safe (c : Counter) : Safe (updates c) :=
  fun _ mem d _ _ => ⟨parserProcess (cstr mem) d, rfl⟩

/-- How many lines of a text raise a counter. -/
def raisedBy (bufsiz : ℕ) (c : Counter) (text : Bytes) : ℕ :=
  (seen bufsiz text).countP fun line => counterOf (cstr line) = some c

theorem total_updates (bufsiz : ℕ) (c : Counter) (text : Bytes) :
    (updates c).total bufsiz text = raisedBy bufsiz c text :=
  Series.total_eq_countP _ (p := fun line => counterOf line = some c)
    (fun line => by simp [updates]) bufsiz text

theorem tableUpdates_injective : Function.Injective tableUpdates := by
  intro a b h
  simpa [tableUpdates, printTypePrefixId, checkNull] using h

/-! ### Runs -/

section Start
variable {bufsiz : ℕ} {logs : Key → LogFile} {entries : List DirEntry}
  {readings : ℕ → Timespec}

theorem mem_detectLogDirs {w : Watch bufsiz ParserStatistics}
    (h : w ∈ detectLogDirs bufsiz logs entries) :
    ∃ e ∈ entries, Prepared logs e (lit "current") parserDataInit w := by
  obtain ⟨e, he, hw⟩ := LogDirectory.mem_detectLogDirs h
  unfold dirWatches at hw
  split_ifs at hw
  · exact ⟨e, he, mem_prepareWatcher hw⟩
  · cases hw

/-- The watchers are for different directories. -/
theorem detectLogDirs_nodup (h : (entries.map DirEntry.name).Nodup) :
    ((detectLogDirs bufsiz logs entries).map fun w => w.watcher.watch.dirName).Nodup := by
  refine h.sublist (LogDirectory.detectLogDirs_sublist (fun e => ?_) entries)
  unfold dirWatches
  split_ifs
  · exact prepareWatcher_sublist fun w hw => hw.dirName
  · exact List.nil_sublist _

theorem updates_alone (h : (entries.map DirEntry.name).Nodup) (c : Counter) {i : ℕ}
    {w : Watch bufsiz ParserStatistics}
    (hw : (detectLogDirs bufsiz logs entries)[i]? = some w) :
    Alone (updates c) w.watcher.watch.dirName i (main bufsiz logs entries readings) := by
  refine ⟨List.not_mem_nil, fun j v hv hj => ?_⟩
  rw [main, start_getElem?, Option.map_eq_some_iff] at hv
  obtain ⟨u, hu, rfl⟩ := hv
  intro hmem
  have hname : w.watcher.watch.dirName = u.watcher.watch.dirName :=
    tableUpdates_injective (List.mem_singleton.mp hmem)
  exact hj (index_unique (detectLogDirs_nodup h) hu hw hname.symm)

/-- What has been reported for a counter of a directory. -/
def reportedFor (dirName : Bytes) (c : Counter) (out : List Command) : ℤ :=
  (values (tableUpdates dirName) (dimension c) out).sum

/-- In every run in which the watcher of a directory finds its log in order when
it answers an event, whatever happens to the other logs, and even if a print
fails, the counters report the lines of the log; and nothing blocks a turn. -/
theorem updates_reported (hn : 0 < bufsiz) (hlogs : Untouched logs)
    (hnames : (entries.map DirEntry.name).Nodup) {i : ℕ} {w₀ : Watch bufsiz ParserStatistics}
    (hw : (detectLogDirs bufsiz logs entries)[i]? = some w₀)
    (hopen : w₀.watcher.watch.fd ≠ none) {steps : List (Step Unit)}
    {s : System bufsiz Unit ParserStatistics}
    (ho : Along (exec parserPlugin) (OrderlyAt i) (main bufsiz logs entries readings) steps)
    (hr : run (exec parserPlugin) (main bufsiz logs entries readings) steps = some s)
    (c : Counter) :
    (∃ w, Reports parserPlugin i s (reportedFor w₀.watcher.watch.dirName c) (value c)
      (raisedBy bufsiz c) w) ∧
    (s.phase = .ticking i → ∀ input measured reading failed, ∃ reads s',
      exec parserPlugin s (.turn ⟨⟨reads, input⟩, measured, reading, failed⟩) = some s') := by
  obtain ⟨e, -, hprep⟩ := mem_detectLogDirs (List.mem_of_getElem? hw)
  have hprep' : Prepared logs e (lit "current") w₀.data w₀ := by
    rw [hprep.data] at *
    exact hprep
  have hmeter : (updates c).meter w₀.data = 0 := by
    rw [hprep.data]
    cases c <;> rfl
  have hinv := run_invariant_at hn (start_setUpAt hlogs hw hprep' hopen rfl trivial hmeter
    (updates_alone hnames c hw)) ho hr
  exact ⟨hinv.reports (total_updates bufsiz c), hinv.turn_enabled (updates_safe c)⟩

end Start

/-- A line, a rotation, and the event for it answered before a tick. -/
def rotatedOnce : List (Step Unit) :=
  [.append (1, lit "current") (lit "Failed to update table scanner" ++ [10]),
    .rotate (1, lit "current"), .poll false true true,
    .event fun _ => ⟨[lit "Failed to update table scanner" ++ [10]], fun _ => ()⟩, .drained]

def oneDirectory : List DirEntry := [⟨lit "parser", true, fun _ => some 1, fun _ => true⟩]

def oneWatch : Watch 8192 ParserStatistics where
  watcher := ⟨FileWatch.prepareWatcher 8192 (lit "parser") (lit "current") 1 (some ⟨0, 0⟩), []⟩
  type := .logFile
  time := ⟨0, 0⟩
  data := parserDataInit

theorem oneDirectory_detected :
    (detectLogDirs 8192 emptyLog oneDirectory)[0]? = some oneWatch := by
  have hname : contains (lit "parser") (lit "parser") = true := by decide
  have hdot : (lit "parser").head? ≠ some 46 := by decide
  simp only [detectLogDirs, LogDirectory.detectLogDirs, LogDirectory.ofEntry, dirWatches,
    oneDirectory, List.flatMap_cons, hdot, hname, if_false, if_true]
  rfl

def oneDirectoryStart : System 8192 Unit ParserStatistics :=
  main 8192 emptyLog oneDirectory fun _ => ⟨0, 0⟩

theorem rotatedOnce_orderly :
    Along (exec parserPlugin) (OrderlyAt 0) oneDirectoryStart rotatedOnce := by
  refine ⟨trivial, fun s₁ h₁ => ⟨trivial, fun s₂ h₂ => ⟨trivial, fun s₃ h₃ =>
    ⟨?_, fun _ _ => ⟨trivial, fun _ _ => trivial⟩⟩⟩⟩⟩
  cases h₁
  cases h₂
  cases h₃
  intro e queue _ w hw _ p hp
  cases hw
  cases hp
  exact .inl ⟨by decide, rfl⟩

theorem updates_reported_once :
    ∃ s, run (exec parserPlugin) oneDirectoryStart rotatedOnce = some s ∧
      (∃ w, Reports parserPlugin 0 s
        (reportedFor oneWatch.watcher.watch.dirName .scannerFailed) (value .scannerFailed)
        (raisedBy 8192 .scannerFailed) w) ∧
      (s.phase = .ticking 0 → ∀ input measured reading failed, ∃ reads s',
        exec parserPlugin s (.turn ⟨⟨reads, input⟩, measured, reading, failed⟩) = some s') := by
  have hrun : (run (exec parserPlugin) oneDirectoryStart rotatedOnce).isSome = true := by
    decide
  obtain ⟨s, hs⟩ := Option.isSome_iff_exists.mp hrun
  exact ⟨s, hs, updates_reported (by decide) emptyLog_untouched (by decide)
    oneDirectory_detected (Option.some_ne_none _) rotatedOnce_orderly hs .scannerFailed⟩

/-! ### The collector -/

/-- The dimensions of the chart of a directory. -/
def rows (name : Bytes) : List (Bytes × Bytes) := declared none (parserPrintHdr name)

theorem rows_eq (name : Bytes) (data : ParserStatistics) :
    rows name = data.sets.map fun s => (tableUpdates name, s.1) := rfl

def audience : Audience interface where
  Initial _ := True
  Ready name _ c := c.Knows (rows name)
  Shared _ _ := True
  stable name data := stable_knows fun r hr => by
    rw [rows_eq name data] at hr
    obtain ⟨s, -, rfl⟩ := List.mem_map.mp hr
    exact List.mem_singleton_self _
  stable_shared _ _ _ _ _ := trivial
  printHdr name _ _ := by
    have hnodup : (rows name).Nodup := by
      have hids : (parserDataInit.sets.map Prod.fst).Nodup := by decide
      exact hids.map (f := fun id => (tableUpdates name, id)) fun _ _ h => (Prod.mk.inj h).2
    exact Takes.mono (takes_header rfl trivial (fun _ h => h) hnodup) (fun _ h => h)
      (fun _ h => h) fun _ h => h.1
  process _ _ _ _ _ _ _ _ h := h
  measure _ _ _ _ h := h
  postprocess _ _ _ _ h _ := ⟨h, trivial⟩
  print name data time := by
    refine takes_block ⟨(tableUpdates name, lit "conn_failed"), ?_, rfl⟩ _ fun s hs => ?_
    · exact List.mem_cons_self
    · rw [rows_eq name data]
      exact List.mem_map_of_mem hs
  clear _ _ _ h := h
  epilogue _ _ := Takes.nil fun _ _ => trivial

/-- In every run, whatever happens to the logs, and even if a print fails, a
strict collector takes the output. -/
theorem parserOutput_taken {bufsiz : ℕ} (hn : 0 < bufsiz) {logs : Key → LogFile}
    {entries : List DirEntry} {readings : ℕ → Timespec}
    (hnames : (entries.map DirEntry.name).Nodup) {steps : List (Step Unit)}
    {s : System bufsiz Unit ParserStatistics}
    (hr : run (exec parserPlugin) (main bufsiz logs entries readings) steps = some s) :
    Taken s := by
  have hown : interface.OwnCharts (detectLogDirs bufsiz logs entries) := by
    refine Interface.ownCharts_of_nodup (detectLogDirs_nodup hnames) (fun v _ w _ hne c hv hw => ?_)
      fun _ _ _ _ h => List.not_mem_nil h
    exact hne (tableUpdates_injective ((List.mem_singleton.mp hv).symm.trans
      (List.mem_singleton.mp hw)))
  refine (audience.run_heard hn hown (Takes.nil fun _ _ => trivial) (fun w hw => ?_) hr).taken
    fun _ _ _ => rfl
  obtain ⟨e, -, hprep⟩ := mem_detectLogDirs hw
  exact ⟨hprep.consumed, hprep.fresh, trivial⟩

/-- Two ticks, after the rotated line; the second print fails in its block. -/
def failingTick : List (Step Unit) :=
  rotatedOnce ++
    [.turn ⟨⟨[], fun _ => ()⟩, (), ⟨1, 0⟩, none⟩, .finish ⟨1, 0⟩ none, .poll false false true,
      .turn ⟨⟨[], fun _ => ()⟩, (), ⟨2, 0⟩, some 3⟩, .finish ⟨2, 0⟩ none]

/-- The header, a whole block and three lines of another one. -/
theorem failingTick_printed :
    (run (exec parserPlugin) oneDirectoryStart failingTick).map
      (fun s => (s.run, s.stdout.length)) = some (false, 9 + 10 + 3) := by
  decide

theorem parserOutput_taken_once :
    ∃ s, run (exec parserPlugin) oneDirectoryStart failingTick = some s ∧
      (s.run, s.stdout.length) = (false, 9 + 10 + 3) ∧ Taken s := by
  obtain ⟨s, hs, hprinted⟩ := Option.map_eq_some_iff.mp failingTick_printed
  exact ⟨s, hs, hprinted, parserOutput_taken (by decide) (by decide) hs⟩

/-! ### The text -/

/-- Nothing that is printed comes from the logs. -/
def writing : Writing parserPlugin (fun _ => False) (fun _ _ => True) where
  Kept name _ := Inert name
  Shared _ := True
  printHdr name _ hname := by
    change ∀ c ∈ parserPrintHdr name, _
    simp only [parserPrintHdr, List.forall_mem_cons, List.forall_mem_map]
    refine ⟨shows_ndChart hname (by decide) (by decide) _, fun d hd => shows_of_readable ?_⟩
    have hdimensions : ∀ d ∈ parserDataInit.sets,
        ∀ t ∈ fields (ndDimension d.1 (some d.1) .absolute 1 1 .visible), Readable t := by decide
    exact hdimensions d hd
  preamble _ h := by cases h
  process _ _ _ _ _ _ _ _ _ _ h := h
  measure _ _ _ h := h
  postprocess _ _ _ hshared h := ⟨h, hshared⟩
  print name data time hname := by
    refine ⟨hname, shows_block (shows_ndBeginTime hname (by decide) time) ?_⟩
    simp only [ParserStatistics.sets, List.forall_mem_cons]
    refine ⟨.inl ?_, .inl ?_, .inl ?_, .inl ?_, .inl ?_, .inl ?_, .inl ?_, .inl ?_, by simp⟩
    all_goals decide
  clear _ _ h := h
  epilogue _ _ h := ⟨h, fun _ hc => by cases hc⟩

/-- In every run, if the names of the directories have no blank, quote or line
feed, what is written reads back. -/
theorem parserText_readsBack {bufsiz : ℕ} (hn : 0 < bufsiz) {logs : Key → LogFile}
    {entries : List DirEntry} {readings : ℕ → Timespec}
    (hnames : ∀ e ∈ entries, Inert e.name) {steps : List (Step Unit)}
    {s : System bufsiz Unit ParserStatistics}
    (hr : run (exec parserPlugin) (main bufsiz logs entries readings) steps = some s) :
    ReadsBack s.stdout := by
  refine readsBack_of_shows (fun _ h => h.elim) (writing.run_shows hn trivial (fun w hw => ?_) hr
    fun _ _ _ _ => trivial)
  obtain ⟨e, he, hprep⟩ := mem_detectLogDirs hw
  have hname : Inert w.watcher.watch.dirName := hprep.dirName ▸ hnames e he
  exact ⟨hprep.consumed, hprep.fresh, hname⟩

theorem parserText_readsBack_once :
    ∃ s, run (exec parserPlugin) oneDirectoryStart failingTick = some s ∧
      (s.run, s.stdout.length) = (false, 9 + 10 + 3) ∧ ReadsBack s.stdout := by
  obtain ⟨s, hs, hprinted⟩ := Option.map_eq_some_iff.mp failingTick_printed
  exact ⟨s, hs, hprinted, parserText_readsBack (by decide) (by decide) hs⟩

end NetdataPlugins.ParserPlugin
