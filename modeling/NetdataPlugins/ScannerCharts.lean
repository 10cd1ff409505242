import Mathlib.Data.List.Nodup
import Mathlib.Data.List.Pairwise
import NetdataPlugins.LogDirectory
import NetdataPlugins.Scanner

/-!
# The charts of scanner.plugin

Each scannerd directory gets two watchers. The main loop prints the name of the
log file into the ids of their charts, where the other plugins print the name of
the directory, so the watchers of two directories share all their charts.
-/
namespace NetdataPlugins.ScannerCharts
open MemoryBlock CString Netdata Scanner
open LogDirectory (DirEntry ofEntry)

/-- The functions of a watcher. -/
inductive Func where
  | details | scannerd
  deriving DecidableEq, Repr

structure Watch where
  dirName : Bytes
  fileName : Bytes
  func : Func
  deriving DecidableEq, Repr

/-- The watchers of a directory; `prepare` is `prepare_watcher`. -/
def dirWatches {α : Type} (prepare : DirEntry → Bytes → Func → Option α) (e : DirEntry) :
    List α :=
  if contains e.name (lit "scannerd") then
    (prepare e (lit "details") .details).toList ++ (prepare e (lit "current") .scannerd).toList
  else []

def prepareWatcher (e : DirEntry) (fileName : Bytes) (func : Func) : Option Watch :=
  (e.watchDir fileName).map fun _ => ⟨e.name, fileName, func⟩

def detectLogDirs (entries : List DirEntry) : List Watch :=
  LogDirectory.detectLogDirs (dirWatches prepareWatcher) entries

/-- A directory that is looked at. -/
def isScannerd (e : DirEntry) : Bool :=
  e.name.head? ≠ some 46 && e.isDirectory && contains e.name (lit "scannerd")

theorem ofEntry_dirWatches {α : Type} (prepare : DirEntry → Bytes → Func → Option α)
    (e : DirEntry) :
    ofEntry (dirWatches prepare) e =
      if isScannerd e then
        (prepare e (lit "details") .details).toList ++ (prepare e (lit "current") .scannerd).toList
      else [] := by
  unfold ofEntry dirWatches isScannerd
  by_cases hdot : e.name.head? = some 46 <;> by_cases hdir : e.isDirectory = true <;>
    simp [hdot, hdir]

/-- What the main loop prints for a watcher: the header at the start, and its
record, whatever it holds by then, at a tick. -/
inductive Prints : Watch → List Command → Prop
  | detailsHdr {dir file : Bytes} : Prints ⟨dir, file, .details⟩ (detailsPrintHdr file)
  | details {dir file : Bytes} (data : DetailsStatistics) (time : ℕ) :
      Prints ⟨dir, file, .details⟩ (detailsPrint file data time)
  | scannerdHdr {dir file : Bytes} : Prints ⟨dir, file, .scannerd⟩ (scannerdPrintHdr file)
  | scannerd {dir file : Bytes} (data : ScannerdStatistics) (time : ℕ) :
      Prints ⟨dir, file, .scannerd⟩ (scannerdPrint file data time).2

/-- A CHART or BEGIN line of the watcher names the chart. -/
def Emits (w : Watch) (chart : Bytes) : Prop :=
  ∃ out, Prints w out ∧ (chart ∈ defined out ∨ chart ∈ begun out)

/-- No two watchers ever name the same chart. -/
def OwnCharts (watches : List Watch) : Prop :=
  watches.Pairwise fun v w => ∀ chart, Emits v chart → ¬ Emits w chart

/-- The log file for which a function is used. -/
def logFile : Func → Bytes
  | .details => lit "details"
  | .scannerd => lit "current"

/-- The charts of a function, for the name of its log file. -/
def charts : Func → List Bytes
  | .details => defined (detailsPrintHdr (logFile .details))
  | .scannerd => defined (scannerdPrintHdr (logFile .scannerd))

theorem defined_newHeaders (name : Bytes) (warn : List WarnT) {chart : Bytes}
    (h : chart ∈ defined (newHeaders name warn).2) :
    chart = printTypePrefixId Scanner.scannerd (some name) (some (lit "warnings")) := by
  induction warn with
  | nil => cases h
  | cons w warn ih =>
      unfold newHeaders at h
      split_ifs at h
      · cases h
      · rw [defined_append] at h
        rcases List.mem_append.mp h with h | h
        · simpa [defined, warningsChart, scannerdChart, ndChart, ndDimension] using h
        · exact ih h

theorem begun_newHeaders (name : Bytes) (warn : List WarnT) :
    begun (newHeaders name warn).2 = [] := by
  induction warn with
  | nil => rfl
  | cons w warn ih =>
      unfold newHeaders
      split_ifs
      · rfl
      · rw [begun_append, ih]
        rfl

theorem defined_scannerdPrint {name : Bytes} {data : ScannerdStatistics} {time : ℕ} {chart : Bytes}
    (h : chart ∈ defined (scannerdPrint name data time).2) :
    chart = printTypePrefixId Scanner.scannerd (some name) (some (lit "warnings")) := by
  simp only [scannerdPrint, ndBeginTime, defined_append, defined_block, List.append_nil] at h
  exact defined_newHeaders _ _ h

theorem begun_scannerdPrint (name : Bytes) (data : ScannerdStatistics) (time : ℕ) :
    begun (scannerdPrint name data time).2 =
      [printTypePrefixId Scanner.scannerd (some name) (some (lit "warnings")),
        printTypePrefixId Scanner.scannerd (some name) (some (lit "errors"))] := by
  simp only [scannerdPrint, printNewHeaderWarn, ndBeginTime, begun_append, begun_block,
    begun_newHeaders, List.nil_append, List.cons_append]

/-- A print names no chart that the header has not defined. -/
theorem prints_charts {w : Watch} {out : List Command} (h : Prints w out)
    (hfile : w.fileName = logFile w.func) {chart : Bytes}
    (hchart : chart ∈ defined out ∨ chart ∈ begun out) : chart ∈ charts w.func := by
  cases h with
  | detailsHdr =>
      cases hfile
      exact hchart.resolve_right List.not_mem_nil
  | details data time =>
      cases hfile
      exact hchart.resolve_left List.not_mem_nil
  | scannerdHdr =>
      cases hfile
      exact hchart.resolve_right List.not_mem_nil
  | scannerd data time =>
      cases hfile
      have hwarnings : printTypePrefixId Scanner.scannerd (some (lit "current"))
          (some (lit "warnings")) ∈ charts .scannerd := by decide +kernel
      have herrors : printTypePrefixId Scanner.scannerd (some (lit "current"))
          (some (lit "errors")) ∈ charts .scannerd := by decide +kernel
      rcases hchart with hchart | hchart
      · rw [defined_scannerdPrint hchart]
        exact hwarnings
      · rw [begun_scannerdPrint] at hchart
        rcases List.mem_cons.mp hchart with hid | hchart
        · rw [hid]
          exact hwarnings
        · rw [List.mem_singleton.mp hchart]
          exact herrors

theorem header_emits {w : Watch} (hfile : w.fileName = logFile w.func) {chart : Bytes}
    (h : chart ∈ charts w.func) : Emits w chart := by
  obtain ⟨dir, file, func⟩ := w
  change file = logFile func at hfile
  subst hfile
  cases func with
  | details => exact ⟨_, .detailsHdr, .inl h⟩
  | scannerd => exact ⟨_, .scannerdHdr, .inl h⟩

/-- Two watchers keep apart exactly when they are for different log files. -/
theorem apart_iff {v w : Watch} (hv : v.fileName = logFile v.func)
    (hw : w.fileName = logFile w.func) :
    (∀ chart, Emits v chart → ¬ Emits w chart) ↔ v.func ≠ w.func := by
  have hdisjoint : ∀ c ∈ charts .details, c ∉ charts .scannerd := by decide +kernel
  constructor
  · intro h heq
    obtain ⟨chart, hchart⟩ : ∃ chart, chart ∈ charts w.func := by
      cases w.func
      · exact ⟨_, List.mem_cons_self⟩
      · exact ⟨_, List.mem_cons_self⟩
    exact h chart (header_emits hv (heq ▸ hchart)) (header_emits hw hchart)
  · rintro hne chart ⟨out, hout, hchart⟩ ⟨out', hout', hchart'⟩
    have hin := prints_charts hout hv hchart
    have hin' := prints_charts hout' hw hchart'
    cases hvf : v.func <;> cases hwf : w.func <;> rw [hvf] at hin <;> rw [hwf] at hin'
    · exact hne (hvf.trans hwf.symm)
    · exact hdisjoint chart hin hin'
    · exact hdisjoint chart hin' hin
    · exact hne (hvf.trans hwf.symm)

theorem detected_fileName {entries : List DirEntry} {w : Watch} (h : w ∈ detectLogDirs entries) :
    w.fileName = logFile w.func := by
  obtain ⟨e, -, hw⟩ := LogDirectory.mem_detectLogDirs h
  unfold dirWatches at hw
  split_ifs at hw
  · simp only [List.mem_append, Option.mem_toList, prepareWatcher, Option.map_eq_some_iff] at hw
    rcases hw with ⟨-, -, rfl⟩ | ⟨-, -, rfl⟩ <;> rfl
  · cases hw

/-- The directories whose `details` or `current` gets a watcher. -/
def watched (f : Func) (e : DirEntry) : Bool :=
  isScannerd e && (e.watchDir (logFile f)).isSome

theorem count_func (f : Func) (entries : List DirEntry) :
    ((detectLogDirs entries).map Watch.func).count f = entries.countP (watched f) := by
  induction entries with
  | nil => rfl
  | cons e entries ih =>
      have hone : ((ofEntry (dirWatches prepareWatcher) e).map Watch.func).count f =
          if watched f e then 1 else 0 := by
        rw [ofEntry_dirWatches]
        cases f <;> cases hd : isScannerd e <;> cases h₁ : e.watchDir (lit "details") <;>
          cases h₂ : e.watchDir (lit "current") <;>
          simp [prepareWatcher, watched, logFile, hd, h₁, h₂]
      rw [detectLogDirs, LogDirectory.detectLogDirs, List.flatMap_cons, List.map_append,
        List.count_append, hone, List.countP_cons, Nat.add_comm]
      exact congrArg (· + _) ih

/-- Every watcher has charts of its own exactly when at most one directory has
its `details` watched, and at most one its `current`. -/
theorem ownCharts_iff (entries : List DirEntry) :
    OwnCharts (detectLogDirs entries) ↔ ∀ f, entries.countP (watched f) ≤ 1 := by
  have hfuncs : OwnCharts (detectLogDirs entries) ↔
      ((detectLogDirs entries).map Watch.func).Nodup := by
    unfold OwnCharts List.Nodup
    rw [List.pairwise_map]
    exact List.Pairwise.iff_of_mem fun hv hw =>
      apart_iff (detected_fileName hv) (detected_fileName hw)
  rw [hfuncs, List.nodup_iff_count_le_one]
  simp only [count_func]

/-- Two directories, and the chart that both of them report. -/
theorem two_directories_share_charts :
    let entries := [⟨lit "scannerd", true, fun _ => some 1, fun _ => true⟩,
      ⟨lit "scannerd2", true, fun _ => some 2, fun _ => true⟩]
    (detectLogDirs entries).map Watch.dirName =
        [lit "scannerd", lit "scannerd", lit "scannerd2", lit "scannerd2"] ∧
      (∀ w ∈ detectLogDirs entries, w.func = .details → Emits w (lit "scannerd.details_type")) ∧
      ¬ OwnCharts (detectLogDirs entries) := by
  intro entries
  have hdirs : (detectLogDirs entries).map Watch.dirName =
      [lit "scannerd", lit "scannerd", lit "scannerd2", lit "scannerd2"] := by decide +kernel
  have hchart : lit "scannerd.details_type" ∈ charts .details := by decide +kernel
  refine ⟨hdirs, fun w hw hfunc => ?_, fun h => ?_⟩
  · exact header_emits (detected_fileName hw) (hfunc ▸ hchart)
  · have htwo := (ownCharts_iff entries).mp h .details
    exact absurd htwo (by decide +kernel)

end NetdataPlugins.ScannerCharts
