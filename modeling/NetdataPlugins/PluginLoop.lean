import NetdataPlugins.IndexedLoop
import NetdataPlugins.LogDirectory
import NetdataPlugins.LogWatch
import NetdataPlugins.Netdata
import NetdataPlugins.Timer

/-!
# The main loop of the plugins

parser.plugin, scanner.plugin and qmail.plugin have one main loop, over the
functions of `callbacks.h`. Here it takes small steps: a `poll`, the answer to
one inotify event, the turn of one watcher at a tick, the end of a tick. The
writers of the logs may come in between any two of them, but not inside one: in
the answer to an event, between the read and the reopening, they do not.

A `print` may fail to write; of what it prints, any part from the start on may
then have reached the collector. Measuring, clock readings and what a callback
finds on the stack are given with the step.
-/
namespace NetdataPlugins.PluginLoop
open MemoryBlock Netdata Timer FileWatch IndexedLoop LogWatch
open LogDirectory (DirEntry)

/-- `struct stat_func`. The record says whose functions they are. A call finds
`ι` beside its arguments, and all watchers share `γ`. -/
structure StatFunc (ι γ δ : Type) where
  printHdr : Bytes → δ → List Command
  process : ι → Bytes → δ → Option δ
  /-- `process` without a line, for a record that is not about a log. -/
  measure : ι → δ → δ
  postprocess : γ → δ → δ × γ
  /-- The record afterwards, and the output. -/
  print : Bytes → δ → ℕ → δ × List Command
  clear : δ → δ

/-- `label` is the name that a watcher prints under, and `epilogue` what is
printed after the watchers, by the reading of the clock. -/
structure Plugin (ι γ δ : Type) extends StatFunc ι γ δ where
  label (dirName fileName : Bytes) : Bytes
  preamble : List Command
  epilogue : γ → Timespec → γ × List Command

inductive WatchType where
  | logFile | queue
  deriving DecidableEq, Repr

structure Watch (bufsiz : ℕ) (δ : Type) where
  watcher : Watcher bufsiz
  type : WatchType
  time : Timespec
  data : δ

variable {bufsiz : ℕ} {ι γ δ : Type}

def Watch.key (w : Watch bufsiz δ) : Key := w.watcher.key

def Watch.name (P : Plugin ι γ δ) (w : Watch bufsiz δ) : Bytes :=
  P.label w.watcher.watch.dirName w.watcher.watch.fileName

/-- What the `read`s of one call give, and what `process` finds for each line. -/
structure Answers (ι : Type) where
  reads : List Bytes
  input : ℕ → ι

def processLines (P : Plugin ι γ δ) : (ℕ → ι) → List Bytes → δ → Option δ
  | _, [], data => pure data
  | input, line :: lines, data => do
      let data ← P.process (input 0) line data
      processLines P (fun k => input (k + 1)) lines data

/-- `read_log_file`, with the calls of `func->process`. -/
def Watch.readLogFile (P : Plugin ι γ δ) (f : LogFile) (a : Answers ι)
    (w : Watch bufsiz δ) : Option (Watch bufsiz δ) := do
  let (watcher, lines) ← w.watcher.readLogFile f a.reads
  let data ← processLines P a.input lines w.data
  pure { w with watcher := watcher, data := data }

def Watch.reopenLogFile (f : LogFile) (w : Watch bufsiz δ) : Watch bufsiz δ :=
  { w with watcher := w.watcher.reopenLogFile f }

def Watch.processFsEvent (P : Plugin ι γ δ) (event : InotifyEvent) (f : LogFile)
    (a : Answers ι) (w : Watch bufsiz δ) : Option (Watch bufsiz δ) :=
  LogWatch.processFsEvent event w.watcher (do
    let w' ← w.readLogFile P f a
    pure (w'.reopenLogFile f)) w

/-- What the watcher meets at its turn; `failed` is how many of the lines of a
failed print are written. -/
structure Turn (ι : Type) where
  answers : Answers ι
  measured : ι
  reading : Timespec
  failed : Option ℕ

def Watch.collect (P : Plugin ι γ δ) (f : LogFile) (t : Turn ι) (w : Watch bufsiz δ) :
    Option (Watch bufsiz δ) :=
  match w.type with
  | .logFile => w.readLogFile P f t.answers
  | .queue => some { w with data := P.measure t.measured w.data }

/-- Where the program is: in `poll`, in `process_fs_event_queue`, or in the loop
over the watchers, before the `i`-th. -/
inductive Phase where
  | polling
  | draining (timer : Bool)
  | ticking (i : ℕ)
  deriving DecidableEq, Repr

structure System (bufsiz : ℕ) (γ δ : Type) where
  logs : Key → LogFile
  queue : List InotifyEvent
  watches : List (Watch bufsiz δ)
  shared : γ
  run : Bool
  phase : Phase
  stdout : List Command

inductive Step (ι : Type) where
  | append (key : Key) (bytes : Bytes)
  | rotate (key : Key)
  | poll (signal fsEvent timer : Bool)
  | event (answers : ℕ → Answers ι)
  | drained
  | turn (t : Turn ι)
  | finish (reading : Timespec) (failed : Option ℕ)

/-- The body of the loop over the watchers behind `collect`. -/
def report (P : Plugin ι γ δ) (s : System bufsiz γ δ) (i : ℕ) (w : Watch bufsiz δ)
    (t : Turn ι) : System bufsiz γ δ :=
  let (data, shared) := P.postprocess s.shared w.data
  let (lastUpdate, time) := updateTimestamp w.time t.reading
  let (data, out) := P.print (w.name P) data lastUpdate
  match t.failed with
  | none =>
      { s with
        watches := s.watches.set i { w with time := time, data := P.clear data }
        shared := shared
        phase := .ticking (i + 1)
        stdout := s.stdout ++ out }
  | some n =>
      { s with
        watches := s.watches.set i { w with time := time, data := data }
        shared := shared
        run := false
        phase := .ticking s.watches.length
        stdout := s.stdout ++ out.take n }

/-- What follows the loop over the watchers. -/
def conclude (P : Plugin ι γ δ) (s : System bufsiz γ δ) (reading : Timespec)
    (failed : Option ℕ) : System bufsiz γ δ :=
  let (shared, out) := P.epilogue s.shared reading
  match failed with
  | none => { s with shared := shared, phase := .polling, stdout := s.stdout ++ out }
  | some n => { s with run := false, phase := .polling, stdout := s.stdout ++ out.take n }

def exec (P : Plugin ι γ δ) (s : System bufsiz γ δ) : Step ι → Option (System bufsiz γ δ)
  | .append key bytes =>
      some { s with logs := Function.update s.logs key ((s.logs key).append bytes) }
  | .rotate key =>
      some { s with
        logs := Function.update s.logs key (s.logs key).rotate
        queue := s.queue ++ [createEvent key] }
  | .poll signal fsEvent timer =>
      if s.run = true ∧ s.phase = .polling then
        if signal then some { s with run := false }
        else if fsEvent then some { s with phase := .draining timer }
        else if timer then some { s with phase := .ticking 0 }
        else some s
      else none
  | .event answers =>
      match s.phase, s.queue with
      | .draining _, e :: queue => do
          let ws ← forEach
            (fun i w => w.processFsEvent P e (s.logs w.key) (answers i)) 0 s.watches
          pure { s with queue := queue, watches := ws }
      | _, _ => none
  | .drained =>
      match s.phase, s.queue with
      | .draining timer, [] => some { s with phase := if timer then .ticking 0 else .polling }
      | _, _ => none
  | .turn t =>
      match s.phase with
      | .ticking i => do
          let w ← s.watches[i]?
          let w ← w.collect P (s.logs w.key) t
          pure (report P s i w t)
      | _ => none
  | .finish reading failed =>
      match s.phase with
      | .ticking i =>
          if i = s.watches.length then some (conclude P s reading failed) else none
      | _ => none

/-! ### Start -/

/-- The watch is set up at the end of its file. -/
def prepareWatcher (logs : Key → LogFile) (e : DirEntry) (fileName : Bytes) (data : δ) :
    Option (Watch bufsiz δ) := do
  let watchDir ← e.watchDir fileName
  let fd := if e.opens fileName then
    some ⟨0, (logs (watchDir, fileName)).log.current.length⟩ else none
  pure ⟨⟨FileWatch.prepareWatcher bufsiz e.name fileName watchDir fd, []⟩, .logFile, ⟨0, 0⟩, data⟩

/-- The state when the loop begins. `readings i` is the clock for the `i`-th
watcher. -/
def start (P : Plugin ι γ δ) (logs : Key → LogFile) (found : List (Watch bufsiz δ)) (shared : γ)
    (readings : ℕ → Timespec) : System bufsiz γ δ where
  logs := logs
  queue := []
  watches := found.mapIdx fun i w => { w with time := readings i }
  shared := shared
  run := true
  phase := .polling
  stdout := (found.flatMap fun w => P.printHdr (w.name P) w.data) ++ P.preamble

/-! ### What a step can do -/

section Steps
variable {P : Plugin ι γ δ} {s s' : System bufsiz γ δ}

theorem poll_cases {signal fsEvent timer : Bool}
    (h : exec P s (.poll signal fsEvent timer) = some s') :
    s.run = true ∧ s.phase = .polling ∧ ∃ run phase, s' = { s with run := run, phase := phase } ∧
      (run = false → phase = .polling) := by
  simp only [exec, Option.ite_none_right_eq_some] at h
  obtain ⟨⟨hrun, hphase⟩, h⟩ := h
  refine ⟨hrun, hphase, ?_⟩
  cases signal <;> cases fsEvent <;> cases timer <;> cases h
  case false.false.false => exact ⟨s.run, s.phase, rfl, fun _ => hphase⟩
  case false.false.true => exact ⟨s.run, _, rfl, by simp [hrun]⟩
  case false.true.false => exact ⟨s.run, _, rfl, by simp [hrun]⟩
  case false.true.true => exact ⟨s.run, _, rfl, by simp [hrun]⟩
  all_goals exact ⟨false, s.phase, rfl, fun _ => hphase⟩

/-- A tick begins with the first watcher. -/
theorem poll_phase {signal fsEvent timer : Bool} {i : ℕ}
    (h : exec P s (.poll signal fsEvent timer) = some s') (hi : s'.phase = .ticking i) :
    i = 0 := by
  simp only [exec, Option.ite_none_right_eq_some] at h
  obtain ⟨⟨-, hphase⟩, h⟩ := h
  cases signal <;> cases fsEvent <;> cases timer <;> cases h <;> simp_all

theorem event_cases {answers : ℕ → Answers ι} (h : exec P s (.event answers) = some s') :
    ∃ timer e queue ws, s.phase = .draining timer ∧ s.queue = e :: queue ∧
      forEach (fun i w => w.processFsEvent P e (s.logs w.key) (answers i)) 0 s.watches =
        some ws ∧
      s' = { s with queue := queue, watches := ws } := by
  simp only [exec] at h
  split at h
  · rename_i timer e queue hphase hqueue
    simp only [Option.bind_eq_bind, Option.bind_eq_some_iff, Option.pure_def,
      Option.some.injEq] at h
    obtain ⟨ws, hws, rfl⟩ := h
    exact ⟨timer, e, queue, ws, hphase, hqueue, hws, rfl⟩
  · cases h

theorem drained_cases (h : exec P s .drained = some s') :
    ∃ timer, s.phase = .draining timer ∧ s.queue = [] ∧
      s' = { s with phase := if timer then .ticking 0 else .polling } := by
  simp only [exec] at h
  split at h
  · rename_i timer hphase hqueue
    cases h
    exact ⟨timer, hphase, hqueue, rfl⟩
  · cases h

theorem turn_cases {t : Turn ι} (h : exec P s (.turn t) = some s') :
    ∃ i w w', s.phase = .ticking i ∧ s.watches[i]? = some w ∧
      w.collect P (s.logs w.key) t = some w' ∧ s' = report P s i w' t := by
  simp only [exec] at h
  split at h
  · rename_i i hphase
    simp only [Option.bind_eq_bind, Option.bind_eq_some_iff, Option.pure_def,
      Option.some.injEq] at h
    obtain ⟨w, hw, w', hw', rfl⟩ := h
    exact ⟨i, w, w', hphase, hw, hw', rfl⟩
  · cases h

theorem finish_cases {reading : Timespec} {failed : Option ℕ}
    (h : exec P s (.finish reading failed) = some s') :
    s.phase = .ticking s.watches.length ∧ s' = conclude P s reading failed := by
  simp only [exec] at h
  split at h
  · rename_i i hphase
    simp only [Option.ite_none_right_eq_some, Option.some.injEq] at h
    obtain ⟨rfl, rfl⟩ := h
    exact ⟨hphase, rfl⟩
  · cases h

/-- What a turn that reads and prints leads to. -/
theorem report_cases (s : System bufsiz γ δ) (i : ℕ) (w : Watch bufsiz δ) (t : Turn ι) :
    ∃ post data shared time out, P.postprocess s.shared w.data = (post, shared) ∧
      updateTimestamp w.time t.reading = time ∧ P.print (w.name P) post time.1 = (data, out) ∧
      (t.failed = none ∧ report P s i w t = { s with
          watches := s.watches.set i { w with time := time.2, data := P.clear data }
          shared := shared, phase := .ticking (i + 1), stdout := s.stdout ++ out } ∨
        ∃ n, t.failed = some n ∧ report P s i w t = { s with
          watches := s.watches.set i { w with time := time.2, data := data }
          shared := shared, run := false, phase := .ticking s.watches.length
          stdout := s.stdout ++ out.take n }) := by
  refine ⟨_, _, _, _, _, rfl, rfl, rfl, ?_⟩
  unfold report
  cases t.failed with
  | none => exact .inl ⟨rfl, rfl⟩
  | some n => exact .inr ⟨n, rfl, rfl⟩

theorem conclude_cases (s : System bufsiz γ δ) (reading : Timespec) (failed : Option ℕ) :
    ∃ shared out, P.epilogue s.shared reading = (shared, out) ∧
      (failed = none ∧ conclude P s reading failed = { s with
          shared := shared, phase := .polling, stdout := s.stdout ++ out } ∨
        ∃ n, failed = some n ∧ conclude P s reading failed = { s with
          run := false, phase := .polling, stdout := s.stdout ++ out.take n }) := by
  refine ⟨_, _, rfl, ?_⟩
  unfold conclude
  cases failed with
  | none => exact .inl ⟨rfl, rfl⟩
  | some n => exact .inr ⟨n, rfl, rfl⟩

end Steps

/-- The bytes of its log that a watcher has consumed. -/
def Watch.bytes (w : Watch bufsiz δ) : Bytes := w.watcher.bytes

theorem Watch.bytes_eq_nil {w : Watch bufsiz δ} (h : w.watcher.consumed = []) : w.bytes = [] := by
  rw [Watch.bytes, Watcher.bytes, h, List.map_nil]

/-- What a watcher keeps of what it was set up with. -/
def Watch.origin (w : Watch bufsiz δ) : Bytes × Bytes × ℤ × WatchType :=
  (w.watcher.watch.dirName, w.watcher.watch.fileName, w.watcher.watch.watchDir, w.type)

theorem Watch.name_origin (P : Plugin ι γ δ) {w w' : Watch bufsiz δ} (h : w'.origin = w.origin) :
    w'.name P = w.name P := by
  simp only [Watch.origin, Prod.mk.injEq] at h
  rw [Watch.name, Watch.name, h.1, h.2.1]

/-! ### One watcher -/

section Watcher
variable {P : Plugin ι γ δ} {f : LogFile} {a : Answers ι} {w w' : Watch bufsiz δ}

theorem readLogFile_cases (h : w.readLogFile P f a = some w') :
    ∃ watcher lines data, w.watcher.readLogFile f a.reads = some (watcher, lines) ∧
      processLines P a.input lines w.data = some data ∧
      w' = { w with watcher := watcher, data := data } := by
  simp only [Watch.readLogFile, Option.bind_eq_bind, Option.bind_eq_some_iff, Option.pure_def,
    Option.some.injEq] at h
  obtain ⟨⟨watcher, lines⟩, hr, data, hdata, rfl⟩ := h
  exact ⟨watcher, lines, data, hr, hdata, rfl⟩

theorem readLogFile_origin (h : w.readLogFile P f a = some w') :
    w'.origin = w.origin ∧ w'.time = w.time := by
  obtain ⟨watcher, lines, data, hr, -, rfl⟩ := readLogFile_cases h
  obtain ⟨hname, hfile, hdir⟩ := Watcher.readLogFile_source hr
  simp only [Watch.origin, hname, hfile, hdir, and_self]

theorem processFsEvent_cases {e : InotifyEvent} (h : w.processFsEvent P e f a = some w') :
    (¬ e.Matches w.watcher ∧ w' = w) ∨
      (e.Matches w.watcher ∧ ∃ v, w.readLogFile P f a = some v ∧ w' = v.reopenLogFile f) := by
  rcases LogWatch.processFsEvent_cases h with hkeep | ⟨hm, hanswer⟩
  · exact .inl hkeep
  · simp only [Option.bind_eq_bind, Option.bind_eq_some_iff, Option.pure_def,
      Option.some.injEq] at hanswer
    obtain ⟨v, hv, rfl⟩ := hanswer
    exact .inr ⟨hm, v, hv, rfl⟩

theorem processFsEvent_origin {e : InotifyEvent} (h : w.processFsEvent P e f a = some w') :
    w'.origin = w.origin ∧ w'.time = w.time := by
  rcases processFsEvent_cases h with ⟨-, rfl⟩ | ⟨-, v, hv, rfl⟩
  · exact ⟨rfl, rfl⟩
  · have hread := readLogFile_origin hv
    exact hread

/-- What becomes of the watch does not depend on the records. -/
theorem processFsEvent_watcher {e : InotifyEvent} (h : w.processFsEvent P e f a = some w') :
    w.watcher.processFsEvent e f a.reads = some w'.watcher := by
  rcases processFsEvent_cases h with ⟨hm, rfl⟩ | ⟨hm, v, hv, rfl⟩
  · exact processFsEvent_other hm _ _
  · obtain ⟨watcher, lines, data, hr, -, rfl⟩ := readLogFile_cases hv
    rw [Watcher.processFsEvent, processFsEvent_matches hm, hr]
    rfl

theorem collect_origin {t : Turn ι} (h : w.collect P f t = some w') :
    w'.origin = w.origin ∧ w'.time = w.time := by
  unfold Watch.collect at h
  split at h
  · exact readLogFile_origin h
  · cases h
    exact ⟨rfl, rfl⟩

def Followed (w : Watch bufsiz δ) : Prop := w.watcher.Followed

theorem Followed.reopenLogFile (h : Followed w) : Followed (w.reopenLogFile f) :=
  Watcher.Followed.reopenLogFile h

/-- A watch as it is set up. -/
theorem Followed.of_fresh (hn : 0 < bufsiz) (hconsumed : w.watcher.consumed = [])
    (hfresh : Fresh w.watcher.watch) : Followed w := by
  have hbytes := Watch.bytes_eq_nil hconsumed
  rw [Followed, Watcher.Followed, show w.watcher.bytes = [] from hbytes]
  exact hfresh.follows hn

/-- The lines that a watcher reads are those that the bytes add to what it has
seen; they are processed one after the other. -/
theorem readLogFile_followed (hw : Followed w) (h : w.readLogFile P f a = some w') :
    Followed w' ∧ ∃ lines new, List.Forall₂ PointsTo lines new ∧
      seen bufsiz w.bytes ++ new = seen bufsiz w'.bytes ∧
      processLines P a.input lines w.data = some w'.data := by
  obtain ⟨watcher, lines, data, hr, hdata, rfl⟩ := readLogFile_cases h
  obtain ⟨hfollowed, new, hnew, hseen⟩ := Watcher.Followed.readLogFile hw hr
  exact ⟨hfollowed, lines, new, hnew, hseen, hdata⟩

end Watcher

end NetdataPlugins.PluginLoop
