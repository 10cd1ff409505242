import NetdataPlugins.IndexedLoop
import NetdataPlugins.LogWatch
import NetdataPlugins.Runs

/-!
# Log rotation: writers, the inotify queue and the watchers

Any number of logs and any number of watchers. The plugin reads all its watchers
at a tick, and answers events one by one: `process_fs_event_queue` is the
repetition of the step `event` until the queue is empty, so a writer may come in
between two events, but not between the read and the reopening with which one
event is answered. Events arrive in order and are not lost.
-/
namespace NetdataPlugins.LogRotation
open MemoryBlock FileWatch GenerationLog IndexedLoop LogWatch Runs

variable {bufsiz : ℕ}

structure System (bufsiz : ℕ) where
  logs : Key → LogFile
  queue : List InotifyEvent
  watchers : List (Watcher bufsiz)

/-- `answers` gives each watcher what its `read`s give. -/
inductive Step where
  | append (key : Key) (bytes : Bytes)
  | rotate (key : Key)
  | tick (answers : ℕ → List Bytes)
  | event (answers : ℕ → List Bytes)

def exec (s : System bufsiz) : Step → Option (System bufsiz)
  | .append key bytes =>
      some { s with logs := Function.update s.logs key ((s.logs key).append bytes) }
  | .rotate key =>
      some { s with
        logs := Function.update s.logs key (s.logs key).rotate
        queue := s.queue ++ [createEvent key] }
  | .tick answers => do
      let ws ← forEach
        (fun i w => (w.readLogFile (s.logs w.key) (answers i)).map Prod.fst) 0 s.watchers
      pure { s with watchers := ws }
  | .event answers =>
      match s.queue with
      | [] => none
      | e :: queue => do
          let ws ← forEach
            (fun i w => w.processFsEvent e (s.logs w.key) (answers i)) 0 s.watchers
          pure { s with queue := queue, watchers := ws }

/-- All watchers are open at the end of the only file of their log, which has
no byte written since, and no event is queued. -/
structure SetUp (s : System bufsiz) : Prop where
  queue : s.queue = []
  written : ∀ key, (s.logs key).written = []
  past : ∀ key, (s.logs key).log.past = []
  watchers : ∀ w ∈ s.watchers, w.consumed = [] ∧ Fresh w.watch ∧
    w.watch.fd = some ⟨0, (s.logs w.key).log.current.length⟩

/-- An event may be answered: the watch has not passed any bytes over, and the
newest file is not one it has read from. -/
def OrderlyEvents (s : System bufsiz) : Step → Prop
  | .event _ => ∀ e queue, s.queue = e :: queue → ∀ w ∈ s.watchers, e.Matches w →
      ∀ p, w.watch.fd = some p → (s.logs w.key).log.Orderly p
  | _ => True

def Tracked (s : System bufsiz) : Prop := ∀ w ∈ s.watchers, Tracks s.logs s.queue w

theorem SetUp.tracked {s : System bufsiz} (hn : 0 < bufsiz) (h : SetUp s) : Tracked s := by
  intro w hw
  obtain ⟨hconsumed, hfresh, hfd⟩ := h.watchers w hw
  exact Tracks.start hn hconsumed hfresh hfd (h.written _) (h.past _)

/-! ### What a step can do -/

section Steps
variable {s t : System bufsiz} {answers : ℕ → List Bytes}

theorem tick_cases (h : exec s (.tick answers) = some t) :
    ∃ ws, forEach (fun i w => (w.readLogFile (s.logs w.key) (answers i)).map Prod.fst) 0
        s.watchers = some ws ∧ t = { s with watchers := ws } := by
  simp only [exec, Option.bind_eq_bind, Option.bind_eq_some_iff, Option.pure_def,
    Option.some.injEq] at h
  obtain ⟨ws, hws, rfl⟩ := h
  exact ⟨ws, hws, rfl⟩

/-- A watcher after a tick has read its log. -/
theorem tick_watcher (h : exec s (.tick answers) = some t) {w' : Watcher bufsiz}
    (hw' : w' ∈ t.watchers) :
    t.logs = s.logs ∧ t.queue = s.queue ∧ ∃ w ∈ s.watchers, ∃ answers lines,
      w.readLogFile (s.logs w.key) answers = some (w', lines) := by
  obtain ⟨ws, hws, rfl⟩ := tick_cases h
  obtain ⟨w, hw, j, hj⟩ := forEach_mem hws w' hw'
  obtain ⟨⟨v, lines⟩, hv, rfl⟩ := Option.map_eq_some_iff.mp hj
  exact ⟨rfl, rfl, w, hw, _, lines, hv⟩

theorem event_cases (h : exec s (.event answers) = some t) :
    ∃ e queue ws, s.queue = e :: queue ∧
      forEach (fun i w => w.processFsEvent e (s.logs w.key) (answers i)) 0 s.watchers =
        some ws ∧ t = { s with queue := queue, watchers := ws } := by
  cases hqueue : s.queue with
  | nil => simp [exec, hqueue] at h
  | cons e queue =>
      simp only [exec, hqueue, Option.bind_eq_bind, Option.bind_eq_some_iff, Option.pure_def,
        Option.some.injEq] at h
      obtain ⟨ws, hws, rfl⟩ := h
      exact ⟨e, queue, ws, rfl, hws, rfl⟩

end Steps

theorem exec_tracked (s : System bufsiz) (step : Step) (t : System bufsiz) (hs : Tracked s)
    (ho : OrderlyEvents s step) (ht : exec s step = some t) : Tracked t := by
  intro w' hw'
  cases step with
  | append key bytes =>
      cases ht
      exact (hs w' hw').append key bytes
  | rotate key =>
      cases ht
      exact (hs w' hw').rotate key
  | tick answers =>
      obtain ⟨hlogs, hqueue, w, hw, a, lines, hr⟩ := tick_watcher ht hw'
      rw [hlogs, hqueue]
      exact (hs w hw).read hr
  | event answers =>
      obtain ⟨e, queue, ws, hqueue, hws, rfl⟩ := event_cases ht
      obtain ⟨w, hw, j, hj⟩ := forEach_mem hws w' hw'
      exact Tracks.event (hqueue ▸ hs w hw) (ho e queue hqueue w hw) hj

/-- Nothing blocks a tick: every watcher can read what there is for it. -/
theorem tick_enabled {s : System bufsiz} (hs : Tracked s) :
    ∃ answers t, exec s (.tick answers) = some t := by
  have hone (w : Watcher bufsiz) (hw : w ∈ s.watchers) :
      ∃ answers w', (w.readLogFile (s.logs w.key) answers).map Prod.fst = some w' := by
    obtain ⟨answers, w', lines, hr⟩ := (hs w hw).read_enabled
    exact ⟨answers, w', by rw [hr]; rfl⟩
  obtain ⟨answers, ws', hws⟩ := forEach_enabled
    (fun answers (w : Watcher bufsiz) =>
      (w.readLogFile (s.logs w.key) answers).map Prod.fst) hone 0
  exact ⟨answers, _, by simp only [exec, hws]; rfl⟩

/-- Nothing blocks the first event of the queue either. -/
theorem event_enabled {s : System bufsiz} (hs : Tracked s) (hqueue : s.queue ≠ []) :
    ∃ answers t, exec s (.event answers) = some t := by
  obtain ⟨e, queue, he⟩ := List.exists_cons_of_ne_nil hqueue
  have hone (w : Watcher bufsiz) (hw : w ∈ s.watchers) :
      ∃ answers w', w.processFsEvent e (s.logs w.key) answers = some w' :=
    (hs w hw).event_enabled e
  obtain ⟨answers, ws', hws⟩ := forEach_enabled
    (fun answers (w : Watcher bufsiz) => w.processFsEvent e (s.logs w.key) answers) hone 0
  exact ⟨answers, _, by simp only [exec, he, hws]; rfl⟩

/-- With no event left, one tick brings every watcher up to date. -/
theorem tick_complete {s t : System bufsiz} {answers : ℕ → List Bytes} (hs : Tracked s)
    (hqueue : s.queue = []) (ht : exec s (.tick answers) = some t) :
    ∀ w ∈ t.watchers, w.consumed = (t.logs w.key).written := by
  intro w' hw'
  obtain ⟨hlogs, -, w, hw, a, lines, hr⟩ := tick_watcher ht hw'
  rw [hlogs, Watcher.key_readLogFile hr]
  exact Tracks.read_complete (hqueue ▸ hs w hw) hr

/-- In every run whose events find the watches in order, each watcher has
consumed bytes of its log at most once and in writing order. The plugin can
always go on, with the next event and with a tick; and once the queue is empty
and a tick has run, each watcher has consumed all bytes. -/
theorem rotation_loses_nothing (hn : 0 < bufsiz) {s₀ s : System bufsiz} (h₀ : SetUp s₀)
    {steps : List Step} (ho : Along exec OrderlyEvents s₀ steps)
    (hr : run exec s₀ steps = some s) :
    (∀ w ∈ s.watchers, w.consumed.Sublist (s.logs w.key).written ∧ w.consumed.Nodup) ∧
      (s.queue ≠ [] → ∃ answers t, exec s (.event answers) = some t) ∧
      (∃ answers t, exec s (.tick answers) = some t) ∧
      (s.queue = [] → ∀ answers t, exec s (.tick answers) = some t →
        ∀ w ∈ t.watchers, w.consumed = (t.logs w.key).written) := by
  have hs : Tracked s := run_invariant exec_tracked (h₀.tracked hn) ho hr
  refine ⟨fun w hw => ?_, event_enabled hs, tick_enabled hs,
    fun hqueue answers t ht => tick_complete hs hqueue ht⟩
  have hsub := (hs w hw).prefix_written.sublist
  exact ⟨hsub, hsub.nodup (s.logs w.key).written_nodup⟩

/-- One watcher on one log, as it is set up; 8192 is the usual `BUFSIZ`. -/
def oneWatcher : System 8192 where
  logs := fun _ => ⟨⟨[], []⟩, [], rfl⟩
  queue := []
  watchers := [⟨prepareWatcher 8192 [115] [99] 1 (some ⟨0, 0⟩), []⟩]

theorem oneWatcher_setUp : SetUp oneWatcher := by
  refine ⟨rfl, fun _ => rfl, fun _ => rfl, ?_⟩
  intro w hw
  obtain rfl := List.mem_singleton.mp hw
  exact ⟨rfl, prepareWatcher_fresh _ _ _ _ _, rfl⟩

/-- One rotation, answered before the next: byte 97 in the old file, 98 in the new. -/
def oneRotation : List Step :=
  [.append (1, [99]) [97], .rotate (1, [99]), .append (1, [99]) [98], .event fun _ => [[97]]]

theorem oneRotation_orderly : Along exec OrderlyEvents oneWatcher oneRotation := by
  refine ⟨trivial, fun s₁ h₁ => ⟨trivial, fun s₂ h₂ => ⟨trivial, fun s₃ h₃ =>
    ⟨?_, fun _ _ => trivial⟩⟩⟩⟩
  cases h₁
  cases h₂
  cases h₃
  intro e queue _ w hw _ p hp
  obtain rfl := List.mem_singleton.mp hw
  cases hp
  exact .inl ⟨by decide, rfl⟩

theorem rotation_loses_nothing_once :
    ∃ s, run exec oneWatcher oneRotation = some s ∧
      (∀ w ∈ s.watchers, w.consumed.Sublist (s.logs w.key).written ∧ w.consumed.Nodup) ∧
      (s.queue ≠ [] → ∃ answers t, exec s (.event answers) = some t) ∧
      (∃ answers t, exec s (.tick answers) = some t) ∧
      (s.queue = [] → ∀ answers t, exec s (.tick answers) = some t →
        ∀ w ∈ t.watchers, w.consumed = (t.logs w.key).written) := by
  have hrun : (run exec oneWatcher oneRotation).isSome = true := by decide +kernel
  obtain ⟨s, hs⟩ := Option.isSome_iff_exists.mp hrun
  exact ⟨s, hs, rotation_loses_nothing (by decide) oneWatcher_setUp oneRotation_orderly hs⟩

/-- Two rotations before the queue is drained: byte 97 in the file between them,
98 in the newest one. The run ends with an empty queue and a tick. -/
def twoRotations : List Step :=
  [.rotate (1, [99]), .append (1, [99]) [97], .rotate (1, [99]), .append (1, [99]) [98],
    .event fun _ => [], .event fun _ => [[98]], .tick fun _ => [[98]]]

/-- The byte in the file between is passed over, the other one comes twice. -/
theorem rotation_twice_pending :
    SetUp oneWatcher ∧ ∃ s w, run exec oneWatcher twoRotations = some s ∧ s.queue = [] ∧
      w ∈ s.watchers ∧ (s.logs w.key).written = [⟨0, 97⟩, ⟨1, 98⟩] ∧
      w.consumed = [⟨1, 98⟩, ⟨1, 98⟩] ∧ ¬ w.consumed.Sublist (s.logs w.key).written := by
  have h : (run exec oneWatcher twoRotations).map (fun s => (s.queue,
      s.watchers.map fun w => ((s.logs w.key).written, w.consumed))) =
      some ([], [([⟨0, 97⟩, ⟨1, 98⟩], [⟨1, 98⟩, ⟨1, 98⟩])]) := by decide +kernel
  obtain ⟨s, hs, hf⟩ := Option.map_eq_some_iff.mp h
  simp only [Prod.mk.injEq, List.map_eq_singleton_iff] at hf
  obtain ⟨hqueue, w, hw, hwritten, hconsumed⟩ := hf
  refine ⟨oneWatcher_setUp, s, w, hs, hqueue, by simp [hw], hwritten, hconsumed, ?_⟩
  rw [hwritten, hconsumed]
  decide

end NetdataPlugins.LogRotation
