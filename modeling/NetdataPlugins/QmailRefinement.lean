import NetdataPlugins.QmailLoop

/-!
# The two models of qmail.plugin

`QmailPlugin` takes an event or a tick in one step. Here a tick has a step for
each watcher, an event goes to all of them, and the writers come in between. As
long as no print fails, every run of the small steps is explained by a run of
the large ones: between ticks the two states agree, and in a tick the small one
has come as far as the watchers that had their turn.
-/
namespace NetdataPlugins.QmailRefinement
open MemoryBlock CString Netdata Timer FileWatch IndexedLoop LogWatch Runs Smtp QmailLoop PluginLoop
open QmailPlugin (Data Line dirData dirWatches turns after)
open LogDirectory (DirEntry)

variable {bufsiz : ℕ}

/-- A watcher without its file. -/
def view (w : Watch bufsiz Data) : QmailPlugin.Watch :=
  ⟨w.watcher.watch.dirName, w.time, w.data⟩

def viewAll (s : System bufsiz Shared Data) : QmailPlugin.System :=
  ⟨s.watches.map view, s.shared.aggregated, s.shared.ratelimitsppTime, s.stdout⟩

/-- The first `i` watchers had their turn in a tick that began in `a`. -/
def inTick (a : QmailPlugin.System) (i : ℕ) (t : ℕ → QmailPlugin.Turn) : QmailPlugin.System :=
  let r := turns a.aggregated (a.watches.take i) t
  ⟨r.1 ++ a.watches.drop i, r.2.1, a.ratelimitsppTime, a.stdout ++ r.2.2⟩

def Explains (a : QmailPlugin.System) (s : System bufsiz Shared Data) : Prop :=
  match s.phase with
  | .ticking i => ∃ t, viewAll s = inTick a i t
  | _ => viewAll s = a

/-- Only the watcher of the queue has the type of a queue. -/
def Typed (s : System bufsiz Shared Data) : Prop :=
  ∀ w ∈ s.watches, w.type = .queue ↔ func w.data = .queue

/-- Every print of the step succeeds. -/
def Written : Step Input → Prop
  | .turn t => t.failed = none
  | .finish _ failed => failed = none
  | _ => True

theorem Typed.of_signature {s s' : System bufsiz Shared Data} (h : Typed s)
    (hsame : s'.watches.map interface.signature = s.watches.map interface.signature) :
    Typed s' := by
  intro w hw
  have hmem : interface.signature w ∈ s.watches.map interface.signature :=
    hsame ▸ List.mem_map_of_mem hw
  obtain ⟨u, hu, hsig⟩ := List.mem_map.mp hmem
  have htyped := h u hu
  have horigin : u.origin = w.origin := congrArg Prod.fst hsig
  have htype : u.type = w.type := congrArg (fun o => o.2.2.2) horigin
  have hfunc : func u.data = func w.data := congrArg Prod.snd hsig
  rwa [htype, hfunc] at htyped

/-! ### Turns -/

theorem turns_concat (aggregated : Aggregated) (ws : List QmailPlugin.Watch)
    (w : QmailPlugin.Watch) (t : ℕ → QmailPlugin.Turn) :
    turns aggregated (ws ++ [w]) t =
      let r := turns aggregated ws t
      let q := QmailPlugin.turn r.2.1 w (t ws.length)
      (r.1 ++ [q.1], q.2.1, r.2.2 ++ q.2.2) := by
  induction ws generalizing aggregated t with
  | nil => simp [turns]
  | cons v ws ih => simp [turns, ih]

theorem turns_congr {aggregated : Aggregated} {ws : List QmailPlugin.Watch}
    {t t' : ℕ → QmailPlugin.Turn} (h : ∀ j < ws.length, t j = t' j) :
    turns aggregated ws t = turns aggregated ws t' := by
  induction ws generalizing aggregated t t' with
  | nil => rfl
  | cons w ws ih =>
      have hrest (aggregated : Aggregated) :
          turns aggregated ws (fun i => t (i + 1)) = turns aggregated ws fun i => t' (i + 1) :=
        ih fun j hj => h (j + 1) (Nat.succ_lt_succ hj)
      simp only [turns, h 0 (Nat.succ_pos _), hrest]

theorem turns_length (aggregated : Aggregated) (ws : List QmailPlugin.Watch)
    (t : ℕ → QmailPlugin.Turn) : (turns aggregated ws t).1.length = ws.length := by
  induction ws generalizing aggregated t with
  | nil => rfl
  | cons w ws ih => simp [turns, ih]

theorem inTick_zero (a : QmailPlugin.System) (t : ℕ → QmailPlugin.Turn) : inTick a 0 t = a := by
  simp [inTick, turns]

theorem inTick_getElem? (a : QmailPlugin.System) (i : ℕ) (t : ℕ → QmailPlugin.Turn) :
    (inTick a i t).watches[i]? = a.watches[i]? := by
  have hlen := turns_length a.aggregated (a.watches.take i) t
  rw [List.length_take] at hlen
  rw [inTick, List.getElem?_append_right (by omega), List.getElem?_drop, hlen]
  by_cases hi : i ≤ a.watches.length
  · rw [min_eq_left hi, Nat.sub_self, Nat.add_zero]
  · rw [List.getElem?_eq_none (by omega), List.getElem?_eq_none (by omega)]

theorem inTick_length (a : QmailPlugin.System) (i : ℕ) (t : ℕ → QmailPlugin.Turn) :
    (inTick a i t).watches.length = a.watches.length := by
  simp only [inTick, List.length_append, turns_length, List.length_take, List.length_drop]
  omega

/-- The next watcher has its turn. -/
theorem inTick_succ {a : QmailPlugin.System} {i : ℕ} {w : QmailPlugin.Watch}
    (hw : a.watches[i]? = some w) (t : ℕ → QmailPlugin.Turn) (now : QmailPlugin.Turn) :
    inTick a (i + 1) (Function.update t i now) =
      let q := QmailPlugin.turn (inTick a i t).aggregated w now
      ⟨(inTick a i t).watches.set i q.1, q.2.1, a.ratelimitsppTime,
        (inTick a i t).stdout ++ q.2.2⟩ := by
  obtain ⟨hi, hget⟩ := List.getElem?_eq_some_iff.mp hw
  have htake : a.watches.take (i + 1) = a.watches.take i ++ [w] := by
    rw [← hget, List.take_append_getElem]
  have hlen : (a.watches.take i).length = i := List.length_take_of_le hi.le
  have hsame (aggregated : Aggregated) : turns aggregated (a.watches.take i)
      (Function.update t i now) = turns aggregated (a.watches.take i) t :=
    turns_congr fun j hj => Function.update_of_ne (by omega) _ _
  have hdrop : a.watches.drop i = w :: a.watches.drop (i + 1) := by
    rw [← hget, List.drop_eq_getElem_cons hi]
  have hlen' := turns_length a.aggregated (a.watches.take i) t
  simp only [inTick, htake, turns_concat, hsame, hlen, Function.update_self, hdrop,
    List.append_assoc]
  congr 1
  rw [List.set_append_right _ _ (by omega), hlen', hlen, Nat.sub_self]
  rfl

/-! ### What a watcher does -/

section Watcher
variable {f : LogFile} {w w' : Watch bufsiz Data}

theorem processLines_foldl {input : ℕ → Input} {lines : List Bytes} {d d' : Data}
    (h : PluginLoop.processLines qmailPlugin input lines d = some d') :
    ∃ ls : List Line, d' = ls.foldl (fun data line => data.process line) d := by
  induction lines generalizing input d with
  | nil =>
      cases h
      exact ⟨[], rfl⟩
  | cons mem lines ih =>
      simp only [PluginLoop.processLines, Option.bind_eq_bind, Option.bind_eq_some_iff] at h
      obtain ⟨d₁, h₁, h⟩ := h
      obtain rfl := Option.some.inj h₁
      obtain ⟨ls, rfl⟩ := ih h
      exact ⟨⟨cstr mem, (input 0).junk⟩ :: ls, rfl⟩

theorem read_view {a : Answers Input} (h : w.readLogFile qmailPlugin f a = some w') :
    ∃ lines, view w' = (view w).readLines lines := by
  obtain ⟨watcher, mems, data, hr, hdata, rfl⟩ := PluginLoop.readLogFile_cases h
  obtain ⟨lines, hlines⟩ := processLines_foldl hdata
  have hdir := (Watcher.readLogFile_source hr).1
  exact ⟨lines, by simp only [view, QmailPlugin.Watch.readLines, hdir, hlines]⟩

theorem event_view {e : InotifyEvent} {a : Answers Input}
    (h : w.processFsEvent qmailPlugin e f a = some w') :
    ∃ lines, view w' = (view w).readLines lines := by
  rcases PluginLoop.processFsEvent_cases h with ⟨-, rfl⟩ | ⟨-, v, hv, rfl⟩
  · exact ⟨[], rfl⟩
  · have hread := read_view hv
    exact hread

/-- What a watcher collects at its turn, a log its lines and the queue its
measures. -/
theorem collect_view {t : Turn Input} (htyped : w.type = .queue ↔ func w.data = .queue)
    (h : w.collect qmailPlugin f t = some w') :
    ∃ lines measured, view w' = { view w with data := w.data.collect lines measured } := by
  unfold Watch.collect at h
  split at h
  · rename_i htype
    obtain ⟨lines, hlines⟩ := read_view h
    refine ⟨lines, ⟨0, 0⟩, ?_⟩
    have hqueue : func w.data ≠ .queue := fun hq => by simp [htyped.mpr hq] at htype
    rw [hlines, QmailPlugin.Watch.readLines]
    cases hdata : w.data with
    | queue data => exact absurd (by rw [hdata]; rfl) hqueue
    | send data => simp only [view, hdata]; rfl
    | smtp data => simp only [view, hdata]; rfl
  · rename_i htype
    cases h
    refine ⟨[], t.measured.measured, ?_⟩
    have hqueue := htyped.mp htype
    cases hdata : w.data with
    | queue data => simp only [view, hdata]; rfl
    | send data => simp [hdata, func] at hqueue
    | smtp data => simp [hdata, func] at hqueue

end Watcher

/-- An event for all watchers is one for each of them. -/
theorem events_explained {body : ℕ → Watch bufsiz Data → Option (Watch bufsiz Data)}
    (hbody : ∀ j w w', body j w = some w' → ∃ lines, view w' = (view w).readLines lines)
    {k : ℕ} {ws ws' : List (Watch bufsiz Data)} (h : forEach body k ws = some ws')
    (done : List QmailPlugin.Watch) (a : QmailPlugin.System)
    (ha : a.watches = done ++ ws.map view) :
    ∃ ops, after a ops = { a with watches := done ++ ws'.map view } := by
  induction ws generalizing k ws' done a with
  | nil =>
      cases h
      exact ⟨[], by rw [← ha]; rfl⟩
  | cons w ws ih =>
      obtain ⟨w', vs, hw', hvs, rfl⟩ := forEach_cons h
      obtain ⟨lines, hlines⟩ := hbody k w w' hw'
      have hstep : QmailPlugin.step a (.event done.length lines) =
          { a with watches := (done ++ [view w']) ++ ws.map view } := by
        simp [QmailPlugin.step, ha, List.modify_eq_take_drop, hlines]
      obtain ⟨ops, hops⟩ := ih hvs (done ++ [view w']) (QmailPlugin.step a _) (by rw [hstep])
      refine ⟨.event done.length lines :: ops, ?_⟩
      have hcons : after a (.event done.length lines :: ops) =
          after (QmailPlugin.step a (.event done.length lines)) ops := rfl
      rw [hcons, hops, hstep]
      simp

/-! ### Steps -/

/-- A state that a run of the large steps explains. -/
structure Refined (a₀ : QmailPlugin.System) (s : System bufsiz Shared Data) : Prop where
  typed : Typed s
  explained : ∃ ops, Explains (after a₀ ops) s

section Steps
variable {a₀ : QmailPlugin.System} {s s' : System bufsiz Shared Data}

/-- A step that changes neither the watchers nor the output. -/
theorem Refined.control {phase : Phase} (h : Refined a₀ s) (run : Bool)
    (hbefore : ∀ i, s.phase ≠ .ticking i) (hafter : ∀ i, phase = .ticking i → i = 0) :
    Refined a₀ { s with run := run, phase := phase } := by
  obtain ⟨ops, hops⟩ := h.explained
  have hview : viewAll s = after a₀ ops := by
    unfold Explains at hops
    split at hops
    · rename_i i hphase
      exact absurd hphase (hbefore i)
    · exact hops
  refine ⟨h.typed, ops, ?_⟩
  unfold Explains
  split
  · rename_i i hphase
    obtain rfl := hafter i hphase
    exact ⟨fun _ => ⟨[], ⟨0, 0⟩, ⟨0, 0⟩⟩, by rw [inTick_zero]; exact hview⟩
  · exact hview

theorem Refined.event {answers : ℕ → Answers Input} (h : Refined a₀ s)
    (hs : exec qmailPlugin s (.event answers) = some s') : Refined a₀ s' := by
  have htyped := h.typed.of_signature (exec_signature interface hs)
  obtain ⟨timer, e, queue, ws, hphase, -, hws, rfl⟩ := event_cases hs
  obtain ⟨ops, hops⟩ := h.explained
  simp only [Explains, hphase] at hops
  obtain ⟨more, hmore⟩ := events_explained (fun i w w' hw => event_view hw) hws []
    (after a₀ ops) (by rw [← hops]; rfl)
  refine ⟨htyped, ops ++ more, ?_⟩
  have happend : after a₀ (ops ++ more) = after (after a₀ ops) more := by
    simp [after, List.foldl_append]
  rw [← hops] at happend hmore
  simp only [Explains, hphase, happend, hmore]
  rfl

theorem Refined.turn {t : Turn Input} (h : Refined a₀ s) (hok : t.failed = none)
    (hs : exec qmailPlugin s (.turn t) = some s') : Refined a₀ s' := by
  have htyped := h.typed.of_signature (exec_signature interface hs)
  obtain ⟨i, w, v, hphase, hw, hv, rfl⟩ := turn_cases hs
  obtain ⟨ops, hops⟩ := h.explained
  simp only [Explains, hphase] at hops
  obtain ⟨turns, hturns⟩ := hops
  obtain ⟨lines, measured, hview⟩ := collect_view (h.typed w (List.mem_of_getElem? hw)) hv
  simp only [view, QmailPlugin.Watch.mk.injEq] at hview
  obtain ⟨hdir, htime, hdata⟩ := hview
  have hget : (after a₀ ops).watches[i]? = some (view w) := by
    rw [← inTick_getElem? (after a₀ ops) i turns, ← hturns, viewAll, List.getElem?_map, hw]
    rfl
  have hclock : (after a₀ ops).ratelimitsppTime = s.shared.ratelimitsppTime :=
    (congrArg QmailPlugin.System.ratelimitsppTime hturns).symm
  refine ⟨htyped, ops, ?_⟩
  have hnext := inTick_succ hget turns ⟨lines, measured, t.reading⟩
  rw [← hturns, hclock] at hnext
  simp only [report, hok, Explains]
  refine ⟨Function.update turns i ⟨lines, measured, t.reading⟩, ?_⟩
  rw [hnext]
  simp only [viewAll, view, List.map_set, QmailPlugin.turn, ← hdata, ← htime, ← hdir]
  rfl

theorem Refined.finish {reading : Timespec} {failed : Option ℕ} (h : Refined a₀ s)
    (hok : failed = none) (hs : exec qmailPlugin s (.finish reading failed) = some s') :
    Refined a₀ s' := by
  have htyped := h.typed.of_signature (exec_signature interface hs)
  obtain ⟨hphase, rfl⟩ := finish_cases hs
  obtain ⟨ops, hops⟩ := h.explained
  simp only [Explains, hphase] at hops
  obtain ⟨turns, hturns⟩ := hops
  refine ⟨htyped, ops ++ [.tick turns reading], ?_⟩
  have hlen : (after a₀ ops).watches.length ≤ s.watches.length := by
    have heq := congrArg (fun a => a.watches.length) hturns
    simp only [viewAll, List.length_map, inTick_length] at heq
    exact heq.ge
  rw [QmailPlugin.after_concat]
  simp only [conclude, hok, Explains]
  rw [inTick, List.take_of_length_le hlen, List.drop_eq_nil_of_le hlen, List.append_nil] at hturns
  simp only [viewAll, QmailPlugin.System.mk.injEq] at hturns
  obtain ⟨hwatches, haggregated, hclock, hstdout⟩ := hturns
  simp only [QmailPlugin.step, QmailPlugin.tick, viewAll, hwatches, ← haggregated, ← hclock,
    hstdout, List.append_assoc]
  rfl

theorem exec_refined (s : System bufsiz Shared Data) (a : Step Input)
    (s' : System bufsiz Shared Data) (h : Refined a₀ s) (hok : Written a)
    (hs : exec qmailPlugin s a = some s') : Refined a₀ s' := by
  cases a with
  | append key bytes =>
      cases hs
      exact ⟨h.typed, h.explained⟩
  | rotate key =>
      cases hs
      exact ⟨h.typed, h.explained⟩
  | poll signal fsEvent timer =>
      have hzero := fun i => poll_phase (i := i) hs
      obtain ⟨-, hphase, run, phase, rfl, -⟩ := poll_cases hs
      exact h.control run (fun i hi => by simp [hphase] at hi) hzero
  | event answers => exact h.event hs
  | drained =>
      obtain ⟨timer, hphase, -, rfl⟩ := drained_cases hs
      have hzero : ∀ i, (if timer then .ticking 0 else .polling) = Phase.ticking i → i = 0 := by
        intro i hi
        cases timer <;> cases hi
        rfl
      exact h.control s.run (fun i hi => by simp [hphase] at hi) hzero
  | turn t => exact h.turn hok hs
  | finish reading failed => exact h.finish hok hs

end Steps

/-! ### Runs -/

section Start
variable {logs : Key → LogFile} {entries : List DirEntry} {hasQueue : Bool}
  {readings : ℕ → Timespec} {ratelimitsppTime : Timespec}

theorem prepareWatcher_view (e : DirEntry) (fileName : Bytes) (data : Data) :
    (prepareWatcher logs e fileName data : Option (Watch bufsiz Data)).map
        (fun w => (w.watcher.watch.dirName, w.data)) =
      QmailPlugin.prepareWatcher e fileName data := by
  cases h : e.watchDir fileName <;>
    simp [PluginLoop.prepareWatcher, FileWatch.prepareWatcher, QmailPlugin.prepareWatcher, h]

/-- Both find the same directories. -/
theorem found_view :
    ((found bufsiz logs entries hasQueue).map fun w => (w.watcher.watch.dirName, w.data)) =
      QmailPlugin.detectLogDirs entries ++ QmailPlugin.appendQueueWatcher hasQueue := by
  have hone : (fun e => (dirWatches (prepareWatcher logs) e : List (Watch bufsiz Data)).map
      fun w => (w.watcher.watch.dirName, w.data)) = dirWatches QmailPlugin.prepareWatcher := by
    funext e
    unfold dirWatches
    cases dirData e.name with
    | none => rfl
    | some data =>
        have hview : (prepareWatcher logs e (lit "current") data : Option (Watch bufsiz Data)).map
            (fun w => (w.watcher.watch.dirName, w.data)) = _ := prepareWatcher_view e _ data
        rw [Option.bind_some, Option.bind_some, ← hview]
        cases (prepareWatcher logs e (lit "current") data : Option (Watch bufsiz Data)) <;> rfl
  rw [found, List.map_append, detectLogDirs, LogDirectory.map_detectLogDirs, hone]
  cases hasQueue <;> rfl

theorem start_view :
    viewAll (main bufsiz logs entries hasQueue readings ratelimitsppTime) =
      QmailPlugin.start entries hasQueue readings ratelimitsppTime := by
  have hwatches : (main bufsiz logs entries hasQueue readings ratelimitsppTime).watches.map view =
      ((found bufsiz logs entries hasQueue).map fun w =>
        (w.watcher.watch.dirName, w.data)).mapIdx fun i w => ⟨w.1, readings i, w.2⟩ := by
    apply List.ext_getElem?
    intro i
    rw [List.getElem?_map, main, start_getElem?, List.getElem?_mapIdx, List.getElem?_map,
      Option.map_map, Option.map_map]
    rfl
  have hstdout : (main bufsiz logs entries hasQueue readings ratelimitsppTime).stdout =
      (((found bufsiz logs entries hasQueue).map fun w =>
        (w.watcher.watch.dirName, w.data)).flatMap fun w => w.2.printHdr w.1) ++
          ratelimitsppPrintHdr := by
    rw [List.flatMap_map]
    rfl
  rw [viewAll, hwatches, hstdout, found_view]
  rfl

theorem start_typed : Typed (main bufsiz logs entries hasQueue readings ratelimitsppTime) := by
  intro w hw
  obtain ⟨i, hi, rfl⟩ := List.mem_mapIdx.mp hw
  rcases List.mem_append.mp (List.getElem_mem hi) with h | h
  · obtain ⟨e, -, data, hdata, hprep⟩ := mem_detectLogDirs h
    have hfunc : func (found bufsiz logs entries hasQueue)[i].data ≠ .queue :=
      hprep.data ▸ (dirData_ids hdata).1
    exact ⟨fun hq => absurd (hprep.type.symm.trans hq) (by decide), fun hq => absurd hq hfunc⟩
  · obtain ⟨htype, hfunc, -⟩ := mem_appendQueueWatcher h
    exact ⟨fun _ => hfunc, fun _ => htype⟩

/-- Every run in which no print fails is one of the large steps: between ticks
the state is reached by events and ticks, and in a tick it is one of these with a
part of the watchers' turns. -/
theorem loop_refines {steps : List (Step Input)} {s : System bufsiz Shared Data}
    (hok : ∀ a ∈ steps, Written a)
    (hr : run (exec qmailPlugin) (main bufsiz logs entries hasQueue readings ratelimitsppTime)
      steps = some s) :
    ∃ ops, Explains (after
      (QmailPlugin.start entries hasQueue readings ratelimitsppTime) ops) s := by
  have hstart : Refined
      (QmailPlugin.start entries hasQueue readings ratelimitsppTime)
      (main bufsiz logs entries hasQueue readings ratelimitsppTime) :=
    ⟨start_typed, [], start_view⟩
  exact (run_invariant exec_refined hstart (along_of_mem (fun a ha _ => hok a ha) _) hr).explained

end Start

/-- A line, and a tick that reports it. -/
def oneTick : List (Step Input) :=
  [.append (1, lit "current") ended, .poll false false true,
    .turn ⟨⟨[ended], fun _ => ⟨0, ⟨0, 0⟩⟩⟩, ⟨0, ⟨0, 0⟩⟩, ⟨1, 0⟩, none⟩, .finish ⟨1, 0⟩ none]

theorem loop_refines_oneTick :
    ∃ s, run (exec qmailPlugin) oneDirectoryStart oneTick = some s ∧
      ∃ ops, Explains (after
        (QmailPlugin.start (oneDirectory) false (fun _ => ⟨0, 0⟩) ⟨0, 0⟩) ops) s := by
  have hrun : (run (exec qmailPlugin) oneDirectoryStart oneTick).isSome = true := by
    decide
  obtain ⟨s, hs⟩ := Option.isSome_iff_exists.mp hrun
  exact ⟨s, hs, loop_refines (by simp [oneTick, Written]) hs⟩

end NetdataPlugins.QmailRefinement
