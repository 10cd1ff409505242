import NetdataPlugins.PluginAccounting

/-!
# Runs of a main loop

Whatever the writers, the other watchers and the clock do, the balance of a
series of a watcher holds in every state of a run in which the watcher finds its
log in order. A turn that is taken with no event queued brings it up to date.
-/
namespace NetdataPlugins.PluginLoop
open MemoryBlock Netdata Timer FileWatch IndexedLoop LogWatch Runs
open LogDirectory (DirEntry)

variable {bufsiz : ℕ} {ι γ δ κ : Type}

section Runs
variable {P : Plugin ι γ δ} {L : Interface P κ} (S : Series L)

/-- The `i`-th watcher finds its log in order when it answers an event. -/
def OrderlyAt (i : ℕ) (s : System bufsiz γ δ) : Step ι → Prop
  | .event _ => ∀ e queue, s.queue = e :: queue → ∀ w, s.watches[i]? = some w →
      e.Matches w.watcher → ∀ p, w.watcher.watch.fd = some p →
        (s.logs w.key).log.Orderly p
  | _ => True

/-- The chart of the series belongs to the `i`-th watcher alone. -/
def Alone (name : Bytes) (i : ℕ) (s : System bufsiz γ δ) : Prop :=
  S.chart name ∉ L.epilogueCharts ∧
    ∀ j v, s.watches[j]? = some v → j ≠ i → S.chart name ∉ L.charts (v.name P) (L.kind v.data)

structure Accounted (name : Bytes) (i : ℕ) (s : System bufsiz γ δ) (w : Watch bufsiz δ) :
    Prop where
  at_place : s.watches[i]? = some w
  log : w.type = .logFile
  name_eq : w.name P = name
  valid : S.Valid w.data
  tracks : Tracks s.logs s.queue w.watcher
  balanced : S.Balanced name s.stdout s.run w

structure Invariant (name : Bytes) (i : ℕ) (s : System bufsiz γ δ) : Prop where
  stopping : s.run = false → s.phase = .polling ∨ s.phase = .ticking s.watches.length
  alone : Alone S name i s
  accounted : ∃ w, Accounted S name i s w

variable {S} {name : Bytes} {i : ℕ} {s s' : System bufsiz γ δ}

theorem Alone.of_signature (h : Alone S name i s)
    (hsame : s'.watches.map L.signature = s.watches.map L.signature) : Alone S name i s' := by
  refine ⟨h.1, fun j v hv hj => ?_⟩
  have hget : (s.watches.map L.signature)[j]? = some (L.signature v) := by
    rw [← hsame, List.getElem?_map, hv]
    rfl
  rw [List.getElem?_map, Option.map_eq_some_iff] at hget
  obtain ⟨u, hu, hsig⟩ := hget
  rw [Interface.signature, Interface.signature, Prod.mk.injEq] at hsig
  rw [← hsig.2, ← Watch.name_origin P hsig.1]
  exact h.2 j u hu hj

theorem Invariant.append {key : Key} {bytes : Bytes} (h : Invariant S name i s) :
    Invariant S name i
      { s with logs := Function.update s.logs key ((s.logs key).append bytes) } := by
  obtain ⟨w, hw⟩ := h.accounted
  exact ⟨h.stopping, h.alone, w, hw.at_place, hw.log, hw.name_eq, hw.valid,
    hw.tracks.append key bytes, hw.balanced⟩

theorem Invariant.rotate {key : Key} (h : Invariant S name i s) :
    Invariant S name i { s with
      logs := Function.update s.logs key (s.logs key).rotate
      queue := s.queue ++ [createEvent key] } := by
  obtain ⟨w, hw⟩ := h.accounted
  exact ⟨h.stopping, h.alone, w, hw.at_place, hw.log, hw.name_eq, hw.valid,
    hw.tracks.rotate key, hw.balanced⟩

theorem Invariant.event {answers : ℕ → Answers ι} (h : Invariant S name i s)
    (ho : OrderlyAt i s (.event answers)) (hs : exec P s (.event answers) = some s') :
    Invariant S name i s' := by
  have hsame := exec_signature L hs
  obtain ⟨timer, e, queue, ws, hphase, hqueue, hws, rfl⟩ := event_cases hs
  obtain ⟨w, hw⟩ := h.accounted
  have hrun : s.run = true := by
    by_contra hstop
    rcases h.stopping (by simpa using hstop) with hp | hp <;> simp [hphase] at hp
  obtain ⟨hlen, hall⟩ := forEach_getElem? hws
  obtain ⟨w', hw', hplace⟩ := hall i w hw.at_place
  have horigin := (processFsEvent_origin hw').1
  have hbalanced := hw.balanced
  rw [hrun] at hbalanced
  have hread : S.Valid w'.data ∧ S.Balanced name s.stdout true w' := by
    rcases processFsEvent_cases hw' with ⟨-, rfl⟩ | ⟨-, v, hv, rfl⟩
    · exact ⟨hw.valid, hbalanced⟩
    · obtain ⟨hvalid, hread⟩ := hbalanced.read hw.valid hw.tracks.followed hv
      exact ⟨hvalid, hread.pending, hread.at_most, hread.exact⟩
  have htracks : Tracks s.logs queue w'.watcher :=
    Tracks.event (hqueue ▸ hw.tracks) (ho e queue hqueue w hw.at_place)
      (processFsEvent_watcher hw')
  refine ⟨fun hstop => absurd hstop (by simp [hrun]), h.alone.of_signature hsame, w', hplace,
    by rw [← hw.log]; exact congrArg (fun o => o.2.2.2) horigin,
    (Watch.name_origin P horigin).trans hw.name_eq, hread.1, htracks, ?_⟩
  rw [hrun]
  exact hread.2

theorem Invariant.run_turn {t : Turn ι} (h : Invariant S name i s)
    (hs : exec P s (.turn t) = some s') : s.run = true := by
  obtain ⟨j, v, v', hphase, hv, -, -⟩ := turn_cases hs
  by_contra hstop
  rcases h.stopping (by simpa using hstop) with hp | hp
  · simp [hphase] at hp
  · rw [hphase, Phase.ticking.injEq] at hp
    simp [hp] at hv

theorem collect_log {f : LogFile} {t : Turn ι} {w : Watch bufsiz δ} (h : w.type = .logFile) :
    w.collect P f t = w.readLogFile P f t.answers := by
  unfold Watch.collect
  rw [h]

/-- The turn of the watcher itself. -/
theorem Accounted.turn {t : Turn ι} {w w' : Watch bufsiz δ} (h : Accounted S name i s w)
    (hrun : s.run = true) (hw' : w.collect P (s.logs w.key) t = some w') :
    ∃ v, Accounted S name i (report P s i w' t) v ∧ v.watcher = w'.watcher ∧
      (t.failed = none → S.meter v.data = 0) := by
  have horigin := (collect_origin hw').1
  have hname := (Watch.name_origin P horigin).trans h.name_eq
  have hlog : w'.type = .logFile := by
    rw [← h.log]
    exact congrArg (fun o => o.2.2.2) horigin
  rw [collect_log h.log] at hw'
  have hbalanced := h.balanced
  rw [hrun] at hbalanced
  obtain ⟨hvalid, hbalanced⟩ := hbalanced.read h.valid h.tracks.followed hw'
  have htracks : Tracks s.logs s.queue w'.watcher := by
    obtain ⟨watcher, lines, data, hr, -, rfl⟩ := readLogFile_cases hw'
    exact h.tracks.read hr
  have hplace (v : Watch bufsiz δ) : (s.watches.set i v)[i]? = some v := by
    obtain ⟨hi, -⟩ := List.getElem?_eq_some_iff.mp h.at_place
    exact List.getElem?_set_self hi
  obtain ⟨post, data, shared, time, out, hpost, -, hprint, hs⟩ := report_cases (P := P) s i w' t
  have hpost' : (P.postprocess s.shared w'.data).1 = post := by rw [hpost]
  rw [hname] at hprint
  rcases hs with ⟨hok, hs⟩ | ⟨n, hfail, hs⟩
  · obtain ⟨hclear, hout⟩ := hbalanced.print hvalid hpost' hprint time.2
    refine ⟨{ w' with time := time.2, data := P.clear data }, ?_, rfl, fun _ => ?_⟩
    · rw [hs]
      refine ⟨hplace _, hlog, hname, hclear, htracks, ?_⟩
      rw [hrun]
      exact hout
    · obtain ⟨hvalidPost, -⟩ := S.postprocess s.shared _ hvalid
      rw [hpost'] at hvalidPost
      obtain ⟨hvalidData, -, -⟩ := S.print name post time.1 hvalidPost
      rw [hprint] at hvalidData
      exact (S.clear _ hvalidData).2
  · obtain ⟨hvalid', hout⟩ := hbalanced.print_cut hvalid hpost' hprint time.2 n
    refine ⟨{ w' with time := time.2, data := data }, ?_, rfl, fun hok => by simp [hfail] at hok⟩
    rw [hs]
    exact ⟨hplace _, hlog, hname, hvalid', htracks, hout⟩

/-- The turn of another watcher. -/
theorem Accounted.turn_other {t : Turn ι} {w u v : Watch bufsiz δ} {j : ℕ}
    (h : Accounted S name i s w) (hrun : s.run = true) (halone : Alone S name i s)
    (hj : s.watches[j]? = some u) (hne : j ≠ i) (hv : u.collect P (s.logs u.key) t = some v) :
    Accounted S name i (report P s j v t) w := by
  have hbalanced := h.balanced
  rw [hrun] at hbalanced
  obtain ⟨post, data, shared, time, out, hpost, -, hprint, hs⟩ := report_cases (P := P) s j v t
  have hout : (P.print (v.name P) post time.1).2 = out := by rw [hprint]
  have hquiet : S.chart name ∉ begun out := by
    intro hmem
    apply halone.2 j u hj hne
    have hkind : L.kind post = L.kind u.data := by
      rw [← L.kind_collect hv, ← L.kind_postprocess s.shared v.data, hpost]
    rw [← hkind, ← Watch.name_origin P (collect_origin hv).1]
    exact L.begun_print _ _ time.1 _ (by rwa [hout])
  have hplace (x : Watch bufsiz δ) : (s.watches.set j x)[i]? = some w := by
    rw [List.getElem?_set_ne hne]
    exact h.at_place
  rcases hs with ⟨-, hs⟩ | ⟨n, -, hs⟩
  · rw [hs]
    refine ⟨hplace _, h.log, h.name_eq, h.valid, h.tracks, ?_⟩
    rw [hrun]
    exact hbalanced.quiet (hout ▸ L.print_closed _ _ _) hquiet
  · rw [hs]
    exact ⟨hplace _, h.log, h.name_eq, h.valid, h.tracks, hbalanced.cut hquiet n⟩

theorem Invariant.turn {t : Turn ι} (h : Invariant S name i s)
    (hs : exec P s (.turn t) = some s') : Invariant S name i s' := by
  have hsame := exec_signature L hs
  have hrun := h.run_turn hs
  obtain ⟨j, u, v, hphase, hu, hv, rfl⟩ := turn_cases hs
  obtain ⟨w, hw⟩ := h.accounted
  refine ⟨fun hstop => ?_, h.alone.of_signature hsame, ?_⟩
  · obtain ⟨post, data, shared, time, out, -, -, -, ⟨-, hr⟩ | ⟨n, -, hr⟩⟩ :=
      report_cases (P := P) s j v t
    · rw [hr] at hstop
      exact absurd (hrun.symm.trans hstop) (by simp)
    · rw [hr]
      simp
  · rcases eq_or_ne j i with rfl | hne
    · obtain rfl : w = u := Option.some.inj (hw.at_place.symm.trans hu)
      obtain ⟨x, hx, -, -⟩ := hw.turn hrun hv
      exact ⟨x, hx⟩
    · exact ⟨w, hw.turn_other hrun h.alone hu hne hv⟩

theorem Invariant.finish {reading : Timespec} {failed : Option ℕ} (h : Invariant S name i s)
    (hs : exec P s (.finish reading failed) = some s') : Invariant S name i s' := by
  have hsame := exec_signature L hs
  obtain ⟨-, rfl⟩ := finish_cases hs
  obtain ⟨w, hw⟩ := h.accounted
  obtain ⟨shared, out, hep, hr⟩ := conclude_cases (P := P) s reading failed
  have hout : (P.epilogue s.shared reading).2 = out := by rw [hep]
  have hquiet : S.chart name ∉ begun out := by
    rw [← hout]
    exact fun hmem => h.alone.1 (L.begun_epilogue _ _ _ hmem)
  have hhead : Headed out := hout ▸ L.epilogue_headed _ _
  refine ⟨fun _ => .inl ?_, h.alone.of_signature hsame, w, ?_⟩
  · rcases hr with ⟨-, hr⟩ | ⟨n, -, hr⟩ <;> rw [hr]
  · rcases hr with ⟨-, hr⟩ | ⟨n, -, hr⟩
    · rw [hr]
      exact ⟨hw.at_place, hw.log, hw.name_eq, hw.valid, hw.tracks,
        hw.balanced.headed (hout ▸ L.epilogue_closed _ _) hhead hquiet⟩
    · rw [hr]
      exact ⟨hw.at_place, hw.log, hw.name_eq, hw.valid, hw.tracks,
        hw.balanced.headed_cut hhead hquiet n⟩

theorem Invariant.control {run : Bool} {phase : Phase} (h : Invariant S name i s)
    (hrun : s.run = true) (hstop : run = false → phase = .polling) :
    Invariant S name i { s with run := run, phase := phase } := by
  obtain ⟨w, hw⟩ := h.accounted
  refine ⟨fun hr => .inl (hstop hr), h.alone, w, hw.at_place, hw.log, hw.name_eq, hw.valid,
    hw.tracks, hw.balanced.pending, hw.balanced.at_most, fun _ => hw.balanced.exact hrun⟩

theorem exec_invariant (s : System bufsiz γ δ) (a : Step ι) (s' : System bufsiz γ δ)
    (h : Invariant S name i s) (ho : OrderlyAt i s a) (hs : exec P s a = some s') :
    Invariant S name i s' := by
  cases a with
  | append key bytes =>
      cases hs
      exact h.append
  | rotate key =>
      cases hs
      exact h.rotate
  | poll signal fsEvent timer =>
      obtain ⟨hrun, -, run, phase, rfl, hstop⟩ := poll_cases hs
      exact h.control hrun hstop
  | event answers => exact h.event ho hs
  | drained =>
      obtain ⟨timer, hphase, -, rfl⟩ := drained_cases hs
      have hrun : s.run = true := by
        by_contra hstop
        rcases h.stopping (by simpa using hstop) with hp | hp <;> simp [hphase] at hp
      exact h.control hrun fun hstop => absurd hstop (by simp [hrun])
  | turn t => exact h.turn hs
  | finish reading failed => exact h.finish hs

/-- The state in which the loop begins, for the `i`-th watcher: it is open at the
end of the only file of its log, and has nothing read or reported. -/
structure SetUpAt (S : Series L) (name : Bytes) (i : ℕ) (s : System bufsiz γ δ) : Prop where
  polling : s.run = true ∧ s.phase = .polling
  queue : s.queue = []
  written : ∀ key, (s.logs key).written = []
  past : ∀ key, (s.logs key).log.past = []
  silent : Silent (S.chart name) s.stdout
  alone : Alone S name i s
  watch : ∃ w, s.watches[i]? = some w ∧ w.type = .logFile ∧ w.name P = name ∧
    S.Valid w.data ∧ S.meter w.data = 0 ∧ w.watcher.consumed = [] ∧
    Fresh w.watcher.watch ∧ w.watcher.watch.fd = some ⟨0, (s.logs w.key).log.current.length⟩

theorem SetUpAt.invariant (hn : 0 < bufsiz) (h : SetUpAt S name i s) : Invariant S name i s := by
  obtain ⟨w, hplace, hlog, hname, hvalid, hmeter, hconsumed, hfresh, hfd⟩ := h.watch
  have hbytes := Watch.bytes_eq_nil hconsumed
  have htotal : S.total bufsiz w.bytes = 0 := by
    rw [Series.total, hbytes]
    simp [LineSplit.bounded, LineSplit.early_short]
  have hsum : S.sum name s.stdout = 0 := S.sum_eq_zero h.silent.2
  have htracks : Tracks s.logs s.queue w.watcher :=
    Tracks.start hn hconsumed hfresh hfd (h.written _) (h.past _)
  exact ⟨fun hstop => absurd hstop (by simp [h.polling.1]), h.alone, w, hplace, hlog, hname,
    hvalid, htracks, hmeter.ge, by rw [htotal, hsum]; rfl,
    fun _ => ⟨h.silent.1, by rw [htotal, hsum, hmeter]; rfl⟩⟩

theorem run_invariant_at (hn : 0 < bufsiz) {s₀ : System bufsiz γ δ} (h₀ : SetUpAt S name i s₀)
    {steps : List (Step ι)} (ho : Along (exec P) (OrderlyAt i) s₀ steps)
    (hr : run (exec P) s₀ steps = some s) : Invariant S name i s :=
  run_invariant exec_invariant (h₀.invariant hn) ho hr

/-! ### Start -/

/-- A watcher as `prepare_watcher` leaves it. -/
structure Prepared (logs : Key → LogFile) (e : DirEntry) (fileName : Bytes) (data : δ)
    (w : Watch bufsiz δ) : Prop where
  dirName : w.watcher.watch.dirName = e.name
  fileName : w.watcher.watch.fileName = fileName
  type : w.type = .logFile
  consumed : w.watcher.consumed = []
  fresh : Fresh w.watcher.watch
  data : w.data = data
  fd : ∀ p, w.watcher.watch.fd = some p → p = ⟨0, (logs w.key).log.current.length⟩

theorem prepareWatcher_prepared {logs : Key → LogFile} {e : DirEntry} {fileName : Bytes}
    {data : δ} {w : Watch bufsiz δ} (h : prepareWatcher logs e fileName data = some w) :
    Prepared logs e fileName data w := by
  simp only [prepareWatcher, Option.bind_eq_bind, Option.bind_eq_some_iff, Option.pure_def,
    Option.some.injEq] at h
  obtain ⟨watchDir, -, rfl⟩ := h
  refine ⟨rfl, rfl, rfl, rfl, prepareWatcher_fresh _ _ _ _ _, rfl, fun p hp => ?_⟩
  simp only [FileWatch.prepareWatcher] at hp
  split_ifs at hp
  exact (Option.some.inj hp).symm

theorem mem_prepareWatcher {logs : Key → LogFile} {e : DirEntry} {fileName : Bytes} {data : δ}
    {w : Watch bufsiz δ} (h : w ∈ (prepareWatcher logs e fileName data).toList) :
    Prepared logs e fileName data w := prepareWatcher_prepared (Option.mem_toList.mp h)

/-- There is one watcher at most, and it keeps its name. -/
theorem prepareWatcher_sublist {logs : Key → LogFile} {e : DirEntry} {fileName : Bytes} {data : δ}
    {g : Watch bufsiz δ → Bytes} {name : Bytes}
    (h : ∀ w, Prepared logs e fileName data w → g w = name) :
    ((prepareWatcher logs e fileName data).toList.map g).Sublist [name] := by
  cases hw : (prepareWatcher logs e fileName data : Option (Watch bufsiz δ)) with
  | none => exact List.nil_sublist _
  | some w => simp [h w (prepareWatcher_prepared hw)]

/-- No log has been written to since its watchers were set up. -/
def Untouched (logs : Key → LogFile) : Prop :=
  ∀ key, (logs key).written = [] ∧ (logs key).log.past = []

theorem emptyLog_serials : ([] : List Cell).map Cell.serial = List.range 0 := rfl

/-- A log that nothing has been written to. -/
def emptyLog (_ : Key) : LogFile := ⟨⟨[], []⟩, [], emptyLog_serials⟩

theorem emptyLog_untouched : Untouched emptyLog := fun _ => ⟨rfl, rfl⟩

section Begin
variable {logs : Key → LogFile} {found : List (Watch bufsiz δ)} {shared : γ}
  {readings : ℕ → Timespec}

theorem start_getElem? (i : ℕ) :
    (start P logs found shared readings).watches[i]? =
      found[i]?.map fun w => { w with time := readings i } := by
  simp [start, List.getElem?_mapIdx]

theorem start_quiet (L : Interface P κ) :
    Closed (start P logs found shared readings).stdout ∧
      begun (start P logs found shared readings).stdout = [] := by
  have hfound : Closed (found.flatMap fun w => P.printHdr (w.name P) w.data) ∧
      begun (found.flatMap fun w => P.printHdr (w.name P) w.data) = [] := by
    refine ⟨closed_flatMap _ fun w => (L.printHdr_quiet _ _).1, ?_⟩
    induction found with
    | nil => rfl
    | cons w ws ih => rw [List.flatMap_cons, begun_append, (L.printHdr_quiet _ _).2, ih]; rfl
  refine ⟨hfound.1.append L.preamble_quiet.1, ?_⟩
  rw [start, begun_append, hfound.2, L.preamble_quiet.2]
  rfl

/-- A watcher whose file could be opened begins in balance. -/
theorem start_setUpAt {e : DirEntry} {fileName : Bytes} {w : Watch bufsiz δ}
    (hlogs : Untouched logs) (hw : found[i]? = some w) (hprep : Prepared logs e fileName w.data w)
    (hopen : w.watcher.watch.fd ≠ none) (hname : w.name P = name) (hvalid : S.Valid w.data)
    (hmeter : S.meter w.data = 0) (halone : Alone S name i (start P logs found shared readings)) :
    SetUpAt S name i (start P logs found shared readings) := by
  obtain ⟨hclosed, hbegun⟩ : Closed (start P logs found shared readings).stdout ∧ _ :=
    start_quiet L
  obtain ⟨p, hp⟩ := Option.ne_none_iff_exists'.mp hopen
  refine ⟨⟨rfl, rfl⟩, rfl, fun key => (hlogs key).1, fun key => (hlogs key).2,
    ⟨hclosed, by rw [hbegun]; exact List.not_mem_nil⟩, halone, { w with time := readings i },
    by rw [start_getElem?, hw]; rfl, hprep.type, hname, hvalid, hmeter, hprep.consumed,
    hprep.fresh, ?_⟩
  rw [hp, hprep.fd p hp]
  rfl

end Begin

/-! ### What the invariant says -/

def text (f : LogFile) : Bytes := f.written.map Cell.byte

/-- A line can be processed, whatever the record holds. -/
def Safe (S : Series L) : Prop :=
  ∀ x mem d, S.Valid d → 0 ∈ mem → ∃ d', P.process x mem d = some d'

theorem processLines_safe (hsafe : Safe S) {lines new : List Bytes}
    (h : List.Forall₂ PointsTo lines new) (input : ℕ → ι) {d : δ} (hd : S.Valid d) :
    ∃ d', processLines P input lines d = some d' := by
  induction h generalizing input d with
  | nil => exact ⟨d, rfl⟩
  | @cons mem line lines new hline _ ih =>
      have hnul : 0 ∈ mem := hline.subset (by simp)
      obtain ⟨d₁, h₁⟩ := hsafe (input 0) mem d hd hnul
      obtain ⟨d', hd'⟩ := ih (fun k => input (k + 1)) (S.process _ _ _ _ hd hnul h₁).1
      exact ⟨d', by simp [processLines, h₁, hd']⟩

/-- Nothing blocks a watcher that is in balance with its log. -/
theorem read_enabled (hsafe : Safe S) {w : Watch bufsiz δ}
    (h : Tracks s.logs s.queue w.watcher) (hvalid : S.Valid w.data) (input : ℕ → ι) :
    ∃ reads w', w.readLogFile P (s.logs w.key) ⟨reads, input⟩ = some w' := by
  obtain ⟨reads, watcher, lines, hr⟩ := h.read_enabled
  obtain ⟨-, new, hnew, -⟩ := h.followed.readLogFile hr
  obtain ⟨data, hdata⟩ := processLines_safe hsafe hnew input hvalid
  refine ⟨reads, { w with watcher := watcher, data := data }, ?_⟩
  simp only [Watch.readLogFile, Watch.key, hr, hdata, Option.bind_eq_bind, Option.bind_some,
    Option.pure_def]

theorem Invariant.turn_enabled (hsafe : Safe S) (h : Invariant S name i s)
    (hphase : s.phase = .ticking i) (input : ℕ → ι) (measured : ι) (reading : Timespec)
    (failed : Option ℕ) :
    ∃ reads s', exec P s (.turn ⟨⟨reads, input⟩, measured, reading, failed⟩) = some s' := by
  obtain ⟨w, hw⟩ := h.accounted
  obtain ⟨reads, w', hw'⟩ := read_enabled hsafe hw.tracks hw.valid input
  refine ⟨reads, report P s i w' ⟨⟨reads, input⟩, measured, reading, failed⟩, ?_⟩
  simp only [exec, hphase, hw.at_place, Option.bind_eq_bind, Option.bind_some,
    collect_log hw.log, hw', Option.pure_def]

/-- A turn that is taken with no event queued brings the reports up to date. -/
theorem Invariant.turn_complete {t : Turn ι} {w : Watch bufsiz δ} (h : Invariant S name i s)
    (hw : s.watches[i]? = some w) (hphase : s.phase = .ticking i) (hqueue : s.queue = [])
    (hok : t.failed = none) (hs : exec P s (.turn t) = some s') :
    S.sum name s'.stdout = S.total bufsiz (text (s.logs w.key)) := by
  have hrun := h.run_turn hs
  obtain ⟨u, hu⟩ := h.accounted
  obtain rfl : w = u := Option.some.inj (hw.symm.trans hu.at_place)
  obtain ⟨j, u', v, hj, hu', hv, rfl⟩ := turn_cases hs
  obtain rfl : i = j := by simpa [hphase] using hj
  obtain rfl : w = u' := Option.some.inj (hw.symm.trans hu')
  obtain ⟨x, hx, hwatcher, hmeter⟩ := hu.turn hrun hv
  have hstill : (report P s i v t).run = true := by
    obtain ⟨post, data, shared, time, out, -, -, -, ⟨-, hr⟩ | ⟨n, hfail, -⟩⟩ :=
      report_cases (P := P) s i v t
    · rw [hr]
      exact hrun
    · simp [hok] at hfail
  have hexact := (hx.balanced.exact hstill).2
  rw [hmeter hok, add_zero] at hexact
  have hbytes : x.bytes = text (s.logs w.key) := by
    rw [collect_log hu.log] at hv
    obtain ⟨watcher, lines, data, hr, -, rfl⟩ := readLogFile_cases hv
    have hall := Tracks.read_complete (hqueue ▸ hu.tracks) hr
    rw [Watch.bytes, hwatcher, Watcher.bytes, text, hall]
    rfl
  rw [hexact, hbytes]

/-- What a state has reported of a value that lines are counted in: at most the
lines consumed; with the value in the record exactly these, as long as the
program runs; and all lines written, after a turn that is taken with no event
queued. -/
structure Reports (P : Plugin ι γ δ) (i : ℕ) (s : System bufsiz γ δ)
    (reported : List Command → ℤ) (pending : δ → ℤ) (count : Bytes → ℕ)
    (w : Watch bufsiz δ) : Prop where
  at_place : s.watches[i]? = some w
  consumed : w.bytes <+: text (s.logs w.key)
  at_most : reported s.stdout ≤ count w.bytes
  exact : s.run = true → reported s.stdout + pending w.data = count w.bytes
  complete : s.phase = .ticking i → s.queue = [] →
    ∀ t s', exec P s (.turn t) = some s' → t.failed = none →
      reported s'.stdout = count (text (s.logs w.key))

theorem Invariant.reports (h : Invariant S name i s) {count : Bytes → ℕ}
    (hcount : ∀ bytes, S.total bufsiz bytes = count bytes) :
    ∃ w, Reports P i s (S.sum name) S.meter count w := by
  obtain ⟨w, hw⟩ := h.accounted
  obtain rfl : S.total bufsiz = count := funext hcount
  exact ⟨w, hw.at_place, hw.tracks.prefix_written.map _, hw.balanced.at_most,
    fun hrun => (hw.balanced.exact hrun).2,
    fun hphase hqueue t s' hs hok => h.turn_complete hw.at_place hphase hqueue hok hs⟩

end Runs

end NetdataPlugins.PluginLoop
