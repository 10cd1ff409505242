import Mathlib.Algebra.BigOperators.Group.List.Basic
import NetdataPlugins.PluginRuns

/-!
# Values that are handed over

A value of a record may be added to what the watchers share, and be printed at
the end of a tick for all of them together. What has been printed and what is
shared is then what the watchers have handed over: the weights of the lines that
they have consumed, less what is in their records. This holds as long as the
program runs, also where a watcher has missed a part of its log.
-/
namespace NetdataPlugins.PluginLoop
open MemoryBlock Netdata Timer FileWatch IndexedLoop LogWatch Runs

variable {bufsiz : ℕ} {ι γ δ κ : Type}

/-- `Valid` is what the functions keep of the shared value. -/
structure Handover {P : Plugin ι γ δ} (L : Interface P κ) where
  chart : Bytes
  dimension : Bytes
  weight : κ → Bytes → ℤ
  record : δ → ℤ
  shared : γ → ℤ
  Valid : γ → Prop
  foreign : ∀ name k, chart ∉ L.charts name k
  process : ∀ x mem d d', 0 ∈ mem → P.process x mem d = some d' →
    record d' = record d + weight (L.kind d) (cstr mem)
  measure : ∀ x d, record (P.measure x d) = record d
  postprocess : ∀ g d, Valid g →
    Valid (P.postprocess g d).2 ∧ shared (P.postprocess g d).2 = shared g + record d
  clear : ∀ d, record (P.clear d) = 0
  epilogue : ∀ g reading, Valid g →
    Valid (P.epilogue g reading).1 ∧ shared (P.epilogue g reading).1 = 0 ∧
      (values chart dimension (P.epilogue g reading).2).sum = shared g

namespace Handover
variable {P : Plugin ι γ δ} {L : Interface P κ} (F : Handover L)

/-- The weight of the lines that a watcher has consumed. -/
def total (w : Watch bufsiz δ) : ℤ :=
  ((seen bufsiz w.bytes).map fun line => F.weight (L.kind w.data) (cstr line)).sum

/-- What a watcher has handed over. -/
def given (w : Watch bufsiz δ) : ℤ := F.total w - F.record w.data

/-- What has been reported. -/
def sum (out : List Command) : ℤ := (values F.chart F.dimension out).sum

theorem sum_append {out : List Command} (h : Closed out) (out' : List Command) :
    F.sum (out ++ out') = F.sum out + F.sum out' := by
  rw [sum, h.values_append, List.sum_append]
  rfl

theorem sum_eq_zero {out : List Command} (h : F.chart ∉ begun out) : F.sum out = 0 := by
  rw [sum, values, reported_eq_nil h]
  rfl

theorem processLines {input : ℕ → ι} {lines new : List Bytes} {d d' : δ}
    (hlines : List.Forall₂ PointsTo lines new)
    (h : PluginLoop.processLines P input lines d = some d') :
    F.record d' = F.record d + (new.map fun line => F.weight (L.kind d) (cstr line)).sum := by
  induction hlines generalizing input d with
  | nil =>
      cases h
      simp
  | @cons mem line lines new hline _ ih =>
      simp only [PluginLoop.processLines, Option.bind_eq_bind, Option.bind_eq_some_iff] at h
      obtain ⟨d₁, h₁, h⟩ := h
      have hnul : 0 ∈ mem := hline.subset (by simp)
      rw [ih h, F.process _ _ _ _ hnul h₁, L.kind_process _ _ _ _ h₁, hline.cstr_eq,
        List.map_cons, List.sum_cons, add_assoc]

section Watcher
variable {F} {f : LogFile} {a : Answers ι} {w w' : Watch bufsiz δ}

/-- The lines that a watcher reads are in its record. -/
theorem read (h : Followed w) (hr : w.readLogFile P f a = some w') :
    Followed w' ∧ F.given w' = F.given w := by
  have hkind := L.kind_readLogFile hr
  obtain ⟨hfollowed, lines, new, hnew, hseen, hdata⟩ := readLogFile_followed h hr
  refine ⟨hfollowed, ?_⟩
  rw [given, given, total, total, ← hseen, List.map_append, List.sum_append,
    F.processLines hnew hdata, hkind]
  omega

theorem event {e : InotifyEvent} (h : Followed w) (hw : w.processFsEvent P e f a = some w') :
    Followed w' ∧ F.given w' = F.given w := by
  rcases processFsEvent_cases hw with ⟨-, rfl⟩ | ⟨-, v, hv, rfl⟩
  · exact ⟨h, rfl⟩
  · obtain ⟨hfollowed, hgiven⟩ := read (F := F) h hv
    exact ⟨hfollowed.reopenLogFile, hgiven⟩

theorem collect {t : Turn ι} (h : Followed w) (hw : w.collect P f t = some w') :
    Followed w' ∧ F.given w' = F.given w := by
  unfold Watch.collect at hw
  split at hw
  · exact read h hw
  · cases hw
    refine ⟨h, ?_⟩
    rw [given, given, F.measure, total, total, L.kind_measure]
    rfl

end Watcher

/-- The sum over the watchers when one of them has its turn. -/
theorem sum_map_set {α : Type*} (g : α → ℤ) {ws : List α} {i : ℕ} {w : α}
    (hw : ws[i]? = some w) (v : α) :
    ((ws.set i v).map g).sum = (ws.map g).sum - g w + g v := by
  obtain ⟨hi, hget⟩ := List.getElem?_eq_some_iff.mp hw
  rw [List.map_set, List.sum_set', dif_pos (by simpa using hi), List.getElem_map, hget]
  omega

/-! ### Runs -/

/-- As long as the program runs, the reports and what is shared are what the
watchers have handed over; and in a tick, those that had their turn have nothing
left in their records. -/
structure InBalance (s : System bufsiz γ δ) : Prop where
  followed : ∀ w ∈ s.watches, Followed w
  cleared : s.run = true → ∀ i, s.phase = .ticking i → ∀ j < i, ∀ w,
    s.watches[j]? = some w → F.record w.data = 0
  balanced : s.run = true → Closed s.stdout ∧ F.Valid s.shared ∧
    F.sum s.stdout + F.shared s.shared = (s.watches.map F.given).sum

variable {F} {s s' : System bufsiz γ δ}

theorem InBalance.event {answers : ℕ → Answers ι} (h : F.InBalance s)
    (hs : exec P s (.event answers) = some s') : F.InBalance s' := by
  obtain ⟨timer, e, queue, ws, hphase, -, hws, rfl⟩ := event_cases hs
  obtain ⟨hfollowed, hgiven⟩ := forEach_keeps (g := F.given)
    (fun i w w' hw hw' => event (F := F) hw hw') h.followed hws
  refine ⟨hfollowed, fun _ i hi => ?_, fun hrun => ?_⟩
  · exact absurd (hphase.symm.trans hi) (by simp)
  · dsimp only
    rw [hgiven]
    exact h.balanced hrun

/-- At its turn a watcher hands its record over. -/
theorem InBalance.turn {t : Turn ι} (h : F.InBalance s) (hs : exec P s (.turn t) = some s') :
    F.InBalance s' := by
  obtain ⟨i, w, v, hphase, hw, hv, rfl⟩ := turn_cases hs
  obtain ⟨hfollowed, hgiven⟩ := collect (F := F) (h.followed w (List.mem_of_getElem? hw)) hv
  obtain ⟨post, data, shared, time, out, hpost, -, hprint, ⟨-, hr⟩ | ⟨n, -, hr⟩⟩ :=
    report_cases (P := P) s i v t
  all_goals
    rw [hr]
    have hall (x : Watch bufsiz δ) (hx : Followed x) : ∀ u ∈ s.watches.set i x, Followed u :=
      fun u hu => (List.mem_or_eq_of_mem_set hu).elim (h.followed u) fun heq => heq ▸ hx
  · refine ⟨hall _ hfollowed, fun hrun k hk j hj u hu => ?_, fun hrun => ?_⟩
    · cases hk
      rcases (Nat.lt_succ_iff_lt_or_eq.mp hj) with hlt | rfl
      · rw [List.getElem?_set_ne hlt.ne'] at hu
        exact h.cleared hrun i hphase j hlt u hu
      · rw [List.getElem?_set_self (List.getElem?_eq_some_iff.mp hw).1, Option.some.injEq] at hu
        subst hu
        exact F.clear _
    · obtain ⟨hclosed, hvalid, hsum⟩ := h.balanced hrun
      obtain ⟨hvalid', hshared⟩ := F.postprocess s.shared v.data hvalid
      rw [hpost] at hvalid' hshared
      have hout : out = (P.print (v.name P) post time.1).2 := by rw [hprint]
      have hquiet : F.chart ∉ begun out := fun hmem =>
        F.foreign _ _ (L.begun_print _ _ _ _ (hout ▸ hmem))
      have hkind : L.kind (P.clear data) = L.kind v.data := by
        rw [L.kind_clear, ← L.kind_postprocess s.shared v.data, hpost,
          ← L.kind_print (v.name P) post time.1, hprint]
      have hnew : F.given { v with time := time.2, data := P.clear data } =
          F.given v + F.record v.data := by
        simp only [given, total, hkind, F.clear, Watch.bytes]
        omega
      refine ⟨hclosed.append (hout ▸ L.print_closed _ _ _), hvalid', ?_⟩
      dsimp only at hshared ⊢
      rw [sum_map_set F.given hw, hnew, F.sum_append hclosed, F.sum_eq_zero hquiet, hshared,
        hgiven]
      omega
  · exact ⟨hall _ hfollowed, fun hrun => absurd hrun (by simp), fun hrun => absurd hrun (by simp)⟩

/-- The end of a tick reports what is shared. -/
theorem InBalance.finish {reading : Timespec} {failed : Option ℕ} (h : F.InBalance s)
    (hs : exec P s (.finish reading failed) = some s') : F.InBalance s' := by
  obtain ⟨-, rfl⟩ := finish_cases hs
  obtain ⟨shared, out, hep, ⟨-, hr⟩ | ⟨n, -, hr⟩⟩ := conclude_cases (P := P) s reading failed
  all_goals rw [hr]
  · refine ⟨h.followed, fun _ i hi => absurd hi (by simp), fun hrun => ?_⟩
    obtain ⟨hclosed, hvalid, hsum⟩ := h.balanced hrun
    obtain ⟨hvalid', hzero, hvalue⟩ := F.epilogue s.shared reading hvalid
    have hout := L.epilogue_closed s.shared reading
    rw [hep] at hvalid' hzero hvalue hout
    refine ⟨hclosed.append hout, hvalid', ?_⟩
    have hnow : F.sum out = F.shared s.shared := hvalue
    dsimp only
    rw [F.sum_append hclosed, hnow, hzero, add_zero]
    exact hsum
  · exact ⟨h.followed, fun hrun => absurd hrun (by simp), fun hrun => absurd hrun (by simp)⟩

theorem exec_inBalance (s : System bufsiz γ δ) (a : Step ι) (s' : System bufsiz γ δ)
    (h : F.InBalance s) (hs : exec P s a = some s') : F.InBalance s' := by
  cases a with
  | append key bytes =>
      cases hs
      exact ⟨h.followed, h.cleared, h.balanced⟩
  | rotate key =>
      cases hs
      exact ⟨h.followed, h.cleared, h.balanced⟩
  | poll signal fsEvent timer =>
      obtain ⟨hrun, -, run, phase, rfl, -⟩ := poll_cases hs
      refine ⟨h.followed, fun _ i hi j hj => ?_, fun _ => h.balanced hrun⟩
      rw [poll_phase hs hi] at hj
      exact absurd hj (Nat.not_lt_zero j)
  | event answers => exact h.event hs
  | drained =>
      obtain ⟨timer, hphase, -, rfl⟩ := drained_cases hs
      refine ⟨h.followed, fun _ i hi j hj => ?_, h.balanced⟩
      cases timer <;> cases hi
      exact absurd hj (Nat.not_lt_zero j)
  | turn t => exact h.turn hs
  | finish reading failed => exact h.finish hs

/-- The state in which the loop begins: nothing is read, shared or reported. -/
theorem start_inBalance (hn : 0 < bufsiz) {logs : Key → LogFile} {found : List (Watch bufsiz δ)}
    {shared : γ} {readings : ℕ → Timespec} (hshared : F.Valid shared ∧ F.shared shared = 0)
    (hfound : ∀ w ∈ found,
      w.watcher.consumed = [] ∧ Fresh w.watcher.watch ∧ F.record w.data = 0) :
    F.InBalance (start P logs found shared readings) := by
  obtain ⟨hclosed, hbegun⟩ : Closed (start P logs found shared readings).stdout ∧ _ :=
    start_quiet L
  have hstart (w : Watch bufsiz δ) (hw : w ∈ (start P logs found shared readings).watches) :
      Followed w ∧ F.given w = 0 := by
    obtain ⟨i, hi, rfl⟩ := List.mem_mapIdx.mp hw
    obtain ⟨hconsumed, hfresh, hrecord⟩ := hfound _ (List.getElem_mem hi)
    have hbytes : Watch.bytes { found[i] with time := readings i } = [] :=
      Watch.bytes_eq_nil hconsumed
    refine ⟨.of_fresh hn hconsumed hfresh, ?_⟩
    rw [given, total, hbytes, hrecord]
    simp [LineSplit.bounded, LineSplit.early_short]
  refine ⟨fun w hw => (hstart w hw).1, fun _ i hi => absurd hi (by simp [start]), fun _ =>
    ⟨hclosed, hshared.1, ?_⟩⟩
  have hzero : ((start P logs found shared readings).watches.map F.given).sum = 0 :=
    List.sum_eq_zero fun n hn => by
      obtain ⟨w, hw, rfl⟩ := List.mem_map.mp hn
      exact (hstart w hw).2
  rw [hzero, F.sum_eq_zero (by rw [hbegun]; exact List.not_mem_nil), zero_add]
  exact hshared.2

/-- What a state has reported of a value that is handed over: with what is shared
and what waits in the records the weights of the lines consumed; and all of
these at the end of a tick. -/
structure Reported (F : Handover L) (s : System bufsiz γ δ) : Prop where
  exact : s.run = true →
    F.sum s.stdout + F.shared s.shared + (s.watches.map fun w => F.record w.data).sum =
      (s.watches.map F.total).sum
  complete : s.run = true → ∀ reading s', exec P s (.finish reading none) = some s' →
    F.sum s'.stdout = (s'.watches.map F.total).sum

theorem sum_given (ws : List (Watch bufsiz δ)) :
    (ws.map F.given).sum + (ws.map fun w => F.record w.data).sum = (ws.map F.total).sum := by
  rw [← List.sum_map_add]
  simp only [given, sub_add_cancel]

theorem InBalance.reported (h : F.InBalance s) : Reported F s := by
  refine ⟨fun hrun => ?_, fun hrun reading s' hs => ?_⟩
  · rw [(h.balanced hrun).2.2, sum_given]
  · have hfinish := h.finish hs
    obtain ⟨hphase, rfl⟩ := finish_cases hs
    obtain ⟨-, -, hsum⟩ := hfinish.balanced hrun
    have hrecords : (s.watches.map fun w => F.record w.data).sum = 0 :=
      List.sum_eq_zero fun n hn => by
        obtain ⟨w, hw, rfl⟩ := List.mem_map.mp hn
        obtain ⟨j, hj⟩ := List.getElem?_of_mem hw
        exact h.cleared hrun _ hphase j (List.getElem?_eq_some_iff.mp hj).1 w hj
    have hzero := (F.epilogue s.shared reading (h.balanced hrun).2.1).2.1
    have hgiven := sum_given (F := F) s.watches
    rw [hrecords, add_zero] at hgiven
    have hshared : F.shared (conclude P s reading none).shared = 0 := hzero
    rw [hshared, add_zero] at hsum
    rw [hsum]
    exact hgiven

theorem run_reported (hn : 0 < bufsiz) {logs : Key → LogFile} {found : List (Watch bufsiz δ)}
    {shared : γ} {readings : ℕ → Timespec} (hshared : F.Valid shared ∧ F.shared shared = 0)
    (hfound : ∀ w ∈ found,
      w.watcher.consumed = [] ∧ Fresh w.watcher.watch ∧ F.record w.data = 0)
    {steps : List (Step ι)}
    (hr : run (exec P) (start P logs found shared readings) steps = some s) : Reported F s :=
  (run_preserves exec_inBalance (start_inBalance hn hshared hfound) hr).reported

end Handover
end NetdataPlugins.PluginLoop
