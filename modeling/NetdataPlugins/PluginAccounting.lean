import NetdataPlugins.PluginLoop
import NetdataPlugins.Runs

/-!
# Accounting over the runs of a main loop

A `Series` is a value that a plugin reports for the lines of a log: a line adds
its weight to the record, a print gives out what the record has, and `clear`
starts again. Over a whole run, whatever the writers and the other watchers do
in between, the values reported and the value in the record add up to the
weights of the lines of what was consumed.
-/
namespace NetdataPlugins.PluginLoop
open MemoryBlock Netdata Timer FileWatch IndexedLoop LogWatch Runs

variable {bufsiz : ℕ} {ι γ δ κ : Type}

/-- The kinds of records of a plugin, with the charts which each of them fills. -/
structure Interface (P : Plugin ι γ δ) (κ : Type) where
  kind : δ → κ
  charts : Bytes → κ → List Bytes
  epilogueCharts : List Bytes
  kind_process : ∀ x mem d d', P.process x mem d = some d' → kind d' = kind d
  kind_measure : ∀ x d, kind (P.measure x d) = kind d
  kind_postprocess : ∀ g d, kind (P.postprocess g d).1 = kind d
  kind_print : ∀ name d time, kind (P.print name d time).1 = kind d
  kind_clear : ∀ d, kind (P.clear d) = kind d
  printHdr_quiet : ∀ name d, Closed (P.printHdr name d) ∧ begun (P.printHdr name d) = []
  preamble_quiet : Closed P.preamble ∧ begun P.preamble = []
  print_closed : ∀ name d time, Closed (P.print name d time).2
  begun_print : ∀ name d time, ∀ c ∈ begun (P.print name d time).2, c ∈ charts name (kind d)
  epilogue_closed : ∀ g reading, Closed (P.epilogue g reading).2
  epilogue_headed : ∀ g reading, Headed (P.epilogue g reading).2
  begun_epilogue : ∀ g reading, ∀ c ∈ begun (P.epilogue g reading).2, c ∈ epilogueCharts

/-- `Valid` is what the functions keep of the records that the series is about. -/
structure Series {P : Plugin ι γ δ} (L : Interface P κ) where
  chart : Bytes → Bytes
  dimension : Bytes
  weight : Bytes → ℕ
  meter : δ → ℤ
  Valid : δ → Prop
  process : ∀ x mem d d', Valid d → 0 ∈ mem → P.process x mem d = some d' →
    Valid d' ∧ meter d' = meter d + weight (cstr mem)
  postprocess : ∀ g d, Valid d →
    Valid (P.postprocess g d).1 ∧ meter (P.postprocess g d).1 = meter d
  print : ∀ name d time, Valid d →
    Valid (P.print name d time).1 ∧ meter (P.print name d time).1 = meter d ∧
      values (chart name) dimension (P.print name d time).2 = [meter d]
  clear : ∀ d, Valid d → Valid (P.clear d) ∧ meter (P.clear d) = 0

namespace Interface
variable {P : Plugin ι γ δ} (L : Interface P κ) {f : LogFile} {a : Answers ι}
  {w w' : Watch bufsiz δ}

theorem kind_processLines {input : ℕ → ι} {lines : List Bytes} {d d' : δ}
    (h : processLines P input lines d = some d') : L.kind d' = L.kind d := by
  induction lines generalizing input d with
  | nil =>
      cases h
      rfl
  | cons line lines ih =>
      simp only [processLines, Option.bind_eq_bind, Option.bind_eq_some_iff] at h
      obtain ⟨d₁, h₁, h⟩ := h
      rw [ih h, L.kind_process _ _ _ _ h₁]

theorem kind_readLogFile (h : w.readLogFile P f a = some w') :
    L.kind w'.data = L.kind w.data := by
  obtain ⟨watcher, lines, data, -, hdata, rfl⟩ := readLogFile_cases h
  exact L.kind_processLines hdata

theorem kind_processFsEvent {e : InotifyEvent} (h : w.processFsEvent P e f a = some w') :
    L.kind w'.data = L.kind w.data := by
  rcases processFsEvent_cases h with ⟨-, rfl⟩ | ⟨-, v, hv, rfl⟩
  · rfl
  · have hread := L.kind_readLogFile hv
    exact hread

theorem kind_collect {t : Turn ι} (h : w.collect P f t = some w') :
    L.kind w'.data = L.kind w.data := by
  unfold Watch.collect at h
  split at h
  · exact L.kind_readLogFile h
  · cases h
    exact L.kind_measure _ _

/-- What a watcher is, once and for all. -/
def signature (w : Watch bufsiz δ) : (Bytes × Bytes × ℤ × WatchType) × κ :=
  (w.origin, L.kind w.data)

end Interface

/-! ### The whole program -/

section Signatures
variable {P : Plugin ι γ δ}

/-- No step changes what the watchers are. -/
theorem exec_signature (L : Interface P κ) {s s' : System bufsiz γ δ} {a : Step ι}
    (h : exec P s a = some s') :
    s'.watches.map L.signature = s.watches.map L.signature := by
  cases a with
  | append key bytes => cases h; rfl
  | rotate key => cases h; rfl
  | poll signal fsEvent timer =>
      obtain ⟨-, -, run, phase, rfl, -⟩ := poll_cases h
      rfl
  | event answers =>
      obtain ⟨timer, e, queue, ws, -, -, hws, rfl⟩ := event_cases h
      refine forEach_map (fun i w w' hw => ?_) hws
      rw [Interface.signature, Interface.signature, (processFsEvent_origin hw).1,
        L.kind_processFsEvent hw]
  | drained =>
      obtain ⟨timer, -, -, rfl⟩ := drained_cases h
      rfl
  | turn t =>
      obtain ⟨i, w, v, -, hw, hv, rfl⟩ := turn_cases h
      obtain ⟨post, data, shared, time, out, hpost, -, hprint, ⟨-, hs⟩ | ⟨n, -, hs⟩⟩ :=
        report_cases (P := P) s i v t
      all_goals
        rw [hs]
        apply map_set_same hw
        have hkind : L.kind data = L.kind v.data := by
          rw [← L.kind_postprocess s.shared v.data, hpost, ← L.kind_print (v.name P) post time.1,
            hprint]
        have horigin := (collect_origin hv).1
        have hcollect := L.kind_collect hv
      · exact Prod.ext horigin (by rw [Interface.signature, L.kind_clear, hkind, hcollect]; rfl)
      · exact Prod.ext horigin (by rw [Interface.signature, hkind, hcollect]; rfl)
  | finish reading failed =>
      obtain ⟨-, rfl⟩ := finish_cases h
      obtain ⟨shared, out, -, ⟨-, hs⟩ | ⟨n, -, hs⟩⟩ := conclude_cases (P := P) s reading failed
      all_goals rw [hs]

end Signatures

/-! ### The balance of one series -/

namespace Series
variable {P : Plugin ι γ δ} {L : Interface P κ} (S : Series L)

/-- The weight of the lines of a text, as they are seen through the buffer. -/
def total (bufsiz : ℕ) (text : Bytes) : ℕ :=
  ((seen bufsiz text).map fun line => S.weight (cstr line)).sum

theorem total_eq_countP {p : Bytes → Bool}
    (hweight : ∀ line, S.weight line = if p line then 1 else 0) (bufsiz : ℕ) (text : Bytes) :
    S.total bufsiz text = (seen bufsiz text).countP fun line => p (cstr line) := by
  unfold total
  induction seen bufsiz text with
  | nil => rfl
  | cons line lines ih =>
      rw [List.map_cons, List.sum_cons, List.countP_cons, ih, hweight]
      omega

/-- What has been reported. -/
def sum (name : Bytes) (out : List Command) : ℤ := (values (S.chart name) S.dimension out).sum

theorem sum_append (name : Bytes) {out : List Command} (h : Closed out) (out' : List Command) :
    S.sum name (out ++ out') = S.sum name out + S.sum name out' := by
  rw [sum, h.values_append, List.sum_append]
  rfl

theorem sum_eq_zero {name : Bytes} {out : List Command} (h : S.chart name ∉ begun out) :
    S.sum name out = 0 := by
  rw [sum, values, reported_eq_nil h]
  rfl

theorem processLines {input : ℕ → ι} {lines new : List Bytes} {d d' : δ}
    (hlines : List.Forall₂ PointsTo lines new) (hvalid : S.Valid d)
    (h : PluginLoop.processLines P input lines d = some d') :
    S.Valid d' ∧
      S.meter d' = S.meter d + (new.map fun line => S.weight (cstr line)).sum := by
  induction hlines generalizing input d with
  | nil =>
      cases h
      exact ⟨hvalid, by simp⟩
  | @cons mem line lines new hline _ ih =>
      simp only [PluginLoop.processLines, Option.bind_eq_bind, Option.bind_eq_some_iff] at h
      obtain ⟨d₁, h₁, h⟩ := h
      have hnul : 0 ∈ mem := hline.subset (by simp)
      obtain ⟨hvalid₁, hmeter₁⟩ := S.process _ _ _ _ hvalid hnul h₁
      obtain ⟨hvalid', hmeter'⟩ := ih hvalid₁ h
      refine ⟨hvalid', ?_⟩
      rw [hmeter', hmeter₁, hline.cstr_eq, List.map_cons, List.sum_cons, Nat.cast_add]
      omega

/-- The balance of a watcher, as long as the program runs; at most what was
consumed is reported in any case. -/
structure Balanced (name : Bytes) (out : List Command) (run : Bool) (w : Watch bufsiz δ) :
    Prop where
  pending : 0 ≤ S.meter w.data
  at_most : S.sum name out ≤ S.total bufsiz w.bytes
  exact : run = true → Closed out ∧ S.sum name out + S.meter w.data = S.total bufsiz w.bytes

namespace Balanced
variable {S} {name : Bytes} {out out' : List Command} {run : Bool} {w w' : Watch bufsiz δ}

theorem read {f : LogFile} {a : Answers ι} (h : S.Balanced name out true w)
    (hvalid : S.Valid w.data) (hfollowed : Followed w)
    (hr : w.readLogFile P f a = some w') :
    S.Valid w'.data ∧ S.Balanced name out true w' := by
  obtain ⟨-, lines, new, hlines, hseen, hdata⟩ := readLogFile_followed hfollowed hr
  obtain ⟨hvalid', hmeter⟩ := S.processLines hlines hvalid hdata
  have htotal : S.total bufsiz w'.bytes =
      S.total bufsiz w.bytes + (new.map fun line => S.weight (cstr line)).sum := by
    rw [total, total, ← hseen, List.map_append, List.sum_append]
  obtain ⟨hclosed, hexact⟩ := h.exact rfl
  have hpending := h.pending
  have hle := h.at_most
  refine ⟨hvalid', by omega, by rw [htotal, Nat.cast_add]; omega, fun _ => ⟨hclosed, ?_⟩⟩
  rw [htotal, hmeter, Nat.cast_add]
  omega

/-- Output of others. -/
theorem quiet (h : S.Balanced name out true w) (hclosed : Closed out')
    (hchart : S.chart name ∉ begun out') : S.Balanced name (out ++ out') true w := by
  obtain ⟨hout, hexact⟩ := h.exact rfl
  have hsum : S.sum name (out ++ out') = S.sum name out := by
    rw [S.sum_append name hout, S.sum_eq_zero hchart, add_zero]
  exact ⟨h.pending, hsum ▸ h.at_most, fun _ => ⟨hout.append hclosed, hsum ▸ hexact⟩⟩

/-- Output of others that is cut off. -/
theorem cut (h : S.Balanced name out true w) (hchart : S.chart name ∉ begun out') (n : ℕ) :
    S.Balanced name (out ++ out'.take n) false w := by
  obtain ⟨hout, hexact⟩ := h.exact rfl
  refine ⟨h.pending, ?_, by simp⟩
  rw [S.sum_append name hout, S.sum_eq_zero (begun_take hchart n), add_zero]
  exact h.at_most

theorem headed (h : S.Balanced name out run w) (hclosed : Closed out') (hhead : Headed out')
    (hchart : S.chart name ∉ begun out') : S.Balanced name (out ++ out') run w := by
  have hsum : S.sum name (out ++ out') = S.sum name out := by
    rw [sum, hhead.values_append hchart]
    rfl
  exact ⟨h.pending, hsum ▸ h.at_most,
    fun hrun => ⟨(h.exact hrun).1.append hclosed, hsum ▸ (h.exact hrun).2⟩⟩

theorem headed_cut (h : S.Balanced name out run w) (hhead : Headed out')
    (hchart : S.chart name ∉ begun out') (n : ℕ) :
    S.Balanced name (out ++ out'.take n) false w := by
  refine ⟨h.pending, ?_, by simp⟩
  rw [sum, (hhead.take n).values_append (begun_take hchart n)]
  exact h.at_most

/-- A print of the watcher gives out what its record has, and the record starts
again. -/
theorem print (h : S.Balanced name out true w) (hvalid : S.Valid w.data) {g : γ}
    {post data : δ} {lastUpdate : ℕ} (hpost : (P.postprocess g w.data).1 = post)
    (hprint : P.print name post lastUpdate = (data, out')) (time : Timespec) :
    S.Valid (P.clear data) ∧
      S.Balanced name (out ++ out') true { w with time := time, data := P.clear data } := by
  obtain ⟨hout, hexact⟩ := h.exact rfl
  obtain ⟨hvalidPost, hmeterPost⟩ := S.postprocess g _ hvalid
  rw [hpost] at hvalidPost hmeterPost
  obtain ⟨hvalidData, -, hvalues⟩ := S.print name post lastUpdate hvalidPost
  have hclosed := L.print_closed name post lastUpdate
  rw [hprint] at hvalidData hvalues hclosed
  obtain ⟨hvalidClear, hclear⟩ := S.clear _ hvalidData
  have hprinted : S.sum name out' = S.meter w.data := by
    rw [sum, hvalues, List.sum_singleton, hmeterPost]
  have hsum := S.sum_append name hout out'
  refine ⟨hvalidClear, hclear.ge, ?_, fun _ => ⟨hout.append hclosed, ?_⟩⟩
  · rw [hsum, hprinted]
    exact hexact.le
  · rw [hsum, hprinted, hclear, add_zero]
    exact hexact

/-- If the print fails, some of this may be missing. -/
theorem print_cut (h : S.Balanced name out true w) (hvalid : S.Valid w.data) {g : γ}
    {post data : δ} {lastUpdate : ℕ} (hpost : (P.postprocess g w.data).1 = post)
    (hprint : P.print name post lastUpdate = (data, out')) (time : Timespec) (n : ℕ) :
    S.Valid data ∧
      S.Balanced name (out ++ out'.take n) false { w with time := time, data := data } := by
  obtain ⟨hout, hexact⟩ := h.exact rfl
  obtain ⟨hvalidPost, hmeterPost⟩ := S.postprocess g _ hvalid
  rw [hpost] at hvalidPost hmeterPost
  obtain ⟨hvalidData, hmeterData, hvalues⟩ := S.print name post lastUpdate hvalidPost
  rw [hprint] at hvalidData hmeterData hvalues
  have hpending := h.pending
  have hprinted : S.sum name (out'.take n) ≤ S.meter w.data := by
    have hpre := values_take (S.chart name) S.dimension out' n
    rw [hvalues, hmeterPost] at hpre
    rw [sum]
    rcases List.prefix_cons_iff.mp hpre with hnil | ⟨t, ht, hsub⟩
    · rw [hnil]
      exact hpending
    · rw [ht, List.prefix_nil.mp hsub]
      simp
  refine ⟨hvalidData, hmeterData ▸ hmeterPost ▸ hpending, ?_, by simp⟩
  rw [S.sum_append name hout]
  calc
    S.sum name out + _ ≤ S.sum name out + S.meter w.data := by omega
    _ = S.total bufsiz w.bytes := hexact

end Balanced
end Series

end NetdataPlugins.PluginLoop
