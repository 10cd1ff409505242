import Mathlib.Data.List.Induction
import NetdataPlugins.DeclaredOnce
import NetdataPlugins.LimitVectors
import NetdataPlugins.Runs
import NetdataPlugins.SmtpOutput

/-!
# The dimensions of the charts of the limits

A rule becomes a dimension of its limit at the first print after it entered the
shared vector. The known rules go into one block. Each new one defines the chart
again, declares its dimension and has a block of its own.
-/
namespace NetdataPlugins.LimitDimensions
open MemoryBlock CString Netdata Runs Smtp LimitVectors DeclaredOnce

/-- `postprocess_data` of any watcher, a print and a clear of the limits. -/
inductive Op where
  | postprocess (data : SmtpStatistics)
  | print (time : ℕ)
  | clear

structure State where
  aggregated : Aggregated
  stdout : List Command

def start : State := ⟨⟨.zero, fun _ => []⟩, []⟩

def step (s : State) : Op → State
  | .postprocess data => { s with aggregated := (postprocessData data s.aggregated).2 }
  | .print time =>
      let (limits, out) := tcpserverlimitsPrint s.aggregated.limits time
      ⟨{ s.aggregated with limits := limits }, s.stdout ++ out⟩
  | .clear =>
      { s with
        aggregated := { s.aggregated with limits := tcpserverlimitsClear s.aggregated.limits } }

def after (ops : List Op) : State := ops.foldl step start

/-- The rules that are not new. -/
def known (limit : List LimitT) : List Bytes := names (limit.filter fun l => l.new = 0)

theorem mem_known {limit : List LimitT} (h : (names limit).Nodup) {e : LimitT} (he : e ∈ limit) :
    e.rulename ∈ known limit ↔ e.new = 0 := by
  rw [known, names, KeyedTally.key_mem_filter h he, decide_eq_true_eq]

/-- The collector has heard of the known rules of each limit. -/
structure Knows (old : Limit → List Bytes) (c : Collector) : Prop where
  closed : c.filling = none
  chart_mem : ∀ l, old l ≠ [] → limitChart l ∈ c.charts
  dim_mem : ∀ l n, (limitChart l, n) ∈ c.dimensions ↔ n ∈ old l

theorem Knows.congr {old old' : Limit → List Bytes} {c : Collector} (hc : Knows old c)
    (h : ∀ l n, n ∈ old l ↔ n ∈ old' l) : Knows old' c := by
  refine ⟨hc.closed, fun l hl => hc.chart_mem l fun hnil => hl ?_, fun l n => by
    rw [hc.dim_mem, h]⟩
  apply List.eq_nil_iff_forall_not_mem.mpr
  intro n hn
  rw [← h, hnil] at hn
  exact List.not_mem_nil hn

/-! ### One print -/

theorem listen_printKnown {old : Limit → List Bytes} {c : Collector} (hc : Knows old c) {l : Limit}
    {limit : List LimitT} (hold : old l = known limit) (hsome : ∃ e ∈ limit, e.new = 0)
    (time : ℕ) : c.listen (printKnown (limitName l) time limit) = some c := by
  have hchart : limitChart l ∈ c.charts := by
    apply hc.chart_mem
    obtain ⟨e, he, hnew⟩ := hsome
    rw [hold]
    exact List.ne_nil_of_mem (List.mem_map_of_mem (List.mem_filter.mpr ⟨he, by simpa using hnew⟩))
  apply Collector.listen_block hchart hc.closed _
  intro s hs
  rw [known_sets] at hs
  obtain ⟨e, he, rfl⟩ := List.mem_map.mp hs
  rw [hc.dim_mem, hold]
  exact List.mem_map_of_mem he

theorem listen_printNewdim {old : Limit → List Bytes} {c : Collector} (hc : Knows old c)
    {l : Limit} {e : LimitT} (hnew : e.rulename ∉ old l) (time : ℕ) :
    ∃ d, c.listen (printNewdim (limitName l) time e) = some d ∧
      Knows (Function.update old l (e.rulename :: old l)) d := by
  let d := c.define (limitChart l) [e.rulename]
  have hheader : c.listen [ndChart qmail (some (lit "limit")) (some (limitName l)) (some [])
      (some (lit "Qmail SMTPD " ++ limitName l ++ lit " limit")) (some (lit "# reaches"))
      (some (lit "tcpserver")) (some (lit "qmail.qmail_smtpd_limits")) .line,
      ndDimension e.rulename (some e.rulename) .absolute 1 1 .visible] = some d :=
    Collector.listen_newdim rfl (mt (hc.dim_mem l e.rulename).mp hnew) _ _ _ _ _
  have hblock : d.listen (block (ndBeginTime qmail (some (lit "limit")) (some (limitName l)) time)
      [(e.rulename, e.count)]) = some d := by
    have hchart : limitChart l ∈ d.charts := List.mem_cons_self
    have hclosed : d.filling = none := hc.closed
    apply Collector.listen_block hchart hclosed _
    intro s hs
    rw [List.mem_singleton.mp hs]
    exact List.mem_append_right _ (List.mem_singleton_self _)
  refine ⟨d, (Collector.listen_append hheader _).trans hblock, hc.closed, fun k hk => ?_,
    fun k n => ?_⟩
  · by_cases hkl : k = l
    · simp [d, Collector.define, hkl]
    · rw [Function.update_of_ne hkl] at hk
      exact List.mem_cons_of_mem _ (hc.chart_mem k hk)
  · by_cases hkl : k = l
    · subst hkl
      simp only [d, Collector.define, List.map_cons, List.map_nil, Function.update_self,
        List.mem_append, hc.dim_mem, List.mem_cons, Prod.mk.injEq, true_and, List.not_mem_nil,
        or_false]
      exact or_comm
    · have hcharts : limitChart k ≠ limitChart l := fun h => hkl (limitChart_injective h)
      simp [d, Collector.define, Function.update_of_ne hkl, hc.dim_mem, hcharts]

theorem listen_newdims {old : Limit → List Bytes} {c : Collector} (hc : Knows old c) {l : Limit}
    {limit : List LimitT} (hnodup : (names limit).Nodup) (hnew : ∀ e ∈ limit, e.rulename ∉ old l)
    (time : ℕ) :
    ∃ d, c.listen (limit.flatMap (printNewdim (limitName l) time)) = some d ∧
      Knows (Function.update old l ((names limit).reverse ++ old l)) d := by
  induction limit generalizing old c with
  | nil => exact ⟨c, rfl, by simpa [names] using hc⟩
  | cons e limit ih =>
      obtain ⟨he, hrest⟩ := List.nodup_cons.mp hnodup
      obtain ⟨b, hb, hknows⟩ := listen_printNewdim hc (hnew e (by simp)) time
      have hothers : ∀ v ∈ limit,
          v.rulename ∉ Function.update old l (e.rulename :: old l) l := by
        intro v hv hmem
        rw [Function.update_self] at hmem
        rcases List.mem_cons.mp hmem with heq | hmem
        · exact he (heq ▸ List.mem_map_of_mem hv)
        · exact hnew v (by simp [hv]) hmem
      obtain ⟨d, hd, hknows⟩ := ih hknows hrest hothers
      refine ⟨d, ?_, by simpa [names] using hknows⟩
      rw [List.flatMap_cons, Collector.listen_append hb, hd]

/-- The print of one limit is accepted, and after it the collector has heard of
all its rules. -/
theorem listen_printLimits {old : Limit → List Bytes} {c : Collector} (hc : Knows old c)
    {l : Limit} {limit : List LimitT} (hold : old l = known limit)
    (hnodup : (names limit).Nodup) (time : ℕ) :
    ∃ d, c.listen (printLimits limit (limitName l) time).2 = some d ∧
      Knows (Function.update old l (names limit)) d := by
  have hfirst : c.listen (if ∃ e ∈ limit, e.new = 0 then printKnown (limitName l) time limit
      else []) = some c := by
    split_ifs with hsome
    · exact listen_printKnown hc hold hsome time
    · rfl
  have hnew : (names (limit.filter fun e => e.new ≠ 0)).Nodup :=
    hnodup.sublist (List.filter_sublist.map _)
  have hothers : ∀ e ∈ limit.filter fun e => e.new ≠ 0, e.rulename ∉ old l := by
    intro e he
    obtain ⟨he, hnew⟩ := List.mem_filter.mp he
    rw [hold, mem_known hnodup he]
    simpa using hnew
  obtain ⟨d, hd, hknows⟩ := listen_newdims hc hnew hothers time
  refine ⟨d, ?_, hknows.congr fun k n => ?_⟩
  · rw [printLimits_snd, Collector.listen_append hfirst, hd]
  · by_cases hkl : k = l
    · subst hkl
      have hsplit := KeyedTally.mem_keys_filter LimitT.rulename (fun e => e.new = 0) n limit
      simpa [hold, known, names] using hsplit
    · simp [Function.update_of_ne hkl]

theorem listen_limits {limits : SmtpStatisticsVector} (hnodup : ∀ l, (names (limits l)).Nodup)
    (time : ℕ) {ls : List Limit} (hls : ls.Nodup) {old : Limit → List Bytes} {c : Collector}
    (hc : Knows old c) (hold : ∀ l ∈ ls, old l = known (limits l)) :
    ∃ d, c.listen (ls.flatMap fun l => (printLimits (limits l) (limitName l) time).2) = some d ∧
      Knows (fun l => if l ∈ ls then names (limits l) else old l) d := by
  induction ls generalizing old c with
  | nil => exact ⟨c, rfl, by simpa using hc⟩
  | cons l ls ih =>
      obtain ⟨hl, hls⟩ := List.nodup_cons.mp hls
      obtain ⟨b, hb, hknows⟩ := listen_printLimits hc (hold l (by simp)) (hnodup l) time
      have hothers : ∀ k ∈ ls,
          Function.update old l (names (limits l)) k = known (limits k) := by
        intro k hk
        have hkl : k ≠ l := fun heq => hl (heq ▸ hk)
        rw [Function.update_of_ne hkl]
        exact hold k (by simp [hk])
      obtain ⟨d, hd, hknows⟩ := ih hls hknows hothers
      refine ⟨d, ?_, hknows.congr fun k n => ?_⟩
      · rw [List.flatMap_cons, Collector.listen_append hb, hd]
      · by_cases hkl : k = l
        · subst hkl
          simp [hl]
        · simp [hkl]

theorem known_of_old {limit : List LimitT} (h : ∀ e ∈ limit, e.new = 0) :
    known limit = names limit := by
  rw [known, List.filter_eq_self.mpr fun e he => by simpa using h e he]

/-- A print keeps the rules, and then all of them are known. -/
theorem known_tcpserverlimitsPrint (limits : SmtpStatisticsVector) (time : ℕ) (l : Limit) :
    names ((tcpserverlimitsPrint limits time).1 l) = names (limits l) ∧
      known ((tcpserverlimitsPrint limits time).1 l) = names (limits l) := by
  have hnames : names ((tcpserverlimitsPrint limits time).1 l) = names (limits l) := by
    simp [tcpserverlimitsPrint_fst, names, Function.comp_def]
  refine ⟨hnames, ?_⟩
  rw [← hnames]
  exact known_of_old (by simp [tcpserverlimitsPrint_fst])

theorem listen_tcpserverlimitsPrint {limits : SmtpStatisticsVector} {c : Collector}
    (hc : Knows (fun l => known (limits l)) c) (hnodup : ∀ l, (names (limits l)).Nodup)
    (time : ℕ) :
    ∃ d, c.listen (tcpserverlimitsPrint limits time).2 = some d ∧
      Knows (fun l => known ((tcpserverlimitsPrint limits time).1 l)) d := by
  obtain ⟨d, hd, hknows⟩ := listen_limits hnodup time (show limitOrder.Nodup by decide) hc
    fun l _ => rfl
  refine ⟨d, hd, hknows.congr fun l n => ?_⟩
  have horder : l ∈ limitOrder := by cases l <;> decide
  rw [if_pos horder, (known_tcpserverlimitsPrint limits time l).2]

/-! ### Runs -/

theorem known_append (a b : List LimitT) : known (a ++ b) = known a ++ known b := by
  simp [known, names]

/-- What enters a shared vector is new, and the known rules stay. -/
theorem known_postprocessLimits (aggregated limit : List LimitT) :
    known (postprocessLimits aggregated limit).1 = known aggregated := by
  induction limit generalizing aggregated with
  | nil => rfl
  | cons l limit ih =>
      rw [postprocessLimits]
      cases hentry : addToEntry l aggregated with
      | none =>
          dsimp only
          rw [ih, known_append]
          simp [known, names]
      | some aggregated' =>
          obtain ⟨a, e, b, rfl, -, rfl⟩ := addToEntry_eq_some hentry
          dsimp only
          rw [ih, known_append, known_append]
          by_cases hnew : e.new = 0 <;> simp [known, names, hnew]

theorem known_clearLimits (limit : List LimitT) : known (clearLimits limit) = known limit := by
  rw [known, clearLimits, List.filter_map]
  exact names_clearLimits _

structure Inv (s : State) : Prop where
  nodup : ∀ l, (names (s.aggregated.limits l)).Nodup
  heard : ∃ c, Collector.empty.listen s.stdout = some c ∧
    Knows (fun l => known (s.aggregated.limits l)) c

theorem inv_start : Inv start :=
  ⟨fun _ => List.nodup_nil, Collector.empty, rfl, rfl, fun _ h => absurd rfl h,
    fun _ _ => by simp [Collector.empty, start, known, names]⟩

theorem inv_print {s : State} (h : Inv s) (time : ℕ) : Inv (step s (.print time)) := by
  obtain ⟨c, hc, hknows⟩ := h.heard
  obtain ⟨d, hd, hknows⟩ := listen_tcpserverlimitsPrint hknows h.nodup time
  refine ⟨fun l => ?_, d, (Collector.listen_append hc _).trans hd, hknows⟩
  exact (known_tcpserverlimitsPrint s.aggregated.limits time l).1 ▸ h.nodup l

theorem inv_step {s : State} (h : Inv s) (op : Op) : Inv (step s op) := by
  cases op with
  | postprocess data =>
      refine ⟨fun l => nodup_postprocessLimits _ _ (h.nodup l), ?_⟩
      simp only [step, postprocessData, known_postprocessLimits]
      exact h.heard
  | print time => exact inv_print h time
  | clear =>
      refine ⟨fun l => (names_clearLimits _).symm ▸ h.nodup l, ?_⟩
      simp only [step, tcpserverlimitsClear, known_clearLimits]
      exact h.heard

theorem inv_after (ops : List Op) : Inv (after ops) := by
  induction ops using List.reverseRecOn with
  | nil => exact inv_start
  | append_singleton ops op ih =>
      rw [after, List.foldl_append]
      exact inv_step ih op

/-! ### The names -/

/-- The operation hands the name over for the limit. -/
def Op.HandsOver (l : Limit) (n : Bytes) : Op → Prop
  | .postprocess data => n ∈ names (data.ssv l)
  | _ => False

def Op.IsPrint : Op → Prop
  | .print _ => True
  | _ => False

/-- A shared vector has the rules that were handed over, and the known ones are
those with a print since. -/
theorem names_after (ops : List Op) (l : Limit) (n : Bytes) :
    (n ∈ names ((after ops).aggregated.limits l) ↔ ∃ op ∈ ops, op.HandsOver l n) ∧
      (n ∈ known ((after ops).aggregated.limits l) ↔
        Precedes (Op.HandsOver l n) Op.IsPrint ops) := by
  induction ops using List.reverseRecOn with
  | nil =>
      exact ⟨by simp [after, start, names],
        iff_of_false List.not_mem_nil (not_precedes_nil _ _)⟩
  | append_singleton ops op ih =>
      obtain ⟨hnames, hknown⟩ := ih
      have hstep : after (ops ++ [op]) = step (after ops) op := by simp [after]
      rw [hstep, precedes_concat]
      simp only [List.mem_append, List.mem_singleton, or_and_right, exists_or, exists_eq_left]
      cases op with
      | postprocess data =>
          simp only [step, postprocessData]
          rw [mem_names_postprocessLimits, known_postprocessLimits, hnames, hknown]
          exact ⟨Iff.rfl, by simp [Op.IsPrint]⟩
      | print time =>
          obtain ⟨hsame, hall⟩ :=
            known_tcpserverlimitsPrint (after ops).aggregated.limits time l
          have hmono := @Precedes.exists_mem _ (Op.HandsOver l n) Op.IsPrint ops
          simp only [step]
          rw [hsame, hall, hnames]
          exact ⟨by simp [Op.HandsOver], by simpa [Op.IsPrint] using hmono⟩
      | clear =>
          simp only [step, tcpserverlimitsClear]
          rw [names_clearLimits, known_clearLimits, hnames, hknown]
          exact ⟨by simp [Op.HandsOver], by simp [Op.IsPrint]⟩

/-- Whatever the watchers hand over and however prints and clears come: a shared
vector has the names that were handed over, all distinct; a strict collector
takes all the output, which has one DIMENSION line in the chart of its limit for
each name with a print since it was first handed over, and none for the others,
so that the next print has it; and after a print no rule is new. -/
theorem limit_dimensions (ops : List Op) :
    (∀ l n, n ∈ names ((after ops).aggregated.limits l) ↔ ∃ op ∈ ops, op.HandsOver l n) ∧
      (∀ l, (names ((after ops).aggregated.limits l)).Nodup) ∧
      (∃ c, Collector.empty.listen (after ops).stdout = some c ∧
        (∀ l, ∀ e ∈ (after ops).aggregated.limits l,
          c.dimensions.count (limitChart l, e.rulename) = if e.new = 0 then 1 else 0) ∧
        ∀ l n, c.dimensions.count (limitChart l, n) ≤ 1 ∧
          ((limitChart l, n) ∈ c.dimensions ↔ Precedes (Op.HandsOver l n) Op.IsPrint ops)) ∧
      ∀ time,
        (∀ l, ∀ e ∈ (after (ops ++ [.print time])).aggregated.limits l, e.new = 0) ∧
        ∃ c, Collector.empty.listen (after (ops ++ [.print time])).stdout = some c ∧
          ∀ l n, (∃ op ∈ ops, op.HandsOver l n) →
            c.dimensions.count (limitChart l, n) = 1 := by
  have hinv := inv_after ops
  obtain ⟨c, hc, hknows⟩ := hinv.heard
  have hnodup := Collector.nodup_dimensions List.nodup_nil hc
  refine ⟨fun l n => (names_after ops l n).1, hinv.nodup, ⟨c, hc, fun l e he => ?_,
    fun l n => ⟨List.nodup_iff_count_le_one.mp hnodup _, ?_⟩⟩,
    fun time => ⟨fun l e he => ?_, ?_⟩⟩
  · have hmem : (limitChart l, e.rulename) ∈ c.dimensions ↔ e.new = 0 := by
      rw [hknows.dim_mem, mem_known (hinv.nodup l) he]
    rw [hnodup.count]
    exact if_congr hmem rfl rfl
  · rw [hknows.dim_mem]
    exact (names_after ops l n).2
  · have hlimits : (after (ops ++ [.print time])).aggregated.limits l =
        (tcpserverlimitsPrint (after ops).aggregated.limits time).1 l := by
      simp [after, step]
    rw [hlimits, tcpserverlimitsPrint_fst] at he
    obtain ⟨v, -, rfl⟩ := List.mem_map.mp he
    rfl
  · obtain ⟨d, hd, hknows⟩ := (inv_after (ops ++ [.print time])).heard
    refine ⟨d, hd, fun l n hn => ?_⟩
    have hknown := (names_after (ops ++ [.print time]) l n).2
    rw [(Collector.nodup_dimensions List.nodup_nil hd).count, if_pos]
    rw [hknows.dim_mem, hknown]
    exact precedes_concat.mpr (.inr ⟨hn, trivial⟩)

end NetdataPlugins.LimitDimensions
