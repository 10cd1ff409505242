import NetdataPlugins.DeclaredOnce

/-!
# What output leaves alone

Output that defines only some charts changes nothing that a strict collector
knows about the others. So programs that write to different charts can share a
collector, and each of them can be looked at alone.
-/
namespace NetdataPlugins.DeclaredOnce
open MemoryBlock Netdata Runs

namespace Collector

/-- The two know the same about some charts. -/
structure Agree (own : Bytes → Prop) (c d : Collector) : Prop where
  charts : ∀ chart, own chart → (chart ∈ c.charts ↔ chart ∈ d.charts)
  dimensions : ∀ chart id, own chart →
    ((chart, id) ∈ c.dimensions ↔ (chart, id) ∈ d.dimensions)

theorem Agree.refl (own : Bytes → Prop) (c : Collector) : Agree own c c :=
  ⟨fun _ _ => Iff.rfl, fun _ _ _ => Iff.rfl⟩

theorem Agree.trans {own : Bytes → Prop} {c d e : Collector} (hcd : Agree own c d)
    (hde : Agree own d e) : Agree own c e :=
  ⟨fun chart h => (hcd.charts chart h).trans (hde.charts chart h),
    fun chart id h => (hcd.dimensions chart id h).trans (hde.dimensions chart id h)⟩

theorem Agree.mono {own own' : Bytes → Prop} {c d : Collector} (h : Agree own c d)
    (hsub : ∀ chart, own' chart → own chart) : Agree own' c d :=
  ⟨fun chart hchart => h.charts chart (hsub chart hchart),
    fun chart id hchart => h.dimensions chart id (hsub chart hchart)⟩

/-- No DIMENSION line comes before the first CHART line. -/
def Framed : List Command → Prop
  | [] => True
  | .chart _ _ _ _ _ _ _ :: _ => True
  | .dimension _ _ _ _ _ _ :: _ => False
  | _ :: out => Framed out

theorem Framed.block (id : Bytes) (time : Option ℕ) (sets : List (Bytes × ℤ)) :
    Framed (block (.begin id time) sets) := by
  show Framed (sets.map (fun s => ndSet s.1 s.2) ++ [ndEnd])
  induction sets with
  | nil => trivial
  | cons s sets ih => exact ih

theorem Framed.append {a b : List Command} (ha : Framed a) (hb : Framed b) : Framed (a ++ b) := by
  induction a with
  | nil => exact hb
  | cons cmd a ih =>
      cases cmd with
      | chart => trivial
      | dimension => exact ha.elim
      | begin => exact ih ha
      | set => exact ih ha
      | close => exact ih ha

theorem framed_flatMap {α : Type*} {f : α → List Command} (h : ∀ x, Framed (f x))
    (xs : List α) : Framed (xs.flatMap f) := by
  induction xs with
  | nil => trivial
  | cons x xs ih => exact (h x).append ih

/-- The next DIMENSION line is for a chart that is not one of these. -/
def Elsewhere (own : Bytes → Prop) (c : Collector) (out : List Command) : Prop :=
  Framed out ∨ ∀ chart, c.defining = some chart → ¬ own chart

/-- A line changes what is known about the chart it defines, or whose dimension
it declares. -/
theorem accept_frame {own : Bytes → Prop} {c d : Collector} {cmd : Command}
    {out : List Command} (h : c.accept cmd = some d)
    (hdefined : ∀ chart ∈ defined [cmd], ¬ own chart) (hstart : Elsewhere own c (cmd :: out)) :
    Agree own c d ∧ Elsewhere own d out := by
  cases cmd with
  | chart id =>
      cases h
      have hid : ¬ own id := hdefined id (by simp [defined])
      refine ⟨⟨fun chart hown => ?_, fun _ _ _ => Iff.rfl⟩, .inr fun chart hchart => ?_⟩
      · have hne : chart ≠ id := fun heq => hid (heq ▸ hown)
        simp [hne]
      · exact Option.some.inj hchart ▸ hid
  | dimension id name alg multiplier divisor vis =>
      simp only [accept, Option.bind_eq_bind, Option.bind_eq_some_iff,
        Option.ite_none_left_eq_some, Option.some_inj] at h
      obtain ⟨chart, hchart, -, rfl⟩ := h
      have hdefining := hstart.resolve_left not_false
      refine ⟨⟨fun _ _ => Iff.rfl, fun other id' hown => ?_⟩, .inr hdefining⟩
      have hne : other ≠ chart := fun heq => hdefining chart hchart (heq ▸ hown)
      simp [hne]
  | begin id time =>
      simp only [accept, Option.ite_none_right_eq_some, Option.some_inj] at h
      obtain ⟨-, rfl⟩ := h
      exact ⟨⟨fun _ _ => Iff.rfl, fun _ _ _ => Iff.rfl⟩, hstart⟩
  | set name value =>
      simp only [accept, Option.bind_eq_bind, Option.bind_eq_some_iff,
        Option.ite_none_right_eq_some, Option.some_inj] at h
      obtain ⟨chart, -, -, rfl⟩ := h
      exact ⟨⟨fun _ _ => Iff.rfl, fun _ _ _ => Iff.rfl⟩, hstart⟩
  | close =>
      simp only [accept, Option.ite_none_right_eq_some, Option.some_inj] at h
      obtain ⟨-, rfl⟩ := h
      exact ⟨⟨fun _ _ => Iff.rfl, fun _ _ _ => Iff.rfl⟩, hstart⟩

/-- Output leaves the charts alone that it does not define. -/
theorem listen_frame {own : Bytes → Prop} {c d : Collector} {out : List Command}
    (h : c.listen out = some d) (hdefined : ∀ chart ∈ defined out, ¬ own chart)
    (hstart : Elsewhere own c out) : Agree own c d := by
  induction out generalizing c with
  | nil =>
      cases h
      exact Agree.refl own _
  | cons cmd out ih =>
      rw [listen_cons, Option.bind_eq_some_iff] at h
      obtain ⟨e, he, h⟩ := h
      have hcons : defined (cmd :: out) = defined [cmd] ++ defined out := defined_append [cmd] out
      rw [hcons] at hdefined
      obtain ⟨hagree, hrest⟩ := accept_frame he
        (fun chart hchart => hdefined chart (List.mem_append_left _ hchart)) hstart
      exact hagree.trans
        (ih h (fun chart hchart => hdefined chart (List.mem_append_right _ hchart)) hrest)

/-- What is accepted is accepted up to any line. -/
theorem listen_take {c d : Collector} {out : List Command} (h : c.listen out = some d) (n : ℕ) :
    ∃ e, c.listen (out.take n) = some e := by
  rw [← List.take_append_drop n out, listen, run_append, Option.bind_eq_some_iff] at h
  obtain ⟨e, he, -⟩ := h
  exact ⟨e, he⟩

/-- The collector when the open chart is closed. -/
def shut (c : Collector) : Collector := { c with filling := none }

theorem shut_of_closed {c : Collector} (h : c.filling = none) : c.shut = c := by
  obtain ⟨charts, dimensions, defining, filling⟩ := c
  cases h
  rfl

/-! ### Fixed dimensions -/

/-- The dimensions that are declared, with their charts. -/
def declared : Option Bytes → List Command → List (Bytes × Bytes)
  | _, [] => []
  | _, .chart id _ _ _ _ _ _ :: out => declared (some id) out
  | some chart, .dimension id _ _ _ _ _ :: out => (chart, id) :: declared (some chart) out
  | cur, _ :: out => declared cur out

def isHeader : Command → Bool
  | .chart _ _ _ _ _ _ _ => true
  | .dimension _ _ _ _ _ _ => true
  | _ => false

/-- The collector knows these dimensions and their charts. -/
def Knows (c : Collector) (rows : List (Bytes × Bytes)) : Prop :=
  ∀ r ∈ rows, r.1 ∈ c.charts ∧ r ∈ c.dimensions

theorem Knows.congr {own : Bytes → Prop} {c d : Collector} {rows : List (Bytes × Bytes)}
    (h : c.Knows rows) (hagree : Agree own c d) (hrows : ∀ r ∈ rows, own r.1) : d.Knows rows :=
  fun r hr => ⟨(hagree.charts _ (hrows r hr)).mp (h r hr).1,
    (hagree.dimensions _ _ (hrows r hr)).mp (h r hr).2⟩

/-- The current chart is known. -/
def Defines (c : Collector) (cur : Option Bytes) : Prop :=
  c.defining = cur ∧ ∀ chart ∈ cur, chart ∈ c.charts

/-- A header is accepted if its dimensions are new, and declares them. -/
theorem listen_rows {out : List Command} (hheader : ∀ cmd ∈ out, isHeader cmd = true)
    {c : Collector} (cur : Option Bytes) (hcur : cur = none → Framed out)
    (hdefines : cur ≠ none → c.Defines cur) (hnodup : (declared cur out).Nodup)
    (hnew : ∀ r ∈ declared cur out, r ∉ c.dimensions) :
    ∃ d, c.listen out = some d ∧ d.filling = c.filling ∧ d.Knows (declared cur out) ∧
      (∀ chart ∈ c.charts, chart ∈ d.charts) ∧ d.dimensions = c.dimensions ++ declared cur out := by
  induction out generalizing c cur with
  | nil => exact ⟨c, rfl, rfl, by simp [Knows, declared], fun _ h => h, by simp [declared]⟩
  | cons cmd out ih =>
      have hrest : ∀ cmd ∈ out, isHeader cmd = true := fun cmd h =>
        hheader cmd (List.mem_cons_of_mem _ h)
      cases cmd with
      | chart id name title units family context type =>
          obtain ⟨d, hd, hfilling, hknows, hcharts, hdims⟩ := ih
            (c := { c with charts := id :: c.charts, defining := some id }) hrest (some id)
            (fun h => absurd h (Option.some_ne_none _)) (fun _ => ⟨rfl, by simp⟩) hnodup hnew
          exact ⟨d, by rw [listen_cons]; exact hd, hfilling, hknows,
            fun chart h => hcharts chart (List.mem_cons_of_mem _ h), hdims⟩
      | dimension id name alg multiplier divisor vis =>
          cases cur with
          | none => exact (hcur rfl).elim
          | some chart =>
              obtain ⟨hdefining, hknown⟩ := hdefines (Option.some_ne_none _)
              obtain ⟨hfirst, hothers⟩ := List.nodup_cons.mp hnodup
              obtain ⟨d, hd, hfilling, hknows, hcharts, hdims⟩ := ih
                (c := { c with dimensions := c.dimensions ++ [(chart, id)] }) hrest (some chart)
                (fun h => absurd h (Option.some_ne_none _)) (fun _ => ⟨hdefining, hknown⟩) hothers
                (fun r hr hmem => (List.mem_append.mp hmem).elim
                  (hnew r (List.mem_cons_of_mem _ hr))
                  fun heq => hfirst (List.mem_singleton.mp heq ▸ hr))
              refine ⟨d, ?_, hfilling, fun r hr => ?_, hcharts, by simpa [declared] using hdims⟩
              · rw [listen_cons, accept_dimension hdefining (hnew _ List.mem_cons_self)]
                exact hd
              · rcases List.mem_cons.mp hr with rfl | hr
                · exact ⟨hcharts _ (hknown _ rfl), by simp [hdims]⟩
                · exact hknows r hr
      | _ => exact absurd (hheader _ List.mem_cons_self) (by simp [isHeader])

/-! ### Assertions -/

/-- What depends on some charts only. -/
def Stable (own : Bytes → Prop) (A : Collector → Prop) : Prop :=
  ∀ c d, Agree own c d → A c → A d

theorem Stable.and {own : Bytes → Prop} {A B : Collector → Prop} (hA : Stable own A)
    (hB : Stable own B) : Stable own fun c => A c ∧ B c :=
  fun c d hagree h => ⟨hA c d hagree h.1, hB c d hagree h.2⟩

theorem Stable.mono {own own' : Bytes → Prop} {A : Collector → Prop} (hA : Stable own A)
    (hsub : ∀ chart, own chart → own' chart) : Stable own' A :=
  fun c d hagree => hA c d (hagree.mono hsub)

/-- Output for some charts that takes a collector from `A` to `B`. -/
structure Takes (own : Bytes → Prop) (A : Collector → Prop) (out : List Command)
    (B : Collector → Prop) : Prop where
  framed : Framed out
  owned : ∀ chart ∈ defined out, own chart
  listen : ∀ c, c.filling = none → A c → ∃ d, c.listen out = some d ∧ d.filling = none ∧ B d

namespace Takes
variable {own own' other : Bytes → Prop} {A A' B B' C Q : Collector → Prop}
  {out out' : List Command}

theorem nil (h : ∀ c, A c → B c) : Takes own A [] B :=
  ⟨trivial, by simp [defined], fun c hc hA => ⟨c, rfl, hc, h c hA⟩⟩

theorem append (h : Takes own A out B) (h' : Takes own B out' C) :
    Takes own A (out ++ out') C := by
  refine ⟨h.framed.append h'.framed, fun chart hchart => ?_, fun c hc hA => ?_⟩
  · rw [defined_append] at hchart
    exact (List.mem_append.mp hchart).elim (h.owned chart) (h'.owned chart)
  · obtain ⟨d, hd, hclosed, hB⟩ := h.listen c hc hA
    obtain ⟨e, he, hclosed, hC⟩ := h'.listen d hclosed hB
    exact ⟨e, (listen_append hd out').trans he, hclosed, hC⟩

theorem mono (h : Takes own A out B) (hown : ∀ chart, own chart → own' chart)
    (hpre : ∀ c, A' c → A c) (hpost : ∀ c, B c → B' c) : Takes own' A' out B' := by
  refine ⟨h.framed, fun chart hchart => hown chart (h.owned chart hchart), fun c hc hA => ?_⟩
  obtain ⟨d, hd, hclosed, hB⟩ := h.listen c hc (hpre c hA)
  exact ⟨d, hd, hclosed, hpost d hB⟩

/-- What depends on other charts stays. -/
theorem frame (h : Takes own A out B) (hQ : Stable other Q)
    (hdisjoint : ∀ chart, own chart → ¬ other chart) :
    Takes own (fun c => A c ∧ Q c) out fun c => B c ∧ Q c := by
  refine ⟨h.framed, h.owned, fun c hc hAQ => ?_⟩
  obtain ⟨d, hd, hclosed, hB⟩ := h.listen c hc hAQ.1
  have hagree : Agree other c d := listen_frame hd
    (fun chart hchart => hdisjoint chart (h.owned chart hchart)) (.inl h.framed)
  exact ⟨d, hd, hclosed, hB, hQ c d hagree hAQ.2⟩

/-- Parts with charts of their own, one after the other. -/
theorem flatMap {α : Type*} {xs : List α} {own : α → Bytes → Prop}
    {A B : α → Collector → Prop} {out : α → List Command}
    (h : ∀ x ∈ xs, Takes (own x) (A x) (out x) (B x)) (hA : ∀ x, Stable (own x) (A x))
    (hB : ∀ x, Stable (own x) (B x))
    (hdisjoint : xs.Pairwise fun x y => ∀ chart, own x chart → ¬ own y chart) :
    Takes (fun chart => ∃ x ∈ xs, own x chart) (fun c => ∀ x ∈ xs, A x c) (xs.flatMap out)
      fun c => ∀ x ∈ xs, B x c := by
  induction xs with
  | nil => exact nil fun _ _ => by simp
  | cons x xs ih =>
      obtain ⟨hfirst, hrest⟩ := List.pairwise_cons.mp hdisjoint
      have hothers : Stable (fun chart => ∃ y ∈ xs, own y chart) fun c => ∀ y ∈ xs, A y c :=
        fun c d hagree hc y hy => hA y c d (hagree.mono fun chart hchart => ⟨y, hy, hchart⟩)
          (hc y hy)
      have hhead := (h x (by simp)).frame hothers fun chart hx ⟨y, hy, hchart⟩ =>
        hfirst y hy chart hx hchart
      have htail := (ih (fun y hy => h y (by simp [hy])) hrest).frame (hB x)
        fun chart ⟨y, hy, hchart⟩ hx => hfirst y hy chart hx hchart
      rw [List.flatMap_cons]
      refine append (B := fun c => (∀ y ∈ xs, A y c) ∧ B x c) (hhead.mono ?_ ?_ ?_)
        (htail.mono ?_ ?_ ?_)
      · exact fun chart hx => ⟨x, by simp, hx⟩
      · exact fun c hc => ⟨hc x (by simp), fun y hy => hc y (by simp [hy])⟩
      · exact fun c hc => hc.symm
      · exact fun chart ⟨y, hy, hchart⟩ => ⟨y, by simp [hy], hchart⟩
      · exact fun c hc => hc
      · rintro c ⟨hc, hx⟩ y hy
        rcases List.mem_cons.mp hy with rfl | hy
        · exact hx
        · exact hc y hy

end Takes

/-! ### Charts with fixed dimensions -/

/-- No dimension of these charts is declared. -/
def Unheard (own : Bytes → Prop) (c : Collector) : Prop :=
  ∀ r ∈ c.dimensions, ¬ own r.1

theorem stable_unheard (own : Bytes → Prop) : Stable own (Unheard own) :=
  fun _ _ hagree h r hr hown => h r ((hagree.dimensions r.1 r.2 hown).mpr hr) hown

theorem stable_knows {own : Bytes → Prop} {rows : List (Bytes × Bytes)}
    (hrows : ∀ r ∈ rows, own r.1) : Stable own fun c => c.Knows rows :=
  fun _ _ hagree h => h.congr hagree hrows

theorem declared_owned {own : Bytes → Prop} {out : List Command} {cur : Option Bytes}
    (hcur : ∀ chart ∈ cur, own chart) (h : ∀ chart ∈ defined out, own chart) :
    ∀ r ∈ declared cur out, own r.1 := by
  induction out generalizing cur with
  | nil => simp [declared]
  | cons cmd out ih =>
      have hrest (hsub : defined out ⊆ defined (cmd :: out)) {cur : Option Bytes}
          (hcur : ∀ chart ∈ cur, own chart) : ∀ r ∈ declared cur out, own r.1 :=
        ih hcur fun chart hchart => h chart (hsub hchart)
      cases cmd with
      | chart id =>
          apply hrest (List.subset_cons_self _ _)
          intro chart hchart
          exact Option.mem_some_iff.mp hchart ▸ h id (by simp [defined])
      | dimension id =>
          cases cur with
          | none => exact hrest (List.Subset.refl _) hcur
          | some chart =>
              intro r hr
              rcases List.mem_cons.mp hr with rfl | hr
              · exact hcur chart rfl
              · exact hrest (List.Subset.refl _) hcur r hr
      | _ => cases cur <;> exact hrest (List.Subset.refl _) hcur

/-- The header of some charts declares their dimensions, and there are no others. -/
theorem takes_header {own : Bytes → Prop} {out : List Command}
    (hheader : out.all isHeader = true) (hframed : Framed out)
    (howned : ∀ chart ∈ defined out, own chart) (hnodup : (declared none out).Nodup) :
    Takes own (Unheard own) out fun c => c.Knows (declared none out) ∧
      ∀ r ∈ c.dimensions, own r.1 → r ∈ declared none out := by
  refine ⟨hframed, howned, fun c hc hunheard => ?_⟩
  have hnew : ∀ r ∈ declared none out, r ∉ c.dimensions := fun r hr hmem =>
    hunheard r hmem (declared_owned (by simp) howned r hr)
  obtain ⟨d, hd, hfilling, hknows, -, hdims⟩ := listen_rows (List.all_eq_true.mp hheader) none
    (fun _ => hframed) (fun h => absurd rfl h) hnodup hnew
  refine ⟨d, hd, hfilling.trans hc, hknows, fun r hr hown => ?_⟩
  rw [hdims] at hr
  exact (List.mem_append.mp hr).resolve_left fun hmem => hunheard r hmem hown

/-- A block of a chart. -/
theorem takes_block {own : Bytes → Prop} {rows : List (Bytes × Bytes)} {id : Bytes}
    (hid : ∃ r ∈ rows, r.1 = id) (time : Option ℕ) {sets : List (Bytes × ℤ)}
    (hsets : ∀ s ∈ sets, (id, s.1) ∈ rows) :
    Takes own (fun c => c.Knows rows) (block (.begin id time) sets) fun c => c.Knows rows := by
  refine ⟨Framed.block id time sets, by simp [defined_block], fun c hc hknows => ?_⟩
  obtain ⟨r, hr, rfl⟩ := hid
  exact ⟨c, listen_block (hknows r hr).1 hc time fun s hs => (hknows _ (hsets s hs)).2, hc, hknows⟩

/-- Dimensions by charts, whose names are put together. -/
def rowsOf (F : Bytes → Bytes) (rows : List (Bytes × Bytes)) : List (Bytes × Bytes) :=
  rows.map fun r => (F r.1, r.2)

theorem mem_rowsOf {F : Bytes → Bytes} {rows : List (Bytes × Bytes)} {id i : Bytes}
    (h : (id, i) ∈ rows) : (F id, i) ∈ rowsOf F rows :=
  List.mem_map_of_mem (f := fun r : Bytes × Bytes => (F r.1, r.2)) h

theorem nodup_rowsOf {F : Bytes → Bytes} (hF : Function.Injective F)
    {rows : List (Bytes × Bytes)} (h : rows.Nodup) : (rowsOf F rows).Nodup :=
  h.map fun _ _ hab => Prod.ext (hF (Prod.mk.inj hab).1) (Prod.mk.inj hab).2

/-- A block with the dimensions `ids` of a chart. -/
theorem takes_rows {own : Bytes → Prop} {F : Bytes → Bytes} {rows : List (Bytes × Bytes)}
    {id : Bytes} (ids : List Bytes) (hids : ids ≠ [] ∧ ∀ i ∈ ids, (id, i) ∈ rows)
    (time : Option ℕ) {sets : List (Bytes × ℤ)} (hsets : sets.map Prod.fst = ids) :
    Takes own (fun c => c.Knows (rowsOf F rows)) (block (.begin (F id) time) sets)
      fun c => c.Knows (rowsOf F rows) := by
  have hrow (i : Bytes) (hi : i ∈ ids) : (F id, i) ∈ rowsOf F rows := mem_rowsOf (hids.2 i hi)
  obtain ⟨i, hi⟩ := List.exists_mem_of_ne_nil _ hids.1
  exact takes_block ⟨(F id, i), hrow i hi, rfl⟩ time fun s hs =>
    hrow s.1 (hsets ▸ List.mem_map_of_mem hs)

end Collector
end NetdataPlugins.DeclaredOnce
