import Mathlib.Data.Int.Notation
import Mathlib.Data.List.Basic

/-!
# Runs of a partial step function

`exec s a` is the state after the step `a` from `s`, and `none` where the step
cannot be taken. A run takes a list of steps. A condition may look at the state
a step is taken from; `Along` says that every step of a run meets it there. An
invariant that each such step preserves holds wherever the run leads. `Precedes`
speaks of the list of steps alone.
-/
namespace NetdataPlugins.Runs
variable {σ ι : Type*} (exec : σ → ι → Option σ)

def run : σ → List ι → Option σ
  | s, [] => some s
  | s, a :: as => (exec s a).bind fun t => run t as

def Along (C : σ → ι → Prop) : σ → List ι → Prop
  | _, [] => True
  | s, a :: as => C s a ∧ ∀ t, exec s a = some t → Along C t as

variable {exec}

theorem run_append (s : σ) (as bs : List ι) :
    run exec s (as ++ bs) = (run exec s as).bind fun t => run exec t bs := by
  induction as generalizing s with
  | nil => rfl
  | cons a as ih =>
      cases h : exec s a <;> simp [run, h, ih]

/-- A run of steps that can be taken from every state. -/
theorem exists_run {as : List ι} (h : ∀ a ∈ as, ∀ s, ∃ t, exec s a = some t) (s : σ) :
    ∃ t, run exec s as = some t := by
  induction as generalizing s with
  | nil => exact ⟨s, rfl⟩
  | cons a as ih =>
      obtain ⟨u, hu⟩ := h a List.mem_cons_self s
      obtain ⟨t, ht⟩ := ih (fun b hb => h b (List.mem_cons_of_mem a hb)) u
      exact ⟨t, by rw [run, hu, Option.bind_some, ht]⟩

/-- What every step of one kind raises by one counts the steps of this kind. -/
theorem run_count {m : σ → ℤ} {P : ι → Prop} [DecidablePred P]
    (hstep : ∀ s a t, exec s a = some t → m t = m s + if P a then 1 else 0) {s t : σ}
    {as : List ι} (hr : run exec s as = some t) : m t = m s + (as.countP fun a => P a : ℕ) := by
  induction as generalizing s with
  | nil =>
      cases hr
      simp
  | cons a as ih =>
      obtain ⟨u, hu, hr⟩ := Option.bind_eq_some_iff.mp hr
      rw [ih hr, hstep s a u hu]
      by_cases h : P a
      · rw [if_pos h, List.countP_cons_of_pos (by simpa using h)]
        omega
      · rw [if_neg h, List.countP_cons_of_neg (by simpa using h)]
        omega

theorem along_append {C : σ → ι → Prop} {s : σ} {as bs : List ι} :
    Along exec C s (as ++ bs) ↔
      Along exec C s as ∧ ∀ t, run exec s as = some t → Along exec C t bs := by
  induction as generalizing s with
  | nil => simp [Along, run]
  | cons a as ih =>
      simp only [List.cons_append, Along, run, ih, Option.bind_eq_some_iff]
      constructor
      · rintro ⟨ha, hrest⟩
        exact ⟨⟨ha, fun t ht => (hrest t ht).1⟩, fun u ⟨t, ht, hu⟩ => (hrest t ht).2 u hu⟩
      · rintro ⟨⟨ha, has⟩, hbs⟩
        exact ⟨ha, fun t ht => ⟨has t ht, fun u hu => hbs u ⟨t, ht, hu⟩⟩⟩

section Invariants
variable {I : σ → Prop} {C D : σ → ι → Prop}

theorem run_invariant (hstep : ∀ s a t, I s → C s a → exec s a = some t → I t)
    {s t : σ} {as : List ι} (hs : I s) (hc : Along exec C s as)
    (hr : run exec s as = some t) : I t := by
  induction as generalizing s with
  | nil =>
      cases hr
      exact hs
  | cons a as ih =>
      simp only [run, Option.bind_eq_some_iff] at hr
      obtain ⟨u, hu, hr⟩ := hr
      exact ih (hstep s a u hs hc.1 hu) (hc.2 u hu) hr

theorem along_of_mem {as : List ι} (h : ∀ a ∈ as, ∀ s, C s a) (s : σ) : Along exec C s as := by
  induction as generalizing s with
  | nil => trivial
  | cons a as ih =>
      have hrest := fun b hb => h b (List.mem_cons_of_mem a hb)
      exact ⟨h a List.mem_cons_self s, fun t _ => ih hrest t⟩

/-- An invariant that every step preserves. -/
theorem run_preserves (hstep : ∀ s a t, I s → exec s a = some t → I t) {s t : σ} {as : List ι}
    (hs : I s) (hr : run exec s as = some t) : I t :=
  run_invariant (fun s a t hI (_ : True) => hstep s a t hI) hs
    (along_of_mem (fun _ _ _ => trivial) s) hr

/-- Under an invariant two conditions may be compared state by state. -/
theorem along_congr (hstep : ∀ s a t, I s → exec s a = some t → I t)
    (h : ∀ s a, I s → (C s a ↔ D s a)) {s : σ} (hs : I s) (as : List ι) :
    Along exec C s as ↔ Along exec D s as := by
  induction as generalizing s with
  | nil => exact Iff.rfl
  | cons a as ih =>
      simp only [Along, h s a hs]
      exact and_congr_right fun _ =>
        forall₂_congr fun t ht => ih (hstep s a t hs ht)

end Invariants

/-- Some step of the one kind comes before some step of the other. -/
def Precedes (p q : ι → Prop) (as : List ι) : Prop := ∃ a b, [a, b].Sublist as ∧ p a ∧ q b

theorem not_precedes_nil (p q : ι → Prop) : ¬ Precedes p q [] := by
  rintro ⟨a, b, hsub, -, -⟩
  exact absurd hsub.length_le (by simp)

theorem Precedes.exists_mem {p q : ι → Prop} {as : List ι} (h : Precedes p q as) :
    ∃ a ∈ as, p a := by
  obtain ⟨a, b, hsub, ha, -⟩ := h
  exact ⟨a, hsub.subset List.mem_cons_self, ha⟩

theorem precedes_concat {p q : ι → Prop} {as : List ι} {a : ι} :
    Precedes p q (as ++ [a]) ↔ Precedes p q as ∨ (∃ b ∈ as, p b) ∧ q a := by
  constructor
  · rintro ⟨b, c, hsub, hb, hc⟩
    obtain ⟨l, r, hlr, hl, hr⟩ := List.sublist_append_iff.mp hsub
    rcases List.sublist_cons_iff.mp hr with hnil | ⟨r', rfl, hnil⟩
    · obtain rfl := List.sublist_nil.mp hnil
      rw [List.append_nil] at hlr
      exact .inl ⟨b, c, hlr ▸ hl, hb, hc⟩
    · obtain rfl := List.sublist_nil.mp hnil
      obtain ⟨rfl, rfl⟩ : l = [b] ∧ a = c := by
        have hlast := List.append_inj' (show [b] ++ [c] = l ++ [a] from hlr) rfl
        exact ⟨hlast.1.symm, (List.cons.inj hlast.2).1.symm⟩
      exact .inr ⟨⟨b, List.singleton_sublist.mp hl, hb⟩, hc⟩
  · rintro (⟨b, c, hsub, hb, hc⟩ | ⟨⟨b, hmem, hb⟩, hq⟩)
    · exact ⟨b, c, hsub.trans (List.sublist_append_left _ _), hb, hc⟩
    · exact ⟨b, a, (List.singleton_sublist.mpr hmem).append (List.Sublist.refl [a]), hb, hq⟩

end NetdataPlugins.Runs
