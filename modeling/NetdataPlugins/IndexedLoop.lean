import Mathlib.Data.List.Nodup
import Mathlib.Data.Option.Basic

/-!
# A loop over the elements of an array

`forEach` runs a body that may fail over a list, in order. The body is given the
place of the element, and what it makes of it takes this place.
-/
namespace NetdataPlugins.IndexedLoop
variable {α β τ : Type*}

/-- The loop from the `i`-th element on. -/
def forEach (body : ℕ → α → Option α) : ℕ → List α → Option (List α)
  | _, [] => pure []
  | i, a :: as => do
      let a' ← body i a
      let as' ← forEach body (i + 1) as
      pure (a' :: as')

variable {body body' : ℕ → α → Option α} {k : ℕ} {as as' : List α}

theorem forEach_cons {a : α} (h : forEach body k (a :: as) = some as') :
    ∃ b bs, body k a = some b ∧ forEach body (k + 1) as = some bs ∧ as' = b :: bs := by
  simp only [forEach, Option.bind_eq_bind, Option.bind_eq_some_iff, Option.pure_def,
    Option.some.injEq] at h
  obtain ⟨b, hb, bs, hbs, rfl⟩ := h
  exact ⟨b, bs, hb, hbs, rfl⟩

/-- The loop keeps the places. -/
theorem forEach_getElem? (h : forEach body k as = some as') :
    as'.length = as.length ∧
      ∀ i a, as[i]? = some a → ∃ a', body (k + i) a = some a' ∧ as'[i]? = some a' := by
  induction as generalizing k as' with
  | nil =>
      cases h
      simp
  | cons b as ih =>
      obtain ⟨b', bs, hb, hbs, rfl⟩ := forEach_cons h
      obtain ⟨hlen, hrest⟩ := ih hbs
      refine ⟨by simp [hlen], fun i a ha => ?_⟩
      cases i with
      | zero =>
          rw [List.getElem?_cons_zero, Option.some.injEq] at ha
          exact ⟨b', by rw [← ha]; exact hb, rfl⟩
      | succ i =>
          rw [List.getElem?_cons_succ] at ha
          obtain ⟨a', ha', hget⟩ := hrest i a ha
          exact ⟨a', by rw [← ha', Nat.succ_add_eq_add_succ], by simpa using hget⟩

/-- What the loop keeps of each element. -/
theorem forEach_keeps {Q : α → Prop} {g : α → β}
    (hbody : ∀ i a a', Q a → body i a = some a' → Q a' ∧ g a' = g a) (has : ∀ a ∈ as, Q a)
    (h : forEach body k as = some as') : (∀ a ∈ as', Q a) ∧ as'.map g = as.map g := by
  induction as generalizing k as' with
  | nil =>
      cases h
      exact ⟨by simp, rfl⟩
  | cons a as ih =>
      obtain ⟨a', bs, ha', hbs, rfl⟩ := forEach_cons h
      obtain ⟨hQ, hg⟩ := hbody k a a' (has a (by simp)) ha'
      obtain ⟨hall, hmap⟩ := ih (fun b hb => has b (by simp [hb])) hbs
      refine ⟨fun b hb => ?_, by rw [List.map_cons, List.map_cons, hg, hmap]⟩
      rcases List.mem_cons.mp hb with rfl | hb
      · exact hQ
      · exact hall b hb

theorem forEach_map {g : α → β} (hbody : ∀ i a a', body i a = some a' → g a' = g a)
    (h : forEach body k as = some as') : as'.map g = as.map g :=
  (forEach_keeps (fun i a a' (_ : True) ha => ⟨trivial, hbody i a a' ha⟩)
    (fun _ _ => trivial) h).2

theorem forEach_mem (h : forEach body k as = some as') :
    ∀ a' ∈ as', ∃ a ∈ as, ∃ j, body j a = some a' := by
  intro a' ha'
  obtain ⟨hlen, hall⟩ := forEach_getElem? h
  obtain ⟨i, hi⟩ := List.mem_iff_getElem?.mp ha'
  have hlt : i < as.length := hlen ▸ (List.getElem?_eq_some_iff.mp hi).1
  obtain ⟨b, hb, hget⟩ := hall i _ (List.getElem?_eq_getElem hlt)
  rw [hi, Option.some.injEq] at hget
  exact ⟨_, List.getElem_mem hlt, k + i, hget ▸ hb⟩

theorem forEach_congr (h : ∀ j, k ≤ j → ∀ a, body j a = body' j a) :
    forEach body k as = forEach body' k as := by
  induction as generalizing k with
  | nil => rfl
  | cons a as ih =>
      have htail : forEach body (k + 1) as = forEach body' (k + 1) as :=
        ih fun j hj => h j (by omega)
      simp only [forEach, h k (Nat.le_refl k), htail]

/-- A body that can be run on each element, with the right input. -/
theorem forEach_enabled [Inhabited τ] (body : τ → α → Option α)
    (h : ∀ a ∈ as, ∃ x a', body x a = some a') (k : ℕ) :
    ∃ (input : ℕ → τ) (as' : List α), forEach (fun j a => body (input j) a) k as = some as' := by
  induction as generalizing k with
  | nil => exact ⟨fun _ => default, [], rfl⟩
  | cons a as ih =>
      obtain ⟨first, a', ha'⟩ := h a (by simp)
      obtain ⟨others, as', has'⟩ := ih (fun b hb => h b (by simp [hb])) (k + 1)
      refine ⟨fun j => if j = k then first else others j, a' :: as', ?_⟩
      have hrest : forEach (fun j b => body (if j = k then first else others j) b)
          (k + 1) as = some as' := by
        rw [← has']
        exact forEach_congr fun j hj b => by rw [if_neg (by omega)]
      simp [forEach, ha', hrest]

/-! ### Lists of named elements -/

theorem index_unique {g : α → β} {l : List α} (h : (l.map g).Nodup) {i j : ℕ} {a b : α}
    (ha : l[i]? = some a) (hb : l[j]? = some b) (hab : g a = g b) : i = j := by
  have hi : i < (l.map g).length := by
    rw [List.length_map]
    exact (List.getElem?_eq_some_iff.mp ha).1
  apply (List.getElem?_inj hi h).mp
  rw [List.getElem?_map, List.getElem?_map, ha, hb, Option.map_some, Option.map_some, hab]

theorem map_set_same {g : α → β} {l : List α} {i : ℕ} {a b : α} (ha : l[i]? = some a)
    (hg : g b = g a) : (l.set i b).map g = l.map g := by
  rw [List.map_set, hg]
  apply List.ext_getElem?
  intro j
  rcases eq_or_ne i j with rfl | hne
  · rw [List.getElem?_set_self', List.getElem?_map, ha]
    rfl
  · rw [List.getElem?_set_ne hne]

end NetdataPlugins.IndexedLoop
