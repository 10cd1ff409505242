import Mathlib.Algebra.BigOperators.Group.List.Basic
import Mathlib.Algebra.Order.Ring.Int
import Mathlib.Data.List.Nodup
import Mathlib.Data.Finset.Card
import Mathlib.Data.Finset.Dedup

/-!
# Counts kept by key

A list of entries holds a count for each of a set of keys. A key may have more
than one entry; its tally is the sum of their counts. Raising one entry raises
one tally, and with one entry for a key the tally is its count.

The last part is about the keys that such a list collects when a key is
appended unless it is the last one: repetitions collapse, and the keys stay
distinct exactly when none returns after another.
-/
namespace NetdataPlugins.KeyedTally
variable {ε κ : Type*} [DecidableEq κ] (key : ε → κ) (count : ε → ℤ)

def tally (k : κ) (entries : List ε) : ℤ :=
  (entries.map fun e => if key e = k then count e else 0).sum

variable {key count}

@[simp] theorem tally_nil (k : κ) : tally key count k [] = 0 := rfl

@[simp] theorem tally_cons (k : κ) (e : ε) (entries : List ε) :
    tally key count k (e :: entries) =
      (if key e = k then count e else 0) + tally key count k entries := by
  simp [tally]

@[simp] theorem tally_append (k : κ) (a b : List ε) :
    tally key count k (a ++ b) = tally key count k a + tally key count k b := by
  simp [tally]

theorem tally_perm (k : κ) {a b : List ε} (h : a.Perm b) :
    tally key count k a = tally key count k b :=
  (h.map _).sum_eq

/-- Raising the count of one entry. -/
theorem tally_raise {e e' : ε} {d : ℤ} (hkey : key e' = key e) (hcount : count e' = count e + d)
    (k : κ) (a b : List ε) :
    tally key count k (a ++ e' :: b) =
      tally key count k (a ++ e :: b) + if key e = k then d else 0 := by
  simp only [tally_append, tally_cons, hkey, hcount]
  split_ifs <;> omega

theorem tally_map_zero {f : ε → ε} (hcount : ∀ e, count (f e) = 0) (k : κ) (entries : List ε) :
    tally key count k (entries.map f) = 0 := by
  induction entries with
  | nil => rfl
  | cons e entries ih => simp [hcount, ih]

theorem tally_of_notMem {k : κ} {entries : List ε} (h : k ∉ entries.map key) :
    tally key count k entries = 0 := by
  induction entries with
  | nil => rfl
  | cons e entries ih =>
      simp only [List.map_cons, List.mem_cons, not_or] at h
      rw [tally_cons, if_neg (Ne.symm h.1), ih h.2, add_zero]

theorem tally_of_nodup {entries : List ε} (h : (entries.map key).Nodup) {e : ε}
    (he : e ∈ entries) : tally key count (key e) entries = count e := by
  induction entries with
  | nil => cases he
  | cons a entries ih =>
      obtain ⟨ha, hnodup⟩ := List.nodup_cons.mp h
      rw [tally_cons]
      rcases List.mem_cons.mp he with rfl | he
      · rw [if_pos rfl, tally_of_notMem ha, add_zero]
      · have hne : key a ≠ key e := fun heq => ha (heq ▸ List.mem_map_of_mem he)
        rw [if_neg hne, ih hnodup he, zero_add]

variable (count) in
/-- With distinct keys, a key has at most one count, and this is its tally. -/
theorem counts_of_nodup {entries : List ε} (h : (entries.map key).Nodup) (k : κ) :
    (entries.filterMap fun e => if key e = k then some (count e) else none) =
      if k ∈ entries.map key then [tally key count k entries] else [] := by
  induction entries with
  | nil => rfl
  | cons a entries ih =>
      obtain ⟨ha, hnodup⟩ := List.nodup_cons.mp h
      have ih := ih hnodup
      by_cases hk : key a = k
      · subst hk
        rw [if_neg ha] at ih
        simp [ih, tally_of_notMem ha]
      · simp [hk, ih, Ne.symm hk]

omit [DecidableEq κ] in
/-- With distinct keys, the key of an entry is found again only with the entry. -/
theorem key_mem_filter {entries : List ε} (h : (entries.map key).Nodup) {e : ε}
    (he : e ∈ entries) (p : ε → Bool) : key e ∈ (entries.filter p).map key ↔ p e := by
  constructor
  · intro hmem
    obtain ⟨e', he', hkey⟩ := List.mem_map.mp hmem
    obtain ⟨he', hp⟩ := List.mem_filter.mp he'
    exact List.inj_on_of_nodup_map h he' he hkey ▸ hp
  · exact fun hp => List.mem_map_of_mem (List.mem_filter.mpr ⟨he, hp⟩)

omit [DecidableEq κ] in
/-- A key belongs to an entry that the filter drops, or to one that it keeps. -/
theorem mem_keys_filter (f : ε → κ) (p : ε → Prop) [DecidablePred p] (k : κ) (entries : List ε) :
    k ∈ (entries.filter fun e => ¬ p e).map f ∨ k ∈ (entries.filter fun e => p e).map f ↔
      k ∈ entries.map f := by
  simp only [List.mem_map, List.mem_filter, decide_eq_true_eq]
  constructor
  · rintro (⟨e, ⟨he, -⟩, rfl⟩ | ⟨e, ⟨he, -⟩, rfl⟩) <;> exact ⟨e, he, rfl⟩
  · rintro ⟨e, he, rfl⟩
    by_cases h : p e
    · exact .inr ⟨e, ⟨he, h⟩, rfl⟩
    · exact .inl ⟨e, ⟨he, h⟩, rfl⟩

/-! ### Collapsed keys -/

/-- A key is appended unless it is the last one. -/
def appendKey (keys : List κ) (k : κ) : List κ :=
  if keys.getLast? = some k then keys else keys ++ [k]

def collapse (keys : List κ) : List κ := keys.foldl appendKey []

/-- No key comes back after another one. -/
def NoReturn (keys : List κ) : Prop := ∀ a b, [a, b, a].Sublist keys → a = b

theorem collapse_concat (keys : List κ) (k : κ) :
    collapse (keys ++ [k]) = appendKey (collapse keys) k := by
  simp [collapse]

theorem mem_appendKey {keys : List κ} {k a : κ} : a ∈ appendKey keys k ↔ a ∈ keys ∨ a = k := by
  unfold appendKey
  split_ifs with hlast
  · have := List.mem_of_getLast? hlast
    constructor
    · exact .inl
    · rintro (h | rfl) <;> assumption
  · simp

theorem mem_collapse {keys : List κ} {a : κ} : a ∈ collapse keys ↔ a ∈ keys := by
  induction keys using List.reverseRecOn with
  | nil => rfl
  | append_singleton keys k ih => simp [collapse_concat, mem_appendKey, ih]

theorem getLast?_collapse (keys : List κ) : (collapse keys).getLast? = keys.getLast? := by
  induction keys using List.reverseRecOn with
  | nil => rfl
  | append_singleton keys k ih =>
      rw [collapse_concat, appendKey]
      split_ifs with hlast
      · simpa using hlast
      · simp

theorem nodup_appendKey {keys : List κ} {k : κ} :
    (appendKey keys k).Nodup ↔ keys.Nodup ∧ (k ∈ keys → keys.getLast? = some k) := by
  unfold appendKey
  split_ifs with hlast
  · simp [hlast]
  · rw [List.nodup_append_comm]
    simp [hlast, and_comm]

theorem concat_sublist_concat {α : Type*} {a b : List α} {x k : α}
    (h : (a ++ [x]).Sublist (b ++ [k])) : (a ++ [x]).Sublist b ∨ x = k ∧ a.Sublist b := by
  obtain ⟨c, d, heq, hc, hd⟩ := List.sublist_append_iff.mp h
  rcases List.sublist_singleton.mp hd with rfl | rfl
  · rw [List.append_nil] at heq
    exact .inl (heq ▸ hc)
  · obtain ⟨rfl, hx⟩ := List.append_inj' heq rfl
    exact .inr ⟨by simpa using hx, hc⟩

omit [DecidableEq κ] in
/-- One more key comes back exactly when it is known and not the last one. -/
theorem noReturn_concat {keys : List κ} {k : κ} :
    NoReturn (keys ++ [k]) ↔ NoReturn keys ∧ (k ∈ keys → keys.getLast? = some k) := by
  constructor
  · intro h
    refine ⟨fun a b hab => h a b (hab.trans (List.sublist_append_left _ _)), fun hk => ?_⟩
    obtain ⟨w, z, rfl⟩ := List.eq_nil_or_concat' keys |>.resolve_left (List.ne_nil_of_mem hk)
    suffices hz : k = z by simp [hz]
    rcases List.mem_append.mp hk with hw | hz
    · have hfirst : [k].Sublist w := List.singleton_sublist.mpr hw
      exact h k z ((hfirst.append (.refl [z])).append (.refl [k]))
    · simpa using hz
  · rintro ⟨h, hlast⟩ a b hab
    rcases concat_sublist_concat (a := [a, b]) hab with hsub | ⟨rfl, hsub⟩
    · exact h a b hsub
    · -- The key stands at the end already, so what comes between is there too.
      obtain ⟨w, rfl⟩ := List.getLast?_eq_some_iff.mp (hlast (hsub.subset List.mem_cons_self))
      rcases concat_sublist_concat (a := [a]) hsub with hfirst | ⟨rfl, -⟩
      · exact h a b (hfirst.append (.refl [a]))
      · rfl

/-- The collapsed keys are distinct exactly when none comes back. -/
theorem nodup_collapse_iff (keys : List κ) : (collapse keys).Nodup ↔ NoReturn keys := by
  induction keys using List.reverseRecOn with
  | nil => simp [collapse, NoReturn]
  | append_singleton keys k ih =>
      rw [collapse_concat, nodup_appendKey, noReturn_concat, ih, mem_collapse, getLast?_collapse]

end NetdataPlugins.KeyedTally
