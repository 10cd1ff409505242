import Mathlib.Data.List.Basic

/-!
# Segments of a stream

A stream over any alphabet is cut at a separator into its closed segments and
one open tail. The cut is stable under extension: appending to the stream only
closes or lengthens the tail, and never touches a closed segment. `bounded`
adds a size limit: a segment is seen through its first `limit` symbols only,
and the tail is seen, once, as soon as it is longer than that.
-/
namespace NetdataPlugins.LineSplit
variable {α : Type*}

/-- What is seen of an open tail: nothing, until it exceeds the limit. -/
def early (limit : ℕ) (tail : List α) : List (List α) :=
  if limit < tail.length then [tail.take limit] else []

theorem early_short {limit : ℕ} {tail : List α} (h : tail.length ≤ limit) :
    early limit tail = [] := by
  simp [early, Nat.not_lt.mpr h]

/-- Once over the limit, more symbols change nothing that is seen. -/
theorem early_append {limit : ℕ} {tail : List α} (h : limit < tail.length) (t : List α) :
    early limit (tail ++ t) = early limit tail := by
  have ht : limit < (tail ++ t).length := by simp; omega
  rw [early, early, if_pos h, if_pos ht, List.take_append_of_le_length (by omega)]

variable [DecidableEq α]

/-- The closed segments, without their separators, and the open tail. -/
def split (sep : α) : List α → List (List α) × List α
  | [] => ([], [])
  | c :: s =>
      let r := split sep s
      if c = sep then ([] :: r.1, r.2) else
        match r.1 with
        | [] => ([], c :: r.2)
        | seg :: segs => ((c :: seg) :: segs, r.2)

@[simp] theorem split_nil (sep : α) : split sep [] = ([], []) := rfl

theorem split_open {sep : α} {s : List α} (h : sep ∉ s) : split sep s = ([], s) := by
  induction s with
  | nil => rfl
  | cons c s ih =>
      have hc : c ≠ sep := fun he => h (by simp [he])
      simp [split, ih (fun hs => h (by simp [hs])), hc]

theorem split_close {sep : α} {s : List α} (h : sep ∉ s) (t : List α) :
    split sep (s ++ sep :: t) = (s :: (split sep t).1, (split sep t).2) := by
  induction s with
  | nil => simp [split]
  | cons c s ih =>
      have hc : c ≠ sep := fun he => h (by simp [he])
      simp [split, ih (fun hs => h (by simp [hs])), hc]

theorem split_tail_open (sep : α) (s : List α) : sep ∉ (split sep s).2 := by
  induction s with
  | nil => simp
  | cons c s ih =>
      simp only [split]
      split_ifs with hc
      · exact ih
      · cases hs : (split sep s).1 with
        | nil => simpa [Ne.symm hc] using ih
        | cons seg segs => exact ih

theorem split_closed (sep : α) (s : List α) : ∀ seg ∈ (split sep s).1, sep ∉ seg := by
  induction s with
  | nil => simp
  | cons c s ih =>
      simp only [split]
      split_ifs with hc
      · exact List.forall_mem_cons.mpr ⟨List.not_mem_nil, ih⟩
      · cases hs : (split sep s).1 with
        | nil => simp
        | cons seg segs =>
            rw [hs, List.forall_mem_cons] at ih
            refine List.forall_mem_cons.mpr ⟨fun h => ?_, ih.2⟩
            exact (List.mem_cons.mp h).elim (fun heq => hc heq.symm) ih.1

/-- Extending a stream is extending its tail. -/
theorem split_append (sep : α) (s t : List α) :
    split sep (s ++ t) =
      ((split sep s).1 ++ (split sep ((split sep s).2 ++ t)).1,
        (split sep ((split sep s).2 ++ t)).2) := by
  induction s with
  | nil => simp
  | cons c s ih =>
      simp only [List.cons_append, split]
      split_ifs with hc
      · simp [ih]
      · cases hs : (split sep s).1 with
        | nil => simp [ih, hs, split, hc]
        | cons seg segs => simp [ih, hs]

/-- What is seen of a stream through a window of `limit` symbols a segment. -/
def bounded (sep : α) (limit : ℕ) (s : List α) : List (List α) :=
  (split sep s).1.map (List.take limit) ++ early limit (split sep s).2

theorem bounded_open {sep : α} {limit : ℕ} {s : List α} (h : sep ∉ s) :
    bounded sep limit s = early limit s := by
  simp [bounded, split_open h]

theorem bounded_close {sep : α} {limit : ℕ} {s : List α} (h : sep ∉ s) (t : List α) :
    bounded sep limit (s ++ sep :: t) = s.take limit :: bounded sep limit t := by
  simp [bounded, split_close h]

theorem notMem_of_bounded {sep : α} {limit : ℕ} {s line : List α}
    (h : line ∈ bounded sep limit s) : sep ∉ line := by
  rcases List.mem_append.mp h with h | h
  · obtain ⟨seg, hseg, rfl⟩ := List.mem_map.mp h
    exact fun hmem => split_closed sep s seg hseg (List.mem_of_mem_take hmem)
  · rw [early] at h
    split_ifs at h
    · obtain rfl := List.mem_singleton.mp h
      exact fun hmem => split_tail_open sep s (List.mem_of_mem_take hmem)
    · cases h

/-- Only the tail is looked at again when a stream grows. -/
theorem bounded_append (sep : α) (limit : ℕ) (s t : List α) :
    bounded sep limit (s ++ t) =
      (split sep s).1.map (List.take limit) ++
        bounded sep limit ((split sep s).2 ++ t) := by
  simp only [bounded, split_append sep s t, List.map_append, List.append_assoc]

end NetdataPlugins.LineSplit
