import Mathlib.Algebra.Order.Ring.Int
import NetdataPlugins.MemoryBlock

/-!
# Strings as the C library treats them

A string is the list of its bytes before the NUL. The functions that look at
memory, where a missing NUL or a short object matters, take the bytes from the
pointer to the end of the object, and have no result where they would leave it.
-/
namespace NetdataPlugins.CString
open MemoryBlock

/-- The bytes of an ASCII literal, without its NUL. -/
def lit (s : String) : Bytes := s.toList.map fun c => UInt8.ofNat c.toNat

/-- `ptr + k`, for a pointer into an object of which `mem` is left. -/
def advance (mem : Bytes) (k : ℕ) : Option Bytes :=
  if k ≤ mem.length then some (mem.drop k) else none

/-- `strncmp(a, b, n) == 0`. -/
def strncmpEq : ℕ → Bytes → Bytes → Option Bool
  | 0, _, _ => some true
  | n + 1, a :: s, b :: t =>
      if a ≠ b then some false else if a = 0 then some true else strncmpEq n s t
  | _ + 1, _, _ => none

/-- The position of the last `c`. -/
def lastIdx (c : UInt8) (s : Bytes) : Option ℕ :=
  if c ∈ s then some (s.length - 1 - s.reverse.idxOf c) else none

/-- `strrchr` on a buffer, as the offset of its result. -/
def strrchr {n : ℕ} (b : Block n) (c : UInt8) : Option (Option ℕ) :=
  if 0 ∈ b.bytes then some (lastIdx c (cstr b.bytes)) else none

def strlen {n : ℕ} (b : Block n) : Option ℕ :=
  if 0 ∈ b.bytes then some (cstr b.bytes).length else none

/-- `strstr`: what is left from the first occurrence on. -/
def strstr : Bytes → Bytes → Option Bytes
  | [], text => if text = [] then some [] else none
  | c :: s, text => if text.isPrefixOf (c :: s) then some (c :: s) else strstr s text

def contains (s text : Bytes) : Bool := (strstr s text).isSome

def isspace (c : UInt8) : Bool := c = 32 || (9 ≤ c && c ≤ 13)

def digitValue (c : UInt8) : Option ℕ :=
  if 48 ≤ c ∧ c ≤ 57 then some (c.toNat - 48)
  else if 97 ≤ c ∧ c ≤ 122 then some (c.toNat - 97 + 10)
  else if 65 ≤ c ∧ c ≤ 90 then some (c.toNat - 65 + 10)
  else none

/-- The digits that start a text. -/
def digits (base : ℕ) : Bytes → List ℕ
  | [] => []
  | c :: s =>
      match digitValue c with
      | some d => if d < base then d :: digits base s else []
      | none => []

def ulongMax : ℕ := 2 ^ 64 - 1

/-- `strtoul(s, 0, 0)`: the base is read off the text. -/
def strtoul (s : Bytes) : ℕ :=
  let s := s.dropWhile isspace
  let negative := s.head? = some 45
  let s := if s.head? = some 45 ∨ s.head? = some 43 then s.tail else s
  let hexadecimal := s.head? = some 48 ∧ (s.getD 1 0 = 120 ∨ s.getD 1 0 = 88) ∧
    digits 16 (s.drop 2) ≠ []
  let base := if hexadecimal then 16 else if s.head? = some 48 then 8 else 10
  let value := (digits base (if hexadecimal then s.drop 2 else s)).foldl
    (fun n d => n * base + d) 0
  if ulongMax < value then ulongMax else if negative then (2 ^ 64 - value) % 2 ^ 64 else value

theorem advance_append (a b : Bytes) : advance (a ++ b) a.length = some b := by
  simp [advance]

/-- Two strings that begin alike agree on the bytes they have in common. -/
theorem strncmpEq_append {n : ℕ} {a : Bytes} (h : 0 ∉ a) (hn : n ≤ a.length) (s t : Bytes) :
    strncmpEq n (a ++ s) (a ++ t) = some true := by
  induction n generalizing a with
  | zero => rfl
  | succ n ih =>
      cases a with
      | nil => simp at hn
      | cons c a =>
          have hc : c ≠ 0 := fun h0 => h (by simp [h0])
          have ha : 0 ∉ a := fun h0 => h (by simp [h0])
          simpa [strncmpEq, hc] using ih ha (by simpa using hn)

/-- The comparison of a text with a part of the memory that ends at a byte which the
text does not have, its NUL for one. -/
theorem strncmpEq_eq {n : ℕ} {start : Bytes} (h : 0 ∉ start) (hn : n ≤ start.length) {c : UInt8}
    (hc : c ∉ start) (u s t : Bytes) :
    strncmpEq n (start ++ u) (s ++ c :: t) = some (decide (start.take n <+: s)) := by
  induction n generalizing start s with
  | zero => simp [strncmpEq]
  | succ n ih =>
      cases start with
      | nil => simp at hn
      | cons a start =>
          have ha : a ≠ 0 := fun h0 => h (by simp [h0])
          have hstart : 0 ∉ start := fun h0 => h (by simp [h0])
          simp only [List.mem_cons, not_or] at hc
          cases s with
          | nil => simp [strncmpEq, Ne.symm hc.1]
          | cons b s =>
              rw [List.cons_append, List.cons_append, strncmpEq, List.take_succ_cons,
                ih hstart (by simpa using hn) hc.2]
              by_cases hab : a = b
              · simp [hab, hab ▸ ha]
              · simp [hab]

theorem lastIdx_append {c : UInt8} {b : Bytes} (h : c ∉ b) (a : Bytes) :
    lastIdx c (a ++ c :: b) = some a.length := by
  have hrev : (a ++ c :: b).reverse.idxOf c = b.length := by
    rw [List.reverse_append, List.reverse_cons, List.append_assoc,
      List.idxOf_append_of_notMem (by simpa using h)]
    simp
  rw [lastIdx, if_pos (by simp), hrev]
  simp

theorem lastIdx_eq_none {c : UInt8} {s : Bytes} (h : c ∉ s) : lastIdx c s = none := by
  simp [lastIdx, h]

/-! ### Searching for a text -/

theorem contains_cons (c : UInt8) (s text : Bytes) :
    contains (c :: s) text = (text.isPrefixOf (c :: s) || contains s text) := by
  by_cases h : text.isPrefixOf (c :: s) <;> simp [contains, strstr, h]

theorem contains_iff_occurs (s text : Bytes) : contains s text ↔ text <:+: s := by
  induction s with
  | nil =>
      cases text <;> simp [contains, strstr]
  | cons c s ih =>
      rw [contains_cons, List.infix_cons_iff, Bool.or_eq_true, ih, List.isPrefixOf_iff_prefix]

/-- No occurrence starts where the first symbol does not stand. -/
theorem contains_append_of_notMem {c : UInt8} {a : Bytes} (h : c ∉ a) (b t : Bytes) :
    contains (a ++ b) (c :: t) = contains b (c :: t) := by
  induction a with
  | nil => rfl
  | cons d a ih =>
      have hd : c ≠ d := fun heq => h (by simp [heq])
      rw [List.cons_append, contains_cons, ih fun ha => h (by simp [ha])]
      simp [hd]

/-- No occurrence starts in `a` if none of its endings goes with the text. -/
theorem contains_append_of_tails {a t : Bytes}
    (h : ∀ r ∈ a.tails, r ≠ [] → ¬ t <+: r ∧ ¬ r <+: t) (b : Bytes) :
    contains (a ++ b) t = contains b t := by
  induction a with
  | nil => rfl
  | cons d a ih =>
      have hhere := h (d :: a) (by simp) (by simp)
      have hprefix : ¬ t <+: d :: (a ++ b) := fun hp =>
        (List.prefix_or_prefix_of_prefix hp (List.prefix_append (d :: a) b)).elim
          hhere.1 hhere.2
      rw [← List.isPrefixOf_iff_prefix, Bool.not_eq_true] at hprefix
      rw [List.cons_append, contains_cons, ih fun r hr => h r (by simp [hr]), hprefix,
        Bool.false_or]

/-- A text whose first symbol does not come again cannot begin inside `a` and
end behind it, if it follows `a`. -/
theorem not_prefix_overlap {c : UInt8} {t : Bytes} (hc : c ∉ t) {a : Bytes} (ha : a ≠ [])
    (h : ¬ (c :: t) <+: a) (b : Bytes) : ¬ (c :: t) <+: a ++ ((c :: t) ++ b) := by
  intro hp
  rcases List.prefix_or_prefix_of_prefix hp (List.prefix_append a _) with hshort | ⟨r, hr⟩
  · exact h hshort
  rw [← hr, List.prefix_append_right_inj] at hp
  cases r with
  | nil => exact h ⟨[], by simpa using hr.symm⟩
  | cons e r =>
      cases a with
      | nil => exact ha rfl
      | cons d a =>
          obtain ⟨hd, ht⟩ : d = c ∧ a ++ e :: r = t := List.cons.inj hr
          have he : e = c := (List.cons_prefix_cons.mp hp).1.trans hd
          exact hc (by simp [← ht, he])

/-- Such a text is found where it is placed, when it does not stand before. -/
theorem strstr_placed {c : UInt8} {t : Bytes} (hc : c ∉ t) {a : Bytes}
    (h : ¬ contains a (c :: t)) (b : Bytes) :
    strstr (a ++ ((c :: t) ++ b)) (c :: t) = some ((c :: t) ++ b) := by
  induction a with
  | nil => simp [strstr]
  | cons d a ih =>
      rw [contains_cons, Bool.or_eq_true, not_or, List.isPrefixOf_iff_prefix] at h
      have hprefix := not_prefix_overlap hc (List.cons_ne_nil d a) h.1 b
      rw [List.cons_append, strstr, if_neg (by simpa using hprefix), ih h.2]

end NetdataPlugins.CString
