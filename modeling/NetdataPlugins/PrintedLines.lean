import Mathlib.Tactic.IntervalCases
import NetdataPlugins.Netdata
import NetdataPlugins.Words

/-!
# The words of a printed line (netdata.c)

The collector splits a line at blanks and tabs, and takes what stands between
two single quotes for one word. `nd_set` and `nd_dimension` print an id without
quotes around it.
-/
namespace NetdataPlugins.PrintedLines
open MemoryBlock CString Netdata Words

def isBlank (c : UInt8) : Bool := c == 32 || c == 9

def mark : UInt8 := 39

/-- A text that can stand on a line without quotes. -/
def Word (s : Bytes) : Prop := Plain isBlank mark s

instance (s : Bytes) : Decidable (Word s) := inferInstanceAs (Decidable (Plain _ _ s))

/-- `%d` and `%ld`. -/
def decimal (z : ℤ) : Bytes :=
  (if z < 0 then [45] else []) ++ (Nat.toDigits 10 z.natAbs).map fun c => UInt8.ofNat c.toNat

def algorithmText : Algorithm → Bytes
  | .absolute => lit "absolute"
  | .incremental => lit "incremental"
  | .percentageOfAbsoluteRow => lit "percentage-of-absolute-row"
  | .percentageOfIncrementalRow => lit "percentage-of-incremental-row"

/-- The lines with ids of dimensions, up to their line feed. -/
def lineText : Command → Option Bytes
  | .set name value => some (lit "SET " ++ name ++ lit " = " ++ decimal value)
  | .dimension id name alg multiplier divisor vis =>
      some (lit "DIMENSION " ++ id ++ lit " '" ++ name ++ lit "' " ++ algorithmText alg ++
        lit " " ++ decimal multiplier ++ lit " " ++ decimal divisor ++
        if vis = .hidden then lit " hidden" else [])
  | _ => none

/-- The words that such a line is made of. -/
def tokens : Command → List (Token UInt8)
  | .set name value => [.bare (lit "SET"), .bare name, .bare (lit "="), .bare (decimal value)]
  | .dimension id name alg multiplier divisor vis =>
      [.bare (lit "DIMENSION"), .bare id, .quoted name, .bare (algorithmText alg),
        .bare (decimal multiplier), .bare (decimal divisor)] ++
        if vis = .hidden then [.bare (lit "hidden")] else []
  | _ => []

/-- The collector gets the words that are meant. -/
def Splits (c : Command) : Prop :=
  ∀ s, lineText c = some s → words isBlank mark s = (tokens c).map Token.value

theorem word_decimal (z : ℤ) : Word (decimal z) := by
  refine ⟨by simp [decimal, Nat.toDigits_ne_nil], fun c hc => ?_⟩
  have hdigit (d : Char) (hd : d ∈ Nat.toDigits 10 z.natAbs) :
      isBlank (UInt8.ofNat d.toNat) = false ∧ UInt8.ofNat d.toNat ≠ mark := by
    obtain ⟨hlow, hhigh⟩ : 48 ≤ d.toNat ∧ d.toNat ≤ 57 := by
      simpa [Char.isDigit, UInt32.le_iff_toNat_le] using
        Nat.isDigit_of_mem_toDigits (by decide) (by decide) hd
    generalize d.toNat = n at *
    interval_cases n <;> decide
  rcases List.mem_append.mp hc with hsign | hdigits
  · split_ifs at hsign
    · cases List.mem_singleton.mp hsign
      decide
    · cases hsign
  · obtain ⟨d, hd, rfl⟩ := List.mem_map.mp hdigits
    exact hdigit d hd

theorem word_algorithmText (alg : Algorithm) : Word (algorithmText alg) := by
  cases alg <;> decide

theorem lineText_eq_render {c : Command} {s : Bytes} (h : lineText c = some s) :
    s = render mark 32 (tokens c) := by
  cases c with
  | set name value =>
      cases h
      simp [tokens, render, Token.text, lit]
  | dimension id name alg multiplier divisor vis =>
      cases h
      cases vis <;> simp [tokens, render, Token.text, lit, mark]
  | chart id name title units family context type => cases h
  | «begin» id time => cases h
  | close => cases h

theorem splits_of_writable {c : Command} (h : ∀ t ∈ tokens c, t.Writable isBlank mark) :
    Splits c := by
  intro s hs
  rw [lineText_eq_render hs]
  exact words_render rfl rfl h

theorem splits_set {name : Bytes} (h : Word name) (value : ℤ) : Splits (ndSet name value) := by
  apply splits_of_writable
  simp only [ndSet, tokens, List.forall_mem_cons, Token.Writable]
  exact ⟨by decide, h, by decide, word_decimal value, by simp⟩

theorem splits_dimension {id name : Bytes} (hid : Word id) (hname : mark ∉ name)
    (alg : Algorithm) (multiplier divisor : ℤ) (vis : Visibility) :
    Splits (ndDimension id (some name) alg multiplier divisor vis) := by
  apply splits_of_writable
  simp only [ndDimension, checkNull, Option.getD_some, tokens, List.forall_mem_append,
    List.forall_mem_cons, Token.Writable]
  refine ⟨⟨by decide, hid, hname, word_algorithmText alg, word_decimal _, word_decimal _,
    by simp⟩, ?_⟩
  cases vis
  · simp
  · simp only [if_true, List.forall_mem_singleton]
    decide

theorem Word.mark_notMem {s : Bytes} (h : Word s) : mark ∉ s := fun hm => (h.2 mark hm).2 rfl

/-- Lines of other kinds have no id of a dimension. -/
theorem splits_of_none {c : Command} (h : lineText c = none) : Splits c := by
  intro s hs
  cases h.symm.trans hs

theorem splits_block {start : Command} (hstart : lineText start = none)
    {sets : List (Bytes × ℤ)} (h : ∀ r ∈ sets, Word r.1) : ∀ c ∈ block start sets, Splits c := by
  simp only [block, List.forall_mem_append, List.forall_mem_cons, List.forall_mem_map]
  exact ⟨⟨splits_of_none hstart, fun r hr => splits_set (h r hr) r.2⟩, splits_of_none rfl,
    by simp⟩

end NetdataPlugins.PrintedLines
