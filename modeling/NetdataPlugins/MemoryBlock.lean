import Mathlib.Data.List.Basic
import Mathlib.Data.List.TakeWhile

/-!
# Checked access to a block of memory

A block of `n` bytes carries its length in its type, so no operation can grow
or shrink it. Every operation is partial: `none` is an access outside the
block, which a C program must never make. A program modelled over these
operations is memory safe exactly when it returns `some`.

A pointer into text is the list of the bytes from it to the end of the memory
object; reading through it past the end is again `none`.
-/
namespace NetdataPlugins.MemoryBlock

abbrev Bytes := List UInt8

structure Block (n : ℕ) where
  bytes : Bytes
  length_eq : bytes.length = n
deriving DecidableEq

attribute [simp] Block.length_eq

namespace Block
variable {n : ℕ}

@[ext] theorem ext {a b : Block n} (h : a.bytes = b.bytes) : a = b := by
  cases a
  cases b
  simpa using h

def load (b : Block n) (i : ℕ) : Option UInt8 := b.bytes[i]?

def store (b : Block n) (i : ℕ) (c : UInt8) : Option (Block n) :=
  if i < n then some ⟨b.bytes.set i c, by simp⟩ else none

/-- The bytes of `[off, off + len)`, for calls that read a whole region. -/
def slice (b : Block n) (off len : ℕ) : Option Bytes :=
  if off + len ≤ n then some ((b.bytes.drop off).take len) else none

/-- One write of a whole region, as `read` and `memcpy` make it. -/
def fill (b : Block n) (off : ℕ) (cs : Bytes) : Option (Block n) :=
  if h : off + cs.length ≤ n then
    some ⟨b.bytes.take off ++ cs ++ b.bytes.drop (off + cs.length), by simp; omega⟩
  else none

/-- Position of the first `c` in the region. The whole region must be inside
the block, although the scan itself stops at the first hit. -/
def memchr (b : Block n) (off : ℕ) (c : UInt8) (len : ℕ) : Option (Option ℕ) := do
  let region ← b.slice off len
  pure (if c ∈ region then some (off + region.idxOf c) else none)

def memmove (b : Block n) (dst src len : ℕ) : Option (Block n) := do
  let region ← b.slice src len
  b.fill dst region

theorem store_eq_some (b : Block n) {i : ℕ} (c : UInt8) (h : i < n) :
    ∃ b', b.store i c = some b' ∧ b'.bytes = b.bytes.set i c :=
  ⟨⟨b.bytes.set i c, by simp⟩, by simp [store, h], rfl⟩

theorem store_eq_none (b : Block n) {i : ℕ} (c : UInt8) (h : n ≤ i) : b.store i c = none := by
  simp [store, h]

theorem slice_eq_some (b : Block n) {off len : ℕ} (h : off + len ≤ n) :
    b.slice off len = some ((b.bytes.drop off).take len) := by
  simp [slice, h]

theorem slice_all (b : Block n) : b.slice 0 n = some b.bytes := by
  rw [slice_eq_some b (Nat.zero_add n).le, List.drop_zero, List.take_of_length_le b.length_eq.le]

theorem fill_eq_some (b : Block n) {off : ℕ} {cs : Bytes} (h : off + cs.length ≤ n) :
    ∃ b', b.fill off cs = some b' ∧
      b'.bytes = b.bytes.take off ++ cs ++ b.bytes.drop (off + cs.length) :=
  ⟨⟨_, by simp; omega⟩, by simp [fill, h], rfl⟩

/-- Writing on where a text ends makes it longer. -/
theorem store_extends (b : Block n) {s : Bytes} (hs : s <+: b.bytes) {i : ℕ} (hi : s.length = i)
    (c : UInt8) (h : i < n) : ∃ b', b.store i c = some b' ∧ s ++ [c] <+: b'.bytes := by
  subst hi
  obtain ⟨b', hb, hbytes⟩ := b.store_eq_some c h
  obtain ⟨rest, hrest⟩ := hs
  have hlen := b.length_eq
  rw [← hrest, List.length_append] at hlen
  refine ⟨b', hb, rest.tail, ?_⟩
  cases rest with
  | nil => simp at hlen; omega
  | cons d rest => simp [hbytes, ← hrest]

theorem fill_extends (b : Block n) {s : Bytes} (hs : s <+: b.bytes) {i : ℕ} (hi : s.length = i)
    {cs : Bytes} (h : i + cs.length ≤ n) :
    ∃ b', b.fill i cs = some b' ∧ s ++ cs <+: b'.bytes := by
  subst hi
  obtain ⟨b', hb, hbytes⟩ := b.fill_eq_some h
  obtain ⟨rest, hrest⟩ := hs
  exact ⟨b', hb, rest.drop cs.length, by simp [hbytes, ← hrest, List.drop_append]⟩

theorem slice_fill_same {b b' : Block n} {off : ℕ} {cs : Bytes} (h : b.fill off cs = some b') :
    b'.slice off cs.length = some cs := by
  unfold fill at h
  split_ifs at h with hfit
  cases h
  have hoff : (b.bytes.take off).length = off := by
    rw [List.length_take, b.length_eq]
    omega
  have hdrop : (b.bytes.take off ++ cs ++ b.bytes.drop (off + cs.length)).drop off =
      cs ++ b.bytes.drop (off + cs.length) := by
    rw [List.append_assoc]
    exact List.drop_left' hoff
  simp only [slice, if_pos hfit, hdrop, List.take_left]

theorem getElem?_fill {b b' : Block n} {off : ℕ} {cs : Bytes} (h : b.fill off cs = some b') {i : ℕ}
    (hi : i < off ∨ off + cs.length ≤ i) : b'.bytes[i]? = b.bytes[i]? := by
  unfold fill at h
  split_ifs at h with hfit
  cases h
  have hlen := b.length_eq
  dsimp only
  rcases hi with hi | hi
  · rw [List.append_assoc, List.getElem?_append_left (by simp; omega), List.getElem?_take,
      if_pos hi]
  · rw [List.getElem?_append_right (by simp; omega), List.getElem?_drop]
    congr 1
    simp
    omega

/-- A region that is written leaves the others as they are. -/
theorem slice_fill_disjoint {b b' : Block n} {off : ℕ} {cs : Bytes} (h : b.fill off cs = some b')
    {o len : ℕ} (hdisjoint : o + len ≤ off ∨ off + cs.length ≤ o) :
    b'.slice o len = b.slice o len := by
  have hregion : (b'.bytes.drop o).take len = (b.bytes.drop o).take len := by
    apply List.ext_getElem?
    intro i
    simp only [List.getElem?_take, List.getElem?_drop]
    split_ifs with hi
    · exact getElem?_fill h (by omega)
    · rfl
  simp only [slice, hregion]

/-- Two blocks that begin alike have the same regions there. -/
theorem slice_of_take {m : ℕ} {b : Block n} {b' : Block m} {k : ℕ}
    (h : b'.bytes.take k = b.bytes.take k) (hn : k ≤ n) (hm : k ≤ m) {o len : ℕ}
    (hfit : o + len ≤ k) : b'.slice o len = b.slice o len := by
  have hregion : (b'.bytes.drop o).take len = (b.bytes.drop o).take len := by
    apply List.ext_getElem?
    intro i
    simp only [List.getElem?_take, List.getElem?_drop]
    split_ifs with hi
    · have hget := congrArg (·[o + i]?) h
      simpa [List.getElem?_take, show o + i < k by omega] using hget
    · rfl
  rw [slice, slice, if_pos (hfit.trans hm), if_pos (hfit.trans hn), hregion]

theorem memchr_eq_some (b : Block n) {off len : ℕ} (c : UInt8) (h : off + len ≤ n) :
    b.memchr off c len =
      some (if c ∈ (b.bytes.drop off).take len
        then some (off + ((b.bytes.drop off).take len).idxOf c) else none) := by
  simp [memchr, slice_eq_some b h]

theorem memmove_eq_some (b : Block n) {src len : ℕ} (h : src + len ≤ n) :
    ∃ b', b.memmove 0 src len = some b' ∧ b'.bytes.take len = (b.bytes.drop src).take len := by
  have hlen : ((b.bytes.drop src).take len).length = len := by simp; omega
  have hfit : 0 + ((b.bytes.drop src).take len).length ≤ n := by omega
  obtain ⟨b', hb, hbytes⟩ := b.fill_eq_some hfit
  refine ⟨b', by simp [memmove, slice_eq_some b h, hb], ?_⟩
  rw [hbytes]
  simp [hlen]

end Block

/-- The string that starts a region: its bytes before the first NUL. -/
def cstr (mem : Bytes) : Bytes := mem.takeWhile (· != 0)

theorem cstr_append_nul (s rest : Bytes) (h : 0 ∉ s) : cstr (s ++ 0 :: rest) = s := by
  rw [cstr, List.takeWhile_append_of_pos]
  · simp
  · intro c hc
    simpa using fun h0 : c = 0 => h (h0 ▸ hc)

theorem cstr_of_prefix {s mem : Bytes} (h : s ++ [0] <+: mem) (h0 : 0 ∉ s) : cstr mem = s := by
  obtain ⟨more, hmore⟩ := h
  rw [← hmore, List.append_assoc, List.singleton_append, cstr_append_nul _ _ h0]

theorem nul_notMem_cstr (mem : Bytes) : 0 ∉ cstr mem := fun h => by
  simpa using List.mem_takeWhile_imp h

end NetdataPlugins.MemoryBlock
