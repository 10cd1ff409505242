import NetdataPlugins.MemoryBlock

/-!
# The field tokenizer of scanner.c

`get_next_field` copies the bytes up to a delimiter into a buffer and returns a
pointer to the delimiter. The line is the memory from the pointer on, with its
NUL somewhere inside; the returned pointer is a suffix of it. The buffer is a
block of memory, and a write outside of it has no result: of exactly `size` bytes
in the results about the tokenizer, and of one byte more for a caller that has a
byte to spare.
-/
namespace NetdataPlugins.NextField
open MemoryBlock

variable {size : ℕ}

/-- `*s && *s != delim`. -/
def inField (delim : UInt8) (c : UInt8) : Bool := c != 0 && c != delim

/-- The copy loop; the results are `buf`, `s` and `d - buf` at its end. -/
def copyField {cap : ℕ} (delim : UInt8) (buf : Block cap) (size : ℕ) :
    Bytes → ℕ → Option (Block cap × Bytes × ℕ)
  | [], _ => none
  | c :: s, d =>
      if inField delim c && d < size then do
        let buf' ← buf.store d c
        copyField delim buf' size s (d + 1)
      else pure (buf, c :: s, d)

/-- `*d = '\0'`, or `d[size - 1] = '\0'` where `d` has reached the end. -/
def terminate {cap : ℕ} (buf : Block cap) (size d : ℕ) : Option (Block cap) :=
  if d < size then buf.store d 0 else buf.store (d + (size - 1)) 0

/-- The skip loop: a pointer to the delimiter, or `none` for NULL. -/
def skipField (delim : UInt8) : Bytes → Option (Option Bytes)
  | [] => none
  | c :: s =>
      if c ≠ delim then
        if c = 0 then pure none else skipField delim s
      else pure (some (c :: s))

def getNextField {cap : ℕ} (buf : Block cap) (size : ℕ) (line : Bytes) (delim : UInt8) :
    Option (Option Bytes × Block cap) := do
  let r ← copyField delim buf size line 0
  let buf' ← terminate r.1 size r.2.2
  let ret ← skipField delim r.2.1
  pure (ret, buf')

/-- The field at the start of a line. -/
def field (delim : UInt8) (line : Bytes) : Bytes := line.takeWhile (inField delim)

/-- The line from its first delimiter on. -/
def atDelim (delim : UInt8) (line : Bytes) : Option Bytes :=
  if delim ∈ cstr line then some (line.drop (field delim line).length) else none

theorem field_cons (delim c : UInt8) (s : Bytes) :
    field delim (c :: s) = if inField delim c then c :: field delim s else [] := by
  simp [field, List.takeWhile_cons]

theorem field_append_nul (delim : UInt8) (s t : Bytes) :
    field delim (s ++ 0 :: t) = field delim s := by
  induction s with
  | nil => simp [field, inField]
  | cons c s ih => rw [List.cons_append, field_cons, field_cons, ih]

theorem nul_notMem_field (delim : UInt8) (line : Bytes) : 0 ∉ field delim line := by
  intro h
  have hc := List.mem_takeWhile_imp h
  simp [inField] at hc

theorem atDelim_cons {delim c : UInt8} (s : Bytes) (h : inField delim c = true) :
    atDelim delim (c :: s) = atDelim delim s := by
  simp only [inField, Bool.and_eq_true, bne_iff_ne, ne_eq] at h
  have hmem : delim ∈ cstr (c :: s) ↔ delim ∈ cstr s := by
    simp [cstr, h.1, Ne.symm h.2]
  simp [atDelim, hmem, field_cons, inField, h.1, h.2]

/-- Either the field is the whole string, or a delimiter ends it and a string
follows. -/
theorem atDelim_cases {delim : UInt8} (hdelim : delim ≠ 0) {line : Bytes} (hnul : 0 ∈ line) :
    (atDelim delim line = none ∧ cstr line = field delim line ∧ delim ∉ field delim line) ∨
    ∃ t, atDelim delim line = some (delim :: t) ∧ 0 ∈ t ∧
      cstr line = field delim line ++ delim :: cstr t ∧ delim ∉ field delim line := by
  induction line with
  | nil => simp at hnul
  | cons c s ih =>
      by_cases hc : inField delim c = true
      · have hne : c ≠ 0 ∧ c ≠ delim := by simpa [inField] using hc
        have hs : 0 ∈ s := by simpa [Ne.symm hne.1] using hnul
        have hcstr : cstr (c :: s) = c :: cstr s := by simp [cstr, hne.1]
        rw [atDelim_cons s hc, field_cons, if_pos hc, hcstr]
        rcases ih hs with ⟨hnone, hwhole, hnot⟩ | ⟨t, hsome, ht, hsplit, hnot⟩
        · exact .inl ⟨hnone, by rw [hwhole], by simp [hnot, Ne.symm hne.2]⟩
        · exact .inr ⟨t, hsome, ht, by rw [hsplit]; rfl, by simp [hnot, Ne.symm hne.2]⟩
      · have hnil : field delim (c :: s) = [] := by simp [field_cons, hc]
        by_cases h0 : c = 0
        · subst h0
          exact .inl ⟨by simp [atDelim, cstr], by simp [cstr, hnil], by simp [hnil]⟩
        · have hd : c = delim := by simpa [inField, h0] using hc
          subst hd
          exact .inr ⟨s, by simp [atDelim, cstr, h0, hnil], by simpa [Ne.symm h0] using hnul,
            by simp [cstr, h0, hnil], by simp [hnil]⟩

/-- The skip loop may start anywhere in the field. -/
theorem skipField_eq {delim : UInt8} (hdelim : delim ≠ 0) {line : Bytes} (hnul : 0 ∈ line) {k : ℕ}
    (hk : k ≤ (field delim line).length) :
    skipField delim (line.drop k) = some (atDelim delim line) := by
  induction line generalizing k with
  | nil => simp at hnul
  | cons c s ih =>
      by_cases hc : inField delim c = true
      · have hne : c ≠ 0 ∧ c ≠ delim := by simpa [inField] using hc
        have hs : 0 ∈ s := by simpa [Ne.symm hne.1] using hnul
        rw [atDelim_cons s hc]
        cases k with
        | zero => simpa [skipField, hne.1, hne.2] using ih hs (Nat.zero_le _)
        | succ k => exact ih hs (by simpa [field_cons, hc] using hk)
      · have hnil : field delim (c :: s) = [] := by simp [field_cons, hc]
        have hk0 : k = 0 := by simpa [hnil] using hk
        subst hk0
        by_cases h0 : c = 0
        · subst h0
          simp [skipField, atDelim, cstr, Ne.symm hdelim]
        · have hd : c = delim := by simpa [inField, h0] using hc
          subst hd
          simp [skipField, atDelim, cstr, h0, hnil]

theorem skipField_append {delim : UInt8} {a : Bytes} (h0 : 0 ∉ a) (hd : delim ∉ a) (t : Bytes) :
    skipField delim (a ++ delim :: t) = some (some (delim :: t)) := by
  induction a with
  | nil => simp [skipField]
  | cons c a ih =>
      simp only [List.mem_cons, not_or] at h0 hd
      simpa [skipField, Ne.symm h0.1, Ne.symm hd.1] using ih h0.2 hd.2

theorem skipField_eq_some {delim : UInt8} {line ret : Bytes}
    (h : skipField delim line = some (some ret)) :
    ∃ a t, line = a ++ delim :: t ∧ ret = delim :: t ∧ 0 ∉ a ∧ delim ∉ a := by
  induction line with
  | nil => cases h
  | cons c s ih =>
      rw [skipField] at h
      split_ifs at h with hc h0
      · cases h
      · obtain ⟨a, t, rfl, rfl, ha0, ha⟩ := ih h
        exact ⟨c :: a, t, rfl, rfl, by simp [Ne.symm h0, ha0], by simp [Ne.symm hc, ha]⟩
      · cases h
        have hc : c = delim := not_not.mp hc
        exact ⟨[], s, by simp [hc], by rw [hc], by simp, by simp⟩

/-- The copy loop stops at the end of the field or of the buffer. -/
theorem copyField_spec {delim : UInt8} {line : Bytes} (hnul : 0 ∈ line) (buf : Block size) {d : ℕ}
    (hd : d ≤ size) :
    ∃ buf', copyField delim buf size line d =
        some (buf', line.drop (min (field delim line).length (size - d)),
          d + min (field delim line).length (size - d)) ∧
      buf'.bytes.take (d + min (field delim line).length (size - d)) =
        buf.bytes.take d ++ (field delim line).take (size - d) := by
  induction line generalizing buf d with
  | nil => simp at hnul
  | cons c s ih =>
      by_cases hc : inField delim c = true
      · rcases hd.lt_or_eq with hlt | rfl
        · have hne : c ≠ 0 ∧ c ≠ delim := by simpa [inField] using hc
          have hs : 0 ∈ s := by simpa [Ne.symm hne.1] using hnul
          have hlen : (buf.bytes.take d).length = d := by simp [hlt.le]
          obtain ⟨b, hstore, hbegins⟩ :=
            buf.store_extends (List.take_prefix d buf.bytes) hlen c hlt
          obtain ⟨buf', hcopy, htake⟩ := ih hs b (show d + 1 ≤ size from hlt)
          have hmin : min (field delim s).length (size - (d + 1)) + 1 =
              min (field delim (c :: s)).length (size - d) := by
            simp only [field_cons, hc, if_true, List.length_cons]
            omega
          have hsum : d + 1 + min (field delim s).length (size - (d + 1)) =
              d + min (field delim (c :: s)).length (size - d) := by omega
          rw [hsum] at hcopy htake
          refine ⟨buf', ?_, ?_⟩
          · rw [← hmin, List.drop_succ_cons, hmin]
            simp [copyField, hc, hlt, hstore, hcopy]
          · have hfirst : b.bytes.take (d + 1) = buf.bytes.take d ++ [c] := by
              rw [List.prefix_iff_eq_take.mp hbegins, List.length_append, hlen]
              rfl
            have hroom : size - d = size - (d + 1) + 1 := by omega
            rw [htake, hfirst, field_cons, if_pos hc, hroom, List.take_succ_cons,
              List.append_assoc, List.singleton_append]
        · exact ⟨buf, by simp [copyField], by simp⟩
      · have hnil : field delim (c :: s) = [] := by simp [field_cons, hc]
        exact ⟨buf, by simp [copyField, hc, hnil], by simp [hnil]⟩

/-- A field that leaves room for its NUL is copied whole. -/
theorem getNextField_short {delim : UInt8} (hdelim : delim ≠ 0) {line : Bytes} (hnul : 0 ∈ line)
    (buf : Block size) (hlt : (field delim line).length < size) :
    ∃ buf', getNextField buf size line delim = some (atDelim delim line, buf') ∧
      field delim line ++ [0] <+: buf'.bytes := by
  have hmin : min (field delim line).length (size - 0) = (field delim line).length := by omega
  obtain ⟨b, hcopy, htake⟩ := copyField_spec hnul buf (Nat.zero_le size)
  rw [hmin, Nat.zero_add] at hcopy htake
  have hall : (field delim line).take (size - 0) = field delim line :=
    List.take_of_length_le (by omega)
  rw [List.take_zero, List.nil_append, hall] at htake
  obtain ⟨buf', hstore, hends⟩ := b.store_extends (List.prefix_iff_eq_take.mpr htake.symm) rfl 0 hlt
  refine ⟨buf', ?_, hends⟩
  simp [getNextField, hcopy, terminate, hlt, hstore, skipField_eq hdelim hnul le_rfl]

/-- A longer field ends the copy with `d` behind the buffer, and `d[size - 1]`
is then a byte far outside. -/
theorem getNextField_long {delim : UInt8} {line : Bytes} (hnul : 0 ∈ line) (buf : Block size)
    (hsize : 1 ≤ size) (hle : size ≤ (field delim line).length) :
    getNextField buf size line delim = none := by
  have hmin : min (field delim line).length (size - 0) = size := by omega
  obtain ⟨b, hcopy, _⟩ := copyField_spec hnul buf (Nat.zero_le size)
  rw [hmin, Nat.zero_add] at hcopy
  have hout : b.store (size + (size - 1)) 0 = none := b.store_eq_none 0 (by omega)
  simp [getNextField, hcopy, terminate, hout]

/-- A call finds the field and its delimiter, or goes wrong. -/
theorem getNextField_cases {delim : UInt8} (hdelim : delim ≠ 0) {line : Bytes} (hnul : 0 ∈ line)
    (buf : Block size) (hsize : 1 ≤ size) :
    (∃ buf', getNextField buf size line delim = some (atDelim delim line, buf') ∧
      field delim line ++ [0] <+: buf'.bytes) ∨
    getNextField buf size line delim = none ∧ size ≤ (field delim line).length := by
  rcases Nat.lt_or_ge (field delim line).length size with hlt | hle
  · exact .inl (getNextField_short hdelim hnul buf hlt)
  · exact .inr ⟨getNextField_long hnul buf hsize hle, hle⟩

/-- A cut into one byte writes the byte behind it too. With that byte to spare
it always gives what the skip loop gives. -/
theorem getNextField_spare (delim : UInt8) (buf : Block 2) (line : Bytes) :
    ∃ buf', getNextField buf 1 line delim =
      (skipField delim line).map fun ret => (ret, buf') := by
  cases line with
  | nil => exact ⟨buf, rfl⟩
  | cons c s =>
      by_cases hc : inField delim c = true
      · have hne : c ≠ 0 ∧ c ≠ delim := by simpa [inField] using hc
        obtain ⟨b, hb, -⟩ := buf.store_eq_some c (show 0 < 2 by omega)
        obtain ⟨buf', hbuf', -⟩ := b.store_eq_some 0 (show 1 < 2 by omega)
        have hskip : skipField delim (c :: s) = skipField delim s := by
          simp [skipField, hne.1, hne.2]
        refine ⟨buf', ?_⟩
        cases s with
        | nil => simp [getNextField, copyField, hc, hb, skipField, hne.1, hne.2]
        | cons e s =>
            have hcopy : copyField delim buf 1 (c :: e :: s) 0 = some (b, e :: s, 1) := by
              simp [copyField, hc, hb]
            have hend : terminate b 1 1 = some buf' := by simpa [terminate] using hbuf'
            simp only [hskip, getNextField, hcopy, hend, Option.bind_eq_bind, Option.bind_some]
            cases skipField delim (e :: s) <;> rfl
      · obtain ⟨buf', hbuf', -⟩ := buf.store_eq_some 0 (show 0 < 2 by omega)
        have hcopy : copyField delim buf 1 (c :: s) 0 = some (buf, c :: s, 0) := by
          simp [copyField, hc]
        have hend : terminate buf 1 0 = some buf' := by simpa [terminate] using hbuf'
        refine ⟨buf', ?_⟩
        simp only [getNextField, hcopy, hend, Option.bind_eq_bind, Option.bind_some]
        cases skipField delim (c :: s) <;> rfl

/-- What is asked of a tokenizer: it stays in the buffer, leaves there the
field as far as it fits, terminated, and finds the delimiter. -/
def Tokenizes (size : ℕ) (delim : UInt8) (line : Bytes) : Prop :=
  ∀ buf : Block size, ∃ buf', getNextField buf size line delim = some (atDelim delim line, buf') ∧
    (field delim line).take (size - 1) ++ [0] <+: buf'.bytes

/-- `get_next_field` tokenizes exactly the fields shorter than its buffer. -/
theorem tokenizes_iff {delim : UInt8} (hdelim : delim ≠ 0) {line : Bytes} (hnul : 0 ∈ line)
    {size : ℕ} (hsize : 1 ≤ size) :
    Tokenizes size delim line ↔ (field delim line).length < size := by
  constructor
  · intro h
    by_contra hle
    obtain ⟨buf', hsome, _⟩ := h ⟨List.replicate size 0, by simp⟩
    rw [getNextField_long hnul _ hsize (Nat.not_lt.mp hle)] at hsome
    cases hsome
  · intro hlt buf
    obtain ⟨buf', hsome, hbegins⟩ := getNextField_short hdelim hnul buf hlt
    refine ⟨buf', hsome, ?_⟩
    rwa [List.take_of_length_le (by omega)]

/-- The line `"d w\0"`, cut at its blank into a buffer of two bytes. -/
theorem tokenizes_iff_short :
    Tokenizes 2 32 [100, 32, 119, 0] ↔ (field 32 [100, 32, 119, 0]).length < 2 :=
  tokenizes_iff (by decide) (by decide) (by decide)

/-- The same line and a buffer of one byte, as for the date of every line of
scannerd: the field needs its NUL behind the buffer. -/
theorem getNextField_one_byte :
    ¬ Tokenizes 1 32 [100, 32, 119, 0] ∧ 
      getNextField (⟨[0], rfl⟩ : Block 1) 1 [100, 32, 119, 0] 32 = none := by
  have hnone : getNextField (⟨[0], rfl⟩ : Block 1) 1 [100, 32, 119, 0] 32 = none := by decide
  refine ⟨fun h => ?_, hnone⟩
  obtain ⟨buf', hsome, _⟩ := h ⟨[0], rfl⟩
  rw [hnone] at hsome
  cases hsome

end NetdataPlugins.NextField
