import Mathlib.Data.List.DropRight
import NetdataPlugins.CString
import NetdataPlugins.NextField

/-!
# The address part of a scannerd warning

`get_ip` cuts the address out of a warning and keeps its last group, which
`add_warn` makes a part of a dimension name. All arrays are blocks of the sizes
the source gives them; an uninitialised one is arbitrary. The search for the
closing quote may fail, and the source then subtracts the address of `ip` from
NULL, so the place of `ip` in memory matters and is a parameter.
-/
namespace NetdataPlugins.WarnAddress
open MemoryBlock CString NextField

def untoconn : Bytes := lit "unable to connect to "
def scanwith : Bytes := lit "scanning with "

def blank : UInt8 := 32
def quote : UInt8 := 34
def dot : UInt8 := 46
def colon : UInt8 := 58

/-- `sizeof start - 1` in `get_ip`, where `start` is a pointer. -/
def startCompared : ℕ := 8 - 1

/-- The local `char ip[64]`: its address and what it holds on entry. -/
structure IpArray where
  addr : ℕ
  block : Block 64

/-- A place on the stack of a 64-bit process. -/
def IpArray.Placed (ip : IpArray) : Prop := 0 < ip.addr ∧ ip.addr + 64 ≤ 2 ^ 47

/-- `int ipend = strrchr(ip, '"') - ip - 1`. -/
def quoteDistance (addr : ℕ) (found : Option ℕ) : ℤ :=
  let ptr : ℤ := match found with
    | some offset => addr + offset
    | none => 0
  (ptr - addr - 1).bmod (2 ^ 32)

/-- The backwards loop, with `ipend - 4 = base` and `ipstart = base + k`. -/
def scanBack {n : ℕ} (ip : Block n) (base : ℕ) : ℕ → Option ℕ
  | 0 => pure base
  | k + 1 => do
      let c ← ip.load (base + (k + 1))
      if c ≠ dot ∧ c ≠ colon then scanBack ip base k else pure (base + (k + 1))

def copyLastpart {n : ℕ} (ip : Block n) (ipend : ℕ) (ipLastpart : Block 4) :
    Option (Bool × Block 4) := do
  let ipstart ← scanBack ip (ipend - 4) 4
  let ipLastpartLen := ipend - ipstart
  let part ← ip.slice (ipstart + 1) ipLastpartLen
  let copied ← ipLastpart.fill 0 part
  let terminated ← copied.store ipLastpartLen 0
  pure (true, terminated)

/-- `get_ip` from the field behind the prefix on. -/
def cutIp (ip : IpArray) (rest : Bytes) (ipLastpart : Block 4) : Option (Bool × Block 4) := do
  let r ← getNextField ip.block 64 rest blank
  match r.1 with
  | none => pure (false, ipLastpart)
  | some _ =>
      let found ← strrchr r.2 quote
      let ipend := quoteDistance ip.addr found
      if ipend < 4 then pure (true, ipLastpart) else copyLastpart r.2 ipend.toNat ipLastpart

def getIp (ip : IpArray) (line : Bytes) (ipLastpart : Block 4) (startstring : Bytes)
    (startstringLen : ℕ) : Option (Bool × Block 4) := do
  let cleared ← ipLastpart.store 0 0
  let starts ← strncmpEq startCompared (startstring ++ [0]) line
  if starts = false then pure (false, cleared) else
    let rest ← advance line startstringLen
    cutIp ip rest cleared

/-- The name `add_warn` builds in `char name[SIZE_OF_WARN_NAME]`. -/
def warnName (name : Block 16) (scanner warnt : Bytes) (ip : Block 4) : Option (Block 16) := do
  let ipLen ← strlen ip
  let name ← name.fill 0 (scanner.take 2)
  let name ← name.store 2 95
  let name ← name.fill 3 (warnt.take 4)
  let name ← name.store 7 95
  if ipLen ≠ 0 then
    let part ← ip.slice 0 ipLen
    let name ← name.fill 8 part
    name.store (8 + ipLen) 0
  else
    let name ← name.store 8 63
    name.store 9 0

def inGroup (c : UInt8) : Bool := c != dot && c != colon

/-- The loop goes back over what is left of the last group. -/
theorem scanBack_eq {n : ℕ} (ip : Block n) (base : ℕ) {k : ℕ} (h : base + k < n) :
    scanBack ip base k =
      some (base + k - (((ip.bytes.drop (base + 1)).take k).rtakeWhile inGroup).length) := by
  induction k with
  | zero => rfl
  | succ k ih =>
      have hlt : base + (k + 1) < ip.bytes.length := by simpa using h
      have hload : ip.load (base + (k + 1)) = some ip.bytes[base + (k + 1)] := by
        simp [Block.load]
      have htake : (ip.bytes.drop (base + 1)).take (k + 1) =
          (ip.bytes.drop (base + 1)).take k ++ [ip.bytes[base + (k + 1)]] := by
        rw [List.take_add_one, List.getElem?_drop, show base + 1 + k = base + (k + 1) by omega,
          List.getElem?_eq_getElem hlt]
        rfl
      rw [htake]
      by_cases hc : inGroup ip.bytes[base + (k + 1)] = true
      · rw [List.rtakeWhile_concat_pos _ _ _ hc, List.length_append, List.length_singleton]
        have hgo : ip.bytes[base + (k + 1)] ≠ dot ∧ ip.bytes[base + (k + 1)] ≠ colon := by
          simpa [inGroup] using hc
        simp only [scanBack, hload, Option.bind_eq_bind, Option.bind_some, hgo, ne_eq,
          not_false_eq_true, and_self, if_true, ih (by omega), Option.some.injEq]
        omega
      · rw [List.rtakeWhile_concat_neg _ _ _ hc]
        have hstop : ¬ (ip.bytes[base + (k + 1)] ≠ dot ∧ ip.bytes[base + (k + 1)] ≠ colon) := by
          simpa [inGroup] using hc
        simp only [scanBack, hload, Option.bind_eq_bind, Option.bind_some, hstop, if_false]
        rfl

/-- One of the last four bytes ends a group of the address. -/
def Separated (a : Bytes) : Prop := ∃ c ∈ a.drop (a.length - 4), c = dot ∨ c = colon

/-- The last group of the address, as far as it lies in the last four bytes. -/
def lastGroup (a : Bytes) : Bytes :=
  if a.length < 5 then [] else (a.drop (a.length - 4)).rtakeWhile inGroup

theorem lastGroup_suffix (a : Bytes) : lastGroup a <:+ a := by
  unfold lastGroup
  split_ifs
  · exact List.nil_suffix
  · exact (List.rtakeWhile_suffix _ _).trans (List.drop_suffix _ _)

theorem separated_iff {a : Bytes} (hlen : 5 ≤ a.length) :
    Separated a ↔ (lastGroup a).length < 4 := by
  have hfour : (a.drop (a.length - 4)).length = 4 := by
    rw [List.length_drop]
    omega
  have hwhole : (a.drop (a.length - 4)).rtakeWhile inGroup = a.drop (a.length - 4) ↔
      ¬ Separated a := by
    rw [List.rtakeWhile_eq_self_iff]
    simp [Separated, inGroup]
  have hsuffix := List.rtakeWhile_suffix inGroup (a.drop (a.length - 4))
  rw [lastGroup, if_neg (by omega)]
  constructor
  · intro hsep
    by_contra hge
    exact hwhole.mp (hsuffix.eq_of_length_le (by omega)) hsep
  · intro hlt
    by_contra hsep
    rw [hwhole.mpr hsep] at hlt
    omega

section LastPart
variable {n : ℕ} (ip : Block n) {a s : Bytes} (hip : ip.bytes = a ++ s) (hs : s ≠ [])
  (hlen : 5 ≤ a.length)
include hip hs hlen

/-- `ipstart + 1` is where the last group begins. -/
theorem scanBack_lastGroup :
    scanBack ip (a.length - 1 - 4) 4 = some (a.length - 1 - (lastGroup a).length) := by
  have hn : a.length < n := by
    rw [← ip.length_eq, hip, List.length_append]
    have := List.length_pos_of_ne_nil hs
    omega
  have hgroup : ((ip.bytes.drop (a.length - 1 - 4 + 1)).take 4).rtakeWhile inGroup =
      lastGroup a := by
    rw [show a.length - 1 - 4 + 1 = a.length - 4 by omega, hip,
      List.drop_append_of_le_length (by omega), List.take_append_of_le_length (by simp; omega),
      List.take_of_length_le (by simp; omega), lastGroup, if_neg (by omega)]
  rw [scanBack_eq ip (a.length - 1 - 4) (by omega), hgroup]
  congr 1
  omega

/-- The group is copied, and a zero is written behind it. -/
theorem copyLastpart_eq (ipLastpart : Block 4) :
    ∃ b : Block 4, lastGroup a <+: b.bytes ∧ copyLastpart ip (a.length - 1) ipLastpart =
      (b.store (lastGroup a).length 0).map fun last => (true, last) := by
  have hback := scanBack_lastGroup ip hip hs hlen
  have hfour : (lastGroup a).length ≤ 4 := by
    rw [lastGroup, if_neg (by omega)]
    exact (List.rtakeWhile_suffix _ _).length_le.trans (by simp; omega)
  obtain ⟨t, ht⟩ := lastGroup_suffix a
  generalize lastGroup a = g at *
  subst ht
  rw [List.length_append] at *
  have hstart : t.length + g.length - 1 - g.length + 1 = t.length := by omega
  have hpart : t.length + g.length - 1 - (t.length + g.length - 1 - g.length) = g.length := by
    omega
  have hslice : ip.slice t.length g.length = some g := by
    have hfit : t.length + g.length ≤ n := by
      rw [← ip.length_eq, hip]
      simp
    rw [ip.slice_eq_some hfit, hip]
    simp
  obtain ⟨b, hfill, hbegins⟩ := ipLastpart.fill_extends List.nil_prefix (i := 0) rfl
    (show 0 + g.length ≤ 4 by omega)
  refine ⟨b, hbegins, ?_⟩
  simp only [copyLastpart, hback, hstart, hpart, hslice, hfill, Option.bind_eq_bind,
    Option.bind_some]
  cases b.store g.length 0 <;> rfl

theorem copyLastpart_spec (ipLastpart : Block 4) :
    (Separated a → ∃ last, copyLastpart ip (a.length - 1) ipLastpart = some (true, last) ∧
      lastGroup a ++ [0] <+: last.bytes) ∧
    (¬ Separated a → copyLastpart ip (a.length - 1) ipLastpart = none) := by
  obtain ⟨b, hbegins, hcopy⟩ := copyLastpart_eq ip hip hs hlen ipLastpart
  rw [hcopy, separated_iff hlen]
  constructor
  · intro hlt
    obtain ⟨last, hstore, hlast⟩ := b.store_extends hbegins rfl 0 hlt
    exact ⟨last, by rw [hstore]; rfl, hlast⟩
  · intro hge
    rw [b.store_eq_none 0 (by omega)]
    rfl

end LastPart

theorem quoteDistance_some (addr : ℕ) {q : ℕ} (h : q < 64) :
    quoteDistance addr (some q) = (q : ℤ) - 1 := by
  have hcancel : ((addr : ℤ) + q - addr - 1) = (q : ℤ) - 1 := by omega
  rw [quoteDistance, hcancel]
  exact Int.bmod_eq_of_le (by omega) (by omega)

/-- An array for which NULL is far behind its end. -/
def farArray : IpArray := ⟨0x7ffef0000000, ⟨List.replicate 64 0, by simp⟩⟩

theorem quoteDistance_none : quoteDistance farArray.addr none = 268435455 := by decide

/-- What a text in which `get_ip` finds a field must look like: the field fits
into `ip`, and if a blank ends it, then it has a quote, and what is before the
last quote is either too short to be an address or has a group of at most
three bytes at its end. -/
def AddressFits (rest : Bytes) : Prop :=
  (field blank rest).length < 64 ∧
    (blank ∈ cstr rest → ∃ a b, field blank rest = a ++ quote :: b ∧ quote ∉ b ∧
      (a.length < 5 ∨ Separated a))

theorem exists_last_quote {s : Bytes} (h : quote ∈ s) :
    ∃ a b, s = a ++ quote :: b ∧ quote ∉ b := by
  obtain ⟨b, a, hs, hb⟩ := List.eq_append_cons_of_mem (List.mem_reverse.mpr h)
  refine ⟨a.reverse, b.reverse, ?_, by simpa using hb⟩
  have := congrArg List.reverse hs
  simpa using this

theorem cstr_field {n : ℕ} {ip : Block n} {rest : Bytes}
    (h : field blank rest ++ [0] <+: ip.bytes) : cstr ip.bytes = field blank rest :=
  cstr_of_prefix h (nul_notMem_field blank rest)

/-- `cutIp` where the field has a closing quote. -/
theorem cutIp_quoted {ip : IpArray} {rest a b : Bytes} {block : Block 64} {ptr : Bytes}
    (hnext : getNextField ip.block 64 rest blank = some (some ptr, block))
    (hblock : field blank rest ++ [0] <+: block.bytes) (hlen : (field blank rest).length < 64)
    (hfield : field blank rest = a ++ quote :: b) (hb : quote ∉ b) (ipLastpart : Block 4) :
    cutIp ip rest ipLastpart =
      if a.length < 5 then some (true, ipLastpart)
      else copyLastpart block (a.length - 1) ipLastpart := by
  have hq : a.length < 64 := by
    rw [hfield, List.length_append] at hlen
    omega
  have hnul : 0 ∈ block.bytes := hblock.subset (by simp)
  have hfound : strrchr block quote = some (some a.length) := by
    rw [strrchr, if_pos hnul, cstr_field hblock, hfield, lastIdx_append hb]
  have hdist := quoteDistance_some ip.addr hq
  by_cases hshort : a.length < 5
  · have hlt : quoteDistance ip.addr (some a.length) < 4 := by rw [hdist]; omega
    simp [cutIp, hnext, hfound, hlt, hshort]
  · have hge : ¬ quoteDistance ip.addr (some a.length) < 4 := by rw [hdist]; omega
    have hnat : (quoteDistance ip.addr (some a.length)).toNat = a.length - 1 := by
      rw [hdist]
      omega
    simp [cutIp, hnext, hfound, hge, hshort, hnat]

/-- A quoted address leaves its last group, or goes wrong at a group of four bytes. -/
theorem cutIp_group (ip : IpArray) {rest a b : Bytes} (hnul : 0 ∈ rest)
    (hblank : blank ∈ cstr rest) (hlen : (field blank rest).length < 64)
    (hfield : field blank rest = a ++ quote :: b) (hb : quote ∉ b) {cleared : Block 4}
    (hcleared : [0] <+: cleared.bytes) :
    (a.length < 5 ∨ Separated a → ∃ last, cutIp ip rest cleared = some (true, last) ∧
      lastGroup a ++ [0] <+: last.bytes) ∧
    (¬ (a.length < 5 ∨ Separated a) → cutIp ip rest cleared = none) := by
  obtain ⟨block, hnext, hblock⟩ := getNextField_short (by decide) hnul ip.block hlen
  rw [atDelim, if_pos hblank] at hnext
  rw [cutIp_quoted hnext hblock hlen hfield hb]
  by_cases hshort : a.length < 5
  · rw [if_pos hshort]
    refine ⟨fun _ => ⟨cleared, rfl, ?_⟩, fun h => (h (.inl hshort)).elim⟩
    simpa [lastGroup, hshort] using hcleared
  · obtain ⟨more, hmore⟩ := hblock
    have hip : block.bytes = a ++ quote :: (b ++ [0] ++ more) := by
      rw [← hmore, hfield]
      simp
    rw [if_neg hshort, or_iff_right hshort]
    exact copyLastpart_spec block hip (by simp) (by omega) cleared

/-- Without a quote `ipend` comes from the address of `ip` alone, and may lead
anywhere. -/
theorem cutIp_unquoted {rest : Bytes} {block : Block 64} {ptr : Bytes}
    (hnext : getNextField farArray.block 64 rest blank = some (some ptr, block))
    (hblock : field blank rest ++ [0] <+: block.bytes) (hq : quote ∉ field blank rest)
    (ipLastpart : Block 4) : cutIp farArray rest ipLastpart = none := by
  have hnul : 0 ∈ block.bytes := hblock.subset (by simp)
  have hfound : strrchr block quote = some none := by
    rw [strrchr, if_pos hnul, cstr_field hblock, lastIdx_eq_none hq]
  have hload : block.load 268435455 = none := by simp [Block.load]
  simp [cutIp, hnext, hfound, quoteDistance_none, copyLastpart, scanBack, hload]

/-- `get_ip` on a text with the whole prefix does its work behind it. -/
theorem getIp_start (ip : IpArray) {start : Bytes} (hnul : 0 ∉ start)
    (hlen : startCompared ≤ start.length) (rest : Bytes) (ipLastpart : Block 4) :
    ∃ cleared, [0] <+: cleared.bytes ∧
      getIp ip (start ++ rest) ipLastpart start start.length = cutIp ip rest cleared := by
  obtain ⟨cleared, hstore, hcleared⟩ := ipLastpart.store_extends List.nil_prefix (i := 0) rfl 0
    (show 0 < 4 by omega)
  exact ⟨cleared, hcleared, by simp [getIp, hstore, strncmpEq_append hnul hlen, advance_append]⟩

/-- The name of a warning: its scanner, its kind, and the group of the address. -/
def nameText (scanner warnt ip : Bytes) : Bytes :=
  scanner.take 2 ++ [95] ++ warnt.take 4 ++ [95] ++ if ip = [] then [63] else ip

theorem cstr_length_lt {n : ℕ} {b : Block n} (h : 0 ∈ b.bytes) : (cstr b.bytes).length < n := by
  obtain ⟨s, t, hst, hs⟩ := List.eq_append_cons_of_mem h
  have hlen := b.length_eq
  rw [hst, List.length_append, List.length_cons] at hlen
  rw [hst, cstr_append_nul _ _ hs]
  omega

theorem warnName_text (name : Block 16) {scanner warnt : Bytes} (hs : 2 ≤ scanner.length)
    (hw : 4 ≤ warnt.length) {ip : Block 4} (hip : 0 ∈ ip.bytes) :
    ∃ built, warnName name scanner warnt ip = some built ∧
      nameText scanner warnt (cstr ip.bytes) ++ [0] <+: built.bytes := by
  have hlen := cstr_length_lt hip
  have hstrlen : strlen ip = some (cstr ip.bytes).length := by rw [strlen, if_pos hip]
  have hs2 : (scanner.take 2).length = 2 := by simp [hs]
  have hw4 : (warnt.take 4).length = 4 := by simp [hw]
  unfold warnName nameText
  generalize scanner.take 2 = s at *
  generalize warnt.take 4 = w at *
  obtain ⟨n₁, h₁, p₁⟩ := name.fill_extends (List.nil_prefix) (i := 0) rfl (show 0 + s.length ≤ 16
    by omega)
  obtain ⟨n₂, h₂, p₂⟩ := n₁.store_extends p₁ (i := 2) (by simp [hs2]) 95 (by omega)
  obtain ⟨n₃, h₃, p₃⟩ := n₂.fill_extends p₂ (i := 3) (by simp [hs2]) (show 3 + w.length ≤ 16
    by omega)
  obtain ⟨n₄, h₄, p₄⟩ := n₃.store_extends p₃ (i := 7) (by simp [hs2, hw4]) 95 (by omega)
  by_cases h0 : cstr ip.bytes = []
  · obtain ⟨n₅, h₅, p₅⟩ := n₄.store_extends p₄ (i := 8) (by simp [hs2, hw4]) 63 (by omega)
    obtain ⟨n₆, h₆, p₆⟩ := n₅.store_extends p₅ (i := 9) (by simp [hs2, hw4]) 0 (by omega)
    exact ⟨n₆, by simp [hstrlen, h₁, h₂, h₃, h₄, h0, h₅, h₆], by simpa [h0] using p₆⟩
  · have hslice : ip.slice 0 (cstr ip.bytes).length = some (cstr ip.bytes) := by
      rw [ip.slice_eq_some (by omega), List.drop_zero, cstr, List.takeWhile_eq_take_findIdx_not]
      simp
    obtain ⟨n₅, h₅, p₅⟩ := n₄.fill_extends p₄ (i := 8) (by simp [hs2, hw4])
      (show 8 + (cstr ip.bytes).length ≤ 16 by omega)
    obtain ⟨n₆, h₆, p₆⟩ := n₅.store_extends p₅ (i := 8 + (cstr ip.bytes).length)
      (by simp [hs2, hw4]; omega) 0 (by omega)
    exact ⟨n₆, by simp [hstrlen, h₁, h₂, h₃, h₄, h0, hslice, h₅, h₆], by simpa [h0] using p₆⟩

theorem nul_notMem_nameText {scanner warnt ip : Bytes} (hs : 0 ∉ scanner) (hw : 0 ∉ warnt)
    (hip : 0 ∉ ip) : 0 ∉ nameText scanner warnt ip := by
  have hs2 : 0 ∉ scanner.take 2 := fun h => hs (List.mem_of_mem_take h)
  have hw4 : 0 ∉ warnt.take 4 := fun h => hw (List.mem_of_mem_take h)
  unfold nameText
  split_ifs <;> simp [hs2, hw4, hip]

theorem warnName_fits (name : Block 16) {scanner warnt : Bytes} (hs : 2 ≤ scanner.length)
    (hw : 4 ≤ warnt.length) {ip : Block 4} (hip : 0 ∈ ip.bytes) :
    ∃ built, warnName name scanner warnt ip = some built ∧ 0 ∈ built.bytes := by
  obtain ⟨built, hbuilt, htext⟩ := warnName_text name hs hw hip
  exact ⟨built, hbuilt, htext.subset (by simp)⟩

/-- `get_ip` and the naming in `add_warn` stay in their arrays, wherever these
are and whatever they hold, and leave terminated strings. -/
def AddressSafe (start rest : Bytes) : Prop :=
  ∀ (ip : IpArray) (ipLastpart : Block 4), ip.Placed → ∃ ret last,
    getIp ip (start ++ rest) ipLastpart start start.length = some (ret, last) ∧
    0 ∈ last.bytes ∧
    ∀ (name : Block 16) (scanner warnt : Bytes), 2 ≤ scanner.length → 4 ≤ warnt.length →
      ∃ built, warnName name scanner warnt last = some built ∧ 0 ∈ built.bytes

theorem addressFits_safe {start rest : Bytes} (hstart : 0 ∉ start)
    (hlen : startCompared ≤ start.length) (hnul : 0 ∈ rest) (h : AddressFits rest) :
    AddressSafe start rest := by
  intro ip ipLastpart _
  obtain ⟨cleared, hcleared, hget⟩ := getIp_start ip hstart hlen rest ipLastpart
  suffices hcut : ∃ ret last, cutIp ip rest cleared = some (ret, last) ∧ 0 ∈ last.bytes by
    obtain ⟨ret, last, hcut, hlast⟩ := hcut
    exact ⟨ret, last, hget.trans hcut, hlast, fun name scanner warnt hs hw =>
      warnName_fits name hs hw hlast⟩
  by_cases hblank : blank ∈ cstr rest
  · obtain ⟨a, b, hfield, hb, hgroup⟩ := h.2 hblank
    obtain ⟨last, hcut, hlast⟩ := (cutIp_group ip hnul hblank h.1 hfield hb hcleared).1 hgroup
    exact ⟨true, last, hcut, hlast.subset (by simp)⟩
  · obtain ⟨block, hnext, hblock⟩ := getNextField_short (by decide) hnul ip.block h.1
    rw [atDelim, if_neg hblank] at hnext
    exact ⟨false, cleared, by simp [cutIp, hnext], hcleared.subset (by simp)⟩

theorem addressSafe_fits {start rest : Bytes} (hstart : 0 ∉ start)
    (hlen : startCompared ≤ start.length) (hnul : 0 ∈ rest) (h : AddressSafe start rest) :
    AddressFits rest := by
  obtain ⟨cleared, hcleared, hget⟩ := getIp_start farArray hstart hlen rest
    ⟨List.replicate 4 0, by simp⟩
  have hsafe : cutIp farArray rest cleared ≠ none := by
    obtain ⟨ret, last, hsome, _⟩ := h farArray ⟨List.replicate 4 0, by simp⟩ ⟨by decide, by decide⟩
    rw [← hget, hsome]
    simp
  have hshort : (field blank rest).length < 64 := by
    by_contra hle
    exact hsafe (by simp [cutIp, getNextField_long hnul farArray.block (by omega)
      (Nat.not_lt.mp hle)])
  refine ⟨hshort, fun hblank => ?_⟩
  have hq : quote ∈ field blank rest := by
    by_contra hq
    obtain ⟨block, hnext, hblock⟩ := getNextField_short (by decide) hnul farArray.block hshort
    rw [atDelim, if_pos hblank] at hnext
    exact hsafe (cutIp_unquoted hnext hblock hq cleared)
  obtain ⟨a, b, hfield, hb⟩ := exists_last_quote hq
  refine ⟨a, b, hfield, hb, ?_⟩
  by_contra hgroup
  exact hsafe ((cutIp_group farArray hnul hblank hshort hfield hb hcleared).2 hgroup)

/-- On a text that starts with one of the two prefixes, the address is handled
within its arrays exactly when it fits. -/
theorem addressSafe_iff {start rest : Bytes} (hstart : start = untoconn ∨ start = scanwith)
    (hnul : 0 ∈ rest) : AddressSafe start rest ↔ AddressFits rest := by
  have hbegins : 0 ∉ start ∧ startCompared ≤ start.length := by
    rcases hstart with rfl | rfl <;> decide
  exact ⟨addressSafe_fits hbegins.1 hbegins.2 hnul, addressFits_safe hbegins.1 hbegins.2 hnul⟩

/-- `unable to connect to "10.0.0.17" ` -/
theorem addressSafe_iff_ipv4 :
    AddressSafe untoconn (lit "\"10.0.0.17\" " ++ [0]) ↔
      AddressFits (lit "\"10.0.0.17\" " ++ [0]) :=
  addressSafe_iff (.inl rfl) (by decide)

/-- The last group of `"fe80::abcd"` has four bytes: its NUL is written behind
`ip_lastpart`. -/
theorem getIp_four_byte_group :
    getIp farArray (untoconn ++ (lit "\"fe80::abcd\" (" ++ [0])) ⟨[0, 0, 0, 0], rfl⟩
      untoconn untoconn.length = none ∧
    ¬ AddressSafe untoconn (lit "\"fe80::abcd\" (" ++ [0]) := by
  have hnone : getIp farArray (untoconn ++ (lit "\"fe80::abcd\" (" ++ [0])) ⟨[0, 0, 0, 0], rfl⟩
      untoconn untoconn.length = none := by decide +kernel
  refine ⟨hnone, fun h => ?_⟩
  obtain ⟨ret, last, hsome, _⟩ := h farArray ⟨[0, 0, 0, 0], rfl⟩ ⟨by decide, by decide⟩
  rw [hnone] at hsome
  cases hsome

end NetdataPlugins.WarnAddress
