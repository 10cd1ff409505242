import NetdataPlugins.FileWatch
import NetdataPlugins.ScannerdLog

/-!
# Vectors (vector.c, vector.h)

A vector keeps items of one size one behind the other in a block of the heap,
and grows by half when it is full. The other modules take a vector for the list
of its items. Here are the bytes: where an item lies, what `realloc` has to keep,
and that no size wraps around.

The item that is added lies outside the block.
-/
namespace NetdataPlugins.ItemVector
open MemoryBlock FileWatch Scanner

/-- What a `size_t` keeps of a number. -/
def sizeT (n : ℕ) : ℕ := n % 2 ^ 64

def ptrdiffMax : ℕ := 2 ^ 63 - 1

def initialCapacity : ℕ := 64

/-- `room` is the size of the block at `data`. -/
structure Vector where
  cap : ℕ
  size : ℕ
  len : ℕ
  room : ℕ
  data : Block room

/-- A `realloc`, which succeeds or fails as it likes: a new block begins like the
old one, and none is larger than `PTRDIFF_MAX`. -/
structure Realloc where
  call : (n : ℕ) → Block n → (request : ℕ) → Option (Block request)
  fails : ∀ n b request, ptrdiffMax < request → call n b request = none
  keeps : ∀ n b request b', call n b request = some b' →
    b'.bytes.take (min n request) = b.bytes.take (min n request)

def vectorInit (malloc : (n : ℕ) → Option (Block n)) (s : ℕ) : Except NdErr Vector :=
  match malloc (sizeT (s * initialCapacity)) with
  | none => .error .alloc
  | some data => .ok { cap := initialCapacity, size := s, len := 0, room := _, data := data }

/-- `vector_item`, as an offset into the block. -/
def vectorItem (v : Vector) (idx : ℕ) : ℕ := sizeT (idx * v.size)

/-- The branches of `vector_resize` behind the call of `realloc`. -/
def growTo (realloc : Realloc) (v : Vector) (newcap request : ℕ) : NdErr × Vector :=
  match realloc.call v.room v.data request with
  | some newdata => (.success, { v with room := request, data := newdata, cap := newcap })
  | none => (.alloc, v)

def vectorResize (realloc : Realloc) (v : Vector) : NdErr × Vector :=
  if v.len = v.cap then
    let newcap := sizeT (v.cap * 3) / 2
    growTo realloc v newcap (sizeT (newcap * v.size))
  else (.success, v)

/-- `new` is an item in a block of its own. -/
def vectorAdd {k : ℕ} (realloc : Realloc) (v : Vector) (new : Block k) : Option (NdErr × Vector) :=
  match vectorResize realloc v with
  | (.success, v) => do
      let item ← new.slice 0 v.size
      let data ← v.data.fill (vectorItem v v.len) item
      pure (.success, { v with data := data, len := sizeT (v.len + 1) })
  | (ret, v) => some (ret, v)

/-- The loop of `vector_search`, with `left` turns left. -/
def searchFrom {k : ℕ} (v : Vector) (item : Block k) : ℕ → ℕ → Option ℤ
  | 0, _ => pure (-1)
  | left + 1, i => do
      let a ← item.slice 0 v.size
      let b ← v.data.slice (vectorItem v i) v.size
      if a = b then pure (i : ℤ) else searchFrom v item left (i + 1)

def vectorSearch {k : ℕ} (v : Vector) (item : Block k) : Option ℤ := searchFrom v item v.len 0

/-- A write through the pointer from `vector_item`. -/
def writeItem {k : ℕ} (v : Vector) (i : ℕ) (item : Block k) : Option Vector :=
  (v.data.fill (vectorItem v i) item.bytes).map fun data => { v with data := data }

/-! ### The invariant -/

/-- The bytes of an item. -/
def itemAt (v : Vector) (i : ℕ) : Option Bytes := v.data.slice (vectorItem v i) v.size

structure Valid (s : ℕ) (v : Vector) : Prop where
  size_eq : v.size = s
  cap_ge : initialCapacity ≤ v.cap
  len_le : v.len ≤ v.cap
  fits : v.cap * s ≤ v.room
  bounded : v.cap * s ≤ ptrdiffMax

/-- The sizes that `vector_resize` computes are what they stand for. -/
def NoWrap (v : Vector) : Prop := v.cap * 3 < 2 ^ 64 ∧ v.cap * 3 / 2 * v.size < 2 ^ 64

/-- The items of a vector, in order. -/
structure Represents (v : Vector) (xs : List Bytes) : Prop where
  length_eq : xs.length = v.len
  itemAt_eq : ∀ i x, xs[i]? = some x → itemAt v i = some x

section Valid
variable {s : ℕ} {v : Vector}

theorem Valid.noWrap (hs : 2 ≤ s) (h : Valid s v) : NoWrap v := by
  have hcap : v.cap * 2 ≤ ptrdiffMax := (Nat.mul_le_mul_left v.cap hs).trans h.bounded
  have hnew : v.cap * 3 / 2 * s * 2 ≤ v.cap * s * 3 := by
    have hhalf := Nat.mul_le_mul_right s (Nat.div_mul_le_self (v.cap * 3) 2)
    calc v.cap * 3 / 2 * s * 2 = v.cap * 3 / 2 * 2 * s := Nat.mul_right_comm _ _ _
      _ ≤ v.cap * 3 * s := hhalf
      _ = v.cap * s * 3 := Nat.mul_right_comm _ _ _
  have hbounded := h.bounded
  unfold ptrdiffMax at hcap hbounded
  refine ⟨by omega, ?_⟩
  rw [h.size_eq]
  omega

theorem Valid.vectorItem_eq (h : Valid s v) {i : ℕ} (hi : i < v.cap) :
    vectorItem v i = i * s ∧ i * s + s ≤ v.cap * s := by
  have hend : i * s + s ≤ v.cap * s := by
    have hmul := Nat.mul_le_mul_right s (Nat.succ_le_of_lt hi)
    rwa [Nat.succ_mul] at hmul
  have hbounded := h.bounded
  unfold ptrdiffMax at hbounded
  refine ⟨?_, hend⟩
  rw [vectorItem, h.size_eq, sizeT, Nat.mod_eq_of_lt (by omega)]

/-- What `fill` writes at an item is the item, and no other one changes. -/
theorem itemAt_fill (h : Valid s v) {i : ℕ} (hi : i < v.cap) (new : Block s) :
    ∃ data, v.data.fill (vectorItem v i) new.bytes = some data ∧
      data.slice (vectorItem v i) v.size = some new.bytes ∧
      ∀ j < v.cap, j ≠ i → data.slice (vectorItem v j) v.size = itemAt v j := by
  obtain ⟨hitem, hend⟩ := h.vectorItem_eq hi
  have hfit : vectorItem v i + new.bytes.length ≤ v.room := by
    rw [hitem, new.length_eq]
    exact hend.trans h.fits
  obtain ⟨data, hdata, -⟩ := v.data.fill_eq_some hfit
  refine ⟨data, hdata, ?_, fun j hj hne => ?_⟩
  · have hsame := Block.slice_fill_same hdata
    rw [new.length_eq] at hsame
    rwa [h.size_eq]
  · apply Block.slice_fill_disjoint hdata
    rw [hitem, (h.vectorItem_eq hj).1, new.length_eq, h.size_eq]
    rcases Nat.lt_or_gt_of_ne hne with hlt | hgt
    · have hmul := Nat.mul_le_mul_right s (Nat.succ_le_of_lt hlt)
      rw [Nat.succ_mul] at hmul
      exact .inl hmul
    · have hmul := Nat.mul_le_mul_right s (Nat.succ_le_of_lt hgt)
      rw [Nat.succ_mul] at hmul
      exact .inr hmul

end Valid

/-! ### One call -/

/-- The vector has a new item at its end, and the others stay. -/
def Appends {k : ℕ} (realloc : Realloc) (v : Vector) (new : Block k) : Prop :=
  ∃ v', vectorAdd realloc v new = some (.success, v') ∧ v'.len = v.len + 1 ∧
    itemAt v' v.len = some new.bytes ∧ ∀ i < v.len, itemAt v' i = itemAt v i

/-- A full vector, for which there is no memory, is as it was. -/
def Refuses {k : ℕ} (realloc : Realloc) (v : Vector) (new : Block k) : Prop :=
  vectorAdd realloc v new = some (.alloc, v) ∧ v.len = v.cap ∧
    realloc.call v.room v.data (v.cap * 3 / 2 * v.size) = none

section Call
variable {s : ℕ} {v : Vector} (h : Valid s v) (hs : 2 ≤ s) (realloc : Realloc)

include h in
/-- The new block begins with the items. -/
theorem growTo_success {newdata : Block (v.cap * 3 / 2 * v.size)}
    (hcall : realloc.call v.room v.data (v.cap * 3 / 2 * v.size) = some newdata) :
    let v' : Vector := { v with
      room := v.cap * 3 / 2 * v.size
      data := newdata
      cap := v.cap * 3 / 2 }
    Valid s v' ∧ v.cap < v'.cap ∧ ∀ i < v.cap, itemAt v' i = itemAt v i := by
  intro v'
  have hge := h.cap_ge
  have hfits := h.fits
  unfold initialCapacity at hge
  have hgrow : v.cap < v.cap * 3 / 2 := by omega
  have hbytes : v.cap * s ≤ v.cap * 3 / 2 * v.size := by
    rw [h.size_eq]
    exact Nat.mul_le_mul_right s hgrow.le
  have hbounded : v.cap * 3 / 2 * v.size ≤ ptrdiffMax := by
    by_contra hlarge
    rw [realloc.fails _ _ _ (not_le.mp hlarge)] at hcall
    cases hcall
  have hnew : Valid s v' := by
    refine ⟨h.size_eq, ?_, ?_, ?_, ?_⟩
    · exact h.cap_ge.trans hgrow.le
    · exact h.len_le.trans hgrow.le
    · exact (congrArg (v.cap * 3 / 2 * ·) h.size_eq).ge
    · exact (congrArg (v.cap * 3 / 2 * ·) h.size_eq).ge.trans hbounded
  refine ⟨hnew, hgrow, fun i hi => ?_⟩
  obtain ⟨hitem, hend⟩ := h.vectorItem_eq hi
  have hkept : vectorItem v i + v.size ≤ min v.room (v.cap * 3 / 2 * v.size) := by
    have hinside : vectorItem v i + v.size ≤ v.cap * s := by rwa [hitem, h.size_eq]
    exact le_min (hinside.trans hfits) (hinside.trans hbytes)
  exact Block.slice_of_take (realloc.keeps _ _ _ _ hcall) (min_le_left _ _) (min_le_right _ _)
    hkept

include h hs

/-- Growing makes room behind the items, which move with the block. -/
theorem vectorResize_cases :
    (∃ v', vectorResize realloc v = (.success, v') ∧ Valid s v' ∧ v'.len = v.len ∧
      v.len < v'.cap ∧ ∀ i < v.len, itemAt v' i = itemAt v i) ∨
    vectorResize realloc v = (.alloc, v) ∧ v.len = v.cap ∧
      realloc.call v.room v.data (v.cap * 3 / 2 * v.size) = none := by
  obtain ⟨hcap, hsize⟩ := h.noWrap hs
  have hnewcap : sizeT (v.cap * 3) / 2 = v.cap * 3 / 2 := by
    rw [sizeT, Nat.mod_eq_of_lt hcap]
  have hrequest : sizeT (v.cap * 3 / 2 * v.size) = v.cap * 3 / 2 * v.size := Nat.mod_eq_of_lt hsize
  unfold vectorResize
  by_cases hfull : v.len = v.cap
  · rw [if_pos hfull, hnewcap]
    dsimp only
    rw [hrequest, growTo]
    cases hcall : realloc.call v.room v.data (v.cap * 3 / 2 * v.size) with
    | none => exact .inr ⟨rfl, hfull, rfl⟩
    | some newdata =>
        obtain ⟨hvalid, hgrow, hitems⟩ := growTo_success h realloc hcall
        exact .inl ⟨_, rfl, hvalid, rfl, hfull.trans_lt hgrow,
          fun i hi => hitems i (hi.trans_eq hfull)⟩
  · exact .inl ⟨v, if_neg hfull, h, rfl, lt_of_le_of_ne h.len_le hfull, fun _ _ => rfl⟩

/-- An item is added, or there is no memory for it. -/
theorem vectorAdd_cases (new : Block s) :
    (∃ v', vectorAdd realloc v new = some (.success, v') ∧ Valid s v' ∧ v'.len = v.len + 1 ∧
      itemAt v' v.len = some new.bytes ∧ ∀ i < v.len, itemAt v' i = itemAt v i) ∨
    Refuses realloc v new := by
  rcases vectorResize_cases h hs realloc with
    ⟨u, hresize, hu, hlen, hroom, hitems⟩ | ⟨hresize, hfull, hcall⟩
  · obtain ⟨data, hfill, hnew, hothers⟩ := itemAt_fill hu (hlen ▸ hroom) new
    have hslice : new.slice 0 u.size = some new.bytes := by
      rw [hu.size_eq, new.slice_all]
    have hnext : sizeT (u.len + 1) = u.len + 1 := by
      have hcap := (hu.noWrap hs).1
      rw [sizeT, Nat.mod_eq_of_lt (by omega)]
    refine .inl ⟨{ u with data := data, len := u.len + 1 }, ?_, ?_, by rw [hlen], ?_, ?_⟩
    · simp [vectorAdd, hresize, hslice, hfill, hnext]
    · exact ⟨hu.size_eq, hu.cap_ge, hlen ▸ hroom, hu.fits, hu.bounded⟩
    · rw [← hlen]
      exact hnew
    · intro i hi
      rw [← hitems i hi]
      exact hothers i (hi.trans hroom) (hlen ▸ hi.ne)
  · exact .inr ⟨by simp [vectorAdd, hresize], hfull, hcall⟩

end Call

/-! ### Runs -/

/-- One call, with what `realloc` does in it. -/
structure Add (s : ℕ) where
  item : Block s
  realloc : Realloc

/-- What the calls return, and the vector behind them. -/
def addAll {s : ℕ} : Vector → List (Add s) → Option (List NdErr × Vector)
  | v, [] => some ([], v)
  | v, a :: as => do
      let (ret, v) ← vectorAdd a.realloc v a.item
      let (rets, v) ← addAll v as
      pure (ret :: rets, v)

/-- The items whose calls succeeded. -/
def kept {s : ℕ} : List (Add s) → List NdErr → List Bytes
  | a :: as, .success :: rets => a.item.bytes :: kept as rets
  | _ :: as, _ :: rets => kept as rets
  | _, _ => []

section Run
variable {s : ℕ} (hs : 2 ≤ s)

theorem represents_append {v v' : Vector} {xs : List Bytes} {x : Bytes} (h : Represents v xs)
    (hlen : v'.len = v.len + 1) (hnew : itemAt v' v.len = some x)
    (hitems : ∀ i < v.len, itemAt v' i = itemAt v i) : Represents v' (xs ++ [x]) := by
  refine ⟨by simp [h.length_eq, hlen], fun i y hy => ?_⟩
  rcases Nat.lt_or_ge i xs.length with hi | hi
  · rw [List.getElem?_append_left hi] at hy
    rw [hitems i (h.length_eq ▸ hi)]
    exact h.itemAt_eq i y hy
  · obtain ⟨hlt, hy⟩ := List.getElem?_eq_some_iff.mp hy
    have hlast : i = xs.length := by
      rw [List.length_append, List.length_singleton] at hlt
      omega
    subst hlast
    rw [List.getElem_concat_length] at hy
    · rw [← hy, h.length_eq]
      exact hnew
    · rfl

theorem valid_init {malloc : (n : ℕ) → Option (Block n)} {v : Vector}
    (hmax : 64 * s ≤ ptrdiffMax) (hinit : vectorInit malloc s = .ok v) :
    Valid s v ∧ Represents v [] := by
  unfold vectorInit at hinit
  cases hmalloc : malloc (sizeT (s * initialCapacity)) with
  | none =>
      rw [hmalloc] at hinit
      cases hinit
  | some data =>
      rw [hmalloc] at hinit
      cases hinit
      have hbytes : initialCapacity * s ≤ sizeT (s * initialCapacity) := by
        unfold initialCapacity sizeT ptrdiffMax at *
        omega
      exact ⟨⟨rfl, le_rfl, Nat.zero_le _, hbytes, hmax⟩, rfl, fun i x hx => by simp at hx⟩

include hs

theorem addAll_spec (as : List (Add s)) {v : Vector} {xs : List Bytes} (hv : Valid s v)
    (hx : Represents v xs) :
    ∃ rets v', addAll v as = some (rets, v') ∧ rets.length = as.length ∧ Valid s v' ∧
      Represents v' (xs ++ kept as rets) := by
  induction as generalizing v xs with
  | nil => exact ⟨[], v, rfl, rfl, hv, by simpa [kept] using hx⟩
  | cons a as ih =>
      rcases vectorAdd_cases hv hs a.realloc a.item with
        ⟨u, hadd, hu, hlen, hnew, hitems⟩ | ⟨hadd, -, -⟩
      · obtain ⟨rets, v', hrun, hrets, hv', hx'⟩ :=
          ih hu (represents_append hx hlen hnew hitems)
        refine ⟨.success :: rets, v', by simp [addAll, hadd, hrun], by simp [hrets], hv', ?_⟩
        simpa [kept] using hx'
      · obtain ⟨rets, v', hrun, hrets, hv', hx'⟩ := ih hv hx
        refine ⟨.alloc :: rets, v', by simp [addAll, hadd, hrun], by simp [hrets], hv', ?_⟩
        simpa [kept] using hx'

end Run

/-- Whatever is added and however `realloc` succeeds or fails: every state is valid,
no size wraps around, and the vector holds the items whose calls succeeded. The next
call appends its item or leaves the vector as it is. -/
theorem vector_faithful {s : ℕ} (hs : 2 ≤ s) (hmax : 64 * s ≤ ptrdiffMax)
    {malloc : (n : ℕ) → Option (Block n)} {v₀ : Vector} (hinit : vectorInit malloc s = .ok v₀)
    (as : List (Add s)) :
    ∃ rets v, addAll v₀ as = some (rets, v) ∧ rets.length = as.length ∧ Valid s v ∧ NoWrap v ∧
      Represents v (kept as rets) ∧
      ∀ a : Add s, Appends a.realloc v a.item ∨ Refuses a.realloc v a.item := by
  obtain ⟨hvalid, hempty⟩ := valid_init hmax hinit
  obtain ⟨rets, v, hrun, hrets, hv, hx⟩ := addAll_spec hs as hvalid hempty
  refine ⟨rets, v, hrun, hrets, hv, hv.noWrap hs, by simpa using hx, fun a => ?_⟩
  apply (vectorAdd_cases hv hs a.realloc a.item).imp_left
  rintro ⟨v', hadd, -, hlen, hnew, hitems⟩
  exact ⟨v', hadd, hlen, hnew, hitems⟩

def zeroed (n : ℕ) : Block n := ⟨List.ofFn fun _ : Fin n => 0, List.length_ofFn⟩

/-- A `realloc` that succeeds whenever it may. -/
def copying : Realloc where
  call n b request :=
    if request ≤ ptrdiffMax then some ⟨(b.bytes ++ List.replicate request 0).take request, by simp⟩
    else none
  fails n b request h := if_neg (Nat.not_le.mpr h)
  keeps n b request b' h := by
    split_ifs at h
    cases h
    rw [List.take_take, min_eq_left (min_le_right n request),
      List.take_append_of_le_length (by simp)]

def pairs : Vector := ⟨initialCapacity, 2, 0, sizeT (2 * initialCapacity), zeroed _⟩

theorem pairs_init : vectorInit (fun n => some (zeroed n)) 2 = .ok pairs := rfl

/-- A `realloc` that has no memory left. -/
def exhausted : Realloc where
  call _ _ _ := none
  fails _ _ _ _ := rfl
  keeps _ _ _ _ h := nomatch h

/-- Calls that fill the vector, one that finds no memory, and one that grows it. -/
def growing : List (Add 2) :=
  List.replicate initialCapacity ⟨zeroed 2, copying⟩ ++
    [⟨⟨[1, 2], rfl⟩, exhausted⟩, ⟨⟨[3, 4], rfl⟩, copying⟩]

example :
    (addAll pairs growing).map (fun r => (r.1.drop initialCapacity, r.2.cap)) =
        some ([.alloc, .success], 96) ∧
      (addAll pairs growing).bind (fun r => itemAt r.2 initialCapacity) = some [3, 4] := by
  decide +kernel

theorem vector_faithful_pairs :
    ∃ rets v, addAll pairs growing = some (rets, v) ∧ rets.length = growing.length ∧
      Valid 2 v ∧ NoWrap v ∧ Represents v (kept growing rets) ∧
      ∀ a : Add 2, Appends a.realloc v a.item ∨ Refuses a.realloc v a.item :=
  vector_faithful (by decide) (by decide) pairs_init growing

/-! ### Vectors as lists -/

section Lists
variable {s : ℕ} {v : Vector} {xs : List Bytes} (hv : Valid s v) (hx : Represents v xs)
include hv

/-- `vector_add` as `add_warn` sees it, for entries of any layout. -/
theorem represents_warn (hs : 2 ≤ s) (layout : WarnT → Block s) {warn : List WarnT}
    (hwarn : Represents v (warn.map fun w => (layout w).bytes)) (realloc : Realloc) (w : WarnT) :
    ∃ ret v', vectorAdd realloc v (layout w) = some (ret, v') ∧ Valid s v' ∧
      Represents v' ((ScannerdLog.vectorAdd (ret = .success) warn w).map
        fun w => (layout w).bytes) := by
  rcases vectorAdd_cases hv hs realloc (layout w) with
    ⟨v', hadd, hv', hlen, hnew, hitems⟩ | ⟨hadd, -, -⟩
  · refine ⟨_, v', hadd, hv', ?_⟩
    simpa [ScannerdLog.vectorAdd] using represents_append hwarn hlen hnew hitems
  · exact ⟨_, v, hadd, hv, by simpa [ScannerdLog.vectorAdd] using hwarn⟩

include hx

/-- Writing an item in place. -/
theorem represents_writeItem {i : ℕ} (hi : i < v.len) (new : Block s) :
    ∃ v', writeItem v i new = some v' ∧ Valid s v' ∧ Represents v' (xs.set i new.bytes) := by
  obtain ⟨data, hfill, hnew, hothers⟩ := itemAt_fill hv (hi.trans_le hv.len_le) new
  refine ⟨{ v with data := data }, by simp [writeItem, hfill],
    ⟨hv.size_eq, hv.cap_ge, hv.len_le, hv.fits, hv.bounded⟩, by simpa using hx.length_eq,
    fun j y hy => ?_⟩
  by_cases hj : j = i
  · subst hj
    rw [List.getElem?_set_self (hx.length_eq ▸ hi), Option.some_inj] at hy
    rw [← hy]
    exact hnew
  · rw [List.getElem?_set_ne (Ne.symm hj)] at hy
    have hlt : j < v.len := hx.length_eq ▸ (List.getElem?_eq_some_iff.mp hy).choose
    rw [← hx.itemAt_eq j y hy]
    exact hothers j (hlt.trans_le hv.len_le) hj

/-- The loop finds the first of the items it has not passed. -/
theorem searchFrom_eq (item : Block s) {left i : ℕ} (hi : i + left = v.len) :
    searchFrom v item left i =
      some (if item.bytes ∈ xs.drop i then ((i + (xs.drop i).idxOf item.bytes : ℕ) : ℤ)
        else -1) := by
  induction left generalizing i with
  | zero =>
      have hnil : xs.drop i = [] := List.drop_eq_nil_of_le (by rw [hx.length_eq]; omega)
      simp [searchFrom, hnil]
  | succ left ih =>
      have hlt : i < xs.length := by
        rw [hx.length_eq]
        omega
      have hslice : item.slice 0 v.size = some item.bytes := by
        rw [hv.size_eq, item.slice_all]
      have hitem : v.data.slice (vectorItem v i) v.size = some xs[i] :=
        hx.itemAt_eq i xs[i] (List.getElem?_eq_getElem hlt)
      have hnext := ih (i := i + 1) (by omega)
      simp only [searchFrom, hslice, hitem, Option.bind_eq_bind, Option.bind_some,
        List.drop_eq_getElem_cons hlt, List.mem_cons]
      by_cases heq : item.bytes = xs[i]
      · rw [if_pos heq, if_pos (.inl heq), heq, List.idxOf_cons_self]
        rfl
      · rw [if_neg heq, hnext, List.idxOf_cons_ne _ (Ne.symm heq)]
        simp only [heq, false_or]
        split_ifs
        · congr 2
          omega
        · rfl

theorem vectorSearch_eq (item : Block s) :
    vectorSearch v item =
      some (if item.bytes ∈ xs then (xs.idxOf item.bytes : ℤ) else -1) := by
  rw [vectorSearch, searchFrom_eq hv hx item (Nat.zero_add v.len)]
  simp

end Lists

end NetdataPlugins.ItemVector
