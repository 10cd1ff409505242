import Mathlib.Data.List.Basic
import Mathlib.Data.List.Infix

/-!
# A log whose file is replaced

A log is the sequence of the files which have had its name. Only the last one
grows; replacing it starts an empty one. A reader stands at a position in one
of the files, and has everything that is older behind it. `Accounts` is the
balance of such a reader: what it has consumed, what its file still holds for
it, and what later files hold, make up what was written, in this order.

Reading to the end of the file and all that a writer does keep the balance. To
go on with the newest file keeps it exactly when nothing is passed over and
nothing comes again (`Orderly`).
-/
namespace NetdataPlugins.GenerationLog
variable {τ : Type*}

structure Log (τ : Type*) where
  past : List (List τ)
  current : List τ

/-- The number of a file, in the order of creation, and a place in it. -/
structure Position where
  generation : ℕ
  offset : ℕ
  deriving DecidableEq, Repr

namespace Log

def append (l : Log τ) (xs : List τ) : Log τ := { l with current := l.current ++ xs }

def rotate (l : Log τ) : Log τ := ⟨l.past ++ [l.current], []⟩

def newest (l : Log τ) : ℕ := l.past.length

def contents (l : Log τ) (generation : ℕ) : List τ :=
  (l.past ++ [l.current]).getD generation []

def unread (l : Log τ) (p : Position) : List τ := (l.contents p.generation).drop p.offset

def atEnd (l : Log τ) (p : Position) : Position :=
  ⟨p.generation, (l.contents p.generation).length⟩

/-- Everything in files younger than the one of `p`. -/
def younger (l : Log τ) (p : Position) : List τ :=
  ((l.past ++ [l.current]).drop (p.generation + 1)).flatten

/-- Everything in files between the one of `p` and the current one. -/
def between (l : Log τ) (p : Position) : List τ := (l.past.drop (p.generation + 1)).flatten

def start (l : Log τ) : Position := ⟨l.newest, 0⟩

/-- From `p`, going on with the newest file passes over nothing and repeats
nothing. -/
def Orderly (l : Log τ) (p : Position) : Prop :=
  (p.generation < l.newest ∧ l.between p = []) ∨ (p.generation = l.newest ∧ l.current = [])

instance [DecidableEq τ] (l : Log τ) (p : Position) : Decidable (l.Orderly p) :=
  inferInstanceAs (Decidable (_ ∨ _))

end Log

structure Accounts (l : Log τ) (p : Position) (consumed written : List τ) : Prop where
  generation_le : p.generation ≤ l.newest
  offset_le : p.offset ≤ (l.contents p.generation).length
  balance : consumed ++ l.unread p ++ l.younger p = written

namespace Log

theorem contents_newest (l : Log τ) : l.contents l.newest = l.current := by
  simp [contents, newest, List.getD_eq_getElem?_getD]

theorem contents_past (l : Log τ) {g : ℕ} (h : g < l.newest) :
    l.contents g = l.past.getD g [] := by
  have hg : g < l.past.length := h
  simp [contents, List.getD_eq_getElem?_getD, List.getElem?_append_left hg]

theorem younger_newest (l : Log τ) {p : Position} (h : p.generation = l.newest) :
    l.younger p = [] := by
  have hp : p.generation = l.past.length := h
  simp [younger, hp]

theorem younger_past (l : Log τ) {p : Position} (h : p.generation < l.newest) :
    l.younger p = l.between p ++ l.current := by
  have hp : p.generation + 1 ≤ l.past.length := h
  simp [younger, between, List.drop_append_of_le_length hp]

theorem unread_atEnd (l : Log τ) (p : Position) : l.unread (l.atEnd p) = [] := by
  simp [unread, atEnd]

end Log

namespace Accounts
variable {l : Log τ} {p : Position} {consumed written : List τ}

theorem prefix_written (h : Accounts l p consumed written) : consumed <+: written :=
  ⟨l.unread p ++ l.younger p, by rw [← List.append_assoc, h.balance]⟩

theorem append (h : Accounts l p consumed written) (xs : List τ) :
    Accounts (l.append xs) p consumed (written ++ xs) := by
  rcases h.generation_le.lt_or_eq with hlt | heq
  · have hsame : (l.append xs).contents p.generation = l.contents p.generation := by
      rw [Log.contents_past _ (show p.generation < (l.append xs).newest from hlt),
        Log.contents_past _ hlt]
      rfl
    refine ⟨hlt.le, by rw [hsame]; exact h.offset_le, ?_⟩
    rw [← h.balance, Log.younger_past _ (show p.generation < (l.append xs).newest from hlt),
      Log.younger_past _ hlt, Log.unread, hsame]
    simp [Log.unread, Log.between, Log.append]
  · have hnew : (l.append xs).contents p.generation = l.contents p.generation ++ xs := by
      rw [heq, Log.contents_newest]
      exact Log.contents_newest (l.append xs)
    refine ⟨heq.le, by rw [hnew, List.length_append]; exact h.offset_le.trans (by omega), ?_⟩
    rw [← h.balance, Log.younger_newest _ (show p.generation = (l.append xs).newest from heq),
      Log.younger_newest _ heq, Log.unread, hnew, List.drop_append_of_le_length h.offset_le]
    simp [Log.unread]

theorem rotate (h : Accounts l p consumed written) : Accounts l.rotate p consumed written := by
  have hlt : p.generation < l.rotate.newest := by
    have hle : p.generation ≤ l.past.length := h.generation_le
    simp [Log.newest, Log.rotate]
    omega
  have hsame : l.rotate.contents p.generation = l.contents p.generation := by
    rw [Log.contents_past _ hlt]
    rfl
  refine ⟨hlt.le, by rw [hsame]; exact h.offset_le, ?_⟩
  rw [Log.younger_past _ hlt, Log.unread, hsame, ← h.balance]
  simp [Log.between, Log.rotate, Log.younger, Log.unread]

/-- Reading a file to its end. -/
theorem read (h : Accounts l p consumed written) :
    Accounts l (l.atEnd p) (consumed ++ l.unread p) written := by
  refine ⟨h.generation_le, le_rfl, ?_⟩
  rw [l.unread_atEnd, List.append_nil]
  exact h.balance

/-- Going on with the newest file from the end of an orderly one. -/
theorem reopen (h : Accounts l (l.atEnd p) consumed written) (ho : l.Orderly p) :
    Accounts l l.start consumed written := by
  refine ⟨le_rfl, Nat.zero_le _, ?_⟩
  have hstart : l.unread l.start = l.current := by
    simp [Log.unread, Log.start, Log.contents_newest]
  rw [hstart, Log.younger_newest l rfl, List.append_nil, ← h.balance, l.unread_atEnd,
    List.append_nil]
  rcases ho with ⟨hlt, hb⟩ | ⟨heq, hc⟩
  · rw [Log.younger_past l (show (l.atEnd p).generation < l.newest from hlt),
      show l.between (l.atEnd p) = [] from hb, List.nil_append]
  · rw [Log.younger_newest l (show (l.atEnd p).generation = l.newest from heq), hc]

/-- At the end of the newest file nothing is missing. -/
theorem complete (h : Accounts l (l.atEnd p) consumed written) (hp : p.generation = l.newest) :
    consumed = written := by
  rw [← h.balance, l.unread_atEnd,
    Log.younger_newest l (show (l.atEnd p).generation = l.newest from hp)]
  simp

end Accounts

end NetdataPlugins.GenerationLog
