import Mathlib.Algebra.Order.Ring.Int
import Mathlib.Tactic.NormNum
import Mathlib.Tactic.SplitIfs

/-!
# Elapsed time (timer.c)

`update_timestamp` replaces a reading of the clock by a new one and returns the
microseconds between them, as an unsigned 64-bit number.
-/
namespace NetdataPlugins.Timer

structure Timespec where
  sec : ℤ
  nsec : ℤ
  deriving DecidableEq, Repr

/-- A reading as `clock_gettime` gives it. -/
def Timespec.Normal (t : Timespec) : Prop := 0 ≤ t.nsec ∧ t.nsec < 1000000000

instance (t : Timespec) : Decidable t.Normal := inferInstanceAs (Decidable (_ ∧ _))

def Timespec.nanos (t : Timespec) : ℤ := t.sec * 1000000000 + t.nsec

/-- The difference of two readings, with the borrow of a second. -/
def elapsed (old now : Timespec) : Timespec :=
  let tmp : Timespec := ⟨now.sec - old.sec, now.nsec - old.nsec⟩
  if tmp.nsec < 0 then ⟨tmp.sec - 1, tmp.nsec + 1000000000⟩ else tmp

def updateTimestamp (now reading : Timespec) : ℕ × Timespec :=
  let tmp := elapsed now reading
  (((tmp.sec * 1000000 + tmp.nsec.tdiv 1000) % 2 ^ 64).toNat, reading)

theorem elapsed_nanos (old now : Timespec) : (elapsed old now).nanos = now.nanos - old.nanos := by
  simp only [elapsed, Timespec.nanos]
  split_ifs
  · dsimp only
    omega
  · dsimp only
    omega

theorem elapsed_normal {old now : Timespec} (ho : old.Normal) (hn : now.Normal) :
    (elapsed old now).Normal := by
  obtain ⟨ho₁, ho₂⟩ := ho
  obtain ⟨hn₁, hn₂⟩ := hn
  simp only [elapsed, Timespec.Normal]
  split_ifs with h
  · dsimp only
    omega
  · dsimp only
    omega

/-- The microseconds from one reading to another, rounded down. -/
def micros (old now : Timespec) : ℤ := (now.nanos - old.nanos) / 1000

theorem micros_nonneg {old now : Timespec} : 0 ≤ micros old now ↔ old.nanos ≤ now.nanos := by
  unfold micros
  omega

theorem micros_neg {old now : Timespec} : micros old now < 0 ↔ now.nanos < old.nanos := by
  rw [← not_le, micros_nonneg, not_le]

theorem updateTimestamp_fst {old now : Timespec} (ho : old.Normal) (hn : now.Normal) :
    (updateTimestamp old now).1 = (micros old now % 2 ^ 64).toNat := by
  have hnsec : 0 ≤ (elapsed old now).nsec := (elapsed_normal ho hn).1
  have hnanos := elapsed_nanos old now
  rw [Timespec.nanos] at hnanos
  have hmicros : (elapsed old now).sec * 1000000 + (elapsed old now).nsec.tdiv 1000 =
      micros old now := by
    rw [Int.tdiv_eq_ediv_of_nonneg hnsec, micros]
    omega
  rw [updateTimestamp, hmicros]

/-- A clock that is not set back never yields more than the time elapsed. -/
theorem updateTimestamp_le {old now : Timespec} (ho : old.Normal) (hn : now.Normal)
    (hle : old.nanos ≤ now.nanos) :
    ((updateTimestamp old now).1 : ℤ) * 1000 ≤ now.nanos - old.nanos := by
  have hpos : 0 ≤ micros old now := micros_nonneg.mpr hle
  rw [updateTimestamp_fst ho hn, Int.toNat_of_nonneg (Int.emod_nonneg _ (by norm_num))]
  unfold micros at hpos ⊢
  omega

end NetdataPlugins.Timer
