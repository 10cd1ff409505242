import Mathlib.Algebra.Order.Group.Unbundled.Abs
import NetdataPlugins.Netdata
import NetdataPlugins.Timer

/-!
# Elapsed time along a run (timer.c, netdata.c)

The plugins call `update_timestamp` once in an interval and print what it
returns on the BEGIN lines. The clock is the wall clock, which may be set back.
The time between two readings is then negative, and the unsigned result is huge.
-/
namespace NetdataPlugins.ElapsedTime
open MemoryBlock CString Netdata Timer

/-- What successive calls return and store. -/
def calls : Timespec → List Timespec → List (ℕ × Timespec)
  | _, [] => []
  | now, r :: rs => updateTimestamp now r :: calls (updateTimestamp now r).2 rs

/-- Each reading with the one before it. -/
def steps : Timespec → List Timespec → List (Timespec × Timespec)
  | _, [] => []
  | old, r :: rs => (old, r) :: steps r rs

def AllNormal (now : Timespec) (rs : List Timespec) : Prop := ∀ r ∈ now :: rs, r.Normal

/-- The microseconds between two readings fit into a `long`. -/
def InRange (now : Timespec) (rs : List Timespec) : Prop :=
  ∀ s ∈ steps now rs, -2 ^ 63 ≤ micros s.1 s.2 ∧ micros s.1 s.2 < 2 ^ 63

/-- The clock is not set back. -/
def NeverBack (now : Timespec) (rs : List Timespec) : Prop :=
  ∀ s ∈ steps now rs, s.1.nanos ≤ s.2.nanos

instance (now : Timespec) (rs : List Timespec) : Decidable (AllNormal now rs) :=
  inferInstanceAs (Decidable (∀ r ∈ now :: rs, r.Normal))

instance (now : Timespec) (rs : List Timespec) : Decidable (InRange now rs) :=
  inferInstanceAs (Decidable (∀ s ∈ steps now rs, _))

instance (now : Timespec) (rs : List Timespec) : Decidable (NeverBack now rs) :=
  inferInstanceAs (Decidable (∀ s ∈ steps now rs, _))

/-- Every call returns the microseconds since the last reading, or zero after a
step back, and stores its own reading; without a step back the sum of the
results is less than a microsecond off for each call; and after a step back
`nd_begin_time` prints no time. -/
structure Exact (now : Timespec) (rs : List Timespec) : Prop where
  calls_eq : calls now rs = (steps now rs).map fun s => ((max 0 (micros s.1 s.2)).toNat, s.2)
  sum_near : NeverBack now rs → rs ≠ [] →
    |(((calls now rs).map Prod.fst).sum : ℤ) * 1000 -
      ((rs.getLastD now).nanos - now.nanos)| < rs.length * 1000
  back_silent : ∀ c ∈ (steps now rs).zip (calls now rs), c.1.2.nanos < c.1.1.nanos →
    ∀ (type : Bytes) (pre id : Option Bytes),
      ndBeginTime type pre id c.2.1 = .begin (printTypePrefixId type pre id) none

/-! ### One call -/

section Step
variable {old now : Timespec} (ho : old.Normal) (hn : now.Normal)
include ho hn

theorem updateTimestamp_forward (hle : old.nanos ≤ now.nanos) (hmax : micros old now < 2 ^ 63) :
    updateTimestamp old now = ((max 0 (micros old now)).toNat, now) := by
  have hpos : 0 ≤ micros old now := micros_nonneg.mpr hle
  have hret : (updateTimestamp old now).1 = (max 0 (micros old now)).toNat := by
    rw [updateTimestamp_fst ho hn, Int.emod_eq_of_lt hpos (by omega), max_eq_right hpos]
  exact Prod.ext hret rfl

/-- A step back becomes more than half of the unsigned range. -/
theorem updateTimestamp_back (hlt : now.nanos < old.nanos) (hmin : -2 ^ 63 ≤ micros old now) :
    2 ^ 63 ≤ (updateTimestamp old now).1 := by
  have hneg : micros old now < 0 := micros_neg.mpr hlt
  rw [updateTimestamp_fst ho hn]
  omega

end Step

/-! ### A run -/

theorem calls_eq_map (now : Timespec) (rs : List Timespec) :
    calls now rs = (steps now rs).map fun s => updateTimestamp s.1 s.2 := by
  induction rs generalizing now with
  | nil => rfl
  | cons r rs ih => exact congrArg (List.cons _) (ih r)

theorem normal_steps {now : Timespec} {rs : List Timespec} (h : AllNormal now rs)
    {s : Timespec × Timespec} (hs : s ∈ steps now rs) : s.1.Normal ∧ s.2.Normal := by
  induction rs generalizing now with
  | nil => cases hs
  | cons r rs ih =>
      obtain ⟨hnow, hrest⟩ := List.forall_mem_cons.mp h
      rcases List.mem_cons.mp hs with rfl | hs
      · exact ⟨hnow, hrest r List.mem_cons_self⟩
      · exact ih hrest hs

/-- Each call cuts off less than a microsecond of the time between the first and
the last reading. -/
theorem sum_micros {now : Timespec} {rs : List Timespec} (h : NeverBack now rs) :
    ((((steps now rs).map fun s => (max 0 (micros s.1 s.2)).toNat).sum : ℕ) : ℤ) * 1000 ≤
        (rs.getLastD now).nanos - now.nanos ∧
      ((rs.getLastD now).nanos - now.nanos) + rs.length ≤
        ((((steps now rs).map fun s => (max 0 (micros s.1 s.2)).toNat).sum : ℕ) : ℤ) * 1000 +
          rs.length * 1000 := by
  induction rs generalizing now with
  | nil => simp [steps]
  | cons r rs ih =>
      obtain ⟨hfirst, hrest⟩ := List.forall_mem_cons.mp h
      obtain ⟨hlow, hhigh⟩ := ih hrest
      have hpos : 0 ≤ micros now r := micros_nonneg.mpr hfirst
      have hcut : micros now r * 1000 ≤ r.nanos - now.nanos ∧
          r.nanos - now.nanos < micros now r * 1000 + 1000 := by
        unfold micros
        omega
      have hlast : (r :: rs).getLastD now = rs.getLastD r := by
        cases rs <;> rfl
      rw [hlast, steps, List.map_cons, List.sum_cons, max_eq_right hpos, List.length_cons]
      simp only [Nat.cast_add, Nat.cast_one, Int.toNat_of_nonneg hpos]
      constructor <;> omega

theorem exact_of_neverBack {now : Timespec} {rs : List Timespec} (hnormal : AllNormal now rs)
    (hrange : InRange now rs) (h : NeverBack now rs) : Exact now rs := by
  have hcalls : calls now rs =
      (steps now rs).map fun s => ((max 0 (micros s.1 s.2)).toNat, s.2) := by
    rw [calls_eq_map]
    apply List.map_congr_left
    intro s hs
    obtain ⟨hold, hnew⟩ := normal_steps hnormal hs
    exact updateTimestamp_forward hold hnew (h s hs) (hrange s hs).2
  refine ⟨hcalls, fun _ hne => ?_, fun c hc hback => ?_⟩
  · have hpos := List.length_pos_iff.mpr hne
    obtain ⟨hlow, hhigh⟩ := sum_micros h
    rw [hcalls, List.map_map, abs_lt]
    constructor <;> simp only [Function.comp_def] <;> omega
  · exact absurd (h c.1 (List.of_mem_zip hc).1) (not_le.mpr hback)

/-- The elapsed times are exact precisely when the clock is not set back, not even by
a nanosecond. -/
theorem exact_iff {now : Timespec} {rs : List Timespec} (hnormal : AllNormal now rs)
    (hrange : InRange now rs) : Exact now rs ↔ NeverBack now rs := by
  refine ⟨fun h s hs => ?_, exact_of_neverBack hnormal hrange⟩
  by_contra hback
  rw [not_le] at hback
  obtain ⟨hold, hnew⟩ := normal_steps hnormal hs
  have hhuge := updateTimestamp_back hold hnew hback (hrange s hs).1
  have hneg : micros s.1 s.2 < 0 := micros_neg.mpr hback
  have hcall := List.map_inj_left.mp ((calls_eq_map now rs).symm.trans h.calls_eq) s hs
  rw [hcall, max_eq_left hneg.le] at hhuge
  exact absurd hhuge (Nat.not_le.mpr (Nat.two_pow_pos 63))

theorem exact_iff_second :
    Exact ⟨100, 999999999⟩ [⟨101, 500⟩, ⟨101, 500⟩] ↔
      NeverBack ⟨100, 999999999⟩ [⟨101, 500⟩, ⟨101, 500⟩] :=
  exact_iff (by decide) (by decide)

/-- A clock set back by one second. -/
theorem set_back_not_exact :
    ¬ ∀ now rs, AllNormal now rs → InRange now rs → Exact now rs := by
  intro h
  have hcalls := (h ⟨100, 0⟩ [⟨99, 0⟩] (by decide) (by decide)).calls_eq
  revert hcalls
  decide

end NetdataPlugins.ElapsedTime
