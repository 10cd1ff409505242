import Mathlib.Algebra.Order.BigOperators.Group.List
import NetdataPlugins.DetailsLog
import NetdataPlugins.Runs

/-!
# The average duration of a scan (scanner.c)

Between two clears every details line with a fourth column gives a sample to one
of the nine durations. The samples are counted in an `int` and summed in an
`unsigned`, and the average is the quotient of what these hold.
-/
namespace NetdataPlugins.DetailsDurations
open MemoryBlock CString NextField Scanner DetailsLog Runs

variable {duration : Bytes → ℤ}

/-- A line in memory, and `buf` of `details_process` on entry. -/
structure LogLine where
  buf : Block 256
  text : Bytes
  terminated : 0 ∈ text

def exec (duration : Bytes → ℤ) (data : DetailsStatistics) (line : LogLine) :
    Option DetailsStatistics :=
  detailsProcess duration line.buf line.text data

/-- The statistics that are printed for the lines between two clears. -/
def period (duration : Bytes → ℤ) (before : DetailsStatistics) (lines : List LogLine) :
    Option DetailsStatistics :=
  (run (exec duration) (detailsClear before) lines).map detailsPostprocess

/-- The sample of a line with these columns. -/
def sampleOf (duration : Bytes → ℤ) : List Bytes → Option (Bucket × ℤ)
  | _ :: status :: time :: _ :: _ => some (bucket (scStat status) (ccStat status), duration time)
  | _ => none

/-- The durations that the lines give to a bucket. -/
def samples (duration : Bytes → ℤ) (b : Bucket) (lines : List LogLine) : List ℤ :=
  ((lines.filterMap fun line => sampleOf duration (columns line.text)).filter (·.1 = b)).map (·.2)

def intMax : ℤ := 2 ^ 31 - 1

/-- A count that is still an `int`, and an average of the samples. -/
def TrueAverage (ds : List ℤ) (s : ScanDuration) : Prop :=
  s.count ≤ intMax ∧ s.value = ds.sum / ds.length ∧
    (∃ d ∈ ds, d ≤ s.value) ∧ ∃ d ∈ ds, s.value ≤ d

/-! ### What a line does to a bucket -/

theorem scanDuration_counted (status : Bytes) (data : DetailsStatistics) :
    (counted status data).scanDuration = data.scanDuration := by
  have hstatus : (countStatus status data).scanDuration = data.scanDuration := by
    unfold countStatus
    split_ifs <;> rfl
  rw [counted, ← hstatus]
  rcases ccStat status with _ | _ | _ <;> rcases scStat status with _ | _ | _ <;> rfl

theorem exec_eq_some {data data' : DetailsStatistics} {line : LogLine}
    (h : exec duration data line = some data') :
    data' = processed duration (columns line.text) data := by
  rcases detailsProcess_cases duration line.buf line.terminated data with hsome | hnone
  · exact (Option.some_inj.mp (hsome.symm.trans h)).symm
  · cases hnone.1.symm.trans h

theorem samples_append (b : Bucket) (as bs : List LogLine) :
    samples duration b (as ++ bs) = samples duration b as ++ samples duration b bs := by
  simp [samples, List.filterMap_append]

theorem scanDuration_exec {data data' : DetailsStatistics} {line : LogLine} (b : Bucket)
    (h : exec duration data line = some data') :
    data'.scanDuration b =
      (samples duration b [line]).foldl (fun s d => addDuration d s) (data.scanDuration b) := by
  cases exec_eq_some h
  simp only [samples, List.filterMap_cons, List.filterMap_nil]
  match columns line.text with
  | _ :: status :: time :: c :: cs =>
      obtain ⟨n, e, i, hflags⟩ := checked_flagged (numOfFields - 3) (c :: cs)
        (sample (bucket (scStat status) (ccStat status)) (duration time) (counted status data))
      rw [processed, hflags, flagged, sample, scanDuration_counted, sampleOf]
      by_cases hb : bucket (scStat status) (ccStat status) = b
      · simp [hb]
      · simp [hb, Function.update_of_ne (Ne.symm hb)]
  | [_, status, _] =>
      rw [processed, raiseIncorrectNumClmns, scanDuration_counted]
      rfl
  | [_, _] => rfl
  | [_] => rfl
  | [] => rfl

/-! ### What a period does -/

theorem scanDuration_run {data data' : DetailsStatistics} {lines : List LogLine} (b : Bucket)
    (h : run (exec duration) data lines = some data') :
    data'.scanDuration b =
      (samples duration b lines).foldl (fun s d => addDuration d s) (data.scanDuration b) := by
  induction lines generalizing data with
  | nil =>
      cases h
      rfl
  | cons line lines ih =>
      obtain ⟨u, hu, hrun⟩ := Option.bind_eq_some_iff.mp h
      rw [ih hrun, scanDuration_exec b hu, ← List.foldl_append, ← samples_append]
      rfl

/-- The sum is kept modulo the width of an `unsigned`. -/
theorem addDuration_foldl (ds : List ℤ) (v n x : ℤ) :
    ds.foldl (fun s d => addDuration d s) ⟨v, n, x % 2 ^ 32⟩ =
      ⟨v, n + ds.length, (x + ds.sum) % 2 ^ 32⟩ := by
  induction ds generalizing n x with
  | nil => simp
  | cons d ds ih =>
      rw [List.foldl_cons, addDuration, Int.emod_add_emod, ih]
      simp only [List.sum_cons, List.length_cons, Nat.cast_add, Nat.cast_one, add_assoc,
        add_comm (1 : ℤ)]

/-- What is printed for a bucket depends on its samples alone. -/
theorem scanDuration_period {before data : DetailsStatistics} {lines : List LogLine} (b : Bucket)
    (h : period duration before lines = some data) :
    data.scanDuration b = averageDuration
      ⟨0, (samples duration b lines).length, (samples duration b lines).sum % 2 ^ 32⟩ := by
  obtain ⟨data', hrun, rfl⟩ := Option.map_eq_some_iff.mp h
  have hsum := addDuration_foldl (samples duration b lines) 0 0 0
  rw [zero_add, zero_add] at hsum
  rw [← hsum]
  exact congrArg averageDuration (scanDuration_run b hrun)

/-! ### The quotient -/

/-- The average of numbers lies between two of them. -/
theorem average_between {ds : List ℤ} (hne : ds ≠ []) :
    (∃ d ∈ ds, d ≤ ds.sum / ds.length) ∧ ∃ d ∈ ds, ds.sum / ds.length ≤ d := by
  have hpos : (0 : ℤ) < ds.length := by simpa [List.length_pos_iff] using hne
  constructor
  · by_contra! habove
    have hsum := ds.card_nsmul_le_sum (ds.sum / ds.length + 1) fun d hd => habove d hd
    rw [nsmul_eq_mul, mul_comm] at hsum
    have := Int.le_ediv_of_mul_le hpos hsum
    omega
  · by_contra! hbelow
    have hsum := ds.sum_le_card_nsmul (ds.sum / ds.length - 1) fun d hd =>
      Int.le_sub_one_of_lt (hbelow d hd)
    rw [nsmul_eq_mul, mul_comm] at hsum
    have := Int.ediv_le_of_le_mul hpos hsum
    omega

/-- A dividend that wraps around loses at least one divisor. -/
theorem wrapped_ediv_eq_iff {x n m : ℤ} (hn : 0 < n) (hm : n ≤ m) (hx : 0 ≤ x) :
    x % m / n = x / n ↔ x < m := by
  constructor
  · intro h
    by_contra hle
    have hm0 : 0 < m := lt_of_lt_of_le hn hm
    have hturn : 1 ≤ x / m := Int.le_ediv_of_mul_le hm0 (by omega)
    have hless : x % m ≤ x - n := by
      have hsplit := Int.emod_add_mul_ediv x m
      have hmul : m ≤ m * (x / m) := le_mul_of_one_le_right hm0.le hturn
      omega
    have hquot := Int.ediv_le_ediv hn hless
    rw [Int.sub_ediv_of_dvd x (dvd_refl n), Int.ediv_self hn.ne', h] at hquot
    omega
  · intro h
    rw [Int.emod_eq_of_lt hx h]

section Samples
variable {ds : List ℤ} (hne : ds ≠ []) (hds : ∀ d ∈ ds, 0 ≤ d ∧ d ≤ intMax)
include hne hds

/-- The conversions between `int` and `unsigned` do no harm to so many samples. -/
theorem averageDuration_value (hcount : (ds.length : ℤ) ≤ intMax) :
    (averageDuration ⟨0, ds.length, ds.sum % 2 ^ 32⟩).value = ds.sum % 2 ^ 32 / ds.length := by
  have hpos : (0 : ℤ) < ds.length := by simpa [List.length_pos_iff] using hne
  have hsum : 0 ≤ ds.sum := List.sum_nonneg fun d hd => (hds d hd).1
  obtain ⟨d, hd, hle⟩ := (average_between hne).2
  have hwrapped : ds.sum % 2 ^ 32 ≤ ds.sum := by omega
  have hquot := Int.ediv_le_ediv hpos hwrapped
  have hnonneg : 0 ≤ ds.sum % 2 ^ 32 / ds.length := Int.ediv_nonneg (by omega) hpos.le
  have hmax := (hds d hd).2
  unfold intMax at *
  rw [averageDuration, if_pos hpos.ne', Int.emod_eq_of_lt hpos.le (by omega)]
  change (ds.sum % 2 ^ 32 / ds.length).bmod (2 ^ 32) = _
  exact Int.bmod_eq_of_le (by omega) (by omega)

theorem trueAverage_iff :
    TrueAverage ds (averageDuration ⟨0, ds.length, ds.sum % 2 ^ 32⟩) ↔
      ds.length ≤ intMax ∧ ds.sum < 2 ^ 32 := by
  have hpos : (0 : ℤ) < ds.length := by simpa [List.length_pos_iff] using hne
  have hsum : 0 ≤ ds.sum := List.sum_nonneg fun d hd => (hds d hd).1
  have hcount : (averageDuration ⟨0, ds.length, ds.sum % 2 ^ 32⟩).count = ds.length := by
    rw [averageDuration]
    split_ifs <;> rfl
  rw [TrueAverage, hcount]
  apply and_congr_right
  intro hle
  have hfew : (ds.length : ℤ) ≤ 2 ^ 32 := by
    unfold intMax at hle
    omega
  rw [averageDuration_value hne hds hle, ← wrapped_ediv_eq_iff hpos hfew hsum]
  constructor
  · exact fun h => h.1
  · intro h
    rw [h]
    exact ⟨rfl, average_between hne⟩

end Samples

/-- The printed averages are true exactly when no bucket has more samples than an
`int` counts and no sum of samples wraps around. -/
theorem durations_true_iff {before data : DetailsStatistics} {lines : List LogLine}
    (h : period duration before lines = some data)
    (hint : ∀ b, ∀ d ∈ samples duration b lines, 0 ≤ d ∧ d ≤ intMax) :
    (∀ b, samples duration b lines ≠ [] →
      TrueAverage (samples duration b lines) (data.scanDuration b)) ↔
    ∀ b, (samples duration b lines).length ≤ intMax ∧ (samples duration b lines).sum < 2 ^ 32 := by
  apply forall_congr'
  intro b
  rw [scanDuration_period b h]
  by_cases hne : samples duration b lines = []
  · simp [hne, intMax]
  · rw [← trueAverage_iff hne (hint b)]
    simp [hne]

/-- `atof` on the texts of the examples, in microseconds. -/
def microseconds (time : Bytes) : ℤ :=
  if time = lit "0.25" then 250000 else if time = lit "1500" then 1500000000 else 0

/-- A line with all columns. -/
def scanned (status time : String) : LogLine where
  buf := emptyBuf
  text := lit "@4000\t" ++ lit status ++ [tab] ++ lit time ++
    lit "\t812\ta\tb\tc\td\te\tf\tg\th\ti\tj\tk" ++ [0]
  terminated := by simp

/-- Two samples in one bucket, and one in another between them. -/
def threeScans : List LogLine :=
  [scanned "Clear:RC:0:SC:0:CC:1" "0.25", scanned "Clear:RC:0" "0.25",
    scanned "CLAMDSCAN:SC:0:CC:1" "1500"]

theorem threeScans_isSome : (period microseconds detailsDataInit threeScans).isSome := by
  decide +kernel

theorem durations_true_iff_quarter :
    let data := (period microseconds detailsDataInit threeScans).get threeScans_isSome
    samples microseconds .sc0cc1 threeScans = [250000, 1500000000] ∧
      (data.scanDuration .sc0cc1).value = 750125000 ∧
      ((∀ b, samples microseconds b threeScans ≠ [] →
        TrueAverage (samples microseconds b threeScans) (data.scanDuration b)) ↔
      ∀ b, (samples microseconds b threeScans).length ≤ intMax ∧
        (samples microseconds b threeScans).sum < 2 ^ 32) := by
  refine ⟨by decide +kernel, by decide +kernel, ?_⟩
  exact durations_true_iff (Option.some_get _).symm fun b => by cases b <;> decide +kernel

def threeLong : List LogLine := List.replicate 3 (scanned "Clear:RC:0" "1500")

/-- Three scans of 1500 seconds have an average of 68. -/
theorem long_scans_wrap :
    ¬ ∀ (duration : Bytes → ℤ) (before data : DetailsStatistics) (lines : List LogLine),
      period duration before lines = some data →
      (∀ b, ∀ d ∈ samples duration b lines, 0 ≤ d ∧ d ≤ intMax) →
      ∀ b, samples duration b lines ≠ [] →
        TrueAverage (samples duration b lines) (data.scanDuration b) := by
  intro h
  have hprinted : (period microseconds detailsDataInit threeLong).map
      (fun data => (data.scanDuration .none).value) = some 68344234 := by decide +kernel
  obtain ⟨data, hperiod, hvalue⟩ := Option.map_eq_some_iff.mp hprinted
  have htrue := (h microseconds detailsDataInit data threeLong hperiod
    (fun b => by cases b <;> decide +kernel) .none (by decide +kernel)).2.1
  rw [hvalue] at htrue
  revert htrue
  decide +kernel

end NetdataPlugins.DetailsDurations
