import NetdataPlugins.DetailsDurations

/-!
# What the details counters add up to (scanner.c)

`details_process` counts the status of a line from its third column on and takes
a sample of the duration from its fourth column on. So the types add up to the
lines that long, and a cache counter is ahead of the samples of its buckets by
the lines of just three columns.
-/
namespace NetdataPlugins.DetailsAccounting
open MemoryBlock CString Scanner DetailsLog DetailsDurations Runs

inductive Op where
  | process (line : LogLine)
  | postprocess

namespace Op

def columns : Op → List Bytes
  | process line => DetailsLog.columns line.text
  | postprocess => []

/-- What the status of the line says about its cache entries. -/
def sc (op : Op) : Option Bool := op.columns[1]?.bind scStat

def cc (op : Op) : Option Bool := op.columns[1]?.bind ccStat

end Op

def step (duration : Bytes → ℤ) (data : DetailsStatistics) : Op → Option DetailsStatistics
  | .process line => exec duration data line
  | .postprocess => some (detailsPostprocess data)

/-! ### Sums of counters -/

def typeCount (data : DetailsStatistics) : ℤ :=
  data.clear + data.clamdscan + data.spamTagged + data.spamRejected + data.spamDeleted + data.other

def scCount : Bool → DetailsStatistics → ℤ
  | false, data => data.sc0
  | true, data => data.sc1

def ccCount : Bool → DetailsStatistics → ℤ
  | false, data => data.cc0
  | true, data => data.cc1

def sampleCount (bs : List Bucket) (data : DetailsStatistics) : ℤ :=
  (bs.map fun b => (data.scanDuration b).count).sum

def buckets : List Bucket := [.sc0cc0, .sc0cc1, .sc1cc0, .sc1cc1, .cc0, .cc1, .sc0, .sc1, .none]

/-- The buckets with a value of SC. -/
def scBuckets : Bool → List Bucket
  | false => [.sc0cc0, .sc0cc1, .sc0]
  | true => [.sc1cc0, .sc1cc1, .sc1]

def ccBuckets : Bool → List Bucket
  | false => [.sc0cc0, .sc1cc0, .cc0]
  | true => [.sc0cc1, .sc1cc1, .cc1]

theorem mem_buckets (b : Bucket) : b ∈ buckets := by
  cases b <;> decide

theorem bucket_mem_scBuckets (sc cc : Option Bool) (s : Bool) :
    bucket sc cc ∈ scBuckets s ↔ sc = some s := by
  rcases sc with _ | _ | _ <;> rcases cc with _ | _ | _ <;> cases s <;> decide

theorem bucket_mem_ccBuckets (sc cc : Option Bool) (s : Bool) :
    bucket sc cc ∈ ccBuckets s ↔ cc = some s := by
  rcases sc with _ | _ | _ <;> rcases cc with _ | _ | _ <;> cases s <;> decide

theorem sampleCount_sample {bs : List Bucket} (hnodup : bs.Nodup) (b : Bucket) (d : ℤ)
    (data : DetailsStatistics) :
    sampleCount bs (sample b d data) = sampleCount bs data + if b ∈ bs then 1 else 0 := by
  induction bs with
  | nil => rfl
  | cons a bs ih =>
      obtain ⟨ha, hbs⟩ := List.nodup_cons.mp hnodup
      replace ih := ih hbs
      simp only [sampleCount, sample, List.map_cons, List.sum_cons] at ih ⊢
      rw [ih]
      by_cases h : a = b
      · subst h
        rw [Function.update_self, if_neg ha, if_pos List.mem_cons_self]
        simp only [addDuration]
        omega
      · rw [Function.update_of_ne h]
        simp only [List.mem_cons, Ne.symm h, false_or]
        omega

/-! ### What a line does to them -/

theorem typeCount_counted (status : Bytes) (data : DetailsStatistics) :
    typeCount (counted status data) = typeCount data + 1 := by
  have hstatus : typeCount (countStatus status data) = typeCount data + 1 := by
    unfold countStatus
    split_ifs <;> simp only [typeCount] <;> omega
  rw [← hstatus, counted]
  rcases ccStat status with _ | _ | _ <;> rcases scStat status with _ | _ | _ <;> rfl

theorem scCount_counted (s : Bool) (status : Bytes) (data : DetailsStatistics) :
    scCount s (counted status data) = scCount s data + if scStat status = some s then 1 else 0 := by
  have hstatus : scCount s (countStatus status data) = scCount s data := by
    unfold countStatus
    cases s <;> split_ifs <;> rfl
  rw [← hstatus, counted]
  rcases ccStat status with _ | _ | _ <;> rcases scStat status with _ | _ | _ <;> cases s <;>
    simp [scCount, countSc, countCc]

theorem ccCount_counted (s : Bool) (status : Bytes) (data : DetailsStatistics) :
    ccCount s (counted status data) = ccCount s data + if ccStat status = some s then 1 else 0 := by
  have hstatus : ccCount s (countStatus status data) = ccCount s data := by
    unfold countStatus
    cases s <;> split_ifs <;> rfl
  rw [← hstatus, counted]
  rcases ccStat status with _ | _ | _ <;> rcases scStat status with _ | _ | _ <;> cases s <;>
    simp [ccCount, countSc, countCc]

/-- Nothing that is counted differs. -/
structure SameCounts (a b : DetailsStatistics) : Prop where
  types : typeCount b = typeCount a
  sc : ∀ s, scCount s b = scCount s a
  cc : ∀ s, ccCount s b = ccCount s a
  samples : ∀ bs, sampleCount bs b = sampleCount bs a

theorem sameCounts_flagged (n e i : ℤ) (data : DetailsStatistics) :
    SameCounts data (flagged n e i data) :=
  ⟨rfl, fun s => by cases s <;> rfl, fun s => by cases s <;> rfl, fun _ => rfl⟩

theorem sameCounts_postprocess (data : DetailsStatistics) :
    SameCounts data (detailsPostprocess data) := by
  refine ⟨rfl, fun s => by cases s <;> rfl, fun s => by cases s <;> rfl, fun bs => ?_⟩
  have hcount (s : ScanDuration) : (averageDuration s).count = s.count := by
    unfold averageDuration
    split_ifs <;> rfl
  simp only [sampleCount, detailsPostprocess, hcount]

/-- A step counts nothing, or a status, or a status and a sample. -/
theorem step_cases {duration : Bytes → ℤ} {data data' : DetailsStatistics} {op : Op}
    (h : step duration data op = some data') :
    op.columns.length < 3 ∧ SameCounts data data' ∨
    ∃ status, op.columns[1]? = some status ∧
      (op.columns.length = 3 ∧ SameCounts (counted status data) data' ∨
        3 < op.columns.length ∧
          ∃ d, SameCounts (sample (bucket op.sc op.cc) d (counted status data)) data') := by
  cases op with
  | postprocess =>
      cases h
      exact .inl ⟨by simp [Op.columns], sameCounts_postprocess data⟩
  | process line =>
      replace h : data' = processed duration (DetailsLog.columns line.text) data :=
        exec_eq_some h
      subst h
      simp only [Op.sc, Op.cc, Op.columns]
      match DetailsLog.columns line.text with
      | _ :: status :: time :: c :: cs =>
          obtain ⟨n, e, i, hflags⟩ := checked_flagged (numOfFields - 3) (c :: cs)
            (sample (bucket (scStat status) (ccStat status)) (duration time) (counted status data))
          refine .inr ⟨status, rfl, .inr ⟨by simp, duration time, ?_⟩⟩
          rw [processed, hflags]
          exact sameCounts_flagged n e i _
      | [_, status, _] =>
          exact .inr ⟨status, rfl, .inl ⟨rfl, sameCounts_flagged _ _ _ _⟩⟩
      | [_, _] => exact .inl ⟨by simp, sameCounts_flagged _ _ _ _⟩
      | [_] => exact .inl ⟨by simp, sameCounts_flagged _ _ _ _⟩
      | [] => exact .inl ⟨by simp, sameCounts_flagged _ _ _ _⟩

section Step
variable {duration : Bytes → ℤ} {data data' : DetailsStatistics} {op : Op}
  (h : step duration data op = some data')
include h

theorem typeCount_step :
    typeCount data' = typeCount data + if 3 ≤ op.columns.length then 1 else 0 := by
  rcases step_cases h with ⟨hlen, hsame⟩ | ⟨status, -, ⟨hlen, hsame⟩ | ⟨hlen, d, hsame⟩⟩
  · rw [hsame.types, if_neg (by omega), add_zero]
  · rw [hsame.types, typeCount_counted, if_pos (by omega)]
  · rw [hsame.types, if_pos (by omega)]
    exact typeCount_counted status data

/-- The counter for one value of a cache entry, of which `stat` is what a status says. -/
theorem cacheCount_step {count : DetailsStatistics → ℤ} {stat : Bytes → Option Bool} {s : Bool}
    (hsame : ∀ {a b}, SameCounts a b → count b = count a)
    (hsample : ∀ b d data, count (sample b d data) = count data)
    (hcounted : ∀ status data,
      count (counted status data) = count data + if stat status = some s then 1 else 0) :
    count data' = count data +
      if 3 ≤ op.columns.length ∧ op.columns[1]?.bind stat = some s then 1 else 0 := by
  rcases step_cases h with
    ⟨hlen, h⟩ | ⟨status, hstatus, ⟨hlen, h⟩ | ⟨hlen, d, h⟩⟩
  · rw [hsame h, if_neg (by omega), add_zero]
  · rw [hsame h, hcounted, hstatus, hlen]
    simp
  · rw [hsame h, hsample, hcounted, hstatus]
    simp [hlen.le]

theorem scCount_step (s : Bool) :
    scCount s data' =
      scCount s data + if 3 ≤ op.columns.length ∧ op.sc = some s then 1 else 0 :=
  cacheCount_step h (fun h => h.sc s) (by cases s <;> exact fun _ _ _ => rfl) (scCount_counted s)

theorem ccCount_step (s : Bool) :
    ccCount s data' =
      ccCount s data + if 3 ≤ op.columns.length ∧ op.cc = some s then 1 else 0 :=
  cacheCount_step h (fun h => h.cc s) (by cases s <;> exact fun _ _ _ => rfl) (ccCount_counted s)

theorem sampleCount_step {bs : List Bucket} (hnodup : bs.Nodup) :
    sampleCount bs data' = sampleCount bs data +
      if 4 ≤ op.columns.length ∧ bucket op.sc op.cc ∈ bs then 1 else 0 := by
  have hcounted (status : Bytes) : sampleCount bs (counted status data) = sampleCount bs data := by
    rw [sampleCount, scanDuration_counted]
    rfl
  rcases step_cases h with ⟨hlen, hsame⟩ | ⟨status, -, ⟨hlen, hsame⟩ | ⟨hlen, d, hsame⟩⟩
  · rw [hsame.samples, if_neg (by omega), add_zero]
  · rw [hsame.samples, hcounted, if_neg (by omega), add_zero]
  · rw [hsame.samples, sampleCount_sample hnodup, hcounted]
    simp [Nat.succ_le_of_lt hlen]

end Step

/-! ### Runs -/

/-- The counters since a clear, against the lines that were processed. -/
structure Accounts (ops : List Op) (data : DetailsStatistics) : Prop where
  types : typeCount data = (ops.countP fun op => 3 ≤ op.columns.length : ℕ)
  samples : sampleCount buckets data = (ops.countP fun op => 4 ≤ op.columns.length : ℕ)
  sc : ∀ s, scCount s data - sampleCount (scBuckets s) data =
    (ops.countP fun op => op.columns.length = 3 ∧ op.sc = some s : ℕ)
  cc : ∀ s, ccCount s data - sampleCount (ccBuckets s) data =
    (ops.countP fun op => op.columns.length = 3 ∧ op.cc = some s : ℕ)

theorem sampleCount_clear (bs : List Bucket) (before : DetailsStatistics) :
    sampleCount bs (detailsClear before) = 0 := by
  simp [sampleCount, detailsClear, detailsDataInit]

section Run
variable {duration : Bytes → ℤ} {before data : DetailsStatistics} {ops : List Op}
  (h : run (step duration) (detailsClear before) ops = some data)
include h

/-- A cache counter is ahead of its buckets by the lines without a sample. -/
theorem ahead_run {count : DetailsStatistics → ℤ} {bs : List Bucket} {p : Op → Prop}
    [DecidablePred p] (hnodup : bs.Nodup) (hmem : ∀ op : Op, bucket op.sc op.cc ∈ bs ↔ p op)
    (hzero : count (detailsClear before) = 0)
    (hcount : ∀ data op data', step duration data op = some data' →
      count data' = count data + if 3 ≤ op.columns.length ∧ p op then 1 else 0) :
    count data - sampleCount bs data =
      (ops.countP fun op => op.columns.length = 3 ∧ p op : ℕ) := by
  have hahead : ∀ data op data', step duration data op = some data' →
      count data' - sampleCount bs data' = count data - sampleCount bs data +
        if op.columns.length = 3 ∧ p op then 1 else 0 := by
    intro data op data' h
    rw [hcount data op data' h, sampleCount_step h hnodup]
    simp only [hmem]
    by_cases hp : p op
    · simp only [hp, and_true]
      split_ifs <;> omega
    · simp only [hp, and_false, if_false]
      omega
  have hrun := run_count hahead h
  rwa [hzero, sampleCount_clear, sub_zero, zero_add] at hrun

theorem accounts_run : Accounts ops data where
  types := by
    rw [run_count (fun _ _ _ h => typeCount_step h) h]
    exact zero_add _
  samples := by
    have hall : ∀ data op data', step duration data op = some data' →
        sampleCount buckets data' =
          sampleCount buckets data + if 4 ≤ op.columns.length then 1 else 0 := by
      intro data op data' h
      rw [sampleCount_step h (by decide)]
      simp only [mem_buckets, and_true]
    rw [run_count hall h, sampleCount_clear, zero_add]
  sc s := ahead_run h (by cases s <;> decide) (fun op => bucket_mem_scBuckets op.sc op.cc s)
    (by cases s <;> rfl) fun _ _ _ h => scCount_step h s
  cc s := ahead_run h (by cases s <;> decide) (fun op => bucket_mem_ccBuckets op.sc op.cc s)
    (by cases s <;> rfl) fun _ _ _ h => ccCount_step h s

end Run

/-- Whatever lines with columns of at most 255 bytes are processed and wherever the
averages are taken, the counters account for the lines since the clear. -/
theorem details_accounted (duration : Bytes → ℤ) (before : DetailsStatistics) {ops : List Op}
    (hshort : ∀ op ∈ ops, ∀ c ∈ op.columns, c.length ≤ 255) :
    ∃ data, run (step duration) (detailsClear before) ops = some data ∧ Accounts ops data := by
  have hstep : ∀ op ∈ ops, ∀ data, ∃ data', step duration data op = some data' := by
    intro op hop data
    cases op with
    | postprocess => exact ⟨_, rfl⟩
    | process line =>
        refine ⟨_, (detailsProcess_cases duration line.buf line.terminated data).resolve_right ?_⟩
        rintro ⟨-, c, hc, hlong⟩
        exact absurd (hshort _ hop c hc) (by omega)
  obtain ⟨data, hdata⟩ := exists_run hstep (detailsClear before)
  exact ⟨data, hdata, accounts_run hdata⟩

/-- A line that ends behind its time. -/
def cutBehindTime : LogLine where
  buf := emptyBuf
  text := lit "@4000\tClear:RC:0:SC:1:CC:0\t0.25" ++ [0]
  terminated := by simp

/-- Lines of 15, of 3 and of 15 columns, and a tick before the last one. -/
def threeLines : List Op :=
  [.process (scanned "Clear:RC:0:SC:0:CC:1" "0.25"), .process cutBehindTime, .postprocess,
    .process (scanned "CLAMDSCAN:SC:1" "1500")]

theorem details_accounted_quarter :
    ∃ data, run (step microseconds) (detailsClear detailsDataInit) threeLines = some data ∧
      Accounts threeLines data :=
  details_accounted microseconds detailsDataInit (by decide +kernel)

example : (run (step microseconds) (detailsClear detailsDataInit) threeLines).map
    (fun data => (scCount true data, sampleCount (scBuckets true) data, ccCount false data,
      sampleCount (ccBuckets false) data)) = some (2, 1, 1, 0) := by
  decide +kernel

end NetdataPlugins.DetailsAccounting
