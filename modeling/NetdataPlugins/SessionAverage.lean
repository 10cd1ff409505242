import Mathlib.Data.List.Induction
import NetdataPlugins.QmailPlugin

/-!
# The average number of sessions

An interval of an smtp watcher is all that happens to its record between two
clears. The printed average is kept while no line tells a number of sessions.
-/
namespace NetdataPlugins.SessionAverage
open MemoryBlock CString Netdata Timer Smtp Queue QmailPlugin

/-- The lines of an interval, the shared statistics it meets, and the time that
has passed. -/
structure Interval where
  lines : List Line
  aggregated : Aggregated
  time : ℕ

/-- The record for the next interval, and what is printed. -/
def interval (name : Bytes) (data : SmtpStatistics) (i : Interval) :
    SmtpStatistics × List Command :=
  let data := i.lines.foldl (fun data line => processSmtp line.junk line.text data) data
  let data := (postprocessData data i.aggregated).1
  (clearSmtpData data, printSmtpData name data i.time)

/-- The record after some intervals. -/
def afterIntervals (name : Bytes) (is : List Interval) : SmtpStatistics :=
  is.foldl (fun data i => (interval name data i).1) smtpDataInit

def statusChart (name : Bytes) : Bytes := printTypePrefixId qmail (some name) (some (lit "status"))

/-- The number of sessions that a line tells. -/
def sessions (line : Bytes) : Option ℤ :=
  if contains line (lit "tcpserver: ok") || contains line (lit "tcpserver: deny") then none
  else (strstr line (lit "tcpserver: status: ")).map fun ptr =>
    intValue (ptr.drop (lit "tcpserver: status: ").length)

def Interval.sessions (i : Interval) : List ℤ :=
  i.lines.filterMap fun line => SessionAverage.sessions line.text

/-- The average in hundredths, rounded toward zero. -/
def average (values : List ℤ) : ℤ := (100 * values.sum).tdiv values.length

/-- The average rounded down. -/
def floorAverage (values : List ℤ) : ℤ := 100 * values.sum / values.length

/-- The average of the last interval that has values, as `avg` rounds it. -/
def lastAverage (avg : List ℤ → ℤ) (is : List Interval) : ℤ :=
  match (is.filter fun i => i.sessions ≠ []).getLast? with
  | some i => avg i.sessions
  | none => 0

/-- The two differ only below zero. -/
theorem average_eq_floor {values : List ℤ} (h : 0 ≤ values.sum) :
    average values = floorAverage values :=
  Int.tdiv_eq_ediv_of_nonneg (by omega)

/-- A hundred times the sum fits in an `int`. -/
def Interval.Fits (i : Interval) : Prop :=
  -2 ^ 31 ≤ 100 * i.sessions.sum ∧ 100 * i.sessions.sum < 2 ^ 31

instance (i : Interval) : Decidable i.Fits := inferInstanceAs (Decidable (_ ∧ _))

theorem collect_smtp (lines : List Line) (measured : QueueStatistics) (data : SmtpStatistics) :
    (Data.smtp data).collect lines measured =
      .smtp (lines.foldl (fun data line => processSmtp line.junk line.text data) data) := by
  simp only [Data.collect]
  induction lines generalizing data with
  | nil => rfl
  | cons line lines ih => exact ih (processSmtp line.junk line.text data)

/-- A turn of the main loop is such an interval. -/
theorem turn_interval (aggregated : Aggregated) (name : Bytes) (time : Timespec)
    (data : SmtpStatistics) (t : Turn) :
    let i : Interval := ⟨t.lines, aggregated, (updateTimestamp time t.reading).1⟩
    (turn aggregated ⟨name, time, .smtp data⟩ t).1.data = .smtp (interval name data i).1 ∧
      (turn aggregated ⟨name, time, .smtp data⟩ t).2.2 = (interval name data i).2 := by
  simp [turn, collect_smtp, Data.postprocess, Data.clear, Data.print, interval]

/-! ### The lines of an interval -/

theorem toInt_zero : toInt 0 = 0 := by decide

theorem toInt_toInt_add (x y : ℤ) : toInt (toInt x + y) = toInt (x + y) := Int.bmod_add_bmod

theorem toInt_toInt_mul (x y : ℤ) : toInt (toInt x * y) = toInt (x * y) := Int.bmod_mul_bmod

theorem toInt_eq {x : ℤ} (h : -2 ^ 31 ≤ x ∧ x < 2 ^ 31) : toInt x = x :=
  Int.bmod_eq_of_le (by omega) (by omega)

/-- The fields of the average. -/
def fields (sss : SmtpStatisticsScalar) : ℤ × ℤ × ℤ :=
  (sss.tcpStatus, sss.tcpStatusSum, sss.tcpStatusCount)

/-- What a number of sessions does to them. -/
def tell (f : ℤ × ℤ × ℤ) : Option ℤ → ℤ × ℤ × ℤ
  | some v => (f.1, toInt (f.2.1 + v), f.2.2 + 1)
  | none => f

theorem fields_processEnd (ptr : Bytes) (sss : SmtpStatisticsScalar) :
    fields (processEnd ptr sss) = fields sss := by
  unfold processEnd
  split <;> rfl

theorem fields_processOther (line : Bytes) (sss : SmtpStatisticsScalar) :
    fields (processOther line sss) =
      tell (fields sss) ((strstr line (lit "tcpserver: status: ")).map fun ptr =>
        intValue (ptr.drop (lit "tcpserver: status: ").length)) := by
  unfold processOther
  cases strstr line (lit "tcpserver: status: ") with
  | some ptr => rfl
  | none =>
      simp only [Option.map_none, tell]
      repeat' split
      · exact fields_processEnd _ _
      all_goals rfl

/-- Only a line that tells the sessions changes the fields. -/
theorem fields_processSmtp (junk : ℤ) (line : Bytes) (data : SmtpStatistics) :
    fields (processSmtp junk line data).sss = tell (fields data.sss) (sessions line) := by
  unfold processSmtp sessions
  by_cases hok : contains line (lit "tcpserver: ok")
  · simp [hok, tell, fields]
  cases hdeny : strstr line (lit "tcpserver: deny") with
  | some ptr =>
      have hsss : fields (processDeny junk ptr data).sss = fields data.sss := by
        unfold processDeny
        repeat' split
        all_goals rfl
      have hcontains : contains line (lit "tcpserver: deny") := by simp [contains, hdeny]
      simpa [hok, hdeny, hcontains, tell] using hsss
  | none =>
      have hcontains : ¬ contains line (lit "tcpserver: deny") := by simp [contains, hdeny]
      simpa [hok, hdeny, hcontains] using fields_processOther line data.sss

theorem fields_lines (lines : List Line) (data : SmtpStatistics) :
    fields (lines.foldl (fun data line => processSmtp line.junk line.text data) data).sss =
      (lines.filterMap fun line => sessions line.text).foldl (fun f v => tell f (some v))
        (fields data.sss) := by
  induction lines generalizing data with
  | nil => rfl
  | cons line lines ih =>
      rw [List.foldl_cons, ih, fields_processSmtp, List.filterMap_cons]
      cases sessions line.text <;> rfl

/-- The sum is kept modulo the width of an `int`. -/
theorem tell_foldl (values : List ℤ) (avg x n : ℤ) :
    values.foldl (fun f v => tell f (some v)) (avg, toInt x, n) =
      (avg, toInt (x + values.sum), n + values.length) := by
  induction values generalizing x n with
  | nil => simp
  | cons v values ih =>
      rw [List.foldl_cons, tell, toInt_toInt_add, ih]
      simp only [List.sum_cons, List.length_cons, Nat.cast_add, Nat.cast_one, add_assoc,
        add_comm (1 : ℤ)]

/-! ### Runs -/

/-- The average after an interval: a new one if there are values. -/
theorem interval_tcpStatus (name : Bytes) {data : SmtpStatistics} {i : Interval}
    (hsum : data.sss.tcpStatusSum = 0) (hcount : data.sss.tcpStatusCount = 0) (hfits : i.Fits) :
    (interval name data i).1.sss.tcpStatus =
      if i.sessions = [] then data.sss.tcpStatus else average i.sessions := by
  have hfields : fields (i.lines.foldl (fun data line => processSmtp line.junk line.text data)
      data).sss = (data.sss.tcpStatus, toInt i.sessions.sum, (i.sessions.length : ℤ)) := by
    have hstart : fields data.sss = (data.sss.tcpStatus, toInt 0, 0) := by
      simp [fields, hsum, hcount, toInt_zero]
    rw [fields_lines, hstart, tell_foldl, zero_add, zero_add]
    rfl
  simp only [fields, Prod.mk.injEq] at hfields
  obtain ⟨hstatus, hs, hn⟩ := hfields
  simp only [interval, clearSmtpData, postprocessData, hstatus, hs, hn, fractionalConversion]
  by_cases hnone : i.sessions = []
  · simp [hnone]
  · have hlength : (i.sessions.length : ℤ) ≠ 0 := by simpa using hnone
    rw [if_pos hlength, if_neg hnone, toInt_toInt_mul, mul_comm, toInt_eq hfits, average]

theorem lastAverage_concat (avg : List ℤ → ℤ) (is : List Interval) (i : Interval) :
    lastAverage avg (is ++ [i]) =
      if i.sessions = [] then lastAverage avg is else avg i.sessions := by
  by_cases h : i.sessions = [] <;> simp [lastAverage, List.filter_append, h]

theorem afterIntervals_concat (name : Bytes) (is : List Interval) (i : Interval) :
    afterIntervals name (is ++ [i]) = (interval name (afterIntervals name is) i).1 := by
  simp [afterIntervals]

/-- Between two intervals there is nothing in the sum, and the average is the
last one that there was. -/
theorem afterIntervals_fields (name : Bytes) (is : List Interval) (hfits : ∀ i ∈ is, i.Fits) :
    fields (afterIntervals name is).sss = (lastAverage average is, 0, 0) := by
  induction is using List.reverseRecOn with
  | nil => rfl
  | append_singleton is i ih =>
      have hbefore := ih fun j hj => hfits j (by simp [hj])
      simp only [fields, Prod.mk.injEq] at hbefore
      obtain ⟨havg, hsum, hcount⟩ := hbefore
      have hstatus := interval_tcpStatus name hsum hcount (hfits i (by simp))
      rw [afterIntervals_concat, lastAverage_concat, ← havg, ← hstatus]
      rfl

/-- Of the blocks of a directory only one is about its chart `status`. -/
theorem values_statusBlock (name id : Bytes) (time : ℕ) (sets : List (Bytes × ℤ)) :
    values (statusChart name) (lit "tcp_status_average")
        (block (ndBeginTime qmail (some name) (some id) time) sets) =
      if id = lit "status" then
        sets.filterMap fun r => if r.1 = lit "tcp_status_average" then some r.2 else none
      else [] := by
  have hid : printTypePrefixId qmail (some name) (some id) = statusChart name ↔
      id = lit "status" := by simp [statusChart, printTypePrefixId]
  rw [values, ndBeginTime, reported_block]
  by_cases h : id = lit "status"
  · rw [if_pos (hid.mpr h), if_pos h]
  · rw [if_neg (mt hid.mp h), if_neg h]
    rfl

theorem values_printSmtpData (name : Bytes) (data : SmtpStatistics) (time : ℕ) :
    values (statusChart name) (lit "tcp_status_average") (printSmtpData name data time) =
      [data.sss.tcpStatus] := by
  have hclosed (id : Bytes) (sets : List (Bytes × ℤ)) :
      Closed (block (ndBeginTime qmail (some name) (some id) time) sets) := block_closed _ _ _
  simp only [printSmtpData, List.append_assoc]
  simp only [(hclosed _ _).values_append, values_statusBlock]
  rw [if_neg (by decide), if_pos trivial, if_neg (by decide), if_neg (by decide),
    if_neg (by decide), if_neg (by decide)]
  simp

/-- Each print shows the average of the last interval with values, the current
one included, and zero before there is one. -/
theorem session_average (name : Bytes) (is : List Interval) (i : Interval)
    (hfits : ∀ j ∈ is ++ [i], j.Fits) :
    values (statusChart name) (lit "tcp_status_average")
        (interval name (afterIntervals name is) i).2 = [lastAverage average (is ++ [i])] := by
  have hafter := afterIntervals_fields name (is ++ [i]) hfits
  rw [afterIntervals_concat] at hafter
  rw [interval, values_printSmtpData]
  exact congrArg (fun f => [f.1]) hafter

/-- The lines of an interval with values. -/
def told (values : List String) : Interval :=
  ⟨values.map fun v => ⟨lit "tcpserver: status: " ++ lit v, 0⟩, ⟨.zero, fun _ => []⟩, 0⟩

/-- An idle interval prints what the busy one before it did. -/
theorem session_average_idle :
    values (statusChart (lit "smtpd")) (lit "tcp_status_average")
        (interval (lit "smtpd") (afterIntervals (lit "smtpd") [told ["3/40", "4/40"]])
          (told [])).2 =
      [lastAverage average ([told ["3/40", "4/40"]] ++ [told []])] :=
  session_average _ _ _ (by decide +kernel)

/-- A negative sum is not rounded down. -/
theorem negative_sum_not_floor :
    ¬ ∀ (name : Bytes) (is : List Interval) (i : Interval), (∀ j ∈ is ++ [i], j.Fits) →
      values (statusChart name) (lit "tcp_status_average")
          (interval name (afterIntervals name is) i).2 =
        [lastAverage floorAverage (is ++ [i])] := by
  intro h
  have hprint := h (lit "smtpd") [] (told ["-1", "0", "0"]) (by decide +kernel)
  revert hprint
  decide +kernel

end NetdataPlugins.SessionAverage
