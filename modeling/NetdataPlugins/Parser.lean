import NetdataPlugins.DeclaredOnce

/-!
# Statistics of the log of parser (parser.c)

`parserProcess` sorts a line by the texts it contains. It leaves the record as
it was on one kind of line: a failed connection for another reason than a
refusal.
-/
namespace NetdataPlugins.Parser
open MemoryBlock CString Netdata DeclaredOnce

structure ParserStatistics where
  connFailed : ℤ
  scannerSuccess : ℤ
  scannerFailed : ℤ
  deliverySuccess : ℤ
  deliveryFailed : ℤ
  unknownSuccess : ℤ
  unknownFailed : ℤ
  other : ℤ
  deriving DecidableEq, Repr

def parserDataInit : ParserStatistics := ⟨0, 0, 0, 0, 0, 0, 0, 0⟩

def parserClear (_ : ParserStatistics) : ParserStatistics := ⟨0, 0, 0, 0, 0, 0, 0, 0⟩

def parserProcess (line : Bytes) (data : ParserStatistics) : ParserStatistics :=
  if let some ptr := strstr line (lit "Successfully updated table ") then
    if contains ptr (lit "scanner") then
      { data with scannerSuccess := data.scannerSuccess + 1 }
    else if contains ptr (lit "delivery") then
      { data with deliverySuccess := data.deliverySuccess + 1 }
    else { data with unknownSuccess := data.unknownSuccess + 1 }
  else if let some ptr := strstr line (lit "Failed to update table ") then
    if contains ptr (lit "scanner") then
      { data with scannerFailed := data.scannerFailed + 1 }
    else if contains ptr (lit "delivery") then
      { data with deliveryFailed := data.deliveryFailed + 1 }
    else { data with unknownFailed := data.unknownFailed + 1 }
  else if let some ptr := strstr line (lit "Can't connect to MySQL server on ") then
    if contains ptr (lit "[Errno 111] Connection refused") then
      { data with connFailed := data.connFailed + 1 }
    else data
  else { data with other := data.other + 1 }

/-- The id of each dimension, which is its name too, with its value. -/
def ParserStatistics.sets (data : ParserStatistics) : List (Bytes × ℤ) :=
  [(lit "conn_failed", data.connFailed), (lit "scanner_success", data.scannerSuccess),
    (lit "scanner_failed", data.scannerFailed), (lit "delivery_success", data.deliverySuccess),
    (lit "delivery_failed", data.deliveryFailed), (lit "unknown_success", data.unknownSuccess),
    (lit "unknown_failed", data.unknownFailed), (lit "other", data.other)]

def parserPrintHdr (name : Bytes) : List Command :=
  ndChart (lit "parser") (some name) (some (lit "table_updates")) (some [])
      (some (lit "Table updates by parser")) (some (lit "update")) (some (lit "parser"))
      (some (lit "parser.table_updates")) .stacked ::
    parserDataInit.sets.map fun d => ndDimension d.1 (some d.1) .absolute 1 1 .visible

def parserPrint (name : Bytes) (data : ParserStatistics) (time : ℕ) : List Command :=
  block (ndBeginTime (lit "parser") (some name) (some (lit "table_updates")) time) data.sets

/-! ### The output -/

def tableUpdates (name : Bytes) : Bytes :=
  printTypePrefixId (lit "parser") (some name) (some (lit "table_updates"))

theorem listen_parserPrintHdr (name : Bytes) :
    Collector.empty.listen (parserPrintHdr name) =
      some (Collector.empty.define (tableUpdates name) (parserDataInit.sets.map Prod.fst)) :=
  Collector.listen_chart (fun _ => ⟨_, _, _, _, _, rfl⟩) rfl (by decide +kernel)
    fun _ _ => List.not_mem_nil

/-- All records have the dimensions of the header. -/
theorem listen_parserPrint (name : Bytes) (data : ParserStatistics) (time : ℕ) :
    (Collector.empty.define (tableUpdates name) (parserDataInit.sets.map Prod.fst)).listen
        (parserPrint name data time) =
      some (Collector.empty.define (tableUpdates name) (parserDataInit.sets.map Prod.fst)) := by
  apply Collector.listen_block (List.mem_singleton_self _) rfl _
  intro s hs
  have hids : data.sets.map Prod.fst = parserDataInit.sets.map Prod.fst := rfl
  have hid : s.1 ∈ parserDataInit.sets.map Prod.fst := hids ▸ List.mem_map_of_mem hs
  exact List.mem_map_of_mem hid

/-- The header and any number of prints are accepted. -/
theorem output_accepted (name : Bytes) (ticks : List (ParserStatistics × ℕ)) :
    Collector.empty.listen
        (parserPrintHdr name ++ ticks.flatMap fun t => parserPrint name t.1 t.2) =
      some (Collector.empty.define (tableUpdates name) (parserDataInit.sets.map Prod.fst)) := by
  rw [Collector.listen_append (listen_parserPrintHdr name)]
  induction ticks with
  | nil => rfl
  | cons t ticks ih =>
      rw [List.flatMap_cons, Collector.listen_append (listen_parserPrint name t.1 t.2), ih]

theorem reported_parserPrint (name : Bytes) (data : ParserStatistics) (time : ℕ) :
    reported (tableUpdates name) (parserPrint name data time) = data.sets := by
  rw [parserPrint, ndBeginTime, reported_block]
  exact if_pos rfl

/-! ### Accounting for the lines -/

inductive Counter where
  | connFailed | scannerSuccess | scannerFailed | deliverySuccess | deliveryFailed
  | unknownSuccess | unknownFailed | other
  deriving DecidableEq, Repr

namespace ParserStatistics

/-- One counter goes up by one, and the others stay. -/
def raise (data : ParserStatistics) : Counter → ParserStatistics
  | .connFailed => { data with connFailed := data.connFailed + 1 }
  | .scannerSuccess => { data with scannerSuccess := data.scannerSuccess + 1 }
  | .scannerFailed => { data with scannerFailed := data.scannerFailed + 1 }
  | .deliverySuccess => { data with deliverySuccess := data.deliverySuccess + 1 }
  | .deliveryFailed => { data with deliveryFailed := data.deliveryFailed + 1 }
  | .unknownSuccess => { data with unknownSuccess := data.unknownSuccess + 1 }
  | .unknownFailed => { data with unknownFailed := data.unknownFailed + 1 }
  | .other => { data with other := data.other + 1 }

def total (data : ParserStatistics) : ℤ :=
  data.connFailed + data.scannerSuccess + data.scannerFailed + data.deliverySuccess +
    data.deliveryFailed + data.unknownSuccess + data.unknownFailed + data.other

theorem total_raise (data : ParserStatistics) (c : Counter) :
    (data.raise c).total = data.total + 1 := by
  cases c <;> simp only [raise, total] <;> omega

end ParserStatistics

/-- A report on a table, which both outcomes count. -/
def UpdateReport (line : Bytes) : Prop :=
  contains line (lit "Successfully updated table ") ∨
    contains line (lit "Failed to update table ")

instance (line : Bytes) : Decidable (UpdateReport line) :=
  inferInstanceAs (Decidable (_ ∨ _))

/-- One of the texts that the code looks for in a line. -/
def Known (line : Bytes) : Prop :=
  UpdateReport line ∨ contains line (lit "Can't connect to MySQL server on ")

instance (line : Bytes) : Decidable (Known line) :=
  inferInstanceAs (Decidable (_ ∨ _))

/-- A failed connection that was not refused. -/
def Unaccounted (line : Bytes) : Prop :=
  ¬ UpdateReport line ∧
    ∃ ptr ∈ strstr line (lit "Can't connect to MySQL server on "),
      ¬ contains ptr (lit "[Errno 111] Connection refused")

instance (line : Bytes) : Decidable (Unaccounted line) :=
  inferInstanceAs (Decidable (_ ∧ _))

def processAll (lines : List Bytes) (data : ParserStatistics) : ParserStatistics :=
  lines.foldl (fun data line => parserProcess line data) data

theorem parserProcess_unaccounted {line : Bytes} (h : Unaccounted line)
    (data : ParserStatistics) : parserProcess line data = data := by
  obtain ⟨hreport, ptr, hptr, hrefused⟩ := h
  simp only [UpdateReport, contains, Bool.not_eq_true, not_or, Option.isSome_eq_false_iff,
    Option.isNone_iff_eq_none] at hreport
  have hptr' : strstr line (lit "Can't connect to MySQL server on ") = some ptr := hptr
  simp [parserProcess, hreport.1, hreport.2, hptr', hrefused]

/-- Which counter it is depends on the line alone. -/
theorem parserProcess_raises {line : Bytes} (h : ¬ Unaccounted line) :
    ∃ c, (∀ data, parserProcess line data = data.raise c) ∧ (¬ Known line → c = .other) := by
  cases hupdated : strstr line (lit "Successfully updated table ") with
  | some ptr =>
      have hknown : Known line := .inl (.inl (by simp [contains, hupdated]))
      by_cases hscanner : contains ptr (lit "scanner")
      · exact ⟨.scannerSuccess, fun data => by simp [parserProcess, hupdated, hscanner,
          ParserStatistics.raise], absurd hknown⟩
      by_cases hdelivery : contains ptr (lit "delivery")
      · exact ⟨.deliverySuccess, fun data => by simp [parserProcess, hupdated, hscanner,
          hdelivery, ParserStatistics.raise], absurd hknown⟩
      · exact ⟨.unknownSuccess, fun data => by simp [parserProcess, hupdated, hscanner,
          hdelivery, ParserStatistics.raise], absurd hknown⟩
  | none =>
  cases hfailed : strstr line (lit "Failed to update table ") with
  | some ptr =>
      have hknown : Known line := .inl (.inr (by simp [contains, hfailed]))
      by_cases hscanner : contains ptr (lit "scanner")
      · exact ⟨.scannerFailed, fun data => by simp [parserProcess, hupdated, hfailed, hscanner,
          ParserStatistics.raise], absurd hknown⟩
      by_cases hdelivery : contains ptr (lit "delivery")
      · exact ⟨.deliveryFailed, fun data => by simp [parserProcess, hupdated, hfailed, hscanner,
          hdelivery, ParserStatistics.raise], absurd hknown⟩
      · exact ⟨.unknownFailed, fun data => by simp [parserProcess, hupdated, hfailed, hscanner,
          hdelivery, ParserStatistics.raise], absurd hknown⟩
  | none =>
  cases hconnect : strstr line (lit "Can't connect to MySQL server on ") with
  | some ptr =>
      have hknown : Known line := .inr (by simp [contains, hconnect])
      have hrefused : contains ptr (lit "[Errno 111] Connection refused") := by
        by_contra hrefused
        exact h ⟨by simp [UpdateReport, contains, hupdated, hfailed], ptr, hconnect, hrefused⟩
      exact ⟨.connFailed, fun data => by simp [parserProcess, hupdated, hfailed, hconnect,
        hrefused, ParserStatistics.raise], absurd hknown⟩
  | none =>
      exact ⟨.other, fun data => by simp [parserProcess, hupdated, hfailed, hconnect,
        ParserStatistics.raise], fun _ => rfl⟩

theorem total_processAll (lines : List Bytes) (data : ParserStatistics) :
    (processAll lines data).total =
      data.total + (lines.countP fun line => ¬ Unaccounted line) := by
  induction lines generalizing data with
  | nil => simp [processAll]
  | cons line lines ih =>
      replace ih := ih (parserProcess line data)
      rw [processAll, List.foldl_cons, ← processAll, ih]
      by_cases h : Unaccounted line
      · simp [parserProcess_unaccounted h, h]
      · obtain ⟨c, hc, -⟩ := parserProcess_raises h
        rw [hc, ParserStatistics.total_raise, List.countP_cons_of_pos (by simpa using h)]
        omega

theorem total_processed (lines : List Bytes) (data : ParserStatistics) :
    (processAll lines (parserClear data)).total =
      (lines.countP fun line => ¬ Unaccounted line : ℕ) := by
  rw [total_processAll]
  simp [parserClear, ParserStatistics.total]

/-- The values of one print add up to the number of lines that are accounted for. -/
theorem sum_reported (name : Bytes) (lines : List Bytes) (data : ParserStatistics) (time : ℕ) :
    ((reported (tableUpdates name)
        (parserPrint name (processAll lines (parserClear data)) time)).map Prod.snd).sum =
      (lines.countP fun line => ¬ Unaccounted line : ℕ) := by
  have hsum : ∀ d : ParserStatistics, (d.sets.map Prod.snd).sum = d.total := by
    intro d
    simp only [ParserStatistics.sets, ParserStatistics.total, List.map_cons, List.map_nil,
      List.sum_cons, List.sum_nil]
    omega
  rw [reported_parserPrint, hsum, total_processed]

/-- The counters add up to the number of lines, each of which raises one of
them, exactly if every failed connection was refused. -/
theorem lines_accounted_iff (data : ParserStatistics) (lines : List Bytes) :
    ((processAll lines (parserClear data)).total = lines.length ∧
      ∀ line ∈ lines, ∃ c, (∀ d, parserProcess line d = d.raise c) ∧
        (¬ Known line → c = .other)) ↔
      ∀ line ∈ lines, ¬ Unaccounted line := by
  constructor
  · rintro ⟨h, -⟩ line hline
    have hcount : (lines.countP fun line => ¬ Unaccounted line) = lines.length := by
      exact_mod_cast (total_processed lines data).symm.trans h
    simpa using List.countP_eq_length.mp hcount line hline
  · intro h
    refine ⟨?_, fun line hline => parserProcess_raises (h line hline)⟩
    rw [total_processed, List.countP_eq_length.mpr (by simpa using h)]

/-- A connection that timed out is not counted. -/
theorem timed_out_not_counted :
    ¬ ∀ (data : ParserStatistics) (lines : List Bytes),
      (processAll lines (parserClear data)).total = lines.length := by
  intro h
  have hline := h parserDataInit
    [lit "Can't connect to MySQL server on 'db' ([Errno 110] Connection timed out)"]
  revert hline
  decide

end NetdataPlugins.Parser
