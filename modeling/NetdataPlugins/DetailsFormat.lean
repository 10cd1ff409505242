import NetdataPlugins.DetailsLog

/-!
# The format of a details line (scanner.c)

A details line has 15 columns, and the last five of them are neither empty nor
`NULL`. The first defect of a line is found from left to right. `details_process`
looks at the end of the line before it looks at the column, so that it does not
see the last column of a line that is too short.
-/
namespace NetdataPlugins.DetailsFormat
open MemoryBlock CString NextField Scanner DetailsLog

inductive Defect where
  | nullField
  | emptyField
  | incorrectNumClmns
  deriving DecidableEq, Repr

/-- `null_field`, `empty_field` and `incorrect_num_clmns`. -/
def flags (data : DetailsStatistics) : ℤ × ℤ × ℤ :=
  (data.nullField, data.emptyField, data.incorrectNumClmns)

/-- The flags when exactly one of them is raised, or none. -/
def Defect.flags : Option Defect → ℤ × ℤ × ℤ
  | none => (0, 0, 0)
  | some .nullField => (1, 0, 0)
  | some .emptyField => (0, 1, 0)
  | some .incorrectNumClmns => (0, 0, 1)

def Defect.raise : Defect → DetailsStatistics → DetailsStatistics
  | .nullField => raiseNullField
  | .emptyField => raiseEmptyField
  | .incorrectNumClmns => raiseIncorrectNumClmns

def WellFormed (c : Bytes) : Prop := c ≠ [] ∧ ¬ contains c (lit "NULL")

/-- What is wrong with the column of number `n`. -/
def columnDefect (n : ℕ) (c : Bytes) : Option Defect :=
  if numOfFields < n then some .incorrectNumClmns
  else if n < 11 then none
  else if c = [] then some .emptyField
  else if contains c (lit "NULL") then some .nullField
  else none

/-- The first defect in the columns from number `n` on. -/
def firstDefect : ℕ → List Bytes → Option Defect
  | n, [] => if n ≤ numOfFields then some .incorrectNumClmns else none
  | n, c :: cs => columnDefect n c <|> firstDefect (n + 1) cs

/-- The first defect that `details_process` sees. -/
def seenDefect (n : ℕ) (cs : List Bytes) : Option Defect :=
  firstDefect n (if n + cs.length ≤ numOfFields then cs.dropLast else cs)

theorem columnDefect_eq_none {n : ℕ} {c : Bytes} :
    columnDefect n c = none ↔ n ≤ numOfFields ∧ (11 ≤ n → WellFormed c) := by
  unfold columnDefect WellFormed
  split_ifs <;> simp_all [numOfFields]

theorem firstDefect_eq_none {n : ℕ} {cs : List Bytes} (hn : n ≤ numOfFields + 1) :
    firstDefect n cs = none ↔
      n + cs.length = numOfFields + 1 ∧ ∀ c ∈ cs.drop (11 - n), WellFormed c := by
  induction cs generalizing n with
  | nil =>
      rw [firstDefect]
      split_ifs with hle
      · simp
        omega
      · simp
        omega
  | cons c cs ih =>
      rw [firstDefect, Option.orElse_eq_none, columnDefect_eq_none]
      rcases hn.lt_or_eq with hlt | rfl
      · have hle : n ≤ numOfFields := Nat.le_of_lt_succ hlt
        have hlen : n + (c :: cs).length = n + 1 + cs.length := by
          rw [List.length_cons]
          omega
        rw [ih hlt, hlen]
        by_cases hskip : n < 11
        · have hdrop : (c :: cs).drop (11 - n) = cs.drop (11 - (n + 1)) := by
            rw [show 11 - n = 11 - (n + 1) + 1 by omega, List.drop_succ_cons]
          simp [hdrop, hle, Nat.not_le.mpr hskip]
        · have hge : 11 ≤ n := Nat.not_lt.mp hskip
          have hzero : 11 - n = 0 ∧ 11 - (n + 1) = 0 := by omega
          simp only [hzero, hle, hge, List.drop_zero, List.forall_mem_cons, true_and, true_imp_iff]
          tauto
      · simp [numOfFields]

theorem seenDefect_cons (n : ℕ) (c d : Bytes) (cs : List Bytes) :
    seenDefect n (c :: d :: cs) = (columnDefect n c <|> seenDefect (n + 1) (d :: cs)) := by
  have hlen : n + (c :: d :: cs).length = n + 1 + (d :: cs).length := by simp; omega
  unfold seenDefect
  rw [hlen]
  split_ifs <;> rfl

theorem flags_raise {data : DetailsStatistics} (hdata : flags data = (0, 0, 0)) (d : Defect) :
    flags (d.raise data) = Defect.flags (some d) := by
  have hraise : data.nullField = 0 ∧ data.emptyField = 0 ∧ data.incorrectNumClmns = 0 := by
    simpa [flags] using hdata
  cases d <;> simp [flags, Defect.raise, raiseNullField, raiseEmptyField, raiseIncorrectNumClmns,
    Defect.flags, hraise]

/-- One turn of the loop raises the defect of its column, unless the line ends there. -/
theorem checked_succ {left n : ℕ} (hn : n + left = numOfFields) (c : Bytes) (cs : List Bytes)
    (data : DetailsStatistics) :
    checked (left + 1) (c :: cs) data =
      if n < numOfFields ∧ cs = [] then Defect.incorrectNumClmns.raise data
      else match columnDefect n c with
        | some d => d.raise data
        | none => if cs = [] then data else checked left cs data := by
  have hnum : numOfFields - left = n := by omega
  have hle : ¬ numOfFields < n := by omega
  rw [checked, hnum, columnDefect, if_neg hle]
  by_cases hskip : n < 11
  · simp [hskip, Nat.not_le.mpr hskip, Defect.raise]
  · by_cases hempty : c = []
    · simp [hskip, Nat.not_lt.mp hskip, hempty, Defect.raise]
    · by_cases hnull : contains c (lit "NULL") <;>
        simp [hskip, Nat.not_lt.mp hskip, hempty, hnull, Defect.raise]

theorem flags_checked {left n : ℕ} {c : Bytes} (cs : List Bytes) {data : DetailsStatistics}
    (hn : n + left = numOfFields + 1) (hdata : flags data = (0, 0, 0)) :
    flags (checked left (c :: cs) data) = Defect.flags (seenDefect n (c :: cs)) := by
  induction left generalizing n c cs with
  | zero =>
      have hlt : numOfFields < n := by omega
      have hmany : seenDefect n (c :: cs) = some .incorrectNumClmns := by
        simp [seenDefect, firstDefect, columnDefect, hlt, Nat.not_le.mpr (Nat.lt_add_right _ hlt)]
      have hraised : checked 0 (c :: cs) data = Defect.incorrectNumClmns.raise data := by
        simp [checked, Defect.raise]
      rw [hmany, hraised]
      exact flags_raise hdata _
  | succ left ih =>
      rw [checked_succ (n := n) (by omega)]
      cases cs with
      | nil =>
          by_cases hends : n < numOfFields
          · have hseen : seenDefect n [c] = some .incorrectNumClmns := by
              simp [seenDefect, firstDefect, hends.le, Nat.succ_le_of_lt hends]
            rw [if_pos ⟨hends, rfl⟩, hseen]
            exact flags_raise hdata _
          · have hseen : seenDefect n [c] = columnDefect n c := by
              have hlast : ¬ n + 1 ≤ numOfFields := by omega
              simp [seenDefect, firstDefect, hlast]
            rw [if_neg (by simp [hends]), hseen]
            cases columnDefect n c with
            | none => exact hdata
            | some d => exact flags_raise hdata d
      | cons d cs =>
          rw [seenDefect_cons, if_neg (by simp)]
          cases columnDefect n c with
          | none => exact ih cs (by omega)
          | some e => exact flags_raise hdata e

theorem flags_countStatus (buf : Bytes) (data : DetailsStatistics) :
    flags (countStatus buf data) = flags data := by
  unfold countStatus
  split_ifs <;> rfl

theorem flags_countSc (sc : Option Bool) (data : DetailsStatistics) :
    flags (countSc sc data) = flags data := by
  rcases sc with _ | _ | _ <;> rfl

theorem flags_countCc (cc : Option Bool) (data : DetailsStatistics) :
    flags (countCc cc data) = flags data := by
  rcases cc with _ | _ | _ <;> rfl

theorem flags_counted (status : Bytes) (data : DetailsStatistics) :
    flags (counted status data) = flags data := by
  rw [counted, flags_countCc, flags_countSc, flags_countStatus]

/-- The columns before the eleventh have no defect of their own. -/
theorem seenDefect_few {cs : List Bytes} (hne : cs ≠ []) (hlen : cs.length ≤ 3) :
    seenDefect 1 cs = some .incorrectNumClmns := by
  match cs, hne, hlen with
  | [_], _, _ => simp [seenDefect, firstDefect, numOfFields]
  | [_, _], _, _ => simp [seenDefect, firstDefect, columnDefect, numOfFields]
  | [_, _, _], _, _ => simp [seenDefect, firstDefect, columnDefect, numOfFields]

theorem seenDefect_many (a b t c : Bytes) (cs : List Bytes) :
    seenDefect 1 (a :: b :: t :: c :: cs) = seenDefect 4 (c :: cs) := by
  have hskip (n : ℕ) (hn : n < 11) (c : Bytes) : columnDefect n c = none := by
    have hle : ¬ numOfFields < n := by
      rw [numOfFields]
      omega
    rw [columnDefect, if_neg hle, if_pos hn]
  rw [seenDefect_cons, seenDefect_cons, seenDefect_cons, hskip 1 (by omega), hskip 2 (by omega),
    hskip 3 (by omega)]
  rfl

theorem flags_processed (duration : Bytes → ℤ) {cs : List Bytes} (hne : cs ≠ [])
    {data : DetailsStatistics} (hdata : flags data = (0, 0, 0)) :
    flags (processed duration cs data) = Defect.flags (seenDefect 1 cs) := by
  match cs, hne with
  | _ :: status :: time :: c :: cs, _ =>
      rw [seenDefect_many]
      exact flags_checked cs rfl ((flags_counted status data).trans hdata)
  | [_, status, _], _ =>
      rw [seenDefect_few (by simp) (by simp)]
      exact flags_raise ((flags_counted status data).trans hdata) .incorrectNumClmns
  | [_, _], _ =>
      rw [seenDefect_few (by simp) (by simp)]
      exact flags_raise hdata .incorrectNumClmns
  | [_], _ =>
      rw [seenDefect_few (by simp) (by simp)]
      exact flags_raise hdata .incorrectNumClmns

theorem seenDefect_eq_none {cs : List Bytes} :
    seenDefect 1 cs = none ↔ cs.length = numOfFields ∧ ∀ c ∈ cs.drop 10, WellFormed c := by
  rw [seenDefect, firstDefect_eq_none (by simp)]
  split_ifs with hshort
  · have hne : ¬ cs.length = numOfFields ∧ ¬ 1 + cs.dropLast.length = numOfFields + 1 := by
      rw [List.length_dropLast]
      omega
    simp only [hne, false_and]
  · simp [Nat.add_comm 1]

theorem defect_flags_eq_zero {d : Option Defect} : Defect.flags d = (0, 0, 0) ↔ d = none := by
  rcases d with _ | _ | _ | _ <;> simp [Defect.flags]

/-- A line raises the defect that is seen first, and none exactly when it has the format. -/
theorem details_format (duration : Bytes → ℤ) (buf : Block 256) {line : Bytes} (hnul : 0 ∈ line)
    (hshort : ∀ c ∈ columns line, c.length ≤ 255) {data : DetailsStatistics}
    (hdata : flags data = (0, 0, 0)) :
    ∃ data', detailsProcess duration buf line data = some data' ∧
      flags data' = Defect.flags (seenDefect 1 (columns line)) ∧
      (flags data' = (0, 0, 0) ↔ (columns line).length = numOfFields ∧
        ∀ c ∈ (columns line).drop 10, WellFormed c) := by
  have hflags := flags_processed duration (columns_ne_nil line) hdata
  refine ⟨_, ?_, hflags, ?_⟩
  · apply (detailsProcess_cases duration buf hnul data).resolve_right
    intro h
    obtain ⟨c, hc, hlong⟩ := h.2
    exact absurd (hshort c hc) (by omega)
  · rw [hflags, defect_flags_eq_zero, seenDefect_eq_none]

def acceptedLine : Bytes :=
  lit "@4000\tClear:RC:0\t0.25\t812\ta\tb\tc\td\te\tf\tg\th\ti\tj\tk" ++ [0]

theorem details_format_accepts :
    ∃ data', detailsProcess (fun _ => 250000) emptyBuf acceptedLine
        detailsDataInit = some data' ∧
      flags data' = Defect.flags (seenDefect 1 (columns acceptedLine)) ∧
      (flags data' = (0, 0, 0) ↔ (columns acceptedLine).length = numOfFields ∧
        ∀ c ∈ (columns acceptedLine).drop 10, WellFormed c) :=
  details_format _ _ (by decide) (by decide +kernel) rfl

/-- Ten empty columns, then `x`, then another empty column that ends the line. -/
def cutShort : Bytes := List.replicate 10 tab ++ [120, tab, 0]

/-- The empty twelfth column is the first defect, but the end of the line is the one raised. -/
theorem end_before_empty_column :
    ¬ ∀ (duration : Bytes → ℤ) (buf : Block 256) (line : Bytes) (data : DetailsStatistics),
      0 ∈ line → (∀ c ∈ columns line, c.length ≤ 255) → flags data = (0, 0, 0) →
      ∃ data', detailsProcess duration buf line data = some data' ∧
        flags data' = Defect.flags (firstDefect 1 (columns line)) := by
  intro h
  obtain ⟨data', hprocess, hflags⟩ := h (fun _ => 0) emptyBuf cutShort
    detailsDataInit (by decide) (by decide +kernel) rfl
  have hraised : (detailsProcess (fun _ => 0) emptyBuf cutShort
      detailsDataInit).map flags = some (0, 0, 1) := by decide +kernel
  have hfirst : firstDefect 1 (columns cutShort) = some .emptyField := by decide +kernel
  rw [hprocess, Option.map_some, hflags, hfirst] at hraised
  simp [Defect.flags] at hraised

end NetdataPlugins.DetailsFormat
