import NetdataPlugins.Send

/-!
# The outcome of a delivery

qmail-send writes the outcome of a delivery in front of the report of the remote
server. `processSendLogLine` looks for the three outcomes in all that follows,
so that a report may hold the one it counts.
-/
namespace NetdataPlugins.SendOutcome
open MemoryBlock CString Send

inductive Status where
  | success | failure | deferral
  deriving DecidableEq, Repr

def Status.text : Status → Bytes
  | .success => lit "success"
  | .failure => lit "failure"
  | .deferral => lit "deferral"

/-- The counter of a status goes up by one, and the others stay. -/
def record (data : SendStatistics) : Status → SendStatistics
  | .success => { data with deliverySuccess := data.deliverySuccess + 1 }
  | .failure => { data with deliveryFailure := data.deliveryFailure + 1 }
  | .deferral => { data with deliveryDeferral := data.deliveryDeferral + 1 }

/-- The line about a delivery from its number on. -/
def outcome (number : Bytes) (status : Status) (text : Bytes) : Bytes :=
  lit "delivery " ++ (number ++ (lit ": " ++ (status.text ++ (lit ": " ++ text))))

/-- The report does not hold a status that is looked for earlier. -/
def Undisturbed : Status → Bytes → Prop
  | .success, _ => True
  | .failure, text => ¬ contains text (lit "success:")
  | .deferral, text => ¬ contains text (lit "success:") ∧ ¬ contains text (lit "failure:")

def IsNumber (s : Bytes) : Prop := ∀ c ∈ s, 48 ≤ c ∧ c ≤ 57

instance (s : Bytes) : Decidable (IsNumber s) :=
  inferInstanceAs (Decidable (∀ c ∈ s, _))

theorem IsNumber.notMem {number : Bytes} (h : IsNumber number) {c : UInt8} (hc : 57 < c) :
    c ∉ number := fun hmem => absurd (h c hmem).2 (UInt8.not_le.mpr hc)

/-- A text that does not go with what stands before the report can only be found
in it. -/
theorem contains_outcome {number : Bytes} (hnumber : IsNumber number) (status : Status)
    (text : Bytes) {c : UInt8} {t : Bytes} (hc : 57 < c)
    (hstart : ∀ r ∈ (lit "delivery ").tails, r ≠ [] → ¬ (c :: t) <+: r ∧ ¬ r <+: (c :: t))
    (hsep : ∀ r ∈ (lit ": ").tails, r ≠ [] → ¬ (c :: t) <+: r ∧ ¬ r <+: (c :: t))
    (hstatus : ∀ r ∈ status.text.tails, r ≠ [] → ¬ (c :: t) <+: r ∧ ¬ r <+: (c :: t)) :
    contains (outcome number status text) (c :: t) = contains text (c :: t) := by
  rw [outcome, contains_append_of_tails hstart, contains_append_of_notMem (hnumber.notMem hc),
    contains_append_of_tails hsep, contains_append_of_tails hstatus,
    contains_append_of_tails hsep]

theorem contains_status (number : Bytes) (status : Status) (text : Bytes) :
    contains (outcome number status text) (status.text ++ lit ":") := by
  rw [contains_iff_occurs]
  refine ⟨lit "delivery " ++ number ++ lit ": ", lit " " ++ text, ?_⟩
  have hsep : lit ": " = lit ":" ++ lit " " := by decide
  simp [outcome, hsep]

theorem contains_success_of_failure {number : Bytes} (hnumber : IsNumber number) (text : Bytes) :
    contains (outcome number .failure text) (lit "success:") =
      contains text (lit "success:") :=
  contains_outcome hnumber .failure text (c := 115) (t := lit "uccess:") (by decide) (by decide)
    (by decide) (by decide)

theorem contains_success_of_deferral {number : Bytes} (hnumber : IsNumber number)
    (text : Bytes) :
    contains (outcome number .deferral text) (lit "success:") =
      contains text (lit "success:") :=
  contains_outcome hnumber .deferral text (c := 115) (t := lit "uccess:") (by decide)
    (by decide) (by decide) (by decide)

theorem contains_failure_of_deferral {number : Bytes} (hnumber : IsNumber number)
    (text : Bytes) :
    contains (outcome number .deferral text) (lit "failure:") =
      contains text (lit "failure:") :=
  contains_outcome hnumber .deferral text (c := 102) (t := lit "ailure:") (by decide)
    (by decide) (by decide) (by decide)

theorem strstr_delivery {pre : Bytes} (hpre : ¬ contains pre (lit "delivery "))
    (number : Bytes) (status : Status) (text : Bytes) :
    strstr (pre ++ outcome number status text) (lit "delivery ") =
      some (outcome number status text) :=
  strstr_placed (c := 100) (t := lit "elivery ") (by decide) hpre _

/-- What is left of the function on such a line. -/
theorem process_outcome {pre number text : Bytes} {status : Status}
    (hpre : ¬ contains pre (lit "delivery "))
    (hstart : ¬ contains (pre ++ outcome number status text) (lit "starting delivery"))
    (hend : ¬ contains (pre ++ outcome number status text) (lit "end msg"))
    (data : SendStatistics) :
    processSendLogLine (pre ++ outcome number status text) data =
      if contains (outcome number status text) (lit "success:") then record data .success
      else if contains (outcome number status text) (lit "failure:") then record data .failure
      else if contains (outcome number status text) (lit "deferral:") then record data .deferral
      else data := by
  simp only [processSendLogLine, strstr_delivery hpre, hstart, hend, Bool.false_eq_true,
    if_false, record]

theorem record_injective {status status' : Status}
    (h : ∀ data, record data status = record data status') : status = status' := by
  have hzero := h sendDataInit
  cases status <;> cases status' <;> first | rfl | exact absurd hzero (by decide)

/-- A delivery is counted under its status, whatever the record was, exactly if
the report names no status that is looked for earlier. -/
theorem outcome_recorded_iff (pre number text : Bytes) (status : Status)
    (hnumber : IsNumber number) (hpre : ¬ contains pre (lit "delivery "))
    (hstart : ¬ contains (pre ++ outcome number status text) (lit "starting delivery"))
    (hend : ¬ contains (pre ++ outcome number status text) (lit "end msg")) :
    (∀ data, processSendLogLine (pre ++ outcome number status text) data = record data status) ↔
      Undisturbed status text := by
  simp only [process_outcome hpre hstart hend]
  have hown := contains_status number status text
  cases status with
  | success =>
      replace hown : contains (outcome number .success text) (lit "success:") := hown
      simp [hown, Undisturbed]
  | failure =>
      replace hown : contains (outcome number .failure text) (lit "failure:") := hown
      rw [contains_success_of_failure hnumber]
      by_cases hs : contains text (lit "success:")
      · simp only [hs, if_true, Undisturbed, not_true, iff_false]
        exact fun h => nomatch record_injective h
      · simp [hs, hown, Undisturbed]
  | deferral =>
      replace hown : contains (outcome number .deferral text) (lit "deferral:") := hown
      rw [contains_success_of_deferral hnumber, contains_failure_of_deferral hnumber]
      by_cases hs : contains text (lit "success:")
      · simp only [hs, if_true, Undisturbed, not_true, false_and, iff_false]
        exact fun h => nomatch record_injective h
      by_cases hf : contains text (lit "failure:")
      · simp only [hs, hf, if_true, Bool.false_eq_true, if_false, Undisturbed, not_true,
          and_false, iff_false]
        exact fun h => nomatch record_injective h
      · simp [hs, hf, hown, Undisturbed]

theorem outcome_recorded_iff_mailbox :
    (∀ data, processSendLogLine
        (lit "@4000 " ++ outcome (lit "7") .failure (lit "mailbox_unavailable/")) data =
      record data .failure) ↔ Undisturbed .failure (lit "mailbox_unavailable/") :=
  outcome_recorded_iff _ _ _ _ (by decide +kernel) (by decide) (by decide) (by decide)

/-- A refusal in which the remote server writes `success:` counts as a success. -/
theorem refusal_counts_as_success :
    ¬ ∀ (pre number text : Bytes) (status : Status), IsNumber number →
      ¬ contains pre (lit "delivery ") →
      ¬ contains (pre ++ outcome number status text) (lit "starting delivery") →
      ¬ contains (pre ++ outcome number status text) (lit "end msg") →
      ∀ data, processSendLogLine (pre ++ outcome number status text) data =
        record data status := by
  intro h
  have hline := h (lit "@4000 ") (lit "7") (lit "no_success:_mailbox_full/") .failure
    (by decide +kernel) (by decide) (by decide) (by decide) sendDataInit
  revert hline
  decide +kernel

end NetdataPlugins.SendOutcome
