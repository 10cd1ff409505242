import Mathlib.Algebra.Order.Ring.Int
import NetdataPlugins.NextField
import NetdataPlugins.Scanner

/-!
# The lines of a details log (scanner.c)

`details_process` cuts a line at its tabs into a buffer of 256 bytes, counts the
second column, takes a sample of the scan duration from the third one, and looks
for one defect in the rest. The line is the memory from its first byte on.

`duration` stands for `atof(buf) * FRACTIONAL_CONVERSION` as an `int`. The counts
of lines do not overflow; the sums of durations are unsigned and wrap around.
-/
namespace NetdataPlugins.DetailsLog
open MemoryBlock CString NextField Scanner

def tab : UInt8 := 9

/-- `NUM_OF_FIELDS`. -/
def numOfFields : ℕ := 15

def detailsDataInit : DetailsStatistics :=
  ⟨0, 0, 0, 0, 0, 0, 0, 0, 0, 0, fun _ => ⟨0, 0, 0⟩, 0, 0, 0⟩

def detailsClear (_ : DetailsStatistics) : DetailsStatistics := detailsDataInit

/-- One of the buffers that `details_process` may find on entry. -/
def emptyBuf : Block 256 := ⟨List.replicate 256 0, List.length_replicate⟩

/-- A string in a buffer, for the functions that read it up to its NUL. -/
def text {n : ℕ} (buf : Block n) : Option Bytes :=
  if 0 ∈ buf.bytes then some (cstr buf.bytes) else none

/-! ### The scan status -/

def countStatus (buf : Bytes) (data : DetailsStatistics) : DetailsStatistics :=
  if contains buf (lit "Clear") then { data with clear := data.clear + 1 }
  else if contains buf (lit "CLAMDSCAN") then { data with clamdscan := data.clamdscan + 1 }
  else if contains buf (lit ":SPAM-TAGGED") then { data with spamTagged := data.spamTagged + 1 }
  else if contains buf (lit ":SPAM-REJECTED") then
    { data with spamRejected := data.spamRejected + 1 }
  else if contains buf (lit ":SPAM-DELETED") then
    { data with spamDeleted := data.spamDeleted + 1 }
  else { data with other := data.other + 1 }

/-- `sc_stat`, where -1 is none. -/
def scStat (buf : Bytes) : Option Bool :=
  if contains buf (lit ":SC:0") then some false
  else if contains buf (lit ":SC:1") then some true
  else none

def ccStat (buf : Bytes) : Option Bool :=
  if contains buf (lit ":CC:0") then some false
  else if contains buf (lit ":CC:1") then some true
  else none

def countSc (sc : Option Bool) (data : DetailsStatistics) : DetailsStatistics :=
  match sc with
  | some false => { data with sc0 := data.sc0 + 1 }
  | some true => { data with sc1 := data.sc1 + 1 }
  | none => data

def countCc (cc : Option Bool) (data : DetailsStatistics) : DetailsStatistics :=
  match cc with
  | some false => { data with cc0 := data.cc0 + 1 }
  | some true => { data with cc1 := data.cc1 + 1 }
  | none => data

/-! ### The duration -/

def bucket : Option Bool → Option Bool → Bucket
  | none, none => .none
  | none, some false => .cc0
  | none, some true => .cc1
  | some false, none => .sc0
  | some false, some false => .sc0cc0
  | some false, some true => .sc0cc1
  | some true, none => .sc1
  | some true, some false => .sc1cc0
  | some true, some true => .sc1cc1

def addDuration (d : ℤ) (s : ScanDuration) : ScanDuration :=
  { s with count := s.count + 1, sum := (s.sum + d) % 2 ^ 32 }

def sample (b : Bucket) (d : ℤ) (data : DetailsStatistics) : DetailsStatistics :=
  { data with
    scanDuration := Function.update data.scanDuration b (addDuration d (data.scanDuration b)) }

/-! ### Defects -/

def raiseNullField (data : DetailsStatistics) : DetailsStatistics := { data with nullField := 1 }

def raiseEmptyField (data : DetailsStatistics) : DetailsStatistics := { data with emptyField := 1 }

def raiseIncorrectNumClmns (data : DetailsStatistics) : DetailsStatistics :=
  { data with incorrectNumClmns := 1 }

/-- The loop over the columns from the fourth one on, with `left + 1` turns left;
`line` is at the tab before the column. -/
def checkColumns : ℕ → Block 256 → Bytes → DetailsStatistics → Option DetailsStatistics
  | 0, _, _, data => pure (raiseIncorrectNumClmns data)
  | left + 1, buf, line, data => do
      let curFieldNum := numOfFields - left
      let (next, buf) ← getNextField buf 256 line.tail tab
      let goOn : Option DetailsStatistics :=
        match next with
        | some line => checkColumns left buf line data
        | none => pure data
      if curFieldNum < numOfFields ∧ next = none then pure (raiseIncorrectNumClmns data)
      else if curFieldNum ≥ 11 then
        let field ← text buf
        if field = [] then pure (raiseEmptyField data)
        else if contains field (lit "NULL") then pure (raiseNullField data)
        else goOn
      else goOn

def detailsProcess (duration : Bytes → ℤ) (buf : Block 256) (line : Bytes)
    (data : DetailsStatistics) : Option DetailsStatistics := do
  let (line, buf) ← getNextField buf 256 line tab
  let some line := line | pure (raiseIncorrectNumClmns data)
  let (line, buf) ← getNextField buf 256 line.tail tab
  let some line := line | pure (raiseIncorrectNumClmns data)
  let status ← text buf
  let data := countCc (ccStat status) (countSc (scStat status) (countStatus status data))
  let (line, buf) ← getNextField buf 256 line.tail tab
  let some line := line | pure (raiseIncorrectNumClmns data)
  let time ← text buf
  let data := sample (bucket (scStat status) (ccStat status)) (duration time) data
  checkColumns (numOfFields - 3) buf line data

/-- The division of `details_postprocess`: of unsigned numbers, into an `int`. -/
def averageDuration (s : ScanDuration) : ScanDuration :=
  if s.count ≠ 0 then { s with value := (s.sum / (s.count % 2 ^ 32)).bmod (2 ^ 32) } else s

def detailsPostprocess (data : DetailsStatistics) : DetailsStatistics :=
  { data with scanDuration := fun b => averageDuration (data.scanDuration b) }

/-! ### By columns -/

/-- The columns of a line. -/
def columns (line : Bytes) : List Bytes := (cstr line).splitOn tab

/-- The columns from the one with the number `numOfFields - left` on. -/
def checked : ℕ → List Bytes → DetailsStatistics → DetailsStatistics
  | left + 1, c :: cs, data =>
      if numOfFields - left < numOfFields ∧ cs = [] then raiseIncorrectNumClmns data
      else if numOfFields - left ≥ 11 ∧ c = [] then raiseEmptyField data
      else if numOfFields - left ≥ 11 ∧ contains c (lit "NULL") then raiseNullField data
      else if cs = [] then data
      else checked left cs data
  | _, _, data => raiseIncorrectNumClmns data

/-- What the status of a line changes. -/
def counted (status : Bytes) (data : DetailsStatistics) : DetailsStatistics :=
  countCc (ccStat status) (countSc (scStat status) (countStatus status data))

def processed (duration : Bytes → ℤ) : List Bytes → DetailsStatistics → DetailsStatistics
  | _ :: status :: time :: c :: cs, data =>
      checked (numOfFields - 3) (c :: cs)
        (sample (bucket (scStat status) (ccStat status)) (duration time) (counted status data))
  | [_, status, _], data => raiseIncorrectNumClmns (counted status data)
  | _, data => raiseIncorrectNumClmns data

/-- A record with other flags. -/
def flagged (n e i : ℤ) (data : DetailsStatistics) : DetailsStatistics :=
  { data with nullField := n, emptyField := e, incorrectNumClmns := i }

/-- The loop over the last columns raises flags and changes nothing else. -/
theorem checked_flagged (left : ℕ) (cs : List Bytes) (data : DetailsStatistics) :
    ∃ n e i, checked left cs data = flagged n e i data := by
  induction left generalizing cs with
  | zero => exact ⟨_, _, _, rfl⟩
  | succ left ih =>
      cases cs with
      | nil => exact ⟨_, _, _, rfl⟩
      | cons c cs =>
          rw [checked]
          split_ifs
          · exact ⟨_, _, _, rfl⟩
          · exact ⟨_, _, _, rfl⟩
          · exact ⟨_, _, _, rfl⟩
          · exact ⟨_, _, _, rfl⟩
          · exact ih cs

theorem tab_ne_nul : tab ≠ 0 := by decide

theorem columns_ne_nil (line : Bytes) : columns line ≠ [] := List.splitOn_ne_nil _ _

/-- A column that does not fit into the buffer with its NUL. -/
def Overlong (cs : List Bytes) : Prop := ∃ c ∈ cs, 256 ≤ c.length

theorem Overlong.mono {cs cs' : List Bytes} (hsub : cs ⊆ cs') (h : Overlong cs) : Overlong cs' := by
  obtain ⟨c, hc, hlong⟩ := h
  exact ⟨c, hsub hc, hlong⟩

/-- A cut takes the last column of the line, or the first one of more, or goes
wrong at an overlong one. -/
theorem cut_cases (buf : Block 256) {line : Bytes} (hnul : 0 ∈ line) :
    (∃ buf' c, getNextField buf 256 line tab = some (none, buf') ∧ text buf' = some c ∧
      columns line = [c]) ∨
    (∃ buf' c rest, getNextField buf 256 line tab = some (some rest, buf') ∧ text buf' = some c ∧
      0 ∈ rest.tail ∧ columns line = c :: columns rest.tail) ∨
    getNextField buf 256 line tab = none ∧ Overlong (columns line) := by
  have hcolumns : (atDelim tab line = none ∧ columns line = [field tab line]) ∨
      ∃ rest, atDelim tab line = some rest ∧ 0 ∈ rest.tail ∧
        columns line = field tab line :: columns rest.tail := by
    rcases atDelim_cases tab_ne_nul hnul with
      ⟨hnone, hwhole, hnot⟩ | ⟨t, hsome, ht, hsplit, hnot⟩
    · exact .inl ⟨hnone, by rw [columns, hwhole, List.splitOn_eq_singleton hnot]⟩
    · refine .inr ⟨tab :: t, hsome, ht, ?_⟩
      rw [columns, hsplit, List.splitOn_append_cons_self_of_not_mem hnot]
      rfl
  rcases getNextField_cases tab_ne_nul hnul buf (by omega) with
    ⟨buf', hnext, hbegins⟩ | ⟨hnone, hlong⟩
  · have htext : text buf' = some (field tab line) := by
      rw [text, if_pos (hbegins.subset (by simp)),
        cstr_of_prefix hbegins (nul_notMem_field tab line)]
    rcases hcolumns with ⟨hdelim, hlast⟩ | ⟨rest, hdelim, hrest, hmore⟩
    · exact .inl ⟨buf', _, by rw [hnext, hdelim], htext, hlast⟩
    · exact .inr (.inl ⟨buf', _, rest, by rw [hnext, hdelim], htext, hrest, hmore⟩)
  · refine .inr (.inr ⟨hnone, field tab line, ?_, hlong⟩)
    rcases hcolumns with ⟨-, hlast⟩ | ⟨rest, -, -, hmore⟩
    · simp [hlast]
    · simp [hmore]

/-- One turn of the loop, on the text of its column. -/
theorem checkColumns_succ {left : ℕ} {buf buf' : Block 256} {line c : Bytes}
    {next : Option Bytes} (hnext : getNextField buf 256 line.tail tab = some (next, buf'))
    (htext : text buf' = some c) (data : DetailsStatistics) :
    checkColumns (left + 1) buf line data =
      if numOfFields - left < numOfFields ∧ next = none then some (raiseIncorrectNumClmns data)
      else if numOfFields - left ≥ 11 ∧ c = [] then some (raiseEmptyField data)
      else if numOfFields - left ≥ 11 ∧ contains c (lit "NULL") then some (raiseNullField data)
      else next.elim (some data) fun line => checkColumns left buf' line data := by
  simp only [checkColumns, hnext, Option.bind_eq_bind, Option.bind_some, htext]
  by_cases hchecked : numOfFields - left ≥ 11
  · simp only [hchecked, if_true, true_and]
    cases next <;> rfl
  · simp only [hchecked, if_false, false_and]
    cases next <;> rfl

/-- The loop depends on the columns alone, and goes wrong at an overlong one only. -/
theorem checkColumns_cases {left : ℕ} (buf : Block 256) {line : Bytes} (hnul : 0 ∈ line.tail)
    (data : DetailsStatistics) :
    checkColumns left buf line data = some (checked left (columns line.tail) data) ∨
    checkColumns left buf line data = none ∧ Overlong (columns line.tail) := by
  induction left generalizing buf line with
  | zero => exact .inl rfl
  | succ left ih =>
      rcases cut_cases buf hnul with
        ⟨buf', c, hnext, htext, hlast⟩ | ⟨buf', c, rest, hnext, htext, hrest, hmore⟩ |
        ⟨hnone, hlong⟩
      · left
        rw [checkColumns_succ hnext htext, hlast, checked]
        simp only [and_true]
        split_ifs <;> rfl
      · rw [checkColumns_succ hnext htext, hmore, checked]
        simp only [reduceCtorEq, columns_ne_nil, and_false, if_false]
        split_ifs
        · exact .inl rfl
        · exact .inl rfl
        · exact (ih buf' hrest).imp_right fun h => ⟨h.1, h.2.mono (List.subset_cons_self _ _)⟩
      · exact .inr ⟨by simp [checkColumns, hnone], hlong⟩

/-- Likewise a whole line. -/
theorem detailsProcess_cases (duration : Bytes → ℤ) (buf : Block 256) {line : Bytes}
    (hnul : 0 ∈ line) (data : DetailsStatistics) :
    detailsProcess duration buf line data = some (processed duration (columns line) data) ∨
    detailsProcess duration buf line data = none ∧ Overlong (columns line) := by
  rcases cut_cases buf hnul with
    ⟨buf₁, date, h₁, -, hc₁⟩ | ⟨buf₁, date, line₁, h₁, -, hnul₁, hc₁⟩ | ⟨h₁, hlong⟩
  · exact .inl (by simp [detailsProcess, h₁, hc₁, processed])
  swap
  · exact .inr ⟨by simp [detailsProcess, h₁], hlong⟩
  rcases cut_cases buf₁ hnul₁ with
    ⟨buf₂, status, h₂, -, hc₂⟩ | ⟨buf₂, status, line₂, h₂, ht₂, hnul₂, hc₂⟩ | ⟨h₂, hlong⟩
  · exact .inl (by simp [detailsProcess, h₁, h₂, hc₁, hc₂, processed])
  swap
  · exact .inr ⟨by simp [detailsProcess, h₁, h₂],
      hlong.mono (by rw [hc₁]; exact List.subset_cons_self _ _)⟩
  have hsub : columns line₂.tail ⊆ columns line := by
    rw [hc₁, hc₂]
    exact List.subset_cons_of_subset _ (List.subset_cons_self _ _)
  rcases cut_cases buf₂ hnul₂ with
    ⟨buf₃, time, h₃, -, hc₃⟩ | ⟨buf₃, time, line₃, h₃, ht₃, hnul₃, hc₃⟩ | ⟨h₃, hlong⟩
  · exact .inl (by simp [detailsProcess, h₁, h₂, h₃, ht₂, hc₁, hc₂, hc₃, processed, counted])
  swap
  · exact .inr ⟨by simp [detailsProcess, h₁, h₂, h₃, ht₂], hlong.mono hsub⟩
  obtain ⟨c, cs, hcs⟩ := List.exists_cons_of_ne_nil (columns_ne_nil line₃.tail)
  have hprocess : detailsProcess duration buf line data =
      checkColumns (numOfFields - 3) buf₃ line₃ (sample (bucket (scStat status) (ccStat status))
        (duration time) (counted status data)) := by
    simp [detailsProcess, h₁, h₂, h₃, ht₂, ht₃, counted]
  have hprocessed : processed duration (columns line) data =
      checked (numOfFields - 3) (columns line₃.tail)
        (sample (bucket (scStat status) (ccStat status)) (duration time)
          (counted status data)) := by
    rw [hc₁, hc₂, hc₃, hcs, processed]
  rw [hprocess, hprocessed]
  have hlast : columns line₃.tail ⊆ columns line₂.tail := by
    rw [hc₃]
    exact List.subset_cons_self _ _
  exact (checkColumns_cases buf₃ hnul₃ _).imp_right fun h =>
    ⟨h.1, h.2.mono (List.Subset.trans hlast hsub)⟩

end NetdataPlugins.DetailsLog
