import NetdataPlugins.WarningLines

/-!
# The start of a warning (scanner.c)

A warning is counted when its text starts with `unable to connect to ` or with
`scanning with `. `get_ip` takes the size of a pointer for that of the text and
compares seven bytes.
-/
namespace NetdataPlugins.WarningPrefix
open MemoryBlock CString NextField WarnAddress Scanner ScannerdLog WarningLines

/-- A warning is counted under a kind whose whole start the text has, and a text
with neither start leaves the vector as it is. -/
def Recognised (l : WarningLine) : Prop :=
  ∀ (fr : Frame) (junk : Bytes) (data : ScannerdStatistics), (∀ k : Kind, (k.array fr).Placed) →
    ((∀ k : Kind, ¬ k.start <+: l.log) →
      ∃ data', scannerdProcess fr (l.text junk) data = some data' ∧ data'.swv = data.swv) ∧
    ∀ data', scannerdProcess fr (l.text junk) data = some data' →
      data'.swv = data.swv ∨ ∃ k : Kind, k.start <+: l.log ∧
        ∃ name, l.scanner.tag ++ [95] ++ k.warnt ++ [95] <+: name ∧
          data'.swv = tally fr.room name data.swv

/-- A text with the first seven bytes of a start has all of it, or is as long and
goes on with less than 64 bytes without a blank. -/
def WholeStart (l : WarningLine) (k : Kind) : Prop :=
  k.start.take startCompared <+: l.log → k.start <+: l.log ∨
    k.start.length ≤ l.log.length ∧ blank ∉ l.log.drop k.start.length ∧
      (l.log.drop k.start.length).length < 64

theorem nameText_kind (n : ScannerName) (k : Kind) (ip : Bytes) :
    n.tag ++ [95] ++ k.warnt ++ [95] <+: nameText n.tag k.warnt ip := by
  cases n <;> cases k <;> exact List.prefix_append _ _

/-- Where a text has only the first bytes of a start, `get_ip` finds nothing in it. -/
theorem getIp_unfound (ip : IpArray) {l : WarningLine} {k : Kind} (h : WholeStart l k)
    (hnot : ¬ k.start <+: l.log) (junk : Bytes) (ipLastpart : Block 4) :
    ∃ last, getIp ip (l.log ++ 0 :: junk) ipLastpart k.start k.start.length =
      some (false, last) := by
  obtain ⟨cleared, -, heq⟩ := getIp_eq ip k.start_spec.1 k.start_spec.2 l.log junk
    ipLastpart
  refine ⟨cleared, ?_⟩
  rw [heq]
  split_ifs with hseven
  · obtain ⟨hlen, hblank, hshort⟩ := (h hseven).resolve_left hnot
    rw [advance_log hlen, Option.bind_some]
    rcases cutIp_cases ip (l.nul_notMem_drop k.start.length) junk cleared with
      ⟨-, -, hfalse⟩ | ⟨hlong, -⟩ | ⟨hmem, -⟩
    · exact hfalse
    · have := (List.takeWhile_prefix (l := l.log.drop k.start.length) (inField blank)).length_le
      rw [field] at hlong
      omega
    · exact (hblank hmem).elim
  · rfl

theorem recognised_of_whole {l : WarningLine} (h : ∀ k, WholeStart l k) : Recognised l := by
  intro fr junk data _
  refine ⟨fun hnot => ?_, fun data' hprocess => ?_⟩
  · rw [scannerdProcess_warning]
    split_ifs
    · exact ⟨_, rfl, rfl⟩
    · exact ⟨data, addressWarning_unfound
        (fun k ip => getIp_unfound (k.array fr) (h k) (hnot k) junk ip) _ _, rfl⟩
  · apply (warning_cases hprocess).imp_right
    rintro ⟨k, ip, last, hget, hswv⟩
    refine ⟨k, ?_, _, nameText_kind _ k _, hswv⟩
    by_contra hnot
    obtain ⟨last', hfalse⟩ := getIp_unfound (k.array fr) (h k) hnot junk ip
    cases hfalse.symm.trans hget

theorem tally_nil (name : Bytes) : tally true name [] = [⟨1, name, 1⟩] := rfl

/-- Where such a text is recognised, `get_ip` finds nothing in it. -/
theorem getIp_false {l : WarningLine} (h : Recognised l) {k : Kind}
    (hseven : k.start.take startCompared <+: l.log) (hnot : ¬ k.start <+: l.log) (junk : Bytes) :
    ∃ ip last, getIp farArray (l.log ++ 0 :: junk) ip k.start k.start.length =
      some (false, last) := by
  have hneither (j : Kind) : ¬ j.start <+: l.log := by
    by_cases hne : j = k
    · rwa [hne]
    · exact fun hj => other_start hseven hne ((List.take_prefix _ _).trans hj)
  obtain ⟨data', hprocess, hswv⟩ :=
    (h anyFrame junk scannerdDataInit anyFrame_placed).1 hneither
  rw [scannerdProcess_start anyFrame hseven] at hprocess
  obtain ⟨ip, ret, last, hget, hcounted⟩ := addressWarning_tried hseven hprocess
  have hfar : k.array anyFrame = farArray := by cases k <;> rfl
  rw [hfar] at hget
  cases ret with
  | false => exact ⟨ip, last, hget⟩
  | true =>
      obtain ⟨name, hname⟩ := hcounted rfl
      rw [hswv] at hname
      cases hname.trans (tally_nil name)

/-- A text that is over before the address would let `get_ip` find one behind its NUL. -/
theorem length_of_recognised {l : WarningLine} (h : Recognised l) {k : Kind}
    (hseven : k.start.take startCompared <+: l.log) (hnot : ¬ k.start <+: l.log) :
    k.start.length ≤ l.log.length := by
  by_contra hshort
  obtain ⟨gap, hgap⟩ : ∃ gap, (l.log ++ 0 :: gap).length = k.start.length := by
    refine ⟨List.replicate (k.start.length - l.log.length - 1) 0, ?_⟩
    simp
    omega
  have hadvance : advance (l.log ++ 0 :: (gap ++ [blank, 0])) k.start.length =
      some ([blank] ++ 0 :: []) := by
    rw [← hgap, ← advance_append (l.log ++ 0 :: gap) ([blank] ++ 0 :: [])]
    simp
  obtain ⟨ip, last, hget⟩ := getIp_false h hseven hnot (gap ++ [blank, 0])
  obtain ⟨cleared, -, heq⟩ := getIp_eq farArray k.start_spec.1 k.start_spec.2 l.log
    (gap ++ [blank, 0]) ip
  rw [heq, if_pos hseven, hadvance, Option.bind_some] at hget
  have hblank : (0 : UInt8) ∉ [blank] := by decide
  rcases cutIp_cases farArray hblank [] cleared with ⟨hno, -⟩ | ⟨hlong, -⟩ | ⟨-, htrue⟩
  · simp at hno
  · revert hlong
    decide
  · exact htrue last hget

theorem whole_of_recognised {l : WarningLine} (h : Recognised l) (k : Kind) : WholeStart l k := by
  intro hseven
  apply or_iff_not_imp_left.mpr
  intro hnot
  have hlen := length_of_recognised h hseven hnot
  refine ⟨hlen, ?_⟩
  obtain ⟨ip, last, hget⟩ := getIp_false h hseven hnot []
  obtain ⟨cleared, -, heq⟩ := getIp_eq farArray k.start_spec.1 k.start_spec.2 l.log [] ip
  rw [heq, if_pos hseven, advance_log hlen, Option.bind_some] at hget
  rcases cutIp_cases farArray (l.nul_notMem_drop k.start.length) [] cleared with
    ⟨hblank, hshort, -⟩ | ⟨-, hnone⟩ | ⟨-, htrue⟩
  · exact ⟨hblank, hshort⟩
  · cases hnone.symm.trans hget
  · exact (htrue last hget).elim

/-- `scannerd_process` recognises a warning by its whole start exactly when no text
that only begins like one goes on like one. -/
theorem recognised_iff (l : WarningLine) : Recognised l ↔ ∀ k, WholeStart l k :=
  ⟨whole_of_recognised, recognised_of_whole⟩

def unreachable : WarningLine :=
  rspamdWarning (lit "unable to reach host \"10.0.0.17\" (timeout)") (by decide)

/-- `unable to reach host` is counted as a failed connection. -/
theorem unreachable_not_recognised : ¬ ∀ l, Recognised l := by
  intro h
  have hcounted : (scannerdProcess anyFrame (unreachable.text []) scannerdDataInit).map
      ScannerdStatistics.swv = some [⟨1, lit "rs_conn_17", 1⟩] := by decide +kernel
  obtain ⟨data', hprocess, hswv⟩ := Option.map_eq_some_iff.mp hcounted
  rcases (h unreachable anyFrame [] _ anyFrame_placed).2 data' hprocess with hsame | ⟨k, hk, -⟩
  · rw [hswv] at hsame
    cases hsame
  · cases k <;> revert hk <;> decide

end NetdataPlugins.WarningPrefix
