import NetdataPlugins.WarningDimensions
import NetdataPlugins.WarningLines

/-!
# What a line of a scannerd log counts (scanner.c)

A line raises at most one scalar. Which one it is depends on the text of the
line alone: the code looks at the memory behind the second and third blank, here
the text itself is cut. Otherwise it counts at most one warning about an
address.
-/
namespace NetdataPlugins.ScannerdCounts
open MemoryBlock CString NextField WarnAddress Scanner ScannerdLog WarningLines
  WarningDimensions

/-- What follows the first blank. -/
def afterBlank (s : Bytes) : Option Bytes :=
  match s.dropWhile (· ≠ blank) with
  | [] => none
  | _ :: t => some t

def firstOf {α : Type} (s : Bytes) (entries : List (Bytes × α)) : Option α :=
  (entries.find? fun e => e.1.isPrefixOf s).map Prod.snd

def warningScalar (module log : Bytes) : Option Scalar :=
  if lit "extractor(" <+: module then
    if lit "skipped maxsize" <+: log then some .exMaxsize else none
  else if lit "rspamd(" <+: module ∨ lit "spamassassin" <+: module ∨ lit "clamav(" <+: module then
    none
  else if lit "daemon(" <+: module then
    if contains log (lit "connection closed") then some .daemonConnClosed else none
  else if lit "scanner(" <+: module then
    if contains log (lit "unknown whitelist reply for result ") then some .scanUnknownWlReply
    else none
  else none

def errorScalar (module log : Bytes) : Option Scalar :=
  match firstOf module errorTexts with
  | none => none
  | some texts =>
      match firstOf log texts with
      | some s => some s
      | none =>
          if lit "scanner(" <+: module then
            if contains log (lit " result: ") then some .scanRes else none
          else none

/-- The scalar that a line raises. -/
def scalarOf (line : Bytes) : Option Scalar := do
  let severity ← afterBlank line
  let module ← afterBlank severity
  let log ← afterBlank module
  if lit "warning:" <+: severity then warningScalar module log
  else if lit "error:" <+: severity then errorScalar module log
  else none

def raised (s : Option Scalar) (sss : Scalar → ℤ) : Scalar → ℤ :=
  match s with
  | some s => Function.update sss s (sss s + 1)
  | none => sss

/-! ### The memory and its text -/

theorem skipField_blank {mem : Bytes} (h : 0 ∈ mem) :
    ∃ r, skipField blank mem = some r ∧ (r.map fun t => cstr t.tail) = afterBlank (cstr mem) ∧
      ∀ t ∈ r, 0 ∈ t.tail := by
  induction mem with
  | nil => simp at h
  | cons c s ih =>
      by_cases hblank : c = blank
      · subst hblank
        have hs : 0 ∈ s := by simpa [show (0 : UInt8) ≠ blank by decide] using h
        refine ⟨some (blank :: s), by simp [skipField], ?_, by simpa using hs⟩
        simp [cstr, afterBlank, show blank ≠ 0 by decide]
      · by_cases hnul : c = 0
        · subst hnul
          exact ⟨none, by simp [skipField, hblank], by simp [cstr, afterBlank], by simp⟩
        · have hs : 0 ∈ s := by simpa [Ne.symm hnul] using h
          obtain ⟨r, hr, hmap, htail⟩ := ih hs
          refine ⟨r, by simpa [skipField, hblank, hnul] using hr, ?_, htail⟩
          rw [hmap]
          simp [cstr, afterBlank, hblank, hnul]

theorem startsWith_mem {mem start : Bytes} (h : 0 ∈ mem) (hstart : 0 ∉ start) :
    startsWith mem start = some (decide (start <+: cstr mem)) := by
  obtain ⟨s, junk, rfl, hs⟩ := List.eq_append_cons_of_mem h
  rw [startsWith_eq hstart hstart, cstr_append_nul _ _ hs]

theorem firstStart_mem {α : Type} {mem : Bytes} (h : 0 ∈ mem) {entries : List (Bytes × α)}
    (hentries : ∀ e ∈ entries, 0 ∉ e.1) :
    firstStart mem entries = some (firstOf (cstr mem) entries) := by
  induction entries with
  | nil => rfl
  | cons e entries ih =>
      obtain ⟨start, a⟩ := e
      have hrest := ih fun e he => hentries e (List.mem_cons_of_mem _ he)
      rw [firstStart, startsWith_mem h (hentries (start, a) List.mem_cons_self)]
      by_cases hstart : start <+: cstr mem
      · simp [firstOf, hstart]
      · simp [hrest, firstOf, hstart]

theorem nul_notMem_errorTexts :
    ∀ e ∈ errorTexts, 0 ∉ e.1 ∧ ∀ t ∈ e.2, 0 ∉ t.1 := by decide

/-! ### One line -/

section Line
variable {fr : Frame} {module log : Bytes} {data data' : ScannerdStatistics}

theorem sss_addressWarning {scanner : Bytes} (h : addressWarning fr scanner log data = some data') :
    data'.sss = data.sss := by
  simp only [addressWarning, Option.bind_eq_bind, Option.bind_eq_some_iff] at h
  obtain ⟨⟨ret, ip⟩, -, h⟩ := h
  split_ifs at h
  · obtain ⟨swv, -, h⟩ := Option.bind_eq_some_iff.mp h
    cases h
    rfl
  · obtain ⟨⟨ret', ip'⟩, -, h⟩ := Option.bind_eq_some_iff.mp h
    split_ifs at h
    · obtain ⟨swv, -, h⟩ := Option.bind_eq_some_iff.mp h
      cases h
      rfl
    · cases h
      rfl

theorem sss_processWarning (hmodule : 0 ∈ module) (hlog : 0 ∈ log)
    (h : processWarning fr module log data = some data') :
    data'.sss = raised (warningScalar (cstr module) (cstr log)) data.sss := by
  have hstart {start : Bytes} (h0 : 0 ∉ start) := startsWith_mem hmodule h0
  unfold processWarning at h
  unfold warningScalar
  rw [hstart (by decide), hstart (by decide), hstart (by decide), hstart (by decide),
    hstart (by decide), hstart (by decide), startsWith_mem hlog (by decide)] at h
  simp only [Option.bind_eq_bind, Option.bind_some, decide_eq_true_eq] at h
  by_cases hex : lit "extractor(" <+: cstr module
  · rw [if_pos hex] at h ⊢
    split_ifs at h ⊢ with hskip
    · cases h
      rfl
    · exact sss_addressWarning h
  rw [if_neg hex] at h ⊢
  by_cases hrs : lit "rspamd(" <+: cstr module
  · rw [if_pos hrs] at h
    rw [if_pos (.inl hrs)]
    exact sss_addressWarning h
  rw [if_neg hrs] at h
  by_cases hsa : lit "spamassassin" <+: cstr module
  · rw [if_pos hsa] at h
    rw [if_pos (.inr (.inl hsa))]
    exact sss_addressWarning h
  rw [if_neg hsa] at h
  by_cases hav : lit "clamav(" <+: cstr module
  · rw [if_pos hav] at h
    rw [if_pos (.inr (.inr hav))]
    exact sss_addressWarning h
  rw [if_neg hav] at h
  rw [if_neg (by simp [hrs, hsa, hav])]
  split_ifs at h ⊢ <;> cases h <;> rfl

theorem sss_processError (hmodule : 0 ∈ module) (hlog : 0 ∈ log)
    (h : processError module log data = some data') :
    data'.sss = raised (errorScalar (cstr module) (cstr log)) data.sss := by
  unfold processError at h
  unfold errorScalar
  rw [firstStart_mem hmodule fun e he => (nul_notMem_errorTexts e he).1] at h
  simp only [Option.bind_eq_bind, Option.bind_some] at h
  cases htexts : firstOf (cstr module) errorTexts with
  | none =>
      rw [htexts] at h
      cases h
      rfl
  | some texts =>
      have hmem : ∀ t ∈ texts, 0 ∉ t.1 := by
        obtain ⟨e, he, rfl⟩ := Option.map_eq_some_iff.mp htexts
        exact (nul_notMem_errorTexts e (List.mem_of_find?_eq_some he)).2
      simp only [htexts, firstStart_mem hlog hmem, Option.bind_some] at h ⊢
      cases hscalar : firstOf (cstr log) texts with
      | some s =>
          rw [hscalar] at h
          cases h
          rfl
      | none =>
          simp only [hscalar, startsWith_mem hmodule (show 0 ∉ lit "scanner(" by decide),
            Option.bind_some, decide_eq_true_eq] at h ⊢
          split_ifs at h ⊢ <;> cases h <;> rfl

/-- A line raises the scalar of its text, or none, and leaves the others. -/
theorem sss_scannerdProcess {mem : Bytes} (hnul : 0 ∈ mem)
    (h : scannerdProcess fr mem data = some data') :
    data'.sss = raised (scalarOf (cstr mem)) data.sss := by
  obtain ⟨severity, hseverity, hmap₁, hnul₁⟩ := skipField_blank hnul
  simp only [scannerdProcess_eq, hseverity, Option.bind_eq_bind, Option.bind_some] at h
  unfold scalarOf
  rw [← hmap₁]
  cases severity with
  | none => cases h; rfl
  | some severity =>
  replace hnul₁ := hnul₁ severity rfl
  obtain ⟨module, hmodule, hmap₂, hnul₂⟩ := skipField_blank hnul₁
  simp only [hmodule, Option.bind_some, Option.map_some, Option.bind_eq_bind] at h ⊢
  rw [← hmap₂]
  cases module with
  | none => cases h; rfl
  | some module =>
  replace hnul₂ := hnul₂ module rfl
  obtain ⟨log, hlog, hmap₃, hnul₃⟩ := skipField_blank hnul₂
  simp only [hlog, Option.bind_some, Option.map_some] at h ⊢
  rw [← hmap₃]
  cases log with
  | none => cases h; rfl
  | some log =>
  replace hnul₃ := hnul₃ log rfl
  simp only [startsWith_mem hnul₁ (show 0 ∉ lit "warning:" by decide),
    startsWith_mem hnul₁ (show 0 ∉ lit "error:" by decide), Option.bind_some, Option.map_some,
    decide_eq_true_eq] at h ⊢
  split_ifs at h ⊢
  · exact sss_processWarning hnul₂ hnul₃ h
  · exact sss_processError hnul₂ hnul₃ h
  · cases h
    rfl

/-! ### The vector of warnings -/

theorem addWarn_terminated {name : Block 16} {room : Bool} {scanner warnt : Bytes} {ip : Block 4}
    {warn warn' : List WarnT} (h : addWarn name room scanner warnt ip warn = some warn') :
    0 ∈ ip.bytes := by
  by_contra hip
  simp [addWarn, warnName, strlen, hip] at h

/-- The warning of a scanner about a last group. -/
def warningOf (n : ScannerName) (k : Kind) (ip : Block 4) (h : 0 ∈ ip.bytes) : Warning where
  scanner := n.tag
  warnt := k.warnt
  ip := ip
  scanner_length := by cases n <;> rfl
  warnt_length := by cases k <;> rfl
  nul_notMem := ⟨n.tag_spec.2, k.warnt_spec.2⟩
  terminated := h

theorem addWarn_warning {name : Block 16} {room : Bool} {n : ScannerName} {k : Kind}
    {ip : Block 4} {warn warn' : List WarnT}
    (h : addWarn name room n.tag k.warnt ip warn = some warn') :
    ∃ w : Warning, warn' = tally room w.name warn :=
  ⟨warningOf n k ip (addWarn_terminated h), addWarn_eq_some n.tag_spec k.warnt_spec h⟩

theorem swv_addressWarning {n : ScannerName} (h : addressWarning fr n.tag log data = some data') :
    data'.swv = data.swv ∨ ∃ w : Warning, data'.swv = tally fr.room w.name data.swv := by
  simp only [addressWarning, Option.bind_eq_bind, Option.bind_eq_some_iff] at h
  obtain ⟨⟨ret, ip⟩, -, h⟩ := h
  split_ifs at h
  · obtain ⟨swv, hadd, h⟩ := Option.bind_eq_some_iff.mp h
    cases h
    exact .inr (addWarn_warning (k := .conn) hadd)
  · obtain ⟨⟨ret', ip'⟩, -, h⟩ := Option.bind_eq_some_iff.mp h
    split_ifs at h
    · obtain ⟨swv, hadd, h⟩ := Option.bind_eq_some_iff.mp h
      cases h
      exact .inr (addWarn_warning (k := .scan) hadd)
    · cases h
      exact .inl rfl

/-- A line leaves the vector as it is, or counts one warning. -/
theorem swv_scannerdProcess {mem : Bytes} (hnul : 0 ∈ mem)
    (h : scannerdProcess fr mem data = some data') :
    data'.swv = data.swv ∨ ∃ w : Warning, data'.swv = tally fr.room w.name data.swv := by
  by_cases hsame : data'.swv = data.swv
  · exact .inl hsame
  · obtain ⟨l, junk, rfl⟩ := warningLine_of_changed hnul h hsame
    rw [scannerdProcess_warning] at h
    split_ifs at h
    · cases h
      exact .inl rfl
    · exact swv_addressWarning h

end Line

end NetdataPlugins.ScannerdCounts
