import NetdataPlugins.LimitVectors
import NetdataPlugins.PrintedLines
import NetdataPlugins.SmtpOutput
import NetdataPlugins.WarningLines

/-!
# Ids of dimensions from log text (smtp.c, scanner.c)

The rules of the limits and the addresses of the warnings come from the logs and
become ids of dimensions. `set_rulename` replaces the dots of a rule, and
`get_ip` cuts an address at its blanks and at its last quote; neither looks for
the other bytes that end a word.
-/
namespace NetdataPlugins.DimensionIds
open MemoryBlock CString NextField Netdata Words PrintedLines

/-! ### Deny lines -/

section Deny
open Smtp LimitVectors

/-- What `process_smtp` hands to `update_limit`: the text behind the first
parenthesis of a deny line, if it names a limit. -/
def ruleText (line : Bytes) : Option Bytes :=
  if contains line (lit "tcpserver: ok") then none
  else do
    let ptr ← strstr line (lit "tcpserver: deny")
    let rulename ← strstr ptr (lit "(")
    if (denyLimit rulename.tail).isSome then pure rulename.tail else none

/-- The part of it that becomes the name. -/
def rulePart (rulename : Bytes) : Bytes := (rulename.take 255).takeWhile (· != closing)

/-- No blank, tab or single quote. -/
def Unbroken (s : Bytes) : Prop := ∀ c ∈ s, isBlank c = false ∧ c ≠ mark

instance (s : Bytes) : Decidable (Unbroken s) := inferInstanceAs (Decidable (∀ c ∈ s, _))

theorem unbroken_append (s t : Bytes) : Unbroken (s ++ t) ↔ Unbroken s ∧ Unbroken t :=
  List.forall_mem_append

theorem setRulename_eq (n : ℕ) (s : Bytes) :
    setRulename n s = ((s.take n).takeWhile (· != closing)).map
      fun c => if c = dot then plus else c := by
  induction n generalizing s with
  | zero => simp [setRulename]
  | succ n ih =>
      cases s with
      | nil => simp [setRulename]
      | cons c s => by_cases h : c = closing <;> simp [setRulename, h, ih]

theorem word_iff {s : Bytes} : Word s ↔ s ≠ [] ∧ Unbroken s := Iff.rfl

theorem unbroken_setRulename (rulename : Bytes) :
    Unbroken (setRulename 255 rulename) ↔ Unbroken (rulePart rulename) := by
  rw [setRulename_eq, Unbroken, List.forall_mem_map]
  apply forall₂_congr
  intro c _
  by_cases h : c = dot
  · subst h
    decide
  · rw [if_neg h]

/-- An empty name is replaced, so only the bytes of the rule matter. -/
theorem word_ruleKey (rulename : Bytes) :
    Word (ruleKey rulename) ↔ Unbroken (rulePart rulename) := by
  rw [← unbroken_setRulename, ruleKey]
  by_cases h : setRulename 255 rulename = []
  · simp only [h, if_true]
    decide +kernel
  · simp only [h, if_false, word_iff, ne_eq, not_false_eq_true, true_and]

theorem denied_eq_some {line name : Bytes} {l : Limit} :
    denied line = some (l, name) ↔
      ∃ rulename, ruleText line = some rulename ∧ denyLimit rulename = some l ∧
        ruleKey rulename = name := by
  unfold denied ruleText
  split_ifs
  · simp
  · cases strstr line (lit "tcpserver: deny") with
    | none => simp
    | some ptr =>
        cases hopen : strstr ptr (lit "(") with
        | none => simp [hopen]
        | some rulename =>
            cases hlimit : denyLimit rulename.tail <;> simp [hopen, hlimit, Prod.ext_iff]

theorem denyLimit_isSome {line rulename : Bytes} (h : ruleText line = some rulename) :
    (denyLimit rulename).isSome := by
  unfold ruleText at h
  split_ifs at h
  simp only [Option.bind_eq_bind, Option.bind_eq_some_iff] at h
  obtain ⟨ptr, -, r, -, h⟩ := h
  split_ifs at h with hlimit
  cases h
  exact hlimit

/-- The ids of the limits are words. -/
def LimitIds (limits : SmtpStatisticsVector) : Prop := ∀ l, ∀ name ∈ names (limits l), Word name

theorem splits_tcpserverlimitsPrint {limits : SmtpStatisticsVector} (h : LimitIds limits)
    (time : ℕ) : ∀ c ∈ (tcpserverlimitsPrint limits time).2, Splits c := by
  intro c hc
  obtain ⟨l, -, hc⟩ := List.mem_flatMap.mp hc
  have hword (e : LimitT) (he : e ∈ limits l) : Word e.rulename :=
    h l _ (List.mem_map_of_mem he)
  rw [printLimits_snd] at hc
  rcases List.mem_append.mp hc with hknown | hnew
  · split_ifs at hknown
    · refine splits_block rfl (fun r hr => ?_) c hknown
      obtain ⟨e, he, hr⟩ := List.mem_filterMap.mp hr
      split_ifs at hr
      cases hr
      exact hword e he
    · cases hknown
  · obtain ⟨e, he, hc⟩ := List.mem_flatMap.mp hnew
    have he := hword e (List.mem_of_mem_filter he)
    rcases List.mem_append.mp hc with hheader | hset
    · simp only [List.mem_cons, List.not_mem_nil, or_false] at hheader
      rcases hheader with rfl | rfl
      · exact splits_of_none rfl
      · exact splits_dimension he he.mark_notMem _ _ _ _
    · exact splits_block rfl (by simpa using he) c hset

/-- A line leaves only words as ids, on which the printed lines split as they should. -/
def DenyPrintable (line : Bytes) : Prop :=
  ∀ (junk : ℤ) (data : SmtpStatistics) (aggregated : Aggregated) (time : ℕ),
    LimitIds data.ssv → LimitIds aggregated.limits →
    let (data, aggregated) := postprocessData (processSmtp junk line data) aggregated
    LimitIds data.ssv ∧ LimitIds aggregated.limits ∧
      ∀ c ∈ (tcpserverlimitsPrint aggregated.limits time).2, Splits c

/-- The names of a record go on to the shared vectors, and no others. -/
theorem limitIds_postprocess (data : SmtpStatistics) (aggregated : Aggregated) :
    LimitIds (postprocessData data aggregated).1.ssv ∧
        LimitIds (postprocessData data aggregated).2.limits ↔
      LimitIds data.ssv ∧ LimitIds aggregated.limits := by
  have hown (l : Limit) :
      names ((postprocessData data aggregated).1.ssv l) = names (data.ssv l) := by
    rw [← entries_fst, ← entries_fst]
    exact congrArg (List.map Prod.fst)
      (entries_postprocessLimits_snd (aggregated.limits l) (data.ssv l))
  have hshared (l : Limit) (name : Bytes) :
      name ∈ names ((postprocessData data aggregated).2.limits l) ↔
        name ∈ names (aggregated.limits l) ∨ name ∈ names (data.ssv l) :=
    mem_names_postprocessLimits (aggregated.limits l) (data.ssv l) name
  simp only [LimitIds, hown, hshared, or_imp, forall_and]
  tauto

theorem limitIds_processSmtp (junk : ℤ) (line : Bytes) {data : SmtpStatistics} :
    LimitIds (processSmtp junk line data).ssv ↔
      LimitIds data.ssv ∧ ∀ l name, denied line = some (l, name) → Word name := by
  simp only [LimitIds, mem_names_processSmtp, or_imp, forall_and]

theorem denyPrintable_iff (line : Bytes) :
    DenyPrintable line ↔ ∀ rulename, ruleText line = some rulename →
      Unbroken (rulePart rulename) := by
  have hdenied : (∀ l name, denied line = some (l, name) → Word name) ↔
      ∀ rulename, ruleText line = some rulename → Unbroken (rulePart rulename) := by
    simp only [denied_eq_some, ← word_ruleKey]
    constructor
    · intro h rulename hrule
      obtain ⟨l, hl⟩ := Option.isSome_iff_exists.mp (denyLimit_isSome hrule)
      exact h l _ ⟨rulename, hrule, hl, rfl⟩
    · rintro h l _ ⟨rulename, hrule, -, rfl⟩
      exact h rulename hrule
  rw [← hdenied]
  constructor
  · intro h
    have hnone : LimitIds fun _ => [] := by simp [LimitIds, names]
    obtain ⟨hown, hshared, -⟩ := h 0 smtpDataInit ⟨.zero, fun _ => []⟩ 0 hnone hnone
    have hline := ((limitIds_postprocess _ _).mp ⟨hown, hshared⟩).1
    exact ((limitIds_processSmtp 0 line).mp hline).2
  · intro h junk data aggregated time hdata haggregated
    have hall := (limitIds_postprocess (processSmtp junk line data) aggregated).mpr
      ⟨(limitIds_processSmtp junk line).mpr ⟨hdata, h⟩, haggregated⟩
    exact ⟨hall.1, hall.2, splits_tcpserverlimitsPrint hall.2 time⟩

end Deny

/-! ### Warning lines -/

section Warning
open Scanner ScannerdLog WarnAddress WarningLines

/-- `get_ip` stays in bounds: behind a start that it takes for one of its own, the
text goes on, with a part that is handled within its arrays. -/
def InBounds (l : WarningLine) : Prop :=
  ∀ k : Kind, k.start.take startCompared <+: l.log →
    k.start.length ≤ l.log.length ∧ AddressFits (l.log.drop k.start.length ++ [0])

/-- The last group of the address in a text is unbroken. -/
def GroupUnbroken (l : WarningLine) (k : Kind) : Prop :=
  k.start.take startCompared <+: l.log → blank ∈ l.log.drop k.start.length →
    ∀ a, quoted (field blank (l.log.drop k.start.length)) = some a → Unbroken (lastGroup a)

def WarnIds (warn : List WarnT) : Prop := ∀ name ∈ names warn, Word name

theorem word_nameText (n : ScannerName) (k : Kind) (ip : Bytes) :
    Word (nameText n.tag k.warnt ip) ↔ Unbroken ip := by
  have hstart : Unbroken (n.tag.take 2 ++ [95] ++ k.warnt.take 4 ++ [95]) := by
    cases n <;> cases k <;> decide +kernel
  rw [word_iff, nameText, unbroken_append, and_iff_right hstart, and_iff_right (by simp)]
  by_cases h : ip = []
  · subst h
    decide +kernel
  · rw [if_neg h]

theorem mem_names_tally {room : Bool} {name n : Bytes} {warn : List WarnT}
    (h : n ∈ names (tally room name warn)) : n = name ∨ n ∈ names warn := by
  rcases tally_cases room name warn with ⟨a, w, b, rfl, -, -, htally⟩ | ⟨-, htally⟩
  · rw [htally] at h
    exact .inr (by simpa [names] using h)
  · rw [htally, vectorAdd] at h
    split_ifs at h
    · simpa [names, or_comm] using h
    · exact .inr h

theorem newHeaders_spec (name : Bytes) (warn : List WarnT) :
    names (newHeaders name warn).1 = names warn ∧
      ∀ c ∈ (newHeaders name warn).2, c = warningsChart name ∨
        ∃ n ∈ names warn, c = ndDimension n (some n) .absolute 1 1 .visible := by
  induction warn with
  | nil => simp [newHeaders, names]
  | cons w rest ih =>
      rw [newHeaders]
      split_ifs with hnew
      · simp
      · refine ⟨congrArg (List.cons w.name) ih.1, fun c hc => ?_⟩
        rcases List.mem_append.mp hc with hown | hrest
        · simp only [List.mem_cons, List.not_mem_nil, or_false] at hown
          exact hown.imp_right fun h => ⟨w.name, List.mem_cons_self, h⟩
        · rcases ih.2 c hrest with hchart | ⟨n, hn, hdimension⟩
          · exact .inl hchart
          · exact .inr ⟨n, List.mem_cons_of_mem _ hn, hdimension⟩

theorem splits_scannerdPrint (name : Bytes) {data : ScannerdStatistics} (h : WarnIds data.swv)
    (time : ℕ) : ∀ c ∈ (scannerdPrint name data time).2, Splits c := by
  obtain ⟨hnames, hheaders⟩ := newHeaders_spec name data.swv.reverse
  have hmem (n : Bytes) : n ∈ names data.swv.reverse ↔ n ∈ names data.swv := by
    simp [names]
  simp only [scannerdPrint, printNewHeaderWarn, List.forall_mem_append]
  refine ⟨⟨fun c hc => ?_, splits_block rfl ?_⟩, splits_block rfl ?_⟩
  · rcases hheaders c hc with rfl | ⟨n, hn, rfl⟩
    · exact splits_of_none rfl
    · have hword := h n ((hmem n).mp hn)
      exact splits_dimension hword hword.mark_notMem _ _ _ _
  · simp only [List.forall_mem_append, List.forall_mem_map]
    refine ⟨by decide, fun w hw => h w.name ((hmem _).mp ?_)⟩
    rw [← hnames]
    exact List.mem_map_of_mem (List.mem_reverse.mp hw)
  · simp only [List.forall_mem_map]
    decide

/-- A warning leaves only words as ids, on which the printed lines split as they should. -/
def WarningPrintable (l : WarningLine) : Prop :=
  ∀ (fr : Frame) (junk : Bytes) (data data' : ScannerdStatistics),
    (∀ k : Kind, (k.array fr).Placed) → WarnIds data.swv →
    scannerdProcess fr (l.text junk) data = some data' →
    WarnIds data'.swv ∧ ∀ name time, ∀ c ∈ (scannerdPrint name data' time).2, Splits c

theorem nul_notMem_lastGroup {rest a : Bytes} (hq : quoted (field blank rest) = some a) :
    0 ∉ lastGroup a := by
  obtain ⟨b, hfield, -⟩ := quoted_eq_some.mp hq
  intro h
  have h0 := (lastGroup_suffix a).subset h
  exact nul_notMem_field blank rest (by simp [hfield, h0])

/-- In bounds the address behind a start leaves its last group. -/
theorem getIp_inBounds {l : WarningLine} (h : InBounds l) {k : Kind}
    (hseven : k.start.take startCompared <+: l.log) (hblank : blank ∈ l.log.drop k.start.length) :
    ∃ a, quoted (field blank (l.log.drop k.start.length)) = some a ∧
      ∀ (ip : IpArray) (junk : Bytes) (ipLastpart : Block 4), ∃ last,
        getIp ip (l.log ++ 0 :: junk) ipLastpart k.start k.start.length = some (true, last) ∧
        0 ∈ last.bytes ∧ cstr last.bytes = lastGroup a := by
  obtain ⟨hlen, hfits⟩ := h k hseven
  have h0 := l.nul_notMem_drop k.start.length
  rw [AddressFits, field_append_nul, cstr_append_nul _ _ h0] at hfits
  obtain ⟨a, b, hfield, hb, hgroup⟩ := hfits.2 hblank
  have hq : quoted (field blank (l.log.drop k.start.length)) = some a := by
    rw [hfield, quoted_append hb]
  refine ⟨a, hq, fun ip junk ipLastpart => ?_⟩
  obtain ⟨cleared, hcleared, heq⟩ := getIp_eq ip k.start_spec.1 k.start_spec.2 l.log junk
    ipLastpart
  have hmemory := field_append_nul blank (l.log.drop k.start.length) junk
  obtain ⟨last, hcut, hlast⟩ := (cutIp_group ip
    (show 0 ∈ l.log.drop k.start.length ++ 0 :: junk by simp)
    (by rwa [cstr_append_nul _ _ h0]) (by rw [hmemory]; exact hfits.1) (hmemory.trans hfield) hb
    hcleared).1 hgroup
  refine ⟨last, ?_, hlast.subset (by simp), cstr_of_prefix hlast (nul_notMem_lastGroup hq)⟩
  rw [heq, if_pos hseven, advance_log hlen, Option.bind_some, hcut]

/-- In bounds every address is found behind a start and before a blank. -/
theorem getIp_true {l : WarningLine} (h : InBounds l) {k : Kind} {ip : IpArray} {junk : Bytes}
    {ipLastpart last : Block 4}
    (hget : getIp ip (l.log ++ 0 :: junk) ipLastpart k.start k.start.length = some (true, last)) :
    k.start.take startCompared <+: l.log ∧ blank ∈ l.log.drop k.start.length := by
  obtain ⟨cleared, -, heq⟩ := getIp_eq ip k.start_spec.1 k.start_spec.2 l.log junk ipLastpart
  rw [heq] at hget
  split_ifs at hget with hseven
  · refine ⟨hseven, ?_⟩
    rw [advance_log (h k hseven).1, Option.bind_some] at hget
    rcases cutIp_cases ip (l.nul_notMem_drop k.start.length) junk cleared with
      ⟨-, -, hfalse⟩ | ⟨-, hnone⟩ | ⟨hblank, -⟩
    · cases hfalse.symm.trans hget
    · cases hnone.symm.trans hget
    · exact hblank
  · cases hget

theorem warningPrintable_iff {l : WarningLine} (h : InBounds l) :
    WarningPrintable l ↔ ∀ k, GroupUnbroken l k := by
  constructor
  · intro hprintable k hseven hblank a hq
    obtain ⟨a', hq', hget⟩ := getIp_inBounds h hseven hblank
    cases hq'.symm.trans hq
    have hprocess := (scannerdProcess_start anyFrame hseven [] scannerdDataInit).trans
      (addressWarning_found hseven (hget (k.array anyFrame) []) l.scanner scannerdDataInit)
    have hids := (hprintable anyFrame [] scannerdDataInit _ anyFrame_placed
      (fun name hname => by simp [names, scannerdDataInit] at hname) hprocess).1
    exact (word_nameText l.scanner k (lastGroup a)).mp
      (hids (nameText l.scanner.tag k.warnt (lastGroup a)) List.mem_cons_self)
  · intro hunbroken fr junk data data' _ hdata hprocess
    have hids : WarnIds data'.swv := by
      rcases warning_cases hprocess with hsame | ⟨k, ip, last, hget, hswv⟩
      · rwa [hsame]
      · obtain ⟨hseven, hblank⟩ := getIp_true h hget
        obtain ⟨a, hq, hfound⟩ := getIp_inBounds h hseven hblank
        obtain ⟨last', hget', -, hlast⟩ := hfound (k.array fr) junk ip
        cases hget'.symm.trans hget
        rw [hlast] at hswv
        intro name hname
        rw [hswv] at hname
        rcases mem_names_tally hname with rfl | hold
        · exact (word_nameText l.scanner k (lastGroup a)).mpr (hunbroken k hseven hblank a hq)
        · exact hdata name hold
    exact ⟨hids, fun name time => splits_scannerdPrint name hids time⟩

/-- The ids from the logs are words exactly when the rule, up to its parenthesis and
to its 255th byte, and the last group of the address are unbroken. -/
theorem ids_printable_iff (line : Bytes) {l : WarningLine} (h : InBounds l) :
    (DenyPrintable line ↔
      ∀ rulename, ruleText line = some rulename → Unbroken (rulePart rulename)) ∧
    (WarningPrintable l ↔ ∀ k, GroupUnbroken l k) :=
  ⟨denyPrintable_iff line, warningPrintable_iff h⟩

def plainAddress : WarningLine :=
  rspamdWarning (lit "unable to connect to \"10.0.0.17\" (timeout)") (by decide)

theorem plainAddress_inBounds : InBounds plainAddress := by
  intro k hseven
  cases k with
  | conn =>
      exact ⟨by decide, by decide, fun _ => ⟨lit "\"10.0.0.17", [], by decide, by decide,
        .inr ⟨dot, by decide, .inl rfl⟩⟩⟩
  | scan => exact absurd hseven (by decide)

theorem plainAddress_unbroken (k : Kind) : GroupUnbroken plainAddress k := by
  intro hseven _ a ha
  cases k with
  | conn =>
      have hquoted : quoted (field blank (plainAddress.log.drop Kind.conn.start.length)) =
          some (lit "\"10.0.0.17") := by decide
      rw [hquoted, Option.some.injEq] at ha
      subst ha
      decide +kernel
  | scan => exact absurd hseven (by decide)

theorem ids_printable_iff_plain :
    (DenyPrintable (lit "tcpserver: deny 4321 (MAXLOAD:20)") ↔
      ∀ rulename, ruleText (lit "tcpserver: deny 4321 (MAXLOAD:20)") = some rulename →
        Unbroken (rulePart rulename)) ∧
    (WarningPrintable plainAddress ↔ ∀ k, GroupUnbroken plainAddress k) :=
  ids_printable_iff _ plainAddress_inBounds

/-- The address ends in a single quote and a digit. -/
def markedAddress : WarningLine :=
  rspamdWarning (lit "unable to connect to \"10.0.0.'7\" (timeout)") (by decide)

/-- A rule with a blank and an address with a single quote become ids. -/
theorem broken_ids :
    (¬ ∀ line, DenyPrintable line) ∧ ¬ ∀ l, InBounds l → WarningPrintable l := by
  constructor
  · intro h
    have hunbroken := (denyPrintable_iff (lit "tcpserver: deny 4321 (MAXLOAD:a b)")).mp (h _)
      (lit "MAXLOAD:a b)") (by decide +kernel)
    revert hunbroken
    decide
  · intro h
    have hbounds : InBounds markedAddress := by
      intro k hseven
      cases k with
      | conn =>
          exact ⟨by decide, by decide, fun _ => ⟨lit "\"10.0.0.'7", [], by decide, by decide,
            .inr ⟨dot, by decide, .inl rfl⟩⟩⟩
      | scan => exact absurd hseven (by decide)
    have hunbroken := (warningPrintable_iff hbounds).mp (h markedAddress hbounds) .conn
      (by decide) (by decide) (lit "\"10.0.0.'7") (by decide)
    revert hunbroken
    decide

end Warning

end NetdataPlugins.DimensionIds
