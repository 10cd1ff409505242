import NetdataPlugins.ScannerdLog

/-!
# Warnings about an address (scanner.c)

A warning of one of the four scanners has a date, a severity, a module and a
text, each up to a blank but the last one, which ends at the NUL. Whatever comes
behind the NUL is left over from earlier reads.
-/
namespace NetdataPlugins.WarningLines
open MemoryBlock CString NextField WarnAddress Scanner ScannerdLog

inductive ScannerName where
  | ex | rs | sa | av
  deriving DecidableEq, Repr

/-- The first argument of `add_warn`. -/
def ScannerName.tag : ScannerName → Bytes
  | .ex => lit "ex"
  | .rs => lit "rs"
  | .sa => lit "sa"
  | .av => lit "av"

/-- How the module of a scanner starts. -/
def ScannerName.module : ScannerName → Bytes
  | .ex => lit "extractor("
  | .rs => lit "rspamd("
  | .sa => lit "spamassassin"
  | .av => lit "clamav("

structure WarningLine where
  date : Bytes
  severity : Bytes
  module : Bytes
  log : Bytes
  scanner : ScannerName
  date_word : 0 ∉ date ∧ blank ∉ date
  severity_word : 0 ∉ severity ∧ blank ∉ severity
  module_word : 0 ∉ module ∧ blank ∉ module
  nul_notMem_log : 0 ∉ log
  severity_starts : lit "warning:" <+: severity
  module_starts : scanner.module <+: module

/-- The memory from the line on, with what follows its NUL. -/
def WarningLine.text (l : WarningLine) (junk : Bytes) : Bytes :=
  l.date ++ blank :: (l.severity ++ blank :: (l.module ++ blank :: (l.log ++ 0 :: junk)))

/-- A warning of rspamd. -/
def rspamdWarning (log : Bytes) (h : 0 ∉ log) : WarningLine where
  date := lit "@4000"
  severity := lit "warning:"
  module := lit "rspamd(127)"
  log := log
  scanner := .rs
  date_word := by decide
  severity_word := by decide
  module_word := by decide
  nul_notMem_log := h
  severity_starts := by decide
  module_starts := by decide

theorem startsWith_eq {start : Bytes} (h : 0 ∉ start) {c : UInt8} (hc : c ∉ start)
    (s t : Bytes) : startsWith (s ++ c :: t) start = some (decide (start <+: s)) := by
  rw [startsWith, strncmpEq_eq h le_rfl hc, List.take_length]

theorem not_start_of_start {a b s : Bytes} (hb : b <+: s) (h : ¬ a <+: b ∧ ¬ b <+: a) :
    ¬ a <+: s := fun ha => (List.prefix_or_prefix_of_prefix ha hb).elim h.1 h.2

theorem ScannerName.module_spec (n : ScannerName) : 0 ∉ n.module ∧ blank ∉ n.module := by
  cases n <;> decide

theorem processWarning_eq (fr : Frame) {n : ScannerName} {module : Bytes}
    (hm : n.module <+: module) (t log junk : Bytes) (data : ScannerdStatistics) :
    processWarning fr (module ++ blank :: t) (log ++ 0 :: junk) data =
      if n = .ex ∧ lit "skipped maxsize" <+: log then some (count .exMaxsize data)
      else addressWarning fr n.tag (log ++ 0 :: junk) data := by
  have hyes : startsWith (module ++ blank :: t) n.module = some true := by
    rw [startsWith_eq n.module_spec.1 n.module_spec.2, decide_eq_true hm]
  have hno {start : Bytes} (h : 0 ∉ start ∧ blank ∉ start)
      (hother : ¬ start <+: n.module ∧ ¬ n.module <+: start) :
      startsWith (module ++ blank :: t) start = some false := by
    rw [startsWith_eq h.1 h.2, decide_eq_false (not_start_of_start hm hother)]
  unfold processWarning
  cases n with
  | ex =>
      have hskipped : startsWith (log ++ 0 :: junk) (lit "skipped maxsize") =
          some (decide (lit "skipped maxsize" <+: log)) :=
        startsWith_eq (by decide) (by decide) _ _
      simp only [ScannerName.module] at hyes
      by_cases h : lit "skipped maxsize" <+: log <;>
        simp [hyes, hskipped, h, ScannerName.tag]
  | rs =>
      have h₁ := hno (ScannerName.module_spec .ex) (by decide)
      simp only [ScannerName.module] at h₁ hyes
      simp [h₁, hyes, ScannerName.tag]
  | sa =>
      have h₁ := hno (ScannerName.module_spec .ex) (by decide)
      have h₂ := hno (ScannerName.module_spec .rs) (by decide)
      simp only [ScannerName.module] at h₁ h₂ hyes
      simp [h₁, h₂, hyes, ScannerName.tag]
  | av =>
      have h₁ := hno (ScannerName.module_spec .ex) (by decide)
      have h₂ := hno (ScannerName.module_spec .rs) (by decide)
      have h₃ := hno (ScannerName.module_spec .sa) (by decide)
      simp only [ScannerName.module] at h₁ h₂ h₃ hyes
      simp [h₁, h₂, h₃, hyes, ScannerName.tag]

theorem startsWith_warning (severity t : Bytes) :
    startsWith (severity ++ blank :: t) (lit "warning:") =
      some (decide (lit "warning:" <+: severity)) :=
  startsWith_eq (by decide) (by decide) severity t

/-- A warning line is left to the scanner of its module. -/
theorem scannerdProcess_warning (fr : Frame) (l : WarningLine) (junk : Bytes)
    (data : ScannerdStatistics) :
    scannerdProcess fr (l.text junk) data =
      if l.scanner = .ex ∧ lit "skipped maxsize" <+: l.log then some (count .exMaxsize data)
      else addressWarning fr l.scanner.tag (l.log ++ 0 :: junk) data := by
  rw [← processWarning_eq fr l.module_starts (l.log ++ 0 :: junk)]
  simp [scannerdProcess_eq, WarningLine.text, skipField_append l.date_word.1 l.date_word.2,
    skipField_append l.severity_word.1 l.severity_word.2,
    skipField_append l.module_word.1 l.module_word.2, startsWith_warning, l.severity_starts]

/-! ### No other line changes the vector -/

theorem swv_processError {module log : Bytes} {data data' : ScannerdStatistics}
    (h : processError module log data = some data') : data'.swv = data.swv := by
  obtain ⟨_ | texts, -, h⟩ := Option.bind_eq_some_iff.mp h
  · cases h
    rfl
  · obtain ⟨_ | s, -, h⟩ := Option.bind_eq_some_iff.mp h
    · obtain ⟨scanner, -, h⟩ := Option.bind_eq_some_iff.mp h
      split_ifs at h <;> cases h <;> rfl
    · cases h
      rfl

theorem processWarning_changed {fr : Frame} {module log : Bytes} {data data' : ScannerdStatistics}
    (h : processWarning fr module log data = some data') (hne : data'.swv ≠ data.swv) :
    ∃ n : ScannerName, startsWith module n.module = some true := by
  obtain ⟨_ | _, hex, h⟩ := Option.bind_eq_some_iff.mp h
  swap
  · exact ⟨.ex, hex⟩
  obtain ⟨_ | _, hrs, h⟩ := Option.bind_eq_some_iff.mp h
  swap
  · exact ⟨.rs, hrs⟩
  obtain ⟨_ | _, hsa, h⟩ := Option.bind_eq_some_iff.mp h
  swap
  · exact ⟨.sa, hsa⟩
  obtain ⟨_ | _, hav, h⟩ := Option.bind_eq_some_iff.mp h
  swap
  · exact ⟨.av, hav⟩
  refine (hne ?_).elim
  obtain ⟨_ | _, -, h⟩ := Option.bind_eq_some_iff.mp h
  · obtain ⟨_ | _, -, h⟩ := Option.bind_eq_some_iff.mp h
    · cases h
      rfl
    · cases h
      split_ifs <;> rfl
  · cases h
    split_ifs <;> rfl

/-- A line that changes the vector is a warning of one of the four scanners. -/
theorem warningLine_of_changed {fr : Frame} {line : Bytes} {data data' : ScannerdStatistics}
    (hnul : 0 ∈ line) (h : scannerdProcess fr line data = some data')
    (hne : data'.swv ≠ data.swv) : ∃ (l : WarningLine) (junk : Bytes), line = l.text junk := by
  rw [scannerdProcess_eq] at h
  obtain ⟨_ | severity, hcut₁, h⟩ := Option.bind_eq_some_iff.mp h
  · cases h
    exact (hne rfl).elim
  obtain ⟨_ | module, hcut₂, h⟩ := Option.bind_eq_some_iff.mp h
  · cases h
    exact (hne rfl).elim
  obtain ⟨_ | log, hcut₃, h⟩ := Option.bind_eq_some_iff.mp h
  · cases h
    exact (hne rfl).elim
  obtain ⟨date, t₁, rfl, rfl, hdate⟩ := skipField_eq_some hcut₁
  obtain ⟨severity, t₂, rfl, rfl, hseverity⟩ := skipField_eq_some hcut₂
  obtain ⟨module, t₃, rfl, rfl, hmodule⟩ := skipField_eq_some hcut₃
  have hends : 0 ∈ t₃ := by
    simpa [hdate.1, hseverity.1, hmodule.1, show (0 : UInt8) ≠ blank by decide] using hnul
  obtain ⟨log, junk, rfl, hlog⟩ := List.eq_append_cons_of_mem hends
  obtain ⟨_ | _, hwarning, h⟩ := Option.bind_eq_some_iff.mp h
  · obtain ⟨_ | _, -, h⟩ := Option.bind_eq_some_iff.mp h
    · cases h
      exact (hne rfl).elim
    · exact (hne (swv_processError h)).elim
  obtain ⟨n, hn⟩ := processWarning_changed h hne
  rw [List.tail_cons, startsWith_warning, Option.some_inj, decide_eq_true_eq] at hwarning
  rw [List.tail_cons, startsWith_eq n.module_spec.1 n.module_spec.2, Option.some_inj,
    decide_eq_true_eq] at hn
  exact ⟨⟨date, severity, module, log, n, hdate, hseverity, hmodule, hlog, hwarning, hn⟩, junk,
    rfl⟩

/-! ### What `get_ip` finds in a text -/

/-- What stands before the last quote. -/
def quoted (s : Bytes) : Option Bytes := (lastIdx quote s).map s.take

theorem quoted_append {b : Bytes} (h : quote ∉ b) (a : Bytes) :
    quoted (a ++ quote :: b) = some a := by
  simp [quoted, lastIdx_append h]

theorem quoted_eq_some {s a : Bytes} :
    quoted s = some a ↔ ∃ b, s = a ++ quote :: b ∧ quote ∉ b := by
  constructor
  · intro h
    have hq : quote ∈ s := by
      by_contra hq
      simp [quoted, lastIdx_eq_none hq] at h
    obtain ⟨a', b, rfl, hb⟩ := exists_last_quote hq
    cases (quoted_append hb a').symm.trans h
    exact ⟨b, rfl, hb⟩
  · rintro ⟨b, rfl, hb⟩
    exact quoted_append hb a

/-- `get_ip` compares the start of the text and goes on behind it. -/
theorem getIp_eq (ip : IpArray) {start : Bytes} (hnul : 0 ∉ start)
    (hlen : startCompared ≤ start.length) (log junk : Bytes) (ipLastpart : Block 4) :
    ∃ cleared, [0] <+: cleared.bytes ∧
      getIp ip (log ++ 0 :: junk) ipLastpart start start.length =
        if start.take startCompared <+: log then
          (advance (log ++ 0 :: junk) start.length).bind fun rest => cutIp ip rest cleared
        else some (false, cleared) := by
  obtain ⟨cleared, hstore, hcleared⟩ := ipLastpart.store_extends List.nil_prefix (i := 0) rfl 0
    (show 0 < 4 by omega)
  refine ⟨cleared, hcleared, ?_⟩
  by_cases h : start.take startCompared <+: log <;>
    simp [getIp, hstore, strncmpEq_eq hnul hlen hnul, h]

theorem advance_log {log : Bytes} {k : ℕ} (h : k ≤ log.length) (junk : Bytes) :
    advance (log ++ 0 :: junk) k = some (log.drop k ++ 0 :: junk) := by
  rw [advance, if_pos (by simp; omega), List.drop_append_of_le_length h]

theorem copyLastpart_true {n : ℕ} {ip : Block n} {ipend : ℕ} {ipLastpart last : Block 4}
    {ret : Bool} (h : copyLastpart ip ipend ipLastpart = some (ret, last)) : ret = true := by
  simp only [copyLastpart, Option.bind_eq_bind, Option.bind_eq_some_iff] at h
  obtain ⟨_, -, _, -, _, -, _, -, hret⟩ := h
  cases hret
  rfl

/-- There is an address if and only if a blank comes after it. -/
theorem cutIp_cases (ip : IpArray) {rest : Bytes} (h0 : 0 ∉ rest) (junk : Bytes)
    (cleared : Block 4) :
    (blank ∉ rest ∧ rest.length < 64 ∧
      cutIp ip (rest ++ 0 :: junk) cleared = some (false, cleared)) ∨
    (64 ≤ (field blank rest).length ∧ cutIp ip (rest ++ 0 :: junk) cleared = none) ∨
    blank ∈ rest ∧ ∀ last, cutIp ip (rest ++ 0 :: junk) cleared ≠ some (false, last) := by
  have hnul : 0 ∈ rest ++ 0 :: junk := by simp
  have hcstr := cstr_append_nul rest junk h0
  have hfield := field_append_nul blank rest junk
  rcases getNextField_cases (show blank ≠ 0 by decide) hnul ip.block (by omega) with
    ⟨block, hnext, hbegins⟩ | ⟨hnone, hlong⟩
  · by_cases hblank : blank ∈ rest
    · refine .inr (.inr ⟨hblank, fun last hcut => ?_⟩)
      rw [atDelim, hcstr, if_pos hblank] at hnext
      simp only [cutIp, hnext, Option.bind_eq_bind, Option.bind_some] at hcut
      obtain ⟨found, -, hcut⟩ := Option.bind_eq_some_iff.mp hcut
      split_ifs at hcut
      · cases hcut
      · cases copyLastpart_true hcut
    · have hwhole : field blank rest = rest := by
        apply List.takeWhile_eq_self_iff.mpr
        intro c hc
        simp [inField, ne_of_mem_of_not_mem hc h0, ne_of_mem_of_not_mem hc hblank]
      have hshort : rest.length < 64 := by
        have := hbegins.length_le
        rw [hfield, hwhole, block.length_eq, List.length_append, List.length_singleton] at this
        omega
      rw [atDelim, hcstr, if_neg hblank] at hnext
      exact .inl ⟨hblank, hshort, by simp [cutIp, hnext]⟩
  · exact .inr (.inl ⟨hfield ▸ hlong, by simp [cutIp, hnone]⟩)

/-! ### The warnings of a line -/

/-- The two attempts of a scanner. -/
inductive Kind where
  | conn | scan
  deriving DecidableEq, Repr

def Kind.start : Kind → Bytes
  | .conn => untoconn
  | .scan => scanwith

def Kind.warnt : Kind → Bytes
  | .conn => lit "conn"
  | .scan => lit "scan"

/-- The local `ip` of the call of `get_ip`. -/
def Kind.array (fr : Frame) : Kind → IpArray
  | .conn => fr.untoconnIp
  | .scan => fr.scanwithIp

theorem Kind.start_spec (k : Kind) : 0 ∉ k.start ∧ startCompared ≤ k.start.length := by
  cases k <;> decide

theorem Kind.warnt_spec (k : Kind) : 4 ≤ k.warnt.length ∧ 0 ∉ k.warnt := by
  cases k <;> decide

theorem ScannerName.tag_spec (n : ScannerName) : 2 ≤ n.tag.length ∧ 0 ∉ n.tag := by
  cases n <;> decide

theorem addressWarning_cases {fr : Frame} {n : ScannerName} {log : Bytes}
    {data data' : ScannerdStatistics} (h : addressWarning fr n.tag log data = some data') :
    data'.swv = data.swv ∨ ∃ (k : Kind) (ip last : Block 4),
      getIp (k.array fr) log ip k.start k.start.length = some (true, last) ∧
      data'.swv = tally fr.room (nameText n.tag k.warnt (cstr last.bytes)) data.swv := by
  obtain ⟨⟨ret, last⟩, hconn, h⟩ := Option.bind_eq_some_iff.mp h
  cases ret with
  | true =>
      obtain ⟨swv, hadd, hdata⟩ := Option.bind_eq_some_iff.mp h
      cases hdata
      exact .inr ⟨.conn, fr.ip, last, hconn,
        addWarn_eq_some n.tag_spec (Kind.warnt_spec .conn) hadd⟩
  | false =>
      obtain ⟨⟨ret, last'⟩, hscan, h⟩ := Option.bind_eq_some_iff.mp h
      cases ret with
      | true =>
          obtain ⟨swv, hadd, hdata⟩ := Option.bind_eq_some_iff.mp h
          cases hdata
          exact .inr ⟨.scan, last, last', hscan,
            addWarn_eq_some n.tag_spec (Kind.warnt_spec .scan) hadd⟩
      | false =>
          cases h
          exact .inl rfl

theorem addressWarning_unfound {fr : Frame} {log : Bytes}
    (h : ∀ (k : Kind) (ip : Block 4), ∃ last,
      getIp (k.array fr) log ip k.start k.start.length = some (false, last))
    (n : ScannerName) (data : ScannerdStatistics) :
    addressWarning fr n.tag log data = some data := by
  obtain ⟨last, hconn⟩ := h .conn fr.ip
  obtain ⟨last', hscan⟩ := h .scan last
  simp only [Kind.array, Kind.start] at hconn hscan
  simp [addressWarning, hconn, hscan]

/-- The two starts differ in their first seven bytes. -/
theorem other_start {log : Bytes} {k j : Kind} (hseven : k.start.take startCompared <+: log)
    (hne : j ≠ k) : ¬ j.start.take startCompared <+: log := by
  apply not_start_of_start hseven
  cases k <;> cases j
  · exact (hne rfl).elim
  · decide
  · decide
  · exact (hne rfl).elim

/-- With the first seven bytes of a start an address is looked for, and counted if found. -/
theorem addressWarning_tried {fr : Frame} {n : ScannerName} {log junk : Bytes}
    {data data' : ScannerdStatistics} {k : Kind} (hseven : k.start.take startCompared <+: log)
    (h : addressWarning fr n.tag (log ++ 0 :: junk) data = some data') :
    ∃ ip ret last,
      getIp (k.array fr) (log ++ 0 :: junk) ip k.start k.start.length = some (ret, last) ∧
      (ret = true → ∃ name, data'.swv = tally fr.room name data.swv) := by
  obtain ⟨⟨ret, last⟩, hconn, h⟩ := Option.bind_eq_some_iff.mp h
  cases k with
  | conn =>
      refine ⟨fr.ip, ret, last, hconn, fun hret => ?_⟩
      subst hret
      obtain ⟨swv, hadd, hdata⟩ := Option.bind_eq_some_iff.mp h
      cases hdata
      exact ⟨_, addWarn_eq_some n.tag_spec (Kind.warnt_spec .conn) hadd⟩
  | scan =>
      obtain ⟨cleared, -, heq⟩ := getIp_eq fr.untoconnIp (Kind.start_spec .conn).1
        (Kind.start_spec .conn).2 log junk fr.ip
      rw [if_neg (other_start hseven (by decide))] at heq
      cases heq.symm.trans hconn
      obtain ⟨⟨ret, last'⟩, hscan, h⟩ := Option.bind_eq_some_iff.mp h
      refine ⟨_, ret, last', hscan, fun hret => ?_⟩
      subst hret
      obtain ⟨swv, hadd, hdata⟩ := Option.bind_eq_some_iff.mp h
      cases hdata
      exact ⟨_, addWarn_eq_some n.tag_spec (Kind.warnt_spec .scan) hadd⟩

theorem addressWarning_found {fr : Frame} {log junk g : Bytes} {k : Kind}
    (hseven : k.start.take startCompared <+: log)
    (hget : ∀ ip, ∃ last,
      getIp (k.array fr) (log ++ 0 :: junk) ip k.start k.start.length = some (true, last) ∧
      0 ∈ last.bytes ∧ cstr last.bytes = g) (n : ScannerName) (data : ScannerdStatistics) :
    addressWarning fr n.tag (log ++ 0 :: junk) data =
      some { data with swv := tally fr.room (nameText n.tag k.warnt g) data.swv } := by
  cases k with
  | conn =>
      obtain ⟨last, hconn, hlast, rfl⟩ := hget fr.ip
      have hadd := addWarn_eq fr.name fr.room n.tag_spec (Kind.warnt_spec .conn) hlast data.swv
      simp only [Kind.array, Kind.start] at hconn
      simp only [Kind.warnt] at hadd ⊢
      simp [addressWarning, hconn, hadd]
  | scan =>
      obtain ⟨cleared, -, heq⟩ := getIp_eq fr.untoconnIp (Kind.start_spec .conn).1
        (Kind.start_spec .conn).2 log junk fr.ip
      rw [if_neg (other_start hseven (by decide))] at heq
      obtain ⟨last, hscan, hlast, rfl⟩ := hget cleared
      have hadd := addWarn_eq fr.name fr.room n.tag_spec (Kind.warnt_spec .scan) hlast data.swv
      simp only [Kind.array, Kind.start] at heq hscan
      simp only [Kind.warnt] at hadd ⊢
      simp [addressWarning, heq, hscan, hadd]

/-- A warning line leaves the vector as it is, or counts one address that `get_ip`
has found behind one of the two starts. -/
theorem warning_cases {fr : Frame} {l : WarningLine} {junk : Bytes}
    {data data' : ScannerdStatistics} (h : scannerdProcess fr (l.text junk) data = some data') :
    data'.swv = data.swv ∨ ∃ (k : Kind) (ip last : Block 4),
      getIp (k.array fr) (l.log ++ 0 :: junk) ip k.start k.start.length = some (true, last) ∧
      data'.swv =
        tally fr.room (nameText l.scanner.tag k.warnt (cstr last.bytes)) data.swv := by
  rw [scannerdProcess_warning] at h
  split_ifs at h
  · cases h
    exact .inl rfl
  · exact addressWarning_cases h

/-- A place for the local arrays that `get_ip` can work in. -/
def anyFrame : Frame :=
  ⟨⟨[0, 0], rfl⟩, ⟨List.replicate 4 0, by simp⟩, farArray, farArray,
    ⟨List.replicate 16 0, by simp⟩, true⟩

theorem anyFrame_placed (k : Kind) : (k.array anyFrame).Placed := by
  cases k <;> exact ⟨by decide, by decide⟩

/-- A text that begins like one of the starts is not about a skipped message. -/
theorem scannerdProcess_start (fr : Frame) {l : WarningLine} {k : Kind}
    (hseven : k.start.take startCompared <+: l.log) (junk : Bytes) (data : ScannerdStatistics) :
    scannerdProcess fr (l.text junk) data =
      addressWarning fr l.scanner.tag (l.log ++ 0 :: junk) data := by
  have hskipped : ¬ lit "skipped maxsize" <+: l.log :=
    not_start_of_start hseven (by cases k <;> decide)
  rw [scannerdProcess_warning, if_neg fun hskip => hskipped hskip.2]

theorem WarningLine.nul_notMem_drop (l : WarningLine) (n : ℕ) : 0 ∉ l.log.drop n := fun h =>
  l.nul_notMem_log (List.mem_of_mem_drop h)

end NetdataPlugins.WarningLines
