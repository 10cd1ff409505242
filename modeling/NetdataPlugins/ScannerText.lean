import NetdataPlugins.DimensionIds
import NetdataPlugins.PluginText
import NetdataPlugins.ScannerPlugin

/-!
# The text of scanner.plugin

The addresses of the warnings are the only text from the logs that is printed. As
long as `get_ip` stays in bounds, what it cuts out of a line has no line feed, and
each command is one line; and if the groups it finds are words, the text reads
back.
-/
namespace NetdataPlugins.ScannerPlugin
open MemoryBlock CString NextField Netdata Timer FileWatch IndexedLoop LogWatch Runs Scanner
  ScannerdLog PluginLoop WarnAddress WarningLines DimensionIds PrintedLines PrintedText
open LogDirectory (DirEntry)

variable {N : Bytes → Prop} {name : Bytes}

/-! ### The charts -/

theorem shows_detailsPrintHdr (hname : Inert name) : ∀ c ∈ detailsPrintHdr name, Shows N c := by
  refine shows_header ?_ (by decide : ∀ c ∈ (detailsPrintHdr []).filter fun c =>
    (lineText c).isSome, ∀ t ∈ fields c, Readable t)
  change ∀ c ∈ [_, _, _, _, _], _
  simp only [List.forall_mem_cons]
  refine ⟨?_, ?_, ?_, ?_, ?_, by simp⟩
  all_goals exact shows_ndChart hname (by decide) (by decide) _

theorem shows_warningsChart (hname : Inert name) : Shows N (warningsChart name) :=
  shows_ndChart hname (by decide) (by decide) _

theorem shows_scannerdPrintHdr (hname : Inert name) :
    ∀ c ∈ scannerdPrintHdr name, Shows N c := by
  refine shows_header ?_ (by decide : ∀ c ∈ (scannerdPrintHdr []).filter fun c =>
    (lineText c).isSome, ∀ t ∈ fields c, Readable t)
  change ∀ c ∈ [_, _], _
  simp only [List.forall_mem_cons]
  exact ⟨shows_ndChart hname (by decide) (by decide) _, shows_warningsChart hname, by simp⟩

theorem shows_detailsPrint (hname : Inert name) (data : DetailsStatistics) (time : ℕ) :
    ∀ c ∈ detailsPrint name data time, Shows N c := by
  have hstart (id : String) (hid : Inert (lit id)) :
      Shows N (ndBeginTime scannerd (some name) (some (lit id)) time) :=
    shows_ndBeginTime hname ⟨by decide, hid⟩ time
  have hdurations : ∀ id ∈ durationNames.map fun d => lit d.1, Readable (.bare id) := by decide
  simp only [detailsPrint, List.forall_mem_append]
  refine ⟨⟨⟨⟨shows_fixedBlock (hstart "type" (by decide)) ?_ rfl,
    shows_fixedBlock (hstart "cached" (by decide)) ?_ rfl⟩,
    shows_fixedBlock (hstart "duration" (by decide)) hdurations rfl⟩,
    shows_fixedBlock (hstart "duration_ratio" (by decide)) hdurations rfl⟩,
    shows_fixedBlock (hstart "incorrect_data_fields" (by decide)) ?_ rfl⟩
  all_goals
    simp only [List.map_cons, List.map_nil]
    decide

/-- The names of the warnings are of this kind. -/
def Named (N : Bytes → Prop) (warn : List WarnT) : Prop := ∀ name ∈ names warn, N name

theorem names_scannerdPrint (name : Bytes) (data : ScannerdStatistics) (time : ℕ) :
    names (scannerdPrint name data time).1.swv = names data.swv := by
  have hnames := (newHeaders_spec name data.swv.reverse).1
  simp only [scannerdPrint, printNewHeaderWarn]
  rw [names, List.map_reverse, show List.map WarnT.name _ = _ from hnames, names,
    List.map_reverse, List.reverse_reverse]
  rfl

theorem shows_scannerdPrint (hname : Inert name) {data : ScannerdStatistics}
    (h : Named N data.swv) (time : ℕ) : ∀ c ∈ (scannerdPrint name data time).2, Shows N c := by
  have hstart (id : String) (hid : Inert (lit id)) :
      Shows N (ndBeginTime scannerd (some name) (some (lit id)) time) :=
    shows_ndBeginTime hname ⟨by decide, hid⟩ time
  have hnames := names_scannerdPrint name data time
  have herrors : ∀ id ∈ errorNames.map fun d => lit d.1, Readable (.bare id) := by decide
  obtain ⟨-, hheaders⟩ := newHeaders_spec name data.swv.reverse
  simp only [scannerdPrint, List.forall_mem_append]
  refine ⟨⟨fun c hc => ?_, shows_block (hstart "warnings" (by decide)) ?_⟩,
    shows_fixedBlock (hstart "errors" (by decide)) herrors rfl⟩
  · rcases hheaders c hc with rfl | ⟨n, hn, rfl⟩
    · exact shows_warningsChart hname
    · exact shows_ndDimension (h n (by simpa [names] using hn))
  · have hfixed : ∀ d ∈ warningNames, Readable (.bare (lit d.1)) := by decide
    simp only [List.forall_mem_append, List.forall_mem_map]
    refine ⟨fun d hd => .inl (hfixed d hd), fun w hw => .inr (h w.name ?_)⟩
    exact hnames ▸ List.mem_map_of_mem hw

/-! ### Warnings -/

/-- The line is this warning. -/
def Reads (line : Bytes) (l : WarningLine) : Prop := l.text [] = cstr line ++ [0]

theorem WarningLine.cstr_text (l : WarningLine) (junk : Bytes) :
    l.text [] = cstr (l.text junk) ++ [0] := by
  obtain ⟨hdate, -⟩ := l.date_word
  obtain ⟨hseverity, -⟩ := l.severity_word
  obtain ⟨hmodule, -⟩ := l.module_word
  have hlog := l.nul_notMem_log
  have hblank : (0 : UInt8) ≠ blank := by decide
  have htext (junk : Bytes) : l.text junk = (l.date ++ blank :: (l.severity ++ blank ::
      (l.module ++ blank :: l.log))) ++ 0 :: junk := by
    simp [WarningLine.text]
  rw [htext, htext, cstr_append_nul]
  simp [hdate, hseverity, hmodule, hlog, hblank]

theorem reads_of_pointsTo {mem line junk : Bytes} {l : WarningLine} (h : PointsTo mem line)
    (hmem : mem = l.text junk) : Reads line l := by
  rw [Reads, ← h.cstr_eq, hmem]
  exact WarningLine.cstr_text l junk

/-- A line has at most one warning text. -/
theorem Reads.log_eq {line : Bytes} {l l' : WarningLine} (h : Reads line l) (h' : Reads line l') :
    l.log = l'.log := by
  have hsame : l.text [] = l'.text [] := h.trans h'.symm
  have hdrop {a : Bytes} (s : Bytes) (ha : blank ∉ a) :
      (a ++ blank :: s).dropWhile (· != blank) = blank :: s := by
    rw [List.dropWhile_append_of_pos fun c hc => by simpa using fun h : c = blank => ha (h ▸ hc)]
    simp
  have hcut {a b s t : Bytes} (ha : blank ∉ a) (hb : blank ∉ b)
      (heq : a ++ blank :: s = b ++ blank :: t) : s = t := by
    have hblanks := congrArg (List.dropWhile (· != blank)) heq
    rw [hdrop s ha, hdrop t hb] at hblanks
    exact List.tail_eq_of_cons_eq hblanks
  have hlogs := hcut l.module_word.2 l'.module_word.2 (hcut l.severity_word.2 l'.severity_word.2
    (hcut l.date_word.2 l'.date_word.2 hsame))
  exact List.append_cancel_right hlogs

/-- What `get_ip` finds in a warning is in bounds, and makes a name of this kind. -/
def Brings (N : Bytes → Prop) (line : Bytes) : Prop :=
  ∀ l, Reads line l → InBounds l ∧
    ∀ (k : Kind) (a : Bytes), k.start.take startCompared <+: l.log →
      blank ∈ l.log.drop k.start.length →
      quoted (field blank (l.log.drop k.start.length)) = some a →
      N (nameText l.scanner.tag k.warnt (lastGroup a))

theorem named_scannerdProcess {fr : Frame} {mem line : Bytes} {data data' : ScannerdStatistics}
    (hline : PointsTo mem line) (hbrings : Brings N line)
    (h : scannerdProcess fr mem data = some data') (hdata : Named N data.swv) :
    Named N data'.swv := by
  by_cases hsame : data'.swv = data.swv
  · rwa [hsame]
  obtain ⟨l, junk, hmem⟩ := warningLine_of_changed (hline.subset (by simp)) h hsame
  obtain ⟨hbounds, hnames⟩ := hbrings l (reads_of_pointsTo hline hmem)
  rw [hmem] at h
  rcases warning_cases h with heq | ⟨k, ip, last, hget, hswv⟩
  · exact absurd heq hsame
  · obtain ⟨hseven, hblank⟩ := getIp_true hbounds hget
    obtain ⟨a, hq, hfound⟩ := getIp_inBounds hbounds hseven hblank
    obtain ⟨last', hget', -, hlast⟩ := hfound (k.array fr) junk ip
    cases hget'.symm.trans hget
    rw [hlast] at hswv
    intro n hn
    rw [hswv] at hn
    rcases mem_names_tally hn with rfl | hold
    · exact hnames k a hseven hblank hq
    · exact hdata n hold

/-- A name has the bytes of the line, beside those that are fixed. -/
theorem lineFeed_notMem_name {line a : Bytes} {l : WarningLine} {k : Kind}
    (hline : lineFeed ∉ line) (hreads : Reads line l)
    (hq : quoted (field blank (l.log.drop k.start.length)) = some a) :
    lineFeed ∉ nameText l.scanner.tag k.warnt (lastGroup a) := by
  have hfixed : lineFeed ∉ l.scanner.tag.take 2 ++ [95] ++ k.warnt.take 4 ++ [95] := by
    cases l.scanner <;> cases k <;> decide
  have hlog : lineFeed ∉ l.log := by
    intro h
    have htext : lineFeed ∈ l.text [] := by simp [WarningLine.text, h]
    rw [hreads, List.mem_append] at htext
    exact htext.elim (fun h => hline (List.takeWhile_subset _ h)) (by decide)
  have hgroup : lineFeed ∉ lastGroup a := by
    intro h
    obtain ⟨b, hfield, -⟩ := quoted_eq_some.mp hq
    have hmem : lineFeed ∈ field blank (l.log.drop k.start.length) := by
      rw [hfield]
      exact List.mem_append_left _ ((lastGroup_suffix a).subset h)
    exact hlog (List.mem_of_mem_drop (List.takeWhile_subset _ hmem))
  rw [nameText, List.mem_append]
  rintro (h | h)
  · exact hfixed h
  · split_ifs at h
    · exact absurd h (by decide)
    · exact hgroup h

/-! ### Runs -/

def Kept (N : Bytes → Prop) (name : Bytes) : Data → Prop
  | .details _ => Inert name
  | .scannerd data => name = lit "current" ∧ Named N data.swv

theorem Kept.inert {data : Data} (h : Kept N name data) : Inert name := by
  cases data with
  | details data => exact h
  | scannerd data =>
      rw [h.1]
      decide

variable {duration : Bytes → ℤ}

/-- The ids are what the warnings of the `current` log bring. -/
def writing (duration : Bytes → ℤ) (N : Bytes → Prop) :
    Writing (scannerPlugin duration) N fun name line =>
      name = lit "current" → lineFeed ∉ line → Brings N line where
  Kept := Kept N
  Shared _ := True
  printHdr name data h := by
    cases data with
    | details data => exact shows_detailsPrintHdr h
    | scannerd data => exact shows_scannerdPrintHdr h.inert
  preamble _ h := by cases h
  process x mem line name data data' hline hfeed hgood hprocess h := by
    cases data with
    | details data =>
        obtain ⟨data', -, rfl⟩ := Option.map_eq_some_iff.mp hprocess
        exact h
    | scannerd data =>
        obtain ⟨data', hdata', rfl⟩ := Option.map_eq_some_iff.mp hprocess
        exact ⟨h.1, named_scannerdProcess hline (hgood h.1 hfeed) hdata' h.2⟩
  measure _ _ _ h := h
  postprocess _ _ data hshared h := by cases data <;> exact ⟨h, hshared⟩
  print name data time h := by
    cases data with
    | details data => exact ⟨h, shows_detailsPrint h data time⟩
    | scannerd data =>
        have hnamed : Named N (scannerdPrint name data time).1.swv := fun n hn =>
          h.2 n (names_scannerdPrint name data time ▸ hn)
        exact ⟨⟨h.1, hnamed⟩, shows_scannerdPrint h.inert h.2 time⟩
  clear name data h := by
    cases data with
    | details data => exact h
    | scannerd data =>
        have hclear : names (warnClear data.swv) = names data.swv := by
          simp [names, warnClear]
        exact ⟨h.1, fun n hn => h.2 n (hclear ▸ hn)⟩
  epilogue _ _ h := ⟨h, fun _ hc => by cases hc⟩

section Start
variable {bufsiz : ℕ} {logs : Key → LogFile} {entries : List DirEntry}
  {readings : ℕ → Timespec}

theorem detected_kept {w : Watch bufsiz Data} (h : w ∈ detectLogDirs bufsiz logs entries) :
    w.watcher.consumed = [] ∧ Fresh w.watcher.watch ∧
      Kept N (w.name (scannerPlugin duration)) w.data := by
  have hdetails : Inert (lit "details") := by decide
  obtain ⟨e, -, hprep | hprep⟩ := mem_detectLogDirs h
  · have hname : w.name (scannerPlugin duration) = lit "details" := hprep.fileName
    rw [hname, hprep.data]
    exact ⟨hprep.consumed, hprep.fresh, hdetails⟩
  · have hname : w.name (scannerPlugin duration) = lit "current" := hprep.fileName
    rw [hname, hprep.data]
    exact ⟨hprep.consumed, hprep.fresh, rfl, fun _ hn => absurd hn List.not_mem_nil⟩

end Start

theorem addressLine_reads {line : Bytes} {l : WarningLine} (hline : line ∈ [addressLine])
    (hl : Reads line l) : l.log = plainAddress.log := by
  have hplain : Reads addressLine plainAddress := by
    unfold Reads addressLine
    decide
  exact (List.mem_singleton.mp hline ▸ hl).log_eq hplain

end NetdataPlugins.ScannerPlugin
