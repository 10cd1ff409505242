import NetdataPlugins.Scanner
import NetdataPlugins.WarnAddress

/-!
# The lines of a scannerd log (scanner.c)

`scannerd_process` takes a line apart at its first three blanks and counts it by
its severity, its module and its text. The line is the memory from its first
byte on. The three cuts write over the byte behind `buf[1]`; it is taken for one
that is there and that nothing reads, so that only the pointers they return
matter.

`room` tells whether `vector_add` finds memory when the vector is full.
-/
namespace NetdataPlugins.ScannerdLog
open MemoryBlock CString NextField WarnAddress Scanner

/-! ### The vector of warnings -/

/-- The search of `add_warn`: raises the first entry of the name, or finds none. -/
def raiseEntry (name : Bytes) : List WarnT → Option (List WarnT)
  | [] => none
  | w :: warn =>
      if name = w.name then some ({ w with count := w.count + 1 } :: warn)
      else (raiseEntry name warn).map (w :: ·)

/-- `vector_add`, whose result `add_warn` does not look at. -/
def vectorAdd (room : Bool) (v : List WarnT) (w : WarnT) : List WarnT :=
  if room then v ++ [w] else v

/-- `add_warn` once it has built the name. -/
def tally (room : Bool) (name : Bytes) (warn : List WarnT) : List WarnT :=
  match raiseEntry name warn with
  | some warn => warn
  | none => vectorAdd room warn ⟨1, name, 1⟩

/-- `name` is the local array on entry. -/
def addWarn (name : Block 16) (room : Bool) (scanner warnt : Bytes) (ip : Block 4)
    (warn : List WarnT) : Option (List WarnT) := do
  let name ← warnName name scanner warnt ip
  pure (tally room (cstr name.bytes) warn)

def warnClear (warn : List WarnT) : List WarnT := warn.map fun w => { w with count := 0 }

def scannerdDataInit : ScannerdStatistics := ⟨[], fun _ => 0⟩

def scannerdClear (data : ScannerdStatistics) : ScannerdStatistics :=
  ⟨warnClear data.swv, fun _ => 0⟩

/-! ### One line -/

/-- `STARTSWITH` with a literal, which it compares up to its NUL. -/
def startsWith (mem start : Bytes) : Option Bool := strncmpEq start.length (start ++ [0]) mem

/-- What the local arrays hold on entry: `buf` of `scannerd_process`, with the
byte behind it, and its `ip`, `ip` of the two calls of `get_ip`, and `name` of
`add_warn`. -/
structure Frame where
  buf : Block 2
  ip : Block 4
  untoconnIp : IpArray
  scanwithIp : IpArray
  name : Block 16
  room : Bool

def count (s : Scalar) (data : ScannerdStatistics) : ScannerdStatistics :=
  { data with sss := Function.update data.sss s (data.sss s + 1) }

/-- The two attempts of a scanner to find a warning about an address. -/
def addressWarning (fr : Frame) (scanner log : Bytes) (data : ScannerdStatistics) :
    Option ScannerdStatistics := do
  let (ret, ip) ← getIp fr.untoconnIp log fr.ip untoconn untoconn.length
  if ret then
    let swv ← addWarn fr.name fr.room scanner (lit "conn") ip data.swv
    pure { data with swv := swv }
  else
    let (ret, ip) ← getIp fr.scanwithIp log ip scanwith scanwith.length
    if ret then
      let swv ← addWarn fr.name fr.room scanner (lit "scan") ip data.swv
      pure { data with swv := swv }
    else pure data

def processWarning (fr : Frame) (module log : Bytes) (data : ScannerdStatistics) :
    Option ScannerdStatistics := do
  if ← startsWith module (lit "extractor(") then
    if ← startsWith log (lit "skipped maxsize") then pure (count .exMaxsize data)
    else addressWarning fr (lit "ex") log data
  else if ← startsWith module (lit "rspamd(") then addressWarning fr (lit "rs") log data
  else if ← startsWith module (lit "spamassassin") then addressWarning fr (lit "sa") log data
  else if ← startsWith module (lit "clamav(") then addressWarning fr (lit "av") log data
  else if ← startsWith module (lit "daemon(") then
    pure (if contains (cstr log) (lit "connection closed") then count .daemonConnClosed data
      else data)
  else if ← startsWith module (lit "scanner(") then
    pure (if contains (cstr log) (lit "unknown whitelist reply for result ") then
      count .scanUnknownWlReply data else data)
  else pure data

/-- The errors of each module, by the start of their text. -/
def errorTexts : List (Bytes × List (Bytes × Scalar)) :=
  [(lit "extractor(",
      [(lit "remote extraction attempts failed", .exAttempts),
        (lit "scanning process timed out", .exScantimeout),
        (lit "unexpected data received: ", .exUnexpdata), (lit "unknown: ", .exUnknown),
        (lit "unable to process eml with mime structure ", .exMimeErr),
        (lit "archive error ", .exArchiveErr)]),
    (lit "rspamd(", [(lit "unable to parse rspamd response: ", .rsBadresponse)]),
    (lit "daemon",
      [(lit "invalid scanner reply: ", .daemonScannerRepl),
        (lit "connection error: ", .daemonConn),
        (lit "unable to handle connection: ", .daemonConnhandle)]),
    (lit "unpacker(",
      [(lit "invalid file output: ", .unpackFileOutput), (lit "file error ", .unpackFileErr),
        (lit "unable to delete directory ", .unpackDeldir),
        (lit "unable to delete file ", .unpackDelfile),
        (lit "unable to delete: ", .unpackDel)]),
    (lit "scanner(",
      [(lit "DNS query to whitelist zone ", .scanWlQuery),
        (lit "unable to whitelist scanner ", .scanWlScanner),
        (lit "qmqpc_action: invalid rule ", .scanQmqpcRule),
        (lit "unable to process message: ", .scanMess),
        (lit "unable to clean: ", .scanClean)])]

/-- The first entry whose text starts the line. -/
def firstStart {α : Type} (mem : Bytes) : List (Bytes × α) → Option (Option α)
  | [] => some none
  | (start, a) :: entries => do
      if ← startsWith mem start then pure (some a) else firstStart mem entries

def processError (module log : Bytes) (data : ScannerdStatistics) :
    Option ScannerdStatistics := do
  match ← firstStart module errorTexts with
  | none => pure data
  | some texts =>
      match ← firstStart log texts with
      | some s => pure (count s data)
      | none =>
          -- Only the last module also looks for a text inside the line.
          if ← startsWith module (lit "scanner(") then
            pure (if contains (cstr log) (lit " result: ") then count .scanRes data else data)
          else pure data

def scannerdProcess (fr : Frame) (line : Bytes) (data : ScannerdStatistics) :
    Option ScannerdStatistics := do
  let (severity, buf) ← getNextField fr.buf 1 line blank
  let some severity := severity | pure data
  let (module, buf) ← getNextField buf 1 severity.tail blank
  let some module := module | pure data
  let (log, _) ← getNextField buf 1 module.tail blank
  let some log := log | pure data
  if ← startsWith severity.tail (lit "warning:") then processWarning fr module.tail log.tail data
  else if ← startsWith severity.tail (lit "error:") then processError module.tail log.tail data
  else pure data

/-- The cuts lead where the skip loop leads. -/
theorem scannerdProcess_eq (fr : Frame) (line : Bytes) (data : ScannerdStatistics) :
    scannerdProcess fr line data = (do
      let some severity ← skipField blank line | pure data
      let some module ← skipField blank severity.tail | pure data
      let some log ← skipField blank module.tail | pure data
      if ← startsWith severity.tail (lit "warning:") then
        processWarning fr module.tail log.tail data
      else if ← startsWith severity.tail (lit "error:") then
        processError module.tail log.tail data
      else pure data) := by
  unfold scannerdProcess
  obtain ⟨buf, hseverity⟩ := getNextField_spare blank fr.buf line
  rw [hseverity]
  rcases skipField blank line with _ | _ | severity
  · rfl
  · rfl
  obtain ⟨buf', hmodule⟩ := getNextField_spare blank buf severity.tail
  simp only [Option.map_some, Option.bind_eq_bind, Option.bind_some, hmodule]
  rcases skipField blank severity.tail with _ | _ | module
  · rfl
  · rfl
  obtain ⟨buf'', hlog⟩ := getNextField_spare blank buf' module.tail
  simp only [Option.map_some, Option.bind_some, hlog]
  rcases skipField blank module.tail with _ | _ | log <;> rfl

/-! ### What `add_warn` does to the vector -/

def names (warn : List WarnT) : List Bytes := warn.map WarnT.name

theorem raiseEntry_eq_none {name : Bytes} {warn : List WarnT} :
    raiseEntry name warn = none ↔ name ∉ names warn := by
  induction warn with
  | nil => simp [raiseEntry, names]
  | cons w warn ih =>
      simp only [names] at ih
      by_cases h : name = w.name <;> simp [raiseEntry, names, h, ih]

theorem raiseEntry_eq_some {name : Bytes} {warn warn' : List WarnT}
    (h : raiseEntry name warn = some warn') :
    ∃ a w b, warn = a ++ w :: b ∧ name ∉ names a ∧ w.name = name ∧
      warn' = a ++ { w with count := w.count + 1 } :: b := by
  induction warn generalizing warn' with
  | nil => cases h
  | cons w warn ih =>
      rw [raiseEntry] at h
      split_ifs at h with hw
      · cases h
        exact ⟨[], w, warn, rfl, List.not_mem_nil, hw.symm, rfl⟩
      · obtain ⟨r, hr, rfl⟩ := Option.map_eq_some_iff.mp h
        obtain ⟨a, v, b, rfl, ha, hv, rfl⟩ := ih hr
        exact ⟨w :: a, v, b, rfl, by simpa [names, hw] using ha, hv, rfl⟩

/-- Either an entry of the name goes up by one, or there is none and a new one
comes behind all others, if there is room. -/
theorem tally_cases (room : Bool) (name : Bytes) (warn : List WarnT) :
    (∃ a w b, warn = a ++ w :: b ∧ name ∉ names a ∧ w.name = name ∧
      tally room name warn = a ++ { w with count := w.count + 1 } :: b) ∨
    (name ∉ names warn ∧ tally room name warn = vectorAdd room warn ⟨1, name, 1⟩) := by
  unfold tally
  cases h : raiseEntry name warn with
  | none => exact .inr ⟨raiseEntry_eq_none.mp h, rfl⟩
  | some warn' =>
      obtain ⟨a, w, b, hwarn, ha, hw, rfl⟩ := raiseEntry_eq_some h
      exact .inl ⟨a, w, b, hwarn, ha, hw, rfl⟩

/-- A terminated group is all that `add_warn` needs. -/
theorem addWarn_eq (name : Block 16) (room : Bool) {scanner warnt : Bytes}
    (hs : 2 ≤ scanner.length ∧ 0 ∉ scanner) (hw : 4 ≤ warnt.length ∧ 0 ∉ warnt) {ip : Block 4}
    (hip : 0 ∈ ip.bytes) (warn : List WarnT) :
    addWarn name room scanner warnt ip warn =
      some (tally room (nameText scanner warnt (cstr ip.bytes)) warn) := by
  obtain ⟨built, hbuilt, htext⟩ := warnName_text name hs.1 hw.1 hip
  have hname := cstr_of_prefix htext (nul_notMem_nameText hs.2 hw.2 (nul_notMem_cstr ip.bytes))
  simp [addWarn, hbuilt, hname]

theorem addWarn_eq_some {name : Block 16} {room : Bool} {scanner warnt : Bytes}
    (hs : 2 ≤ scanner.length ∧ 0 ∉ scanner) (hw : 4 ≤ warnt.length ∧ 0 ∉ warnt) {ip : Block 4}
    {warn warn' : List WarnT} (h : addWarn name room scanner warnt ip warn = some warn') :
    warn' = tally room (nameText scanner warnt (cstr ip.bytes)) warn := by
  have hip : 0 ∈ ip.bytes := by
    by_contra hip
    simp [addWarn, warnName, strlen, hip] at h
  exact (Option.some_inj.mp ((addWarn_eq name room hs hw hip warn).symm.trans h)).symm

end NetdataPlugins.ScannerdLog
