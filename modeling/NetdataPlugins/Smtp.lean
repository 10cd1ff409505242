import Mathlib.Logic.Function.Basic
import NetdataPlugins.Netdata

/-!
# Statistics of an smtp log (smtp.c)

One record holds what is counted for one log directory: the scalars, and for
each of the four limits of `tcpserver` a vector of rule names with their
counts. `process_smtp` counts one line, `postprocess_data` adds the record to
the statistics that all directories share, and `clear_smtp_data` starts the
next interval. Allocations succeed and counts do not overflow; the sum of the
sessions wraps around.
-/
namespace NetdataPlugins.Smtp
open MemoryBlock CString Netdata

inductive EndStatus where
  | status0 | status256 | status25600 | others
  deriving DecidableEq, Repr

inductive TlsVersion where
  | tls1 | tls11 | tls12 | tls13 | unknown
  deriving DecidableEq, Repr

inductive QueueErr where
  | connTimeout | commFailed | permReject | refused | unprocess | unknown | connReject
  | oom | read | makeConn | home | createFiles | tempReject | internalBug | unableExecQq
  | timeout | fulldiks | readConfig | longAddr | permProblem | tempProblem
  deriving DecidableEq, Repr

structure RatelimitsppStatistics where
  connTimeout : ℤ
  error : ℤ
  ratelimited : ℤ
  deriving DecidableEq, Repr

structure SmtpStatisticsScalar where
  tcpOk : ℤ
  tcpDeny : ℤ
  tcpStatus : ℤ
  tcpStatusSum : ℤ
  tcpStatusCount : ℤ
  tcpEndStatus : EndStatus → ℤ
  smtp : ℤ
  esmtps : ℤ
  esmtpsTls : TlsVersion → ℤ
  queueErr : QueueErr → ℤ
  ratelimitspp : RatelimitsppStatistics

/-- The limits of `tcpserver`. -/
inductive Limit where
  | maxload | maxconnip | maxconnrule | maxconnnet
  deriving DecidableEq, Repr

/-- The rule name is kept without its NUL; `new` is an `int` used as a flag. -/
structure LimitT where
  count : ℤ
  rulename : Bytes
  new : ℤ
  deriving DecidableEq, Repr

/-- One vector for each limit. -/
abbrev SmtpStatisticsVector := Limit → List LimitT

structure SmtpStatistics where
  ssv : SmtpStatisticsVector
  sss : SmtpStatisticsScalar

def RatelimitsppStatistics.zero : RatelimitsppStatistics := ⟨0, 0, 0⟩

def SmtpStatisticsScalar.zero : SmtpStatisticsScalar :=
  ⟨0, 0, 0, 0, 0, fun _ => 0, 0, 0, fun _ => 0, fun _ => 0, .zero⟩

def smtpDataInit : SmtpStatistics := ⟨fun _ => [], .zero⟩

/-! ### Rule names -/

def closing : UInt8 := 41
def dot : UInt8 := 46
def plus : UInt8 := 43

/-- The loop of `set_rulename`, with `size - 1` bytes left. -/
def setRulename : ℕ → Bytes → Bytes
  | 0, _ => []
  | _, [] => []
  | n + 1, c :: s =>
      if c = closing then [] else (if c = dot then plus else c) :: setRulename n s

/-- The name under which `update_limit` counts. -/
def ruleKey (rulename : Bytes) : Bytes :=
  let name := setRulename 255 rulename
  if name = [] then lit "all" else name

/-- The lookup loop of `update_limit`. Each entry whose name differs takes back
what an earlier one has set. -/
def lookup (rulename : Bytes) : Option ℕ → ℕ → List LimitT → Option ℕ
  | found, _, [] => found
  | _, i, l :: limits =>
      lookup rulename (if l.rulename = rulename then some i else none) (i + 1) limits

/-- `junk` is what the local `limit.new` holds, which nothing sets. -/
def updateLimit (junk : ℤ) (limits : List LimitT) (rulename : Bytes) : List LimitT :=
  let name := ruleKey rulename
  match lookup name none 0 limits with
  | some i => limits.modify i fun l => { l with count := l.count + 1 }
  | none => limits ++ [⟨1, name, junk⟩]

/-! ### One line -/

def denyLimit (rulename : Bytes) : Option Limit :=
  if contains rulename (lit "MAXLOAD:") then some .maxload
  else if contains rulename (lit "MAXCONNIP:") then some .maxconnip
  else if contains rulename (lit "MAXCONNNET:") then some .maxconnnet
  else if contains rulename (lit "MAXCONNRULE:") then some .maxconnrule
  else none

def processDeny (junk : ℤ) (ptr : Bytes) (data : SmtpStatistics) : SmtpStatistics :=
  let data := { data with sss := { data.sss with tcpDeny := data.sss.tcpDeny + 1 } }
  match strstr ptr (lit "(") with
  | some rulename =>
      match denyLimit (rulename.tail) with
      | some l =>
          { data with
            ssv := Function.update data.ssv l (updateLimit junk (data.ssv l) (rulename.tail)) }
      | none => data
  | none => data

/-- What an `int` keeps of a value. -/
def toInt (z : ℤ) : ℤ := z.bmod (2 ^ 32)

/-- `strtoul` into an `int`. -/
def intValue (s : Bytes) : ℤ := toInt (strtoul s)

def endStatus (val : ℤ) : EndStatus :=
  if val = 0 then .status0
  else if val = 256 then .status256
  else if val = 25600 then .status25600
  else .others

def processEnd (ptr : Bytes) (sss : SmtpStatisticsScalar) : SmtpStatisticsScalar :=
  match strstr ptr (lit "status ") with
  | some ptr =>
      let s := endStatus (intValue (ptr.drop (lit "status ").length))
      { sss with tcpEndStatus := Function.update sss.tcpEndStatus s (sss.tcpEndStatus s + 1) }
  | none => sss

def tlsVersion (ptr : Bytes) : TlsVersion :=
  if contains ptr (lit "TLSv1,") then .tls1
  else if contains ptr (lit "TLSv1.1,") then .tls11
  else if contains ptr (lit "TLSv1.2,") then .tls12
  else if contains ptr (lit "TLSv1.3,") then .tls13
  else .unknown

/-- The messages of `qmail-queue`, in the order in which they are looked for. -/
def queueErrMessages : List (Bytes × QueueErr) :=
  [(lit "451 tcp connection to mail server timed out", .connTimeout),
    (lit "451 tcp connection to mail server rejected", .connReject),
    (lit "451 tcp connection to mail server succeeded, but communication failed", .commFailed),
    (lit "451 qq internal bug", .internalBug),
    (lit "451 unable to exec qq", .unableExecQq),
    (lit "451 unable to process message", .unprocess),
    (lit "451 qq out of memory", .oom),
    (lit "451 qq timeout", .timeout),
    (lit "451 qq write error or disk full", .fulldiks),
    (lit "451 qq read error", .read),
    (lit "451 qq unable to read configuration", .readConfig),
    (lit "451 qq trouble making network connection", .makeConn),
    (lit "451 qq trouble in home directory", .home),
    (lit "451 qq trouble creating files in queue", .createFiles),
    (lit "451 mail server temporarily rejected message", .tempReject),
    (lit "554 mail server permanently rejected message", .permReject),
    (lit "554 envelope address too long for qq", .longAddr),
    (lit "554 message refused", .refused),
    (lit "554 qq permanent problem", .permProblem),
    (lit "451 qq temporary problem", .tempProblem)]

def queueErr (ptr : Bytes) : QueueErr :=
  match queueErrMessages.find? fun m => contains ptr m.1 with
  | some m => m.2
  | none => .unknown

def processRatelimitspp (ptr : Bytes) (r : RatelimitsppStatistics) : RatelimitsppStatistics :=
  if contains ptr (lit ";Result:NOK") then { r with ratelimited := r.ratelimited + 1 }
  else if let some ptr := strstr ptr (lit "Error:") then
    if contains ptr (lit "Receiving data failed, connection timed out.") then
      { r with connTimeout := r.connTimeout + 1 }
    else { r with error := r.error + 1 }
  else r

/-- The branches below the one for a denied connection. -/
def processOther (line : Bytes) (sss : SmtpStatisticsScalar) : SmtpStatisticsScalar :=
  if let some ptr := strstr line (lit "tcpserver: status: ") then
    { sss with
      tcpStatusSum :=
        toInt (sss.tcpStatusSum + intValue (ptr.drop (lit "tcpserver: status: ").length))
      tcpStatusCount := sss.tcpStatusCount + 1 }
  else if let some ptr := strstr line (lit "tcpserver: end ") then processEnd ptr sss
  else if let some ptr := strstr line (lit "uses ESMTPS") then
    let v := tlsVersion ptr
    { sss with
      esmtps := sss.esmtps + 1
      esmtpsTls := Function.update sss.esmtpsTls v (sss.esmtpsTls v + 1) }
  else if contains line (lit "uses SMTP") then { sss with smtp := sss.smtp + 1 }
  else if let some ptr := strstr line (lit "qmail-smtpd: qmail-queue error message: ") then
    let e := queueErr ptr
    { sss with queueErr := Function.update sss.queueErr e (sss.queueErr e + 1) }
  else if let some ptr := strstr line (lit "ratelimitspp:") then
    { sss with ratelimitspp := processRatelimitspp ptr sss.ratelimitspp }
  else sss

def processSmtp (junk : ℤ) (line : Bytes) (data : SmtpStatistics) : SmtpStatistics :=
  if contains line (lit "tcpserver: ok") then
    { data with sss := { data.sss with tcpOk := data.sss.tcpOk + 1 } }
  else if let some ptr := strstr line (lit "tcpserver: deny") then processDeny junk ptr data
  else { data with sss := processOther line data.sss }

/-! ### The end of an interval -/

def fractionalConversion : ℤ := 100

def clearLimits (limit : List LimitT) : List LimitT := limit.map fun l => { l with count := 0 }

def clearSmtpData (data : SmtpStatistics) : SmtpStatistics :=
  ⟨fun l => clearLimits (data.ssv l), { SmtpStatisticsScalar.zero with
    tcpStatus := data.sss.tcpStatus }⟩

/-- The inner loop of `postprocess_limits`: adds to the first entry of the
name, or finds none. -/
def addToEntry (l : LimitT) : List LimitT → Option (List LimitT)
  | [] => none
  | a :: aggregated =>
      if l.rulename = a.rulename then some ({ a with count := a.count + l.count } :: aggregated)
      else (addToEntry l aggregated).map (a :: ·)

/-- Both vectors after `postprocess_limits`. -/
def postprocessLimits : List LimitT → List LimitT → List LimitT × List LimitT
  | aggregated, [] => (aggregated, [])
  | aggregated, l :: limit =>
      match addToEntry l aggregated with
      | some aggregated =>
          let r := postprocessLimits aggregated limit
          (r.1, l :: r.2)
      | none =>
          let l := { l with new := 1 }
          let r := postprocessLimits (aggregated ++ [l]) limit
          (r.1, l :: r.2)

/-- What all directories share. -/
structure Aggregated where
  ratelimitspp : RatelimitsppStatistics
  limits : SmtpStatisticsVector

def postprocessData (data : SmtpStatistics) (aggregated : Aggregated) :
    SmtpStatistics × Aggregated :=
  let tcpStatus :=
    if data.sss.tcpStatusCount ≠ 0 then
      (toInt (data.sss.tcpStatusSum * fractionalConversion)).tdiv data.sss.tcpStatusCount
    else data.sss.tcpStatus
  let r := data.sss.ratelimitspp
  let ratelimitspp : RatelimitsppStatistics :=
    ⟨aggregated.ratelimitspp.connTimeout + r.connTimeout,
      aggregated.ratelimitspp.error + r.error,
      if r.ratelimited ≠ 0 then 1 else aggregated.ratelimitspp.ratelimited⟩
  (⟨fun l => (postprocessLimits (aggregated.limits l) (data.ssv l)).2,
      { data.sss with tcpStatus := tcpStatus }⟩,
    ⟨ratelimitspp, fun l => (postprocessLimits (aggregated.limits l) (data.ssv l)).1⟩)

end NetdataPlugins.Smtp
