import NetdataPlugins.PluginRuns
import NetdataPlugins.QmailCharts
import NetdataPlugins.SendOutcome
import NetdataPlugins.SmtpAccounting

/-!
# qmail.plugin, step by step

The main loop over the logs of qmail-send and of the smtp daemons, and the queue,
which has no log. Over whole runs, with rotations and failing writes, the
counters of a directory report the lines of its log; the end statuses do so
unless there is a directory with `_end` behind the name.
-/
namespace NetdataPlugins.QmailLoop
open MemoryBlock CString Netdata Timer FileWatch IndexedLoop LogWatch Runs Smtp Send Queue
  PluginLoop
open QmailPlugin (Data dirData dirWatches mem_dirWatches)
open LogDirectory (DirEntry)
open QmailCharts (sendIds smtpIds ids ending)

/-- What `update_limit` finds on the stack, or what `measure_queue` finds. -/
structure Input where
  junk : ℤ
  measured : QueueStatistics

/-- The statistics that all watchers share, and the time of their last print. -/
structure Shared where
  aggregated : Aggregated
  ratelimitsppTime : Timespec

def qmailFunc : StatFunc Input Shared Data where
  printHdr name data := data.printHdr name
  process x mem data := some (data.process ⟨cstr mem, x.junk⟩)
  measure
    | x, .queue _ => .queue x.measured
    | _, data => data
  postprocess shared data :=
    ((data.postprocess shared.aggregated).1,
      { shared with aggregated := (data.postprocess shared.aggregated).2 })
  print name data time := (data, data.print name time)
  clear := Data.clear

def qmailPlugin : Plugin Input Shared Data where
  toStatFunc := qmailFunc
  label dirName _ := dirName
  preamble := ratelimitsppPrintHdr
  epilogue shared reading :=
    let (lastUpdate, time) := updateTimestamp shared.ratelimitsppTime reading
    let (limits, outLimits) := tcpserverlimitsPrint shared.aggregated.limits lastUpdate
    (⟨⟨.zero, tcpserverlimitsClear limits⟩, time⟩,
      ratelimitsppPrint shared.aggregated.ratelimitspp lastUpdate ++ outLimits)

def detectLogDirs (bufsiz : ℕ) (logs : Key → LogFile) (entries : List DirEntry) :
    List (Watch bufsiz Data) :=
  LogDirectory.detectLogDirs (dirWatches (prepareWatcher logs)) entries

/-- The directories that get a watcher. -/
def watchedDirs (bufsiz : ℕ) (logs : Key → LogFile) (entries : List DirEntry) : List Bytes :=
  (detectLogDirs bufsiz logs entries).map fun w => w.watcher.watch.dirName

/-- The queue has no directory and no file; its watcher is there if its
directories are. -/
def appendQueueWatcher (bufsiz : ℕ) (hasQueue : Bool) : List (Watch bufsiz Data) :=
  if hasQueue then
    [⟨⟨FileWatch.prepareWatcher bufsiz [] [] (-1) none, []⟩, .queue, ⟨0, 0⟩, .queue queueDataInit⟩]
  else []

def found (bufsiz : ℕ) (logs : Key → LogFile) (entries : List DirEntry) (hasQueue : Bool) :
    List (Watch bufsiz Data) :=
  detectLogDirs bufsiz logs entries ++ appendQueueWatcher bufsiz hasQueue

/-- The state when the loop of `main` begins. -/
def main (bufsiz : ℕ) (logs : Key → LogFile) (entries : List DirEntry) (hasQueue : Bool)
    (readings : ℕ → Timespec) (ratelimitsppTime : Timespec) : System bufsiz Shared Data :=
  start qmailPlugin logs (found bufsiz logs entries hasQueue)
    ⟨⟨.zero, fun _ => []⟩, ratelimitsppTime⟩ readings

/-! ### The charts -/

inductive Func where
  | send | smtp | queue
  deriving DecidableEq, Repr

def func : Data → Func
  | .send _ => .send
  | .smtp _ => .smtp
  | .queue _ => .queue

def Func.ids : Func → List Bytes
  | .send => sendIds
  | .smtp => smtpIds
  | .queue => []

def chartId (name id : Bytes) : Bytes := lit "qmail." ++ name ++ ending id

def charts (name : Bytes) : Func → List Bytes
  | .queue => [lit "qmail.queue"]
  | f => f.ids.map (chartId name)

def sharedCharts : List Bytes := defined ratelimitsppPrintHdr ++ limitOrder.map limitChart

theorem chartId_eq (name id : Bytes) :
    chartId name id = printTypePrefixId qmail (some name) (some id) :=
  (QmailCharts.printTypePrefixId_ending name id).symm

theorem chartId_inj (name a b : Bytes) : chartId name a = chartId name b ↔ a = b := by
  simp [chartId, ending]

theorem begun_print (name : Bytes) (time : ℕ) (data : Data) :
    begun (data.print name time) = charts name (func data) := by
  rw [QmailCharts.begun_print, QmailCharts.defined_printHdr]
  cases data <;> rfl

theorem ratelimitsppPrint_closed (r : RatelimitsppStatistics) (time : ℕ) :
    Closed (ratelimitsppPrint r time) := block_closed _ _ _

def interface : Interface qmailPlugin Func where
  kind := func
  charts := charts
  epilogueCharts := sharedCharts
  printHdr_quiet _ d := by cases d <;> exact ⟨rfl, rfl⟩
  preamble_quiet := ⟨rfl, rfl⟩
  kind_process x mem d d' h := by
    obtain rfl := Option.some.inj h
    cases d <;> rfl
  kind_measure _ d := by cases d <;> rfl
  kind_postprocess _ d := by cases d <;> rfl
  kind_print _ _ _ := rfl
  kind_clear d := by cases d <;> rfl
  print_closed name d time := QmailCharts.print_closed name time d
  begun_print name d time c hc := by
    rw [← begun_print name time d]
    exact hc
  epilogue_closed _ _ := (ratelimitsppPrint_closed _ _).append (tcpserverlimitsPrint_closed _ _)
  epilogue_headed _ _ _ h := ⟨_, _, (Option.some.inj h).symm⟩
  begun_epilogue g reading c hc := by
    change c ∈ begun (ratelimitsppPrint _ _ ++ _) at hc
    rw [begun_append, List.mem_append, ratelimitsppPrint, ndBeginTime, begun_block] at hc
    rcases hc with hc | hc
    · exact List.mem_append_left _ hc
    · exact List.mem_append_right _ (QmailCharts.begun_tcpserverlimitsPrint hc)

/-! ### The counters of a send log -/

inductive SendCounter where
  | startDelivery | endMsg
  | delivery (status : SendOutcome.Status)
  deriving DecidableEq, Repr

/-- The counter that a line raises. -/
def sendCounterOf (line : Bytes) : Option SendCounter :=
  if contains line (lit "starting delivery") then some .startDelivery
  else if contains line (lit "end msg") then some .endMsg
  else if let some ptr := strstr line (lit "delivery ") then
    if contains ptr (lit "success:") then some (.delivery .success)
    else if contains ptr (lit "failure:") then some (.delivery .failure)
    else if contains ptr (lit "deferral:") then some (.delivery .deferral)
    else none
  else none

def SendCounter.value : SendCounter → SendStatistics → ℤ
  | .startDelivery, data => data.startDelivery
  | .endMsg, data => data.endMsg
  | .delivery .success, data => data.deliverySuccess
  | .delivery .failure, data => data.deliveryFailure
  | .delivery .deferral, data => data.deliveryDeferral

def SendCounter.id : SendCounter → Bytes
  | .startDelivery => []
  | .endMsg => []
  | .delivery _ => lit "delivery"

def SendCounter.dimension : SendCounter → Bytes
  | .startDelivery => lit "start_delivery"
  | .endMsg => lit "end_msg"
  | .delivery .success => lit "delivery_success"
  | .delivery .failure => lit "delivery_failure"
  | .delivery .deferral => lit "delivery_deferral"

def raiseSend (data : SendStatistics) : SendCounter → SendStatistics
  | .startDelivery => { data with startDelivery := data.startDelivery + 1 }
  | .endMsg => { data with endMsg := data.endMsg + 1 }
  | .delivery status => SendOutcome.record data status

theorem processSendLogLine_eq (line : Bytes) (data : SendStatistics) :
    processSendLogLine line data = ((sendCounterOf line).map (raiseSend data)).getD data := by
  unfold processSendLogLine sendCounterOf
  split_ifs
  · rfl
  · rfl
  · cases strstr line (lit "delivery ") with
    | none => rfl
    | some ptr =>
        dsimp only
        split_ifs <;> rfl

theorem SendCounter.value_raise (c k : SendCounter) (data : SendStatistics) :
    c.value (raiseSend data k) = c.value data + if k = c then 1 else 0 := by
  rcases c with _ | _ | _ | _ | _ <;> rcases k with _ | _ | _ | _ | _ <;>
    simp [SendCounter.value, raiseSend, SendOutcome.record]

theorem SendCounter.value_process (c : SendCounter) (line : Bytes) (data : SendStatistics) :
    c.value (processSendLogLine line data) =
      c.value data + (if sendCounterOf line = some c then 1 else 0 : ℕ) := by
  rw [processSendLogLine_eq]
  cases sendCounterOf line with
  | none => simp
  | some k =>
      simp only [Option.map_some, Option.getD_some, SendCounter.value_raise, Option.some.injEq]
      split_ifs <;> rfl

theorem SendCounter.values_print (c : SendCounter) (name : Bytes) (data : SendStatistics)
    (time : ℕ) :
    values (chartId name c.id) c.dimension (printSendData name data time) = [c.value data] := by
  have hprint : printSendData name data time =
      block (.begin (chartId name []) (if time > 10000 then some time else none))
        [(lit "start_delivery", data.startDelivery), (lit "end_msg", data.endMsg)] ++
      block (.begin (chartId name (lit "delivery")) (if time > 10000 then some time else none))
        [(lit "delivery_success", data.deliverySuccess),
          (lit "delivery_failure", data.deliveryFailure),
          (lit "delivery_deferral", data.deliveryDeferral)] := by
    simp only [chartId_eq]
    rfl
  simp only [hprint, values, (block_closed _ _ _).reported_append, reported_block, chartId_inj]
  rcases c with _ | _ | _ | _ | _ <;> rfl

/-! ### The counters of an smtp log -/

inductive SmtpCounter where
  | tcpOk | tcpDeny
  | endStatus (s : EndStatus)
  | smtp | esmtps
  | tls (v : TlsVersion)
  | queueErr (e : QueueErr)
  deriving DecidableEq, Repr

/-- The counter that the end of a connection raises. -/
def endCounters (ptr : Bytes) : List SmtpCounter :=
  match strstr ptr (lit "status ") with
  | some ptr => [.endStatus (endStatus (intValue (ptr.drop (lit "status ").length)))]
  | none => []

/-- The counters that a line raises; a connection with TLS has two. -/
def smtpCountersOf (line : Bytes) : List SmtpCounter :=
  if contains line (lit "tcpserver: ok") then [.tcpOk]
  else if let some _ := strstr line (lit "tcpserver: deny") then [.tcpDeny]
  else if let some _ := strstr line (lit "tcpserver: status: ") then []
  else if let some ptr := strstr line (lit "tcpserver: end ") then endCounters ptr
  else if let some ptr := strstr line (lit "uses ESMTPS") then [.esmtps, .tls (tlsVersion ptr)]
  else if contains line (lit "uses SMTP") then [.smtp]
  else if let some ptr := strstr line (lit "qmail-smtpd: qmail-queue error message: ") then
    [.queueErr (queueErr ptr)]
  else []

def SmtpCounter.value : SmtpCounter → SmtpStatisticsScalar → ℤ
  | .tcpOk, sss => sss.tcpOk
  | .tcpDeny, sss => sss.tcpDeny
  | .endStatus s, sss => sss.tcpEndStatus s
  | .smtp, sss => sss.smtp
  | .esmtps, sss => sss.esmtps
  | .tls v, sss => sss.esmtpsTls v
  | .queueErr e, sss => sss.queueErr e

def SmtpCounter.id : SmtpCounter → Bytes
  | .tcpOk => []
  | .tcpDeny => []
  | .endStatus _ => lit "end_status"
  | .smtp => lit "smtp_type"
  | .esmtps => lit "smtp_type"
  | .tls _ => lit "tls"
  | .queueErr _ => lit "queue_err"

def SmtpCounter.dimension : SmtpCounter → Bytes
  | .tcpOk => lit "tcp_ok"
  | .tcpDeny => lit "tcp_deny"
  | .endStatus .status0 => lit "tcp_end_status_0"
  | .endStatus .status256 => lit "tcp_end_status_256"
  | .endStatus .status25600 => lit "tcp_end_status_25600"
  | .endStatus .others => lit "tcp_end_status_others"
  | .smtp => lit "smtp"
  | .esmtps => lit "esmtps"
  | .tls .tls1 => lit "tls1"
  | .tls .tls11 => lit "tls1.1"
  | .tls .tls12 => lit "tls1.2"
  | .tls .tls13 => lit "tls1.3"
  | .tls .unknown => lit "unknown"
  | .queueErr .connTimeout => lit "conn_timeout"
  | .queueErr .commFailed => lit "comm_failed"
  | .queueErr .permReject => lit "perm_reject"
  | .queueErr .refused => lit "refused"
  | .queueErr .unprocess => lit "unprocess"
  | .queueErr .unknown => lit "unknown"
  | .queueErr .connReject => lit "conn_reject"
  | .queueErr .oom => lit "oom"
  | .queueErr .read => lit "read"
  | .queueErr .makeConn => lit "make_conn"
  | .queueErr .home => lit "home"
  | .queueErr .createFiles => lit "create_files"
  | .queueErr .tempReject => lit "temp_reject"
  | .queueErr .internalBug => lit "internal_bug"
  | .queueErr .unableExecQq => lit "unable_exec_qq"
  | .queueErr .timeout => lit "timeout"
  | .queueErr .fulldiks => lit "fulldiks"
  | .queueErr .readConfig => lit "read_config"
  | .queueErr .longAddr => lit "long_addr"
  | .queueErr .permProblem => lit "perm_problem"
  | .queueErr .tempProblem => lit "temp_problem"

section Raised
variable (c : SmtpCounter) (sss : SmtpStatisticsScalar)

theorem smtpValue_endStatus (k : EndStatus) :
    c.value { sss with
        tcpEndStatus := Function.update sss.tcpEndStatus k (sss.tcpEndStatus k + 1) } =
      c.value sss + (if c ∈ [.endStatus k] then 1 else 0 : ℕ) := by
  cases c with
  | endStatus s => by_cases h : s = k <;> simp [SmtpCounter.value, h]
  | _ => simp [SmtpCounter.value]

theorem smtpValue_esmtps (k : TlsVersion) :
    c.value { sss with
        esmtps := sss.esmtps + 1
        esmtpsTls := Function.update sss.esmtpsTls k (sss.esmtpsTls k + 1) } =
      c.value sss + (if c ∈ [.esmtps, .tls k] then 1 else 0 : ℕ) := by
  cases c with
  | tls v => by_cases h : v = k <;> simp [SmtpCounter.value, h]
  | _ => simp [SmtpCounter.value]

theorem smtpValue_queueErr (k : QueueErr) :
    c.value { sss with queueErr := Function.update sss.queueErr k (sss.queueErr k + 1) } =
      c.value sss + (if c ∈ [.queueErr k] then 1 else 0 : ℕ) := by
  cases c with
  | queueErr e => by_cases h : e = k <;> simp [SmtpCounter.value, h]
  | _ => simp [SmtpCounter.value]

theorem smtpValue_processEnd (ptr : Bytes) :
    c.value (processEnd ptr sss) =
      c.value sss + (if c ∈ endCounters ptr then 1 else 0 : ℕ) := by
  unfold processEnd endCounters
  cases strstr ptr (lit "status ") with
  | none => simp
  | some ptr => exact smtpValue_endStatus c sss _

theorem smtpValue_process (junk : ℤ) (line : Bytes) (data : SmtpStatistics) :
    c.value (processSmtp junk line data).sss =
      c.value data.sss + (if c ∈ smtpCountersOf line then 1 else 0 : ℕ) := by
  unfold processSmtp smtpCountersOf processOther
  cases contains line (lit "tcpserver: ok") with
  | true => cases c <;> simp [SmtpCounter.value]
  | false =>
  cases strstr line (lit "tcpserver: deny") with
  | some ptr =>
      simp only [Bool.false_eq_true, if_false, (SmtpAccounting.processDeny_cases junk ptr data).1]
      cases c <;> simp [SmtpCounter.value]
  | none =>
  cases strstr line (lit "tcpserver: status: ") with
  | some ptr => cases c <;> simp [SmtpCounter.value]
  | none =>
  cases strstr line (lit "tcpserver: end ") with
  | some ptr => exact smtpValue_processEnd c data.sss ptr
  | none =>
  cases strstr line (lit "uses ESMTPS") with
  | some ptr => exact smtpValue_esmtps c data.sss _
  | none =>
  cases contains line (lit "uses SMTP") with
  | true => cases c <;> simp [SmtpCounter.value]
  | false =>
  cases strstr line (lit "qmail-smtpd: qmail-queue error message: ") with
  | some ptr => exact smtpValue_queueErr c data.sss _
  | none =>
  cases strstr line (lit "ratelimitspp:") with
  | some ptr => cases c <;> simp [SmtpCounter.value]
  | none => simp

end Raised

theorem smtpValues_print (c : SmtpCounter) (name : Bytes) (data : SmtpStatistics) (time : ℕ) :
    values (chartId name c.id) c.dimension (printSmtpData name data time) =
      [c.value data.sss] := by
  unfold printSmtpData
  simp only [ndBeginTime, ← chartId_eq, List.append_assoc, values,
    (block_closed _ _ _).reported_append, reported_block, chartId_inj]
  cases c with
  | endStatus s => cases s <;> rfl
  | tls v => cases v <;> rfl
  | queueErr e => cases e <;> rfl
  | _ => rfl

/-! ### The series of a counter -/

inductive Counter where
  | send (c : SendCounter)
  | smtp (c : SmtpCounter)
  deriving DecidableEq, Repr

namespace Counter

def func : Counter → Func
  | .send _ => .send
  | .smtp _ => .smtp

def id : Counter → Bytes
  | .send c => c.id
  | .smtp c => c.id

def dimension : Counter → Bytes
  | .send c => c.dimension
  | .smtp c => c.dimension

/-- The record of another function has no value for the counter. -/
def value : Counter → Data → ℤ
  | .send c, .send data => c.value data
  | .smtp c, .smtp data => c.value data.sss
  | _, _ => 0

/-- The line raises the counter. -/
def counts (c : Counter) (line : Bytes) : Bool :=
  match c with
  | .send c => sendCounterOf line = some c
  | .smtp c => c ∈ smtpCountersOf line

end Counter

theorem value_process (c : Counter) (line : QmailPlugin.Line) {data : Data}
    (h : func data = c.func) :
    c.value (data.process line) = c.value data + (if c.counts line.text then 1 else 0 : ℕ) := by
  cases c with
  | send c =>
      cases data <;> cases h
      simp only [Counter.counts, decide_eq_true_eq]
      exact c.value_process line.text _
  | smtp c =>
      cases data <;> cases h
      simp only [Counter.counts, decide_eq_true_eq]
      exact smtpValue_process c line.junk line.text _

theorem values_print (c : Counter) (name : Bytes) (time : ℕ) {data : Data}
    (h : func data = c.func) :
    values (chartId name c.id) c.dimension (data.print name time) = [c.value data] := by
  cases c with
  | send c =>
      cases data <;> cases h
      exact c.values_print name _ time
  | smtp c =>
      cases data <;> cases h
      exact smtpValues_print c name _ time

/-- To postprocess a record changes the average of its sessions only. -/
theorem value_postprocess (c : Counter) (aggregated : Aggregated) (data : Data) :
    c.value (data.postprocess aggregated).1 = c.value data := by
  cases c with
  | send c => cases data <;> rfl
  | smtp c => cases data <;> cases c <;> rfl

theorem value_clear (c : Counter) (data : Data) : c.value data.clear = 0 := by
  cases c with
  | send c => cases data <;> rcases c with _ | _ | _ | _ | _ <;> rfl
  | smtp c => cases data <;> cases c <;> rfl

theorem func_process (line : QmailPlugin.Line) (data : Data) :
    func (data.process line) = func data := by
  cases data <;> rfl

theorem func_postprocess (aggregated : Aggregated) (data : Data) :
    func (data.postprocess aggregated).1 = func data := by
  cases data <;> rfl

def counters (c : Counter) : Series interface where
  chart name := chartId name c.id
  dimension := c.dimension
  weight line := if c.counts line then 1 else 0
  meter := c.value
  Valid data := func data = c.func
  process x mem d d' hd _ h := by
    obtain rfl := Option.some.inj h
    exact ⟨(func_process _ d).trans hd, value_process c ⟨cstr mem, x.junk⟩ hd⟩
  postprocess g d hd :=
    ⟨(func_postprocess g.aggregated d).trans hd, value_postprocess c g.aggregated d⟩
  print name d time hd := ⟨hd, rfl, values_print c name time hd⟩
  clear d hd := ⟨by cases d <;> exact hd, value_clear c d⟩

theorem counters_safe (c : Counter) : Safe (counters c) := fun _ _ _ _ _ => ⟨_, rfl⟩

/-! ### Runs -/

theorem dirData_ids {name : Bytes} {data : Data} (h : dirData name = some data) :
    func data ≠ .queue ∧ (func data).ids = ids name := by
  unfold dirData at h
  unfold ids
  split_ifs at h with hsend hsmtp
  all_goals cases h
  · simp only [hsend, if_true]
    exact ⟨by decide, rfl⟩
  · simp only [hsend, hsmtp, if_true]
    exact ⟨by decide, rfl⟩

theorem dirData_charts {name : Bytes} {data : Data} (h : dirData name = some data) :
    charts name (func data) = (ids name).map (chartId name) := by
  rw [← (dirData_ids h).2]
  cases data with
  | send data => rfl
  | smtp data => rfl
  | queue data => exact absurd rfl (dirData_ids h).1

theorem value_dirData (c : Counter) {name : Bytes} {data : Data} (h : dirData name = some data) :
    c.value data = 0 := by
  unfold dirData at h
  split_ifs at h
  · cases h
    exact value_clear c (.send sendDataInit)
  · cases h
    exact value_clear c (.smtp smtpDataInit)

theorem Counter.id_cases (c : Counter) :
    c.id ∈ [[], lit "delivery", lit "end_status", lit "smtp_type", lit "tls", lit "queue_err"] := by
  cases c with
  | send c => cases c <;> simp [Counter.id, SendCounter.id]
  | smtp c => cases c <;> simp [Counter.id, SmtpCounter.id]

theorem Counter.id_ne_status (c : Counter) : c.id ≠ lit "status" := fun h =>
  absurd (h ▸ c.id_cases) (by decide)

theorem Counter.id_mem_ids (c : Counter) : c.id ∈ sendIds ++ smtpIds := by
  have hsub : [[], lit "delivery", lit "end_status", lit "smtp_type", lit "tls",
      lit "queue_err"] ⊆ sendIds ++ smtpIds := by decide
  exact hsub c.id_cases

/-- The chart of a counter is a chart of another directory only if this has
`_end` behind its name and an end status is counted. -/
theorem Counter.chart_shared {c : Counter} {x y : Bytes} (hne : x ≠ y)
    (h : chartId x c.id ∈ (ids y).map (chartId y)) :
    c.id = lit "end_status" ∧ y = x ++ lit "_end" := by
  obtain ⟨b, hb, hb'⟩ := List.mem_map.mp h
  have heq : y ++ ending b = x ++ ending c.id := by simpa [chartId] using hb'
  have hb := QmailCharts.mem_ids hb
  rcases List.suffix_or_suffix_of_suffix ⟨y, rfl⟩ ⟨x, heq.symm⟩ with hsuffix | hsuffix
  · rcases QmailCharts.ending_suffix b hb c.id c.id_mem_ids hsuffix with rfl | ⟨rfl, hend⟩
    · exact absurd (List.append_cancel_right heq).symm hne
    · have hsplit : ending (lit "end_status") = lit "_end" ++ ending (lit "status") := by decide
      rw [hend, hsplit, ← List.append_assoc] at heq
      exact ⟨hend, List.append_cancel_right heq⟩
  · rcases QmailCharts.ending_suffix c.id c.id_mem_ids b hb hsuffix with hcb | ⟨hstatus, -⟩
    · rw [hcb] at heq
      exact absurd (List.append_cancel_right heq).symm hne
    · exact absurd hstatus c.id_ne_status

theorem Counter.chart_fixed (c : Counter) (name : Bytes) :
    chartId name c.id ∉ QmailCharts.fixedCharts := fun h =>
  QmailCharts.fixed_ending _ h c.id c.id_mem_ids (List.suffix_append _ _)

section Start
variable {bufsiz : ℕ} {logs : Key → LogFile} {entries : List DirEntry} {hasQueue : Bool}
  {readings : ℕ → Timespec} {ratelimitsppTime : Timespec}

theorem mem_detectLogDirs {w : Watch bufsiz Data} (h : w ∈ detectLogDirs bufsiz logs entries) :
    ∃ e ∈ entries, ∃ data, dirData e.name = some data ∧
      Prepared logs e (lit "current") data w := by
  obtain ⟨e, he, hw⟩ := LogDirectory.mem_detectLogDirs h
  obtain ⟨data, hdata, hw⟩ := mem_dirWatches hw
  exact ⟨e, he, data, hdata, prepareWatcher_prepared hw⟩

/-- The watchers of logs are for different directories. -/
theorem watchedDirs_nodup (h : (entries.map DirEntry.name).Nodup) :
    (watchedDirs bufsiz logs entries).Nodup := by
  refine h.sublist (LogDirectory.detectLogDirs_sublist (fun e => ?_) entries)
  unfold dirWatches
  cases dirData e.name with
  | none => exact List.nil_sublist _
  | some data => exact prepareWatcher_sublist fun w hw => hw.dirName

theorem mem_appendQueueWatcher {w : Watch bufsiz Data}
    (h : w ∈ appendQueueWatcher bufsiz hasQueue) :
    w.type = .queue ∧ func w.data = .queue ∧ w.watcher.watch.fd = none := by
  unfold appendQueueWatcher at h
  split_ifs at h
  · obtain rfl := List.mem_singleton.mp h
    exact ⟨rfl, rfl, rfl⟩
  · cases h

/-- The watchers that are found have nothing read and nothing recorded. -/
theorem found_fresh {w : Watch bufsiz Data} (h : w ∈ found bufsiz logs entries hasQueue) :
    w.watcher.consumed = [] ∧ Fresh w.watcher.watch ∧
      ((∃ name, dirData name = some w.data) ∨ w.data = .queue queueDataInit) := by
  rcases List.mem_append.mp h with h | h
  · obtain ⟨e, -, data, hdata, hprep⟩ := mem_detectLogDirs h
    exact ⟨hprep.consumed, hprep.fresh, .inl ⟨e.name, hprep.data ▸ hdata⟩⟩
  · unfold appendQueueWatcher at h
    split_ifs at h
    · obtain rfl := List.mem_singleton.mp h
      exact ⟨rfl, prepareWatcher_fresh _ _ _ _ _, .inr rfl⟩
    · cases h

theorem counter_alone (hnames : (entries.map DirEntry.name).Nodup) (c : Counter) {i : ℕ}
    {w : Watch bufsiz Data} (hw : (detectLogDirs bufsiz logs entries)[i]? = some w)
    (hend : c.id = lit "end_status" →
      w.watcher.watch.dirName ++ lit "_end" ∉ watchedDirs bufsiz logs entries) :
    Alone (counters c) w.watcher.watch.dirName i
      (main bufsiz logs entries hasQueue readings ratelimitsppTime) := by
  have hfixed := c.chart_fixed w.watcher.watch.dirName
  have hsub : sharedCharts ⊆ QmailCharts.fixedCharts := by decide
  refine ⟨fun h => hfixed (hsub h), fun j v hv hj hmem => ?_⟩
  rw [main, start_getElem?, Option.map_eq_some_iff] at hv
  obtain ⟨u, hu, rfl⟩ := hv
  change chartId w.watcher.watch.dirName c.id ∈ charts u.watcher.watch.dirName (func u.data)
    at hmem
  rw [found] at hu
  rcases lt_or_ge j (detectLogDirs bufsiz logs entries).length with hlt | hge
  · rw [List.getElem?_append_left hlt] at hu
    have hin := List.mem_of_getElem? hu
    obtain ⟨e, -, data, hdata, hprep⟩ := mem_detectLogDirs hin
    rw [hprep.data, hprep.dirName, dirData_charts hdata] at hmem
    have hne : w.watcher.watch.dirName ≠ e.name := fun heq =>
      hj (index_unique (watchedDirs_nodup hnames) hu hw (hprep.dirName.trans heq.symm))
    obtain ⟨hid, hname⟩ := c.chart_shared hne hmem
    exact hend hid (List.mem_map.mpr ⟨u, hin, hprep.dirName.trans hname⟩)
  · rw [List.getElem?_append_right hge] at hu
    rw [(mem_appendQueueWatcher (List.mem_of_getElem? hu)).2.1] at hmem
    exact hfixed (List.mem_append_left _ (List.mem_append_left _ hmem))

/-- What has been reported for a counter of a directory. -/
def reportedFor (dirName : Bytes) (c : Counter) (out : List Command) : ℤ :=
  (values (chartId dirName c.id) c.dimension out).sum

/-- How many lines of a text raise a counter. -/
def raisedBy (bufsiz : ℕ) (c : Counter) (text : Bytes) : ℕ :=
  (seen bufsiz text).countP fun line => c.counts (cstr line)

/-- In every run in which the watcher of a directory finds its log in order when
it answers an event, whatever happens to the other logs and to the queue, the
counters of the directory report the lines of its log; and nothing blocks a
turn. Only for the end statuses no other watched directory may have the name with
`_end` behind it. -/
theorem counters_reported (hn : 0 < bufsiz) (hlogs : Untouched logs)
    (hnames : (entries.map DirEntry.name).Nodup) {i : ℕ} {w₀ : Watch bufsiz Data}
    (hw : (detectLogDirs bufsiz logs entries)[i]? = some w₀)
    (hopen : w₀.watcher.watch.fd ≠ none) (c : Counter) (hfunc : func w₀.data = c.func)
    (hend : c.id = lit "end_status" →
      w₀.watcher.watch.dirName ++ lit "_end" ∉ watchedDirs bufsiz logs entries)
    {steps : List (Step Input)} {s : System bufsiz Shared Data}
    (ho : Along (exec qmailPlugin) (OrderlyAt i)
      (main bufsiz logs entries hasQueue readings ratelimitsppTime) steps)
    (hr : run (exec qmailPlugin) (main bufsiz logs entries hasQueue readings ratelimitsppTime)
      steps = some s) :
    (∃ w, Reports qmailPlugin i s (reportedFor w₀.watcher.watch.dirName c) c.value
      (raisedBy bufsiz c) w) ∧
    (s.phase = .ticking i → ∀ input measured reading failed, ∃ reads s',
      exec qmailPlugin s (.turn ⟨⟨reads, input⟩, measured, reading, failed⟩) = some s') := by
  obtain ⟨e, -, data, hdata, hprep⟩ := mem_detectLogDirs (List.mem_of_getElem? hw)
  have hprep' : Prepared logs e (lit "current") w₀.data w₀ := hprep.data ▸ hprep
  have hmeter : c.value w₀.data = 0 := hprep.data ▸ value_dirData c hdata
  have hfound : (found bufsiz logs entries hasQueue)[i]? = some w₀ := by
    rw [found, List.getElem?_append_left (List.getElem?_eq_some_iff.mp hw).1]
    exact hw
  have hinv := run_invariant_at hn (start_setUpAt hlogs hfound hprep' hopen rfl hfunc hmeter
    (counter_alone hnames c hw hend)) ho hr
  exact ⟨hinv.reports fun text => Series.total_eq_countP _ (p := c.counts) (fun _ => rfl) _ text,
    hinv.turn_enabled (counters_safe c)⟩

end Start

def oneDirectory : List DirEntry := [⟨lit "smtpd", true, fun _ => some 1, fun _ => true⟩]

def oneWatch : Watch 8192 Data where
  watcher := ⟨FileWatch.prepareWatcher 8192 (lit "smtpd") (lit "current") 1 (some ⟨0, 0⟩), []⟩
  type := .logFile
  time := ⟨0, 0⟩
  data := .smtp smtpDataInit

theorem oneDirectory_detected :
    (detectLogDirs 8192 emptyLog oneDirectory)[0]? = some oneWatch := by
  have hdot : (lit "smtpd").head? ≠ some 46 := by decide
  have hdata : dirData (lit "smtpd") = some (.smtp smtpDataInit) := by
    have hsend : contains (lit "smtpd") (lit "send") = false := by decide
    have hsmtp : contains (lit "smtpd") (lit "smtp") = true := by decide
    simp only [dirData, hsend, hsmtp, Bool.false_eq_true, if_false, if_true]
  simp only [detectLogDirs, LogDirectory.detectLogDirs, LogDirectory.ofEntry, dirWatches,
    oneDirectory, List.flatMap_cons, hdot, hdata, if_false, Option.bind_some]
  rfl

def oneDirectoryStart : System 8192 Shared Data :=
  main 8192 emptyLog oneDirectory false (fun _ => ⟨0, 0⟩) ⟨0, 0⟩

def ended : Bytes := lit "tcpserver: end 12 status 256" ++ [10]

/-- A line, a rotation, and the event for it answered before a tick. -/
def rotatedOnce : List (Step Input) :=
  [.append (1, lit "current") ended, .rotate (1, lit "current"), .poll false true true,
    .event fun _ => ⟨[ended], fun _ => ⟨0, ⟨0, 0⟩⟩⟩, .drained]

theorem rotatedOnce_orderly :
    Along (exec qmailPlugin) (OrderlyAt 0) oneDirectoryStart rotatedOnce := by
  refine ⟨trivial, fun s₁ h₁ => ⟨trivial, fun s₂ h₂ => ⟨trivial, fun s₃ h₃ =>
    ⟨?_, fun _ _ => ⟨trivial, fun _ _ => trivial⟩⟩⟩⟩⟩
  cases h₁
  cases h₂
  cases h₃
  intro e queue _ w hw _ p hp
  cases hw
  cases hp
  exact .inl ⟨Nat.zero_lt_one, rfl⟩

theorem counters_reported_once :
    ∃ s, run (exec qmailPlugin) oneDirectoryStart rotatedOnce = some s ∧
      (∃ w, Reports qmailPlugin 0 s
        (reportedFor oneWatch.watcher.watch.dirName (.smtp (.endStatus .status256)))
        (Counter.value (.smtp (.endStatus .status256)))
        (raisedBy 8192 (.smtp (.endStatus .status256))) w) ∧
      (s.phase = .ticking 0 → ∀ input measured reading failed, ∃ reads s',
        exec qmailPlugin s (.turn ⟨⟨reads, input⟩, measured, reading, failed⟩) = some s') := by
  have hrun : (run (exec qmailPlugin) oneDirectoryStart rotatedOnce).isSome = true := by
    decide
  obtain ⟨s, hs⟩ := Option.isSome_iff_exists.mp hrun
  exact ⟨s, hs, counters_reported (by decide) emptyLog_untouched (by decide)
    oneDirectory_detected (Option.some_ne_none _) _ rfl (fun _ => by decide)
    rotatedOnce_orderly hs⟩

end NetdataPlugins.QmailLoop
