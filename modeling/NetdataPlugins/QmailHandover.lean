import NetdataPlugins.LimitAccounting
import NetdataPlugins.PluginHandover
import NetdataPlugins.QmailLoop

/-!
# What the smtp directories report together

The four limits of `tcpserver` and the events of `ratelimitspp` are printed once
a tick for all smtp directories. As long as qmail.plugin runs, the counts reported
for a rule, and the errors reported for `ratelimitspp`, are those of the lines that
the smtp watchers have consumed, but for what is still in the records or in the
shared statistics; at the end of a tick nothing is.
-/
namespace NetdataPlugins.QmailHandover
open MemoryBlock CString Netdata Timer FileWatch IndexedLoop LogWatch Runs Smtp LimitVectors
  LimitAccounting QmailLoop PluginLoop
open QmailPlugin (Data dirData)
open LogDirectory (DirEntry)
open QmailCharts (ending sendIds smtpIds fixedCharts)

/-- No watcher fills one of the charts that are not for a directory. -/
theorem foreign_of_fixed {chart : Bytes} (h : chart ∈ fixedCharts)
    (hqueue : chart ≠ lit "qmail.queue") (name : Bytes) (f : Func) : chart ∉ charts name f := by
  have hids : ∀ id ∈ sendIds ++ smtpIds, chart ≠ chartId name id := fun id hid heq =>
    QmailCharts.fixed_ending _ h id hid (heq ▸ List.suffix_append _ _)
  intro hmem
  cases f with
  | send =>
      obtain ⟨id, hid, heq⟩ := List.mem_map.mp hmem
      exact hids id (List.mem_append_left _ hid) heq.symm
  | smtp =>
      obtain ⟨id, hid, heq⟩ := List.mem_map.mp hmem
      exact hids id (List.mem_append_right _ hid) heq.symm
  | queue => exact hqueue (List.mem_singleton.mp hmem)

theorem postprocess_snd (shared : Shared) (data : Data) :
    (qmailPlugin.postprocess shared data).2.aggregated = (data.postprocess shared.aggregated).2 :=
  rfl

theorem epilogue_eq (g : Shared) (reading : Timespec) :
    qmailPlugin.epilogue g reading =
      let lastUpdate := (updateTimestamp g.ratelimitsppTime reading).1
      (⟨⟨.zero, tcpserverlimitsClear (tcpserverlimitsPrint g.aggregated.limits lastUpdate).1⟩,
          (updateTimestamp g.ratelimitsppTime reading).2⟩,
        ratelimitsppPrint g.aggregated.ratelimitspp lastUpdate ++
          (tcpserverlimitsPrint g.aggregated.limits lastUpdate).2) := rfl

/-- The id of the chart of `ratelimitspp`. -/
def eventsId : Bytes := printTypePrefixId qmail (some (lit "ratelimitspp")) (some (lit "events"))

theorem eventsId_ne (l : Limit) : eventsId ≠ limitChart l := by
  cases l <;> decide

/-! ### Denied connections -/

theorem hits_heard (l : Limit) (name : Bytes) (line : QmailPlugin.Line) (data : Data) :
    assigned l name (heard data [line]) =
      if func data = .smtp then hits l name line.text else 0 := by
  cases data <;> simp [heard, assigned, func]

/-- The counts of one rule of a limit. -/
def denials (l : Limit) (name : Bytes) : Handover interface where
  chart := limitChart l
  dimension := name
  weight f line := if f = .smtp then hits l name line else 0
  record data := total name (limitsOf data l)
  shared g := total name (g.aggregated.limits l)
  Valid g := (names (g.aggregated.limits l)).Nodup
  foreign := foreign_of_fixed (by cases l <;> decide) (by cases l <;> decide)
  process x mem d d' _ h := by
    obtain rfl := Option.some.inj h
    rw [(limitsOf_process l name ⟨cstr mem, x.junk⟩ d).1, hits_heard]
    rfl
  measure _ d := by cases d <;> rfl
  postprocess g d hg := by
    rw [postprocess_snd, (limitsOf_postprocess g.aggregated d l).2]
    exact ⟨nodup_postprocessLimits _ _ hg, total_postprocessLimits _ _ _⟩
  clear d := by
    show total name (limitsOf d.clear l) = 0
    rw [limitsOf_clear, total_clearLimits]
  epilogue g reading hg := by
    have hprint := limits_after_print l g.aggregated.limits
      (updateTimestamp g.ratelimitsppTime reading).1 name
    have hsilent (time : ℕ) :
        Silent (limitChart l) (ratelimitsppPrint g.aggregated.ratelimitspp time) :=
      silent_block (eventsId_ne l) _ _
    rw [epilogue_eq]
    dsimp only
    refine ⟨hprint.2 ▸ hg, hprint.1, ?_⟩
    rw [(hsilent _).1.values_append, values_printLimits _ name hg, values, (hsilent _).reported]
    by_cases hin : name ∈ names (g.aggregated.limits l)
    · simp [hin]
    · simp [hin, total_of_notMem]

/-! ### Errors of `ratelimitspp` -/

inductive RatelimitsppError where
  | connTimeout | error
  deriving DecidableEq, Repr

def errorOf (ptr : Bytes) : Option RatelimitsppError :=
  if contains ptr (lit ";Result:NOK") then none
  else if let some ptr := strstr ptr (lit "Error:") then
    if contains ptr (lit "Receiving data failed, connection timed out.") then some .connTimeout
    else some .error
  else none

/-- The error that a line is about. -/
def errorOfLine (line : Bytes) : Option RatelimitsppError :=
  if contains line (lit "tcpserver: ok") then none
  else if let some _ := strstr line (lit "tcpserver: deny") then none
  else if let some _ := strstr line (lit "tcpserver: status: ") then none
  else if let some _ := strstr line (lit "tcpserver: end ") then none
  else if let some _ := strstr line (lit "uses ESMTPS") then none
  else if contains line (lit "uses SMTP") then none
  else if let some _ := strstr line (lit "qmail-smtpd: qmail-queue error message: ") then none
  else (strstr line (lit "ratelimitspp:")).bind errorOf

/-- One, if this is the error. -/
def RatelimitsppError.weight (c : RatelimitsppError) (error : Option RatelimitsppError) : ℤ :=
  if error = some c then 1 else 0

def errors : RatelimitsppError → RatelimitsppStatistics → ℤ
  | .connTimeout, r => r.connTimeout
  | .error, r => r.error

def RatelimitsppError.dimension : RatelimitsppError → Bytes
  | .connTimeout => lit "conn_timeout"
  | .error => lit "error"

theorem errors_processRatelimitspp (c : RatelimitsppError) (ptr : Bytes)
    (r : RatelimitsppStatistics) :
    errors c (processRatelimitspp ptr r) = errors c r + c.weight (errorOf ptr) := by
  unfold processRatelimitspp errorOf
  cases contains ptr (lit ";Result:NOK") with
  | true => cases c <;> simp [errors, RatelimitsppError.weight]
  | false =>
  cases strstr ptr (lit "Error:") with
  | none => simp [RatelimitsppError.weight]
  | some ptr =>
      dsimp only
      cases contains ptr (lit "Receiving data failed, connection timed out.") <;>
        cases c <;> simp [errors, RatelimitsppError.weight]

/-- Only a line that reaches the last branch changes the errors. -/
theorem errors_processSmtp (c : RatelimitsppError) (junk : ℤ) (line : Bytes)
    (data : SmtpStatistics) :
    errors c (processSmtp junk line data).sss.ratelimitspp =
      errors c data.sss.ratelimitspp + c.weight (errorOfLine line) := by
  have hnone : c.weight none = 0 := rfl
  unfold processSmtp processOther errorOfLine
  cases contains line (lit "tcpserver: ok") with
  | true => simp [hnone]
  | false =>
  cases strstr line (lit "tcpserver: deny") with
  | some ptr => simp [hnone, (SmtpAccounting.processDeny_cases junk ptr data).1]
  | none =>
  cases strstr line (lit "tcpserver: status: ") with
  | some ptr => simp [hnone]
  | none =>
  cases strstr line (lit "tcpserver: end ") with
  | some ptr =>
      simp only [processEnd]
      cases strstr ptr (lit "status ") <;> simp [hnone]
  | none =>
  cases strstr line (lit "uses ESMTPS") with
  | some ptr => simp [hnone]
  | none =>
  cases contains line (lit "uses SMTP") with
  | true => simp [hnone]
  | false =>
  cases strstr line (lit "qmail-smtpd: qmail-queue error message: ") with
  | some ptr => simp [hnone]
  | none =>
  cases strstr line (lit "ratelimitspp:") with
  | some ptr => simpa using errors_processRatelimitspp c ptr data.sss.ratelimitspp
  | none => simp [hnone]

/-- The errors that are waiting in a record. -/
def pendingErrors (c : RatelimitsppError) : Data → ℤ
  | .smtp data => errors c data.sss.ratelimitspp
  | _ => 0

theorem errors_zero (c : RatelimitsppError) : errors c .zero = 0 := by cases c <;> rfl

theorem values_ratelimitsppPrint (c : RatelimitsppError) (r : RatelimitsppStatistics) (time : ℕ) :
    values eventsId c.dimension (ratelimitsppPrint r time) = [errors c r] := by
  have hown : printTypePrefixId qmail (some (lit "ratelimitspp")) (some (lit "events")) =
      eventsId := rfl
  rw [values, ratelimitsppPrint, ndBeginTime, reported_block, if_pos hown]
  cases c <;> rfl

/-- The errors of `ratelimitspp`. -/
def failures (c : RatelimitsppError) : Handover interface where
  chart := eventsId
  dimension := c.dimension
  weight f line := if f = .smtp then c.weight (errorOfLine line) else 0
  record := pendingErrors c
  shared g := errors c g.aggregated.ratelimitspp
  Valid _ := True
  foreign := foreign_of_fixed (by decide) (by decide)
  process x mem d d' _ h := by
    obtain rfl := Option.some.inj h
    cases d with
    | smtp data => exact errors_processSmtp c x.junk (cstr mem) data
    | send data => rfl
    | queue data => rfl
  measure _ d := by cases d <;> rfl
  postprocess g d _ := by
    refine ⟨trivial, ?_⟩
    rw [postprocess_snd]
    cases d with
    | smtp data => cases c <;> rfl
    | send data => exact (add_zero _).symm
    | queue data => exact (add_zero _).symm
  clear d := by
    cases d with
    | smtp data => exact errors_zero c
    | send data => rfl
    | queue data => rfl
  epilogue g reading _ := by
    have hlimits (limits : SmtpStatisticsVector) (time : ℕ) :
        eventsId ∉ begun (tcpserverlimitsPrint limits time).2 := fun hmem => by
      obtain ⟨l, -, hl⟩ := List.mem_map.mp (QmailCharts.begun_tcpserverlimitsPrint hmem)
      exact eventsId_ne l hl.symm
    rw [epilogue_eq]
    dsimp only
    refine ⟨trivial, errors_zero c, ?_⟩
    rw [(ratelimitsppPrint_closed _ _).values_append, values_ratelimitsppPrint, values,
      reported_eq_nil (hlimits _ _)]
    simp

/-! ### Runs -/

section Start
variable {bufsiz : ℕ} {logs : Key → LogFile} {entries : List DirEntry} {hasQueue : Bool}
  {readings : ℕ → Timespec} {ratelimitsppTime : Timespec}

theorem handover_reported (F : Handover interface) (hn : 0 < bufsiz)
    (hshared : F.Valid ⟨⟨.zero, fun _ => []⟩, ratelimitsppTime⟩ ∧
      F.shared ⟨⟨.zero, fun _ => []⟩, ratelimitsppTime⟩ = 0)
    (hdata : F.record (.send Send.sendDataInit) = 0 ∧ F.record (.smtp smtpDataInit) = 0 ∧
      F.record (.queue Queue.queueDataInit) = 0)
    {steps : List (Step Input)} {s : System bufsiz Shared Data}
    (hr : run (exec qmailPlugin) (main bufsiz logs entries hasQueue readings ratelimitsppTime)
      steps = some s) : F.Reported s := by
  refine Handover.run_reported hn hshared (fun w hw => ?_) hr
  obtain ⟨hconsumed, hfresh, ⟨name, hname⟩ | hqueue⟩ := found_fresh hw
  · refine ⟨hconsumed, hfresh, ?_⟩
    unfold dirData at hname
    split_ifs at hname
    · rw [← Option.some.inj hname]
      exact hdata.1
    · rw [← Option.some.inj hname]
      exact hdata.2.1
  · exact ⟨hconsumed, hfresh, hqueue ▸ hdata.2.2⟩

/-- What an smtp watcher has consumed. -/
def consumed (bufsiz : ℕ) (weight : Bytes → ℤ) (w : Watch bufsiz Data) : ℤ :=
  if func w.data = .smtp then ((seen bufsiz w.bytes).map fun line => weight (cstr line)).sum else 0

theorem total_smtp {F : Handover interface} {weight : Bytes → ℤ}
    (hweight : ∀ f line, F.weight f line = if f = .smtp then weight line else 0)
    (w : Watch bufsiz Data) : F.total w = consumed bufsiz weight w := by
  have hkind : interface.kind w.data = func w.data := rfl
  simp only [Handover.total, consumed, hweight, hkind]
  by_cases h : func w.data = .smtp
  · simp only [h, if_true]
  · simp [h]

/-- What has been reported for a rule of a limit. -/
def reportedDenials (l : Limit) (name : Bytes) (out : List Command) : ℤ :=
  (values (limitChart l) name out).sum

/-- What has been reported for an error of `ratelimitspp`. -/
def reportedFailures (c : RatelimitsppError) (out : List Command) : ℤ :=
  (values eventsId c.dimension out).sum

/-- The same for the errors of `ratelimitspp`. -/
theorem failures_reported (hn : 0 < bufsiz) (c : RatelimitsppError)
    {steps : List (Step Input)} {s : System bufsiz Shared Data}
    (hr : run (exec qmailPlugin) (main bufsiz logs entries hasQueue readings ratelimitsppTime)
      steps = some s) (hrun : s.run = true) :
    reportedFailures c s.stdout + errors c s.shared.aggregated.ratelimitspp +
        (s.watches.map fun w => pendingErrors c w.data).sum =
      (s.watches.map (consumed bufsiz fun line => c.weight (errorOfLine line))).sum ∧
    ∀ reading s', exec qmailPlugin s (.finish reading none) = some s' →
      reportedFailures c s'.stdout =
        (s'.watches.map (consumed bufsiz fun line => c.weight (errorOfLine line))).sum := by
  have h := handover_reported (failures c) hn ⟨trivial, errors_zero c⟩
    ⟨rfl, errors_zero c, rfl⟩ hr
  have htotal : (failures c).total = consumed bufsiz fun line => c.weight (errorOfLine line) :=
    funext (total_smtp fun _ _ => rfl)
  refine ⟨htotal ▸ h.exact hrun, fun reading s' hs => ?_⟩
  exact htotal ▸ h.complete hrun reading s' hs

end Start

/-- Two smtp directories, a line in each, and a tick that both have reached. -/
def twoDirectories : List DirEntry :=
  [⟨lit "smtpd", true, fun _ => some 1, fun _ => true⟩,
    ⟨lit "smtps", true, fun _ => some 2, fun _ => true⟩]

def twoLines (line : Bytes) : List (Step Input) :=
  [.append (1, lit "current") line, .append (2, lit "current") line, .poll false false true,
    .turn ⟨⟨[line], fun _ => ⟨0, ⟨0, 0⟩⟩⟩, ⟨0, ⟨0, 0⟩⟩, ⟨1, 0⟩, none⟩,
    .turn ⟨⟨[line], fun _ => ⟨0, ⟨0, 0⟩⟩⟩, ⟨0, ⟨0, 0⟩⟩, ⟨1, 0⟩, none⟩]

def twoDirectoriesStart : System 8192 Shared Data :=
  main 8192 emptyLog twoDirectories false (fun _ => ⟨0, 0⟩) ⟨0, 0⟩

def deniedLine : Bytes := lit "tcpserver: deny 1 (MAXLOAD:a)" ++ [10]

theorem failures_reported_twice :
    ∃ s, run (exec qmailPlugin) twoDirectoriesStart
        (twoLines (lit "ratelimitspp: Error: x" ++ [10])) = some s ∧ s.run = true ∧
      reportedFailures .error s.stdout + errors .error s.shared.aggregated.ratelimitspp +
          (s.watches.map fun w => pendingErrors .error w.data).sum =
        (s.watches.map (consumed 8192 fun line =>
          RatelimitsppError.weight .error (errorOfLine line))).sum ∧
      ∀ reading s', exec qmailPlugin s (.finish reading none) = some s' →
        reportedFailures .error s'.stdout =
          (s'.watches.map (consumed 8192 fun line =>
            RatelimitsppError.weight .error (errorOfLine line))).sum := by
  have hrun : (run (exec qmailPlugin) twoDirectoriesStart
      (twoLines (lit "ratelimitspp: Error: x" ++ [10]))).map System.run = some true := by
    decide
  obtain ⟨s, hs, hrun⟩ := Option.map_eq_some_iff.mp hrun
  exact ⟨s, hs, hrun, failures_reported (by decide) .error hs hrun⟩

end NetdataPlugins.QmailHandover
