import NetdataPlugins.LimitDimensions
import NetdataPlugins.PluginAudience
import NetdataPlugins.QmailLoop

/-!
# The collector of qmail.plugin

The charts of a directory and of the queue have fixed dimensions. The charts of
the limits are defined when their first rule is handed over, and get a dimension
for each new rule, whichever directory it comes from. As long as the plugin runs,
a strict collector takes all that is printed.
-/
namespace NetdataPlugins.QmailLoop
open MemoryBlock CString Netdata Timer FileWatch IndexedLoop LogWatch Runs Smtp Send Queue
  PluginLoop LimitVectors LimitDimensions DeclaredOnce
open QmailPlugin (Data dirData)
open LogDirectory (DirEntry)
open QmailCharts (sendIds smtpIds ids UsesSmtp)
open DeclaredOnce.Collector (Takes Stable Unheard takes_header takes_block takes_rows declared
  rowsOf nodup_rowsOf stable_knows stable_unheard declared_owned shut_of_closed Framed
  framed_flatMap)

/-! ### The charts of a watcher -/

/-- The id of a chart of a directory, as it is printed. -/
def dirChart (name id : Bytes) : Bytes := printTypePrefixId qmail (some name) (some id)

theorem dirChart_injective (name : Bytes) : Function.Injective (dirChart name) := fun a b h =>
  (chartId_inj name a b).mp (by rw [chartId_eq, chartId_eq]; exact h)

def sendRows : List (Bytes × Bytes) :=
  [([], lit "start_delivery"), ([], lit "end_msg"), (lit "delivery", lit "delivery_success"),
    (lit "delivery", lit "delivery_failure"), (lit "delivery", lit "delivery_deferral")]

def smtpRows : List (Bytes × Bytes) :=
  [([], lit "tcp_ok"), ([], lit "tcp_deny"), (lit "status", lit "tcp_status_average"),
    (lit "end_status", lit "tcp_end_status_0"), (lit "end_status", lit "tcp_end_status_256"),
    (lit "end_status", lit "tcp_end_status_25600"),
    (lit "end_status", lit "tcp_end_status_others"), (lit "smtp_type", lit "smtp"),
    (lit "smtp_type", lit "esmtps"), (lit "tls", lit "tls1"), (lit "tls", lit "tls1.1"),
    (lit "tls", lit "tls1.2"), (lit "tls", lit "tls1.3"), (lit "tls", lit "unknown")] ++
  [lit "conn_timeout", lit "comm_failed", lit "unprocess", lit "perm_reject", lit "refused",
    lit "conn_reject", lit "oom", lit "timeout", lit "read", lit "make_conn", lit "home",
    lit "create_files", lit "temp_reject", lit "internal_bug", lit "unable_exec_qq",
    lit "fulldiks", lit "read_config", lit "long_addr", lit "perm_problem", lit "temp_problem",
    lit "unknown"].map fun id => (lit "queue_err", id)

/-- The dimensions of the charts of a watcher. -/
def rows (name : Bytes) : Func → List (Bytes × Bytes)
  | .send => rowsOf (dirChart name) sendRows
  | .smtp => rowsOf (dirChart name) smtpRows
  | .queue => [(lit "qmail.queue", lit "mess"), (lit "qmail.queue", lit "todo")]

theorem declared_printHdr (name : Bytes) (data : Data) :
    declared none (data.printHdr name) = rows name (func data) := by
  cases data <;> rfl

theorem rows_nodup (name : Bytes) (f : Func) : (rows name f).Nodup := by
  cases f with
  | send => exact nodup_rowsOf (dirChart_injective name) (by decide)
  | smtp => exact nodup_rowsOf (dirChart_injective name) (by decide)
  | queue =>
      have hqueue : [(lit "qmail.queue", lit "mess"), (lit "qmail.queue", lit "todo")].Nodup := by
        decide
      exact hqueue

theorem defined_charts (name : Bytes) (data : Data) :
    ∀ chart ∈ defined (data.printHdr name), chart ∈ charts name (func data) := by
  rw [QmailCharts.defined_printHdr]
  cases data <;> exact fun _ h => h

theorem takes_printHdr (name : Bytes) (data : Data) :
    Takes (· ∈ charts name (func data)) (Unheard (· ∈ charts name (func data)))
      (data.printHdr name) fun c => c.Knows (rows name (func data)) := by
  have hheader : (data.printHdr name).all Collector.isHeader = true := by cases data <;> rfl
  have hframed : Framed (data.printHdr name) := by cases data <;> trivial
  have hnodup : (declared none (data.printHdr name)).Nodup := by
    rw [declared_printHdr]
    exact rows_nodup name _
  have htakes := takes_header hheader hframed (defined_charts name data) hnodup
  rw [declared_printHdr] at htakes
  exact htakes.mono (fun _ h => h) (fun _ h => h) fun _ h => h.1

theorem takes_printSendData (own : Bytes → Prop) (name : Bytes) (data : SendStatistics)
    (time : ℕ) :
    Takes own (fun c => c.Knows (rowsOf (dirChart name) sendRows)) (printSendData name data time)
      fun c => c.Knows (rowsOf (dirChart name) sendRows) :=
  (takes_rows [lit "start_delivery", lit "end_msg"] (by decide) _ rfl).append
    (takes_rows [lit "delivery_success", lit "delivery_failure", lit "delivery_deferral"]
      (by decide) _ rfl)

theorem takes_printSmtpData (own : Bytes → Prop) (name : Bytes) (data : SmtpStatistics)
    (time : ℕ) :
    Takes own (fun c => c.Knows (rowsOf (dirChart name) smtpRows)) (printSmtpData name data time)
      fun c => c.Knows (rowsOf (dirChart name) smtpRows) := by
  refine (((((takes_rows [lit "tcp_ok", lit "tcp_deny"] ?_ _ rfl).append
    (takes_rows [lit "tcp_status_average"] ?_ _ rfl)).append
    (takes_rows [lit "tcp_end_status_0", lit "tcp_end_status_256", lit "tcp_end_status_25600",
      lit "tcp_end_status_others"] ?_ _ rfl)).append
    (takes_rows [lit "smtp", lit "esmtps"] ?_ _ rfl)).append
    (takes_rows [lit "tls1", lit "tls1.1", lit "tls1.2", lit "tls1.3", lit "unknown"] ?_ _
      rfl)).append
    (takes_rows [lit "conn_timeout", lit "comm_failed", lit "perm_reject", lit "refused",
      lit "unprocess", lit "unknown", lit "conn_reject", lit "oom", lit "timeout", lit "read",
      lit "make_conn", lit "home", lit "create_files", lit "temp_reject", lit "internal_bug",
      lit "unable_exec_qq", lit "fulldiks", lit "read_config", lit "long_addr",
      lit "perm_problem", lit "temp_problem"] ?_ _ rfl)
  all_goals decide

theorem takes_print (name : Bytes) (data : Data) (time : ℕ) :
    Takes (· ∈ charts name (func data)) (fun c => c.Knows (rows name (func data)))
      (data.print name time) fun c => c.Knows (rows name (func data)) := by
  cases data with
  | send data => exact takes_printSendData _ name data time
  | smtp data => exact takes_printSmtpData _ name data time
  | queue data =>
      refine takes_block ⟨_, List.mem_cons_self, rfl⟩ _ fun s hs => ?_
      have hids : s.1 ∈ [lit "mess", lit "todo"] := List.mem_map_of_mem hs
      exact List.mem_map_of_mem (f := fun i => (lit "qmail.queue", i)) hids

/-! ### The shared charts -/

def ratelimitsppRows : List (Bytes × Bytes) := declared none ratelimitsppPrintHdr

theorem stable_ratelimitspp :
    Stable (· ∈ defined ratelimitsppPrintHdr) fun c => c.Knows ratelimitsppRows :=
  stable_knows (declared_owned (by simp) fun _ h => h)

theorem takes_ratelimitsppPrintHdr :
    Takes (· ∈ defined ratelimitsppPrintHdr) (Unheard (· ∈ defined ratelimitsppPrintHdr))
      ratelimitsppPrintHdr fun c => c.Knows ratelimitsppRows :=
  Takes.mono (takes_header rfl trivial (fun _ h => h) (by decide)) (fun _ h => h)
    (fun _ h => h) fun _ h => h.1

theorem takes_ratelimitsppPrint (r : RatelimitsppStatistics) (time : ℕ) :
    Takes (· ∈ defined ratelimitsppPrintHdr) (fun c => c.Knows ratelimitsppRows)
      (ratelimitsppPrint r time) fun c => c.Knows ratelimitsppRows := by
  refine takes_block ⟨_, List.mem_cons_self, rfl⟩ _ fun s hs => ?_
  have hids : s.1 ∈ [lit "conn_timeout", lit "error", lit "ratelimited"] :=
    List.mem_map_of_mem hs
  exact List.mem_map_of_mem
    (f := fun i => (printTypePrefixId qmail (some (lit "ratelimitspp")) (some (lit "events")), i))
    hids

/-- What the collector knows of the limits. -/
def Limits (limits : SmtpStatisticsVector) (c : Collector) : Prop :=
  (∀ l, (names (limits l)).Nodup) ∧ Knows (fun l => known (limits l)) c.shut

theorem stable_limits (limits : SmtpStatisticsVector) :
    Stable (· ∈ limitOrder.map limitChart) (Limits limits) := by
  intro c d hagree ⟨hnodup, hknows⟩
  have hchart (l : Limit) : limitChart l ∈ limitOrder.map limitChart :=
    List.mem_map_of_mem (by cases l <;> decide)
  exact ⟨hnodup, rfl, fun l hl => (hagree.charts _ (hchart l)).mp (hknows.chart_mem l hl),
    fun l n => (hagree.dimensions _ _ (hchart l)).symm.trans (hknows.dim_mem l n)⟩

theorem framed_printLimits (limit : List LimitT) (limitName : Bytes) (time : ℕ) :
    Framed (printLimits limit limitName time).2 := by
  rw [printLimits_snd]
  refine Framed.append ?_ (framed_flatMap (f := printNewdim limitName time) (fun _ => trivial) _)
  split_ifs
  · exact Framed.block _ _ _
  · trivial

theorem defined_tcpserverlimitsPrint {limits : SmtpStatisticsVector} {time : ℕ} {chart : Bytes}
    (h : chart ∈ defined (tcpserverlimitsPrint limits time).2) :
    chart ∈ limitOrder.map limitChart := by
  rw [tcpserverlimitsPrint, defined, List.filterMap_flatMap] at h
  obtain ⟨l, hl, h⟩ := List.mem_flatMap.mp h
  refine List.mem_map.mpr ⟨l, hl, ?_⟩
  change chart ∈ defined (printLimits (limits l) (limitName l) time).2 at h
  rw [printLimits_snd, defined_append, List.mem_append] at h
  rcases h with h | h
  · split_ifs at h
    · rw [printKnown, ndBeginTime, defined_block] at h
      cases h
    · cases h
  · rw [defined, List.filterMap_flatMap] at h
    obtain ⟨v, -, hv⟩ := List.mem_flatMap.mp h
    exact (List.mem_singleton.mp hv).symm

theorem takes_tcpserverlimitsPrint (limits : SmtpStatisticsVector) (time : ℕ) :
    Takes (· ∈ limitOrder.map limitChart) (Limits limits) (tcpserverlimitsPrint limits time).2
      (Limits (tcpserverlimitsPrint limits time).1) := by
  refine ⟨framed_flatMap (fun l => framed_printLimits _ _ _) _,
    fun chart hchart => defined_tcpserverlimitsPrint hchart, fun c hc ⟨hnodup, hknows⟩ => ?_⟩
  rw [shut_of_closed hc] at hknows
  obtain ⟨d, hd, hknows⟩ := listen_tcpserverlimitsPrint hknows hnodup time
  refine ⟨d, hd, hknows.closed, fun l => ?_, by rw [shut_of_closed hknows.closed]; exact hknows⟩
  have hnames : names ((tcpserverlimitsPrint limits time).1 l) = names (limits l) := by
    simp [tcpserverlimitsPrint_fst, names, Function.comp_def]
  exact hnames ▸ hnodup l

/-! ### The audience -/

theorem limits_apart : ∀ chart ∈ defined ratelimitsppPrintHdr,
    chart ∉ limitOrder.map limitChart := by decide

/-- What the collector knows of the shared charts. -/
def SharedKnown (limits : SmtpStatisticsVector) (c : Collector) : Prop :=
  c.Knows ratelimitsppRows ∧ Limits limits c

theorem takes_epilogue (r : RatelimitsppStatistics) (limits : SmtpStatisticsVector) (time : ℕ) :
    Takes (· ∈ sharedCharts) (SharedKnown limits)
      (ratelimitsppPrint r time ++ (tcpserverlimitsPrint limits time).2)
      (SharedKnown (tcpserverlimitsPrint limits time).1) := by
  have hfirst := (takes_ratelimitsppPrint r time).frame (stable_limits limits) limits_apart
  have hlimits := (takes_tcpserverlimitsPrint limits time).frame stable_ratelimitspp
    fun chart hchart hmem => limits_apart chart hmem hchart
  refine Takes.append (B := SharedKnown limits) (hfirst.mono ?_ (fun _ h => h) fun _ h => h)
    (hlimits.mono ?_ (fun _ h => h.symm) fun _ h => h.symm)
  · exact fun chart h => List.mem_append_left _ h
  · exact fun chart h => List.mem_append_right _ h

theorem limits_postprocess {limits : SmtpStatisticsVector} {c : Collector} (h : Limits limits c)
    (data : SmtpStatistics) (aggregated : Aggregated) (hsame : aggregated.limits = limits) :
    Limits (postprocessData data aggregated).2.limits c := by
  subst hsame
  refine ⟨fun l => nodup_postprocessLimits _ _ (h.1 l), ?_⟩
  simp only [postprocessData, known_postprocessLimits]
  exact h.2

theorem limits_clear {limits : SmtpStatisticsVector} {c : Collector} (h : Limits limits c) :
    Limits (tcpserverlimitsClear limits) c := by
  have hknown (limit : List LimitT) : known (clearLimits limit) = known limit := by
    rw [known, clearLimits, List.filter_map]
    exact names_clearLimits _
  refine ⟨fun l => (names_clearLimits _).symm ▸ h.1 l, ?_⟩
  simp only [tcpserverlimitsClear, hknown]
  exact h.2

def audience : Audience interface where
  Initial _ := True
  Ready name data c := c.Knows (rows name (func data))
  Shared shared := SharedKnown shared.aggregated.limits
  stable name data := by
    apply stable_knows
    intro r hr
    rw [← declared_printHdr] at hr
    exact declared_owned (by simp) (defined_charts name data) r hr
  stable_shared shared := by
    refine (stable_ratelimitspp.mono ?_).and ((stable_limits _).mono ?_)
    · exact fun chart h => List.mem_append_left _ h
    · exact fun chart h => List.mem_append_right _ h
  printHdr name data _ := takes_printHdr name data
  process x mem data data' name c _ h hready := by
    rw [show func data' = func data from interface.kind_process x mem data data' h]
    exact hready
  measure x data name c hready := by
    rw [show func (qmailPlugin.measure x data) = func data from interface.kind_measure x data]
    exact hready
  postprocess shared data name c hready hshared := by
    refine ⟨?_, hshared.1, ?_⟩
    · rw [show func (qmailPlugin.postprocess shared data).1 = func data from
        interface.kind_postprocess shared data]
      exact hready
    · cases data with
      | smtp data => exact limits_postprocess hshared.2 data _ rfl
      | send data => exact hshared.2
      | queue data => exact hshared.2
  print name data time := takes_print name data time
  clear data name c hready := by
    rw [show func (qmailPlugin.clear data) = func data from interface.kind_clear data]
    exact hready
  epilogue shared reading :=
    (takes_epilogue _ _ _).mono (fun _ h => h) (fun _ h => h) fun _ h => ⟨h.1, limits_clear h.2⟩

theorem takes_preamble (ratelimitsppTime : Timespec) :
    Takes (· ∈ sharedCharts) (Unheard (· ∈ sharedCharts)) qmailPlugin.preamble
      (audience.Shared ⟨⟨.zero, fun _ => []⟩, ratelimitsppTime⟩) := by
  have hframe := takes_ratelimitsppPrintHdr.frame
    (stable_unheard (· ∈ limitOrder.map limitChart)) limits_apart
  refine hframe.mono ?_ (fun c h => ⟨fun r hr hmem => ?_, fun r hr hmem => ?_⟩) fun c h => ?_
  · exact fun chart h => List.mem_append_left _ h
  · exact h r hr (List.mem_append_left _ hmem)
  · exact h r hr (List.mem_append_right _ hmem)
  · refine ⟨h.1, fun _ => List.nodup_nil, rfl, fun _ hl => absurd rfl hl, fun l n => ⟨?_, ?_⟩⟩
    · exact fun hmem => absurd (List.mem_map_of_mem (by cases l <;> decide)) (h.2 _ hmem)
    · exact fun hn => absurd hn List.not_mem_nil

/-! ### Runs -/

section Start
variable {bufsiz : ℕ} {logs : Key → LogFile} {entries : List DirEntry} {hasQueue : Bool}
  {readings : ℕ → Timespec} {ratelimitsppTime : Timespec}

theorem fills_detectLogDirs {w : Watch bufsiz Data} (h : w ∈ detectLogDirs bufsiz logs entries) :
    w.watcher.watch.dirName ∈ watchedDirs bufsiz logs entries ∧
      interface.fills w = QmailCharts.chartsOf w.watcher.watch.dirName := by
  obtain ⟨e, -, data, hdata, hprep⟩ := mem_detectLogDirs h
  refine ⟨List.mem_map_of_mem h, ?_⟩
  show charts w.watcher.watch.dirName (func w.data) = _
  rw [hprep.data, hprep.dirName, dirData_charts hdata, QmailCharts.chartsOf_eq]
  rfl

theorem found_ownCharts (hnames : (entries.map DirEntry.name).Nodup)
    (hend : ∀ dir ∈ watchedDirs bufsiz logs entries, UsesSmtp dir →
      dir ++ lit "_end" ∉ watchedDirs bufsiz logs entries) :
    interface.OwnCharts (found bufsiz logs entries hasQueue) := by
  have hsub : sharedCharts ⊆ QmailCharts.fixedCharts := by decide
  have hlogs : interface.OwnCharts (detectLogDirs bufsiz logs entries) := by
    refine Interface.ownCharts_of_nodup (watchedDirs_nodup hnames)
      (fun v hv w hw hne chart hchart hchart' => ?_) fun w hw chart hchart hmem => ?_
    · obtain ⟨hv, hfills⟩ := fills_detectLogDirs hv
      obtain ⟨hw, hfills'⟩ := fills_detectLogDirs hw
      rw [hfills] at hchart
      rw [hfills'] at hchart'
      obtain ⟨hsv, hsw, heq | heq⟩ := QmailCharts.shared_chart hne hchart hchart'
      · exact hend _ hw hsw (heq ▸ hv)
      · exact hend _ hv hsv (heq ▸ hw)
    · rw [(fills_detectLogDirs hw).2] at hchart
      exact QmailCharts.chartsOf_fixed hchart (hsub hmem)
  have hqueue (w : Watch bufsiz Data) (hw : w ∈ appendQueueWatcher bufsiz hasQueue) :
      interface.fills w = [lit "qmail.queue"] := by
    show charts _ (func w.data) = _
    rw [(mem_appendQueueWatcher hw).2.1]
    rfl
  refine ⟨?_, fun w hw => ?_⟩
  · rw [found, List.map_append, List.pairwise_append]
    refine ⟨hlogs.apart, ?_, fun l hl l' hl' chart hchart hchart' => ?_⟩
    · unfold appendQueueWatcher
      split_ifs
      · exact List.pairwise_singleton _ _
      · exact List.Pairwise.nil
    · obtain ⟨v, hv, rfl⟩ := List.mem_map.mp hl
      obtain ⟨w, hw, rfl⟩ := List.mem_map.mp hl'
      rw [(fills_detectLogDirs hv).2] at hchart
      rw [hqueue w hw, List.mem_singleton] at hchart'
      exact QmailCharts.chartsOf_fixed hchart (by rw [hchart']; decide)
  · rcases List.mem_append.mp hw with hw | hw
    · exact hlogs.epilogue w hw
    · intro chart hchart hmem
      rw [hqueue w hw, List.mem_singleton] at hchart
      exact absurd (hchart ▸ hmem) (by decide)

end Start

/-- A tick that hands over a new rule. -/
def deniedTick : List (Step Input) :=
  let line := lit "tcpserver: deny 1 (MAXLOAD:a)" ++ [10]
  [.append (1, lit "current") line, .poll false false true,
    .turn ⟨⟨[line], fun _ => ⟨0, ⟨0, 0⟩⟩⟩, ⟨0, ⟨0, 0⟩⟩, ⟨1, 0⟩, none⟩, .finish ⟨1, 0⟩ none]

end NetdataPlugins.QmailLoop
