import NetdataPlugins.Smtp

/-!
# Output of the smtp statistics (smtp.c)

Each log directory has six charts of its own. The events of `ratelimitspp` and
the four limits of `tcpserver` are printed once, for all directories together.
The chart of a limit gets a dimension when its rule is seen for the first time.
-/
namespace NetdataPlugins.Smtp
open MemoryBlock CString Netdata

def qmail : Bytes := lit "qmail"

/-- A dimension as this file declares nearly all of them. -/
def dimension (id name : String) : Command :=
  ndDimension (lit id) (some (lit name)) .absolute 1 1 .visible

def title (text : String) (name : Bytes) : Option Bytes := some (lit text ++ name)

def printSmtpHeader (name : Bytes) : List Command :=
  [ndChart qmail (some name) (some []) (some (lit "smtpd qmail")) (title "Qmail SMTPD for " name)
      (some (lit "# smtpd connections")) (some (lit "smtpd")) (some (lit "qmail.qmail_smtpd"))
      .area,
    dimension "tcp_ok" "TCP OK",
    ndDimension (lit "tcp_deny") (some (lit "TCP Deny")) .absolute (-1) 1 .visible,
    ndChart qmail (some name) (some (lit "status")) (some (lit "smtpd statuses"))
      (title "Qmail SMTPD Open Sessions for " name) (some (lit "average # sessions"))
      (some (lit "smtpd")) (some (lit "qmail.qmail_smtpd_status")) .line,
    ndDimension (lit "tcp_status_average") (some (lit "session average")) .absolute 1
      fractionalConversion .visible,
    ndChart qmail (some name) (some (lit "end_status")) (some (lit "smtpd end statuses"))
      (title "Qmail SMTPD End Statuses for " name) (some (lit "# smtpd end statuses"))
      (some (lit "smtpd")) (some (lit "qmail.qmail_smtpd_end_status")) .line,
    dimension "tcp_end_status_0" "0", dimension "tcp_end_status_256" "256",
    dimension "tcp_end_status_25600" "25600", dimension "tcp_end_status_others" "other",
    ndChart qmail (some name) (some (lit "smtp_type")) (some (lit "smtp type"))
      (title "Qmail SMTPD smtp type for " name) (some (lit "# smtp protocols"))
      (some (lit "smtpd")) (some (lit "qmail.smtp_type")) .line,
    dimension "smtp" "SMTP", dimension "esmtps" "ESMTPS",
    ndChart qmail (some name) (some (lit "tls")) (some (lit "tls version"))
      (title "Qmail SMTPD tls connection types for " name) (some (lit "# tls versions"))
      (some (lit "smtpd")) (some (lit "qmail.qmail_smtpd_tls")) .line,
    dimension "tls1" "TLS_1", dimension "tls1.1" "TLS_1.1", dimension "tls1.2" "TLS_1.2",
    dimension "tls1.3" "TLS_1.3", dimension "unknown" "unknown",
    ndChart qmail (some name) (some (lit "queue_err")) (some [])
      (title "Qmail SMTPD qmail-queue error messages for " name) (some (lit "# queue errors"))
      (some (lit "smtpd")) (some (lit "qmail.qmail_smtpd_queue_err")) .line,
    dimension "conn_timeout" "conn_timeout", dimension "comm_failed" "comm_failed",
    dimension "unprocess" "unprocess", dimension "perm_reject" "perm_reject",
    dimension "refused" "refused", dimension "conn_reject" "conn_reject",
    dimension "oom" "oom", dimension "timeout" "timeout", dimension "read" "read",
    dimension "make_conn" "make_conn", dimension "home" "home",
    dimension "create_files" "create_files", dimension "temp_reject" "temp_reject",
    dimension "internal_bug" "internal_bug", dimension "unable_exec_qq" "unable_exec_qq",
    dimension "fulldiks" "fulldiks", dimension "read_config" "read_config",
    dimension "long_addr" "long_addr", dimension "perm_problem" "perm_problem",
    dimension "temp_problem" "temp_problem", dimension "unknown" "unknown"]

def printSmtpData (name : Bytes) (data : SmtpStatistics) (time : ℕ) : List Command :=
  let sss := data.sss
  block (ndBeginTime qmail (some name) (some []) time)
    [(lit "tcp_ok", sss.tcpOk), (lit "tcp_deny", sss.tcpDeny)] ++
  block (ndBeginTime qmail (some name) (some (lit "status")) time)
    [(lit "tcp_status_average", sss.tcpStatus)] ++
  block (ndBeginTime qmail (some name) (some (lit "end_status")) time)
    [(lit "tcp_end_status_0", sss.tcpEndStatus .status0),
      (lit "tcp_end_status_256", sss.tcpEndStatus .status256),
      (lit "tcp_end_status_25600", sss.tcpEndStatus .status25600),
      (lit "tcp_end_status_others", sss.tcpEndStatus .others)] ++
  block (ndBeginTime qmail (some name) (some (lit "smtp_type")) time)
    [(lit "smtp", sss.smtp), (lit "esmtps", sss.esmtps)] ++
  block (ndBeginTime qmail (some name) (some (lit "tls")) time)
    [(lit "tls1", sss.esmtpsTls .tls1), (lit "tls1.1", sss.esmtpsTls .tls11),
      (lit "tls1.2", sss.esmtpsTls .tls12), (lit "tls1.3", sss.esmtpsTls .tls13),
      (lit "unknown", sss.esmtpsTls .unknown)] ++
  block (ndBeginTime qmail (some name) (some (lit "queue_err")) time)
    [(lit "conn_timeout", sss.queueErr .connTimeout),
      (lit "comm_failed", sss.queueErr .commFailed),
      (lit "perm_reject", sss.queueErr .permReject), (lit "refused", sss.queueErr .refused),
      (lit "unprocess", sss.queueErr .unprocess), (lit "unknown", sss.queueErr .unknown),
      (lit "conn_reject", sss.queueErr .connReject), (lit "oom", sss.queueErr .oom),
      (lit "timeout", sss.queueErr .timeout), (lit "read", sss.queueErr .read),
      (lit "make_conn", sss.queueErr .makeConn), (lit "home", sss.queueErr .home),
      (lit "create_files", sss.queueErr .createFiles),
      (lit "temp_reject", sss.queueErr .tempReject),
      (lit "internal_bug", sss.queueErr .internalBug),
      (lit "unable_exec_qq", sss.queueErr .unableExecQq),
      (lit "fulldiks", sss.queueErr .fulldiks), (lit "read_config", sss.queueErr .readConfig),
      (lit "long_addr", sss.queueErr .longAddr),
      (lit "perm_problem", sss.queueErr .permProblem),
      (lit "temp_problem", sss.queueErr .tempProblem)]

/-! ### Shared charts -/

def ratelimitsppPrintHdr : List Command :=
  [ndChart qmail (some (lit "ratelimitspp")) (some (lit "events")) (some [])
      (some (lit "events of ratelimitspp")) (some (lit "events")) (some (lit "ratelimitspp"))
      (some (lit "ratelimitspp.events")) .line,
    dimension "conn_timeout" "conn_timeout", dimension "error" "error",
    dimension "ratelimited" "ratelimited"]

def ratelimitsppPrint (r : RatelimitsppStatistics) (time : ℕ) : List Command :=
  block (ndBeginTime qmail (some (lit "ratelimitspp")) (some (lit "events")) time)
    [(lit "conn_timeout", r.connTimeout), (lit "error", r.error),
      (lit "ratelimited", r.ratelimited)]

def tcpserverlimitsClear (limits : SmtpStatisticsVector) : SmtpStatisticsVector :=
  fun l => clearLimits (limits l)

/-- The block of one dimension that is new. -/
def printNewdim (limitName : Bytes) (time : ℕ) (l : LimitT) : List Command :=
  [ndChart qmail (some (lit "limit")) (some limitName) (some [])
      (some (lit "Qmail SMTPD " ++ limitName ++ lit " limit")) (some (lit "# reaches"))
      (some (lit "tcpserver")) (some (lit "qmail.qmail_smtpd_limits")) .line,
    ndDimension l.rulename (some l.rulename) .absolute 1 1 .visible] ++
  block (ndBeginTime qmail (some (lit "limit")) (some limitName) time) [(l.rulename, l.count)]

/-- The block of the known dimensions. -/
def printKnown (limitName : Bytes) (time : ℕ) (limit : List LimitT) : List Command :=
  block (ndBeginTime qmail (some (lit "limit")) (some limitName) time)
    (limit.filterMap fun l => if l.new ≠ 0 then none else some (l.rulename, l.count))

def printLimits (limit : List LimitT) (limitName : Bytes) (time : ℕ) :
    List LimitT × List Command :=
  let newdim := limit.filter fun l => l.new ≠ 0
  let (limit', known) :=
    if limit.length > newdim.length then
      (limit.map fun l => if l.new ≠ 0 then { l with new := 0 } else l,
        printKnown limitName time limit)
    else (limit, [])
  -- The loop over the new dimensions resets the flags when all entries are new.
  let limit'' :=
    if limit.length = newdim.length then limit'.map fun l => { l with new := 0 } else limit'
  (limit'', known ++ newdim.flatMap (printNewdim limitName time))

def limitName : Limit → Bytes
  | .maxload => lit "maxload"
  | .maxconnip => lit "maxconnip"
  | .maxconnrule => lit "maxconnrule"
  | .maxconnnet => lit "maxconnnet"

/-- The order in which `tcpserverlimits_print` goes through the limits. -/
def limitOrder : List Limit := [.maxload, .maxconnip, .maxconnrule, .maxconnnet]

def tcpserverlimitsPrint (limits : SmtpStatisticsVector) (time : ℕ) :
    SmtpStatisticsVector × List Command :=
  (fun l => (printLimits (limits l) (limitName l) time).1,
    limitOrder.flatMap fun l => (printLimits (limits l) (limitName l) time).2)

/-- The id of the chart of a limit. -/
def limitChart (l : Limit) : Bytes :=
  printTypePrefixId qmail (some (lit "limit")) (some (limitName l))

theorem limitChart_injective : Function.Injective limitChart := by
  intro a b
  cases a <;> cases b <;> decide

/-! ### What `print_limits` does -/

theorem filter_new_length (limit : List LimitT) :
    limit.length > (limit.filter fun l => l.new ≠ 0).length ↔ ∃ l ∈ limit, l.new = 0 := by
  have hle := limit.length_filter_le fun l => l.new ≠ 0
  have hall := List.length_filter_eq_length_iff (p := fun l : LimitT => l.new ≠ 0) (l := limit)
  constructor
  · intro hlt
    by_contra hno
    push Not at hno
    have := hall.mpr (by simpa using hno)
    omega
  · rintro ⟨l, hl, hold⟩
    by_contra hge
    have := hall.mp (by omega) l hl
    simp [hold] at this

/-- After a print no entry is new, and nothing else has changed. -/
theorem printLimits_fst (limit : List LimitT) (name : Bytes) (time : ℕ) :
    (printLimits limit name time).1 = limit.map fun l => { l with new := 0 } := by
  have hle := limit.length_filter_le fun l => l.new ≠ 0
  simp only [printLimits]
  by_cases hsome : limit.length > (limit.filter fun l => l.new ≠ 0).length
  · rw [if_pos hsome, if_neg (by omega)]
    apply List.map_congr_left
    rintro ⟨count, rulename, new⟩ _
    by_cases hnew : new = 0 <;> simp [hnew]
  · rw [if_neg hsome, if_pos (by omega)]

theorem printLimits_snd (limit : List LimitT) (name : Bytes) (time : ℕ) :
    (printLimits limit name time).2 =
      (if ∃ l ∈ limit, l.new = 0 then printKnown name time limit else []) ++
        (limit.filter fun l => l.new ≠ 0).flatMap (printNewdim name time) := by
  simp only [printLimits, filter_new_length]
  split_ifs <;> rfl

/-- The dimensions of a print with their counts: the known ones, then the new. -/
def printed (limit : List LimitT) : List (Bytes × ℤ) :=
  ((limit.filter fun l => l.new = 0) ++ limit.filter fun l => l.new ≠ 0).map fun l =>
    (l.rulename, l.count)

theorem printed_perm (limit : List LimitT) :
    (printed limit).Perm (limit.map fun l => (l.rulename, l.count)) := by
  unfold printed
  apply List.Perm.map
  have := List.filter_append_perm (fun l : LimitT => decide (l.new = 0)) limit
  simpa using this

theorem known_sets (limit : List LimitT) :
    (limit.filterMap fun l => if l.new ≠ 0 then none else some (l.rulename, l.count)) =
      (limit.filter fun l => l.new = 0).map fun l => (l.rulename, l.count) := by
  rw [← List.filterMap_eq_map, List.filterMap_filter]
  congr 1
  funext l
  by_cases h : l.new = 0 <;> simp [h]

section Output
variable (limit : List LimitT) (name chart : Bytes) (time : ℕ)

/-- The id that `print_limits` puts on its blocks. -/
def limitId (name : Bytes) : Bytes := printTypePrefixId qmail (some (lit "limit")) (some name)

theorem printNewdim_closed (l : LimitT) : Closed (printNewdim name time l) :=
  Closed.append rfl (block_closed _ _ _)

theorem printKnown_closed : Closed (printKnown name time limit) := block_closed _ _ _

theorem printLimits_closed : Closed (printLimits limit name time).2 := by
  rw [printLimits_snd]
  apply Closed.append
  · split_ifs
    · exact printKnown_closed limit name time
    · exact closed_nil
  · exact closed_flatMap _ (printNewdim_closed name time)

theorem reported_printNewdim (l : LimitT) :
    reported chart (printNewdim name time l) =
      if limitId name = chart then [(l.rulename, l.count)] else [] := by
  have hblock : reported chart (printNewdim name time l) = reported chart
      (block (ndBeginTime qmail (some (lit "limit")) (some name) time)
        [(l.rulename, l.count)]) := rfl
  rw [hblock, ndBeginTime, reported_block]
  rfl

theorem reported_printKnown :
    reported chart (printKnown name time limit) =
      if limitId name = chart then
        (limit.filter fun l => l.new = 0).map fun l => (l.rulename, l.count)
      else [] := by
  rw [printKnown, known_sets, ndBeginTime, reported_block]
  rfl

/-- In its chart a print reports every entry, and in another chart nothing. -/
theorem reported_printLimits :
    reported chart (printLimits limit name time).2 =
      if limitId name = chart then printed limit else [] := by
  have hknown : reported chart (if ∃ l ∈ limit, l.new = 0 then printKnown name time limit
      else []) = reported chart (printKnown name time limit) := by
    split_ifs with hsome
    · rfl
    · have hnone : (limit.filter fun l => l.new = 0) = [] :=
        List.filter_eq_nil_iff.mpr fun l hl => by
          simpa using fun h0 => hsome ⟨l, hl, h0⟩
      rw [reported_printKnown, hnone]
      simp [reported, collect]
  have hclosed : Closed (if ∃ l ∈ limit, l.new = 0 then printKnown name time limit else []) := by
    split_ifs
    · exact printKnown_closed limit name time
    · exact closed_nil
  rw [printLimits_snd, hclosed.reported_append, hknown, reported_printKnown,
    reported_flatMap _ (printNewdim_closed name time)]
  simp only [reported_printNewdim]
  split_ifs
  · simp [printed, List.map_eq_flatMap]
  · simp

/-- The interval that a BEGIN line announces. -/
def interval (time : ℕ) : List ℕ := if time > 10000 then [time] else []

theorem interval_length (time : ℕ) :
    (interval time).length = if time ≤ 10000 then 0 else 1 := by
  unfold interval
  split_ifs <;> first | rfl | omega

theorem interval_sum_le (time : ℕ) : (interval time).sum ≤ time := by
  unfold interval
  split_ifs <;> simp

theorem announced_printNewdim (l : LimitT) :
    announced chart (printNewdim name time l) =
      if limitId name = chart then interval time else [] := by
  have hblock : announced chart (printNewdim name time l) = announced chart
      (block (ndBeginTime qmail (some (lit "limit")) (some name) time)
        [(l.rulename, l.count)]) := rfl
  rw [hblock, ndBeginTime, announced_block, interval]
  by_cases htime : time > 10000 <;> simp [htime, limitId]

theorem announced_printKnown :
    announced chart (printKnown name time limit) =
      if limitId name = chart then interval time else [] := by
  rw [printKnown, ndBeginTime, announced_block, interval]
  by_cases htime : time > 10000 <;> simp [htime, limitId]

/-- The interval is announced once for all the known dimensions, and once more
for each new one. -/
theorem announced_printLimits :
    announced chart (printLimits limit name time).2 =
      if limitId name = chart then
        (if ∃ l ∈ limit, l.new = 0 then interval time else []) ++
          (limit.filter fun l => l.new ≠ 0).flatMap fun _ => interval time
      else [] := by
  rw [printLimits_snd, announced_append, announced_flatMap]
  simp only [announced_printNewdim, apply_ite (announced chart), announced_printKnown]
  by_cases hchart : limitId name = chart
  · simp [hchart, announced]
  · simp [hchart, announced]

end Output

/-! ### The four limits -/

section Limits
variable (limits : SmtpStatisticsVector) (time : ℕ) (l : Limit)

theorem tcpserverlimitsPrint_fst :
    (tcpserverlimitsPrint limits time).1 l = (limits l).map fun e => { e with new := 0 } :=
  printLimits_fst (limits l) (limitName l) time

theorem tcpserverlimitsPrint_closed : Closed (tcpserverlimitsPrint limits time).2 :=
  closed_flatMap _ fun _ => printLimits_closed _ _ _

/-- The chart of a limit shows the vector of this limit. -/
theorem reported_tcpserverlimitsPrint :
    reported (limitChart l) (tcpserverlimitsPrint limits time).2 = printed (limits l) := by
  have hpart (k : Limit) :
      reported (limitChart l) (printLimits (limits k) (limitName k) time).2 =
        if k = l then printed (limits k) else [] := by
    rw [reported_printLimits]
    exact if_congr limitChart_injective.eq_iff rfl rfl
  rw [tcpserverlimitsPrint, reported_flatMap _ fun k => printLimits_closed _ _ _]
  simp only [hpart]
  cases l <;> simp [limitOrder]

theorem announced_tcpserverlimitsPrint :
    announced (limitChart l) (tcpserverlimitsPrint limits time).2 =
      (if ∃ e ∈ limits l, e.new = 0 then interval time else []) ++
        ((limits l).filter fun e => e.new ≠ 0).flatMap fun _ => interval time := by
  have hpart (k : Limit) :
      announced (limitChart l) (printLimits (limits k) (limitName k) time).2 =
        if k = l then (if ∃ e ∈ limits k, e.new = 0 then interval time else []) ++
          ((limits k).filter fun e => e.new ≠ 0).flatMap fun _ => interval time else [] := by
    rw [announced_printLimits]
    exact if_congr limitChart_injective.eq_iff rfl rfl
  rw [tcpserverlimitsPrint, announced_flatMap]
  simp only [hpart]
  cases l <;> simp [limitOrder]

end Limits

end NetdataPlugins.Smtp
