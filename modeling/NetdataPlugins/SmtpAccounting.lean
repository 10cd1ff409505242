import NetdataPlugins.LimitVectors

/-!
# What the smtp counters add up to (smtp.c)

`process_smtp` sorts a line into at most one category and counts it there. A TLS
connection has a counter for its version too, and a denied one may have a rule.
So the versions add up to the TLS connections, the rules count at most the
denied ones, and all categories together at most the lines.
-/
namespace NetdataPlugins.SmtpAccounting
open MemoryBlock CString Smtp LimitVectors

/-- A line, with what `update_limit` finds in `limit.new`, and whether there is
memory for a new entry. -/
structure LogLine where
  text : Bytes
  junk : ℤ
  room : Bool

/-- Where `vector_add` fails, the vectors stay as long as they are. -/
def process (data : SmtpStatistics) (line : LogLine) : SmtpStatistics :=
  let after := processSmtp line.junk line.text data
  if line.room then after
  else { after with ssv := fun l => (after.ssv l).take (data.ssv l).length }

/-! ### Categories -/

inductive Category where
  | tcpOk | tcpDeny | tcpStatus
  | endStatus (s : EndStatus)
  | esmtps | smtp
  | queueErr (e : QueueErr)
  | connTimeout | error | ratelimited
  deriving DecidableEq, Repr

def value : Category → SmtpStatisticsScalar → ℤ
  | .tcpOk, sss => sss.tcpOk
  | .tcpDeny, sss => sss.tcpDeny
  | .tcpStatus, sss => sss.tcpStatusCount
  | .endStatus s, sss => sss.tcpEndStatus s
  | .esmtps, sss => sss.esmtps
  | .smtp, sss => sss.smtp
  | .queueErr e, sss => sss.queueErr e
  | .connTimeout, sss => sss.ratelimitspp.connTimeout
  | .error, sss => sss.ratelimitspp.error
  | .ratelimited, sss => sss.ratelimitspp.ratelimited

def endStatuses : List EndStatus := [.status0, .status256, .status25600, .others]

def tlsVersions : List TlsVersion := [.tls1, .tls11, .tls12, .tls13, .unknown]

def queueErrs : List QueueErr :=
  [.connTimeout, .commFailed, .permReject, .refused, .unprocess, .unknown, .connReject, .oom,
    .read, .makeConn, .home, .createFiles, .tempReject, .internalBug, .unableExecQq, .timeout,
    .fulldiks, .readConfig, .longAddr, .permProblem, .tempProblem]

def categories : List Category :=
  [.tcpOk, .tcpDeny, .tcpStatus] ++ endStatuses.map .endStatus ++ [.esmtps, .smtp] ++
    queueErrs.map .queueErr ++ [.connTimeout, .error, .ratelimited]

theorem mem_categories (c : Category) : c ∈ categories := by
  cases c with
  | endStatus s => cases s <;> decide
  | queueErr e => cases e <;> decide
  | _ => decide

theorem nodup_categories : categories.Nodup := by decide

/-- All categories, without the counters that belong to one of them. -/
def topTotal (sss : SmtpStatisticsScalar) : ℤ :=
  sss.tcpOk + sss.tcpDeny + sss.tcpStatusCount + (endStatuses.map sss.tcpEndStatus).sum +
    sss.esmtps + sss.smtp + (queueErrs.map sss.queueErr).sum +
    (sss.ratelimitspp.connTimeout + sss.ratelimitspp.error + sss.ratelimitspp.ratelimited)

def tlsTotal (sss : SmtpStatisticsScalar) : ℤ := (tlsVersions.map sss.esmtpsTls).sum

/-- The counts of a limit vector. -/
def countSum (limit : List LimitT) : ℤ := (limit.map LimitT.count).sum

def limitTotal (ssv : SmtpStatisticsVector) : ℤ :=
  countSum (ssv .maxload) + countSum (ssv .maxconnip) + countSum (ssv .maxconnrule) +
    countSum (ssv .maxconnnet)

theorem topTotal_eq (sss : SmtpStatisticsScalar) :
    topTotal sss = (categories.map fun c => value c sss).sum := by
  have hend : (fun c => value c sss) ∘ Category.endStatus = sss.tcpEndStatus := rfl
  have hqueue : (fun c => value c sss) ∘ Category.queueErr = sss.queueErr := rfl
  simp only [topTotal, categories, List.map_append, List.map_cons, List.map_nil, List.map_map,
    hend, hqueue, List.sum_append, List.sum_cons, List.sum_nil]
  simp only [value]
  omega

/-- One category goes up by one, and the TLS versions go with their connections. -/
structure Raises (k : Category) (a b : SmtpStatisticsScalar) : Prop where
  value_eq : ∀ c, value c b = value c a + if c = k then 1 else 0
  tls : b.esmtps - tlsTotal b = a.esmtps - tlsTotal a

theorem Raises.topTotal_eq {k : Category} {a b : SmtpStatisticsScalar} (h : Raises k a b) :
    topTotal b = topTotal a + 1 := by
  have hone : KeyedTally.tally id (fun _ => 1) k categories = 1 :=
    KeyedTally.tally_of_nodup (by simpa using nodup_categories) (mem_categories k)
  rw [SmtpAccounting.topTotal_eq, SmtpAccounting.topTotal_eq, ← hone, KeyedTally.tally]
  simp only [h.value_eq, List.sum_map_add, id]

/-! ### The scalars -/

section Scalars
variable (sss : SmtpStatisticsScalar)

theorem raises_tcpOk : Raises .tcpOk sss { sss with tcpOk := sss.tcpOk + 1 } :=
  ⟨fun c => by cases c <;> simp [value], rfl⟩

theorem raises_tcpDeny : Raises .tcpDeny sss { sss with tcpDeny := sss.tcpDeny + 1 } :=
  ⟨fun c => by cases c <;> simp [value], rfl⟩

theorem raises_tcpStatus (sum : ℤ) :
    Raises .tcpStatus sss
      { sss with tcpStatusSum := sum, tcpStatusCount := sss.tcpStatusCount + 1 } :=
  ⟨fun c => by cases c <;> simp [value], rfl⟩

theorem raises_endStatus (s : EndStatus) :
    Raises (.endStatus s) sss
      { sss with tcpEndStatus := Function.update sss.tcpEndStatus s (sss.tcpEndStatus s + 1) } := by
  refine ⟨fun c => ?_, rfl⟩
  cases c with
  | endStatus r => by_cases h : r = s <;> simp [value, h]
  | _ => simp [value]

theorem raises_queueErr (e : QueueErr) :
    Raises (.queueErr e) sss
      { sss with queueErr := Function.update sss.queueErr e (sss.queueErr e + 1) } := by
  refine ⟨fun c => ?_, rfl⟩
  cases c with
  | queueErr r => by_cases h : r = e <;> simp [value, h]
  | _ => simp [value]

theorem raises_smtp : Raises .smtp sss { sss with smtp := sss.smtp + 1 } :=
  ⟨fun c => by cases c <;> simp [value], rfl⟩

/-- The version goes up with the connection. -/
theorem raises_esmtps (v : TlsVersion) :
    Raises .esmtps sss
      { sss with
        esmtps := sss.esmtps + 1
        esmtpsTls := Function.update sss.esmtpsTls v (sss.esmtpsTls v + 1) } := by
  refine ⟨fun c => by cases c <;> simp [value], ?_⟩
  have htls : tlsTotal { sss with
      esmtps := sss.esmtps + 1
      esmtpsTls := Function.update sss.esmtpsTls v (sss.esmtpsTls v + 1) } = tlsTotal sss + 1 := by
    cases v <;> simp [tlsTotal, tlsVersions] <;> omega
  rw [htls]
  dsimp only
  omega

/-- The three counters of the ratelimiter, of which a line raises at most one. -/
theorem processRatelimitspp_cases (ptr : Bytes) :
    { sss with ratelimitspp := processRatelimitspp ptr sss.ratelimitspp } = sss ∨
    ∃ k ≠ Category.tcpDeny,
      Raises k sss { sss with ratelimitspp := processRatelimitspp ptr sss.ratelimitspp } := by
  unfold processRatelimitspp
  split_ifs
  · exact .inr ⟨.ratelimited, by decide, fun c => by cases c <;> simp [value], rfl⟩
  · cases strstr ptr (lit "Error:") with
    | none => exact .inl rfl
    | some ptr =>
        dsimp only
        split_ifs
        · exact .inr ⟨.connTimeout, by decide, fun c => by cases c <;> simp [value], rfl⟩
        · exact .inr ⟨.error, by decide, fun c => by cases c <;> simp [value], rfl⟩

/-- A line that is neither accepted nor denied. -/
theorem processOther_cases (line : Bytes) :
    processOther line sss = sss ∨
      ∃ k ≠ Category.tcpDeny, Raises k sss (processOther line sss) := by
  unfold processOther
  cases strstr line (lit "tcpserver: status: ") with
  | some ptr => exact .inr ⟨_, by decide, raises_tcpStatus sss _⟩
  | none =>
  cases strstr line (lit "tcpserver: end ") with
  | some ptr =>
      dsimp only [processEnd]
      cases strstr ptr (lit "status ") with
      | some ptr => exact .inr ⟨_, by simp, raises_endStatus sss _⟩
      | none => exact .inl rfl
  | none =>
  cases strstr line (lit "uses ESMTPS") with
  | some ptr => exact .inr ⟨_, by decide, raises_esmtps sss _⟩
  | none =>
  dsimp only
  split_ifs
  · exact .inr ⟨_, by decide, raises_smtp sss⟩
  cases strstr line (lit "qmail-smtpd: qmail-queue error message: ") with
  | some ptr => exact .inr ⟨_, by simp, raises_queueErr sss _⟩
  | none =>
  cases strstr line (lit "ratelimitspp:") with
  | some ptr => exact processRatelimitspp_cases sss ptr
  | none => exact .inl rfl

end Scalars

/-! ### The limits -/

theorem countSum_append (a b : List LimitT) : countSum (a ++ b) = countSum a + countSum b := by
  simp [countSum]

theorem countSum_singleton (l : LimitT) : countSum [l] = l.count := by
  simp [countSum]

/-- A denied connection raises one count, or has a new entry with one. -/
theorem countSum_updateLimit (junk : ℤ) (limits : List LimitT) (rulename : Bytes) :
    countSum (updateLimit junk limits rulename) = countSum limits + 1 := by
  induction limits using List.reverseRecOn with
  | nil => rfl
  | append_singleton limits l =>
      rw [updateLimit_concat]
      split_ifs
      · rw [countSum_append, countSum_append, countSum_singleton, countSum_singleton, add_assoc]
      · rw [countSum_append, countSum_singleton]

/-- Without memory `update_limit` counts for an old entry only. -/
theorem updateLimit_take (junk : ℤ) (limits : List LimitT) (rulename : Bytes) :
    (updateLimit junk limits rulename).take limits.length =
      match lookup (ruleKey rulename) none 0 limits with
      | some i => limits.modify i fun l => { l with count := l.count + 1 }
      | none => limits := by
  dsimp only [updateLimit]
  cases lookup (ruleKey rulename) none 0 limits with
  | some i => exact List.take_of_length_le (by simp)
  | none => exact List.take_left

theorem countSum_take (junk : ℤ) (limits : List LimitT) (rulename : Bytes) :
    countSum ((updateLimit junk limits rulename).take limits.length) ≤ countSum limits + 1 := by
  rw [← countSum_updateLimit junk limits rulename, updateLimit_take]
  dsimp only [updateLimit]
  cases lookup (ruleKey rulename) none 0 limits with
  | some i => exact le_rfl
  | none =>
      dsimp only
      rw [countSum_append, countSum_singleton]
      exact Int.le_add_one le_rfl

theorem limitTotal_update (ssv : SmtpStatisticsVector) (l : Limit) (limit : List LimitT) :
    limitTotal (Function.update ssv l limit) =
      limitTotal ssv - countSum (ssv l) + countSum limit := by
  cases l <;> simp [limitTotal] <;> omega

theorem limitTotal_clear (ssv : SmtpStatisticsVector) :
    limitTotal (fun l => clearLimits (ssv l)) = 0 := by
  have hzero (limit : List LimitT) : countSum (clearLimits limit) = 0 := by
    simp [countSum, clearLimits, Function.comp_def]
  simp [limitTotal, hzero]

/-! ### A line -/

theorem processDeny_cases (junk : ℤ) (ptr : Bytes) (data : SmtpStatistics) :
    (processDeny junk ptr data).sss = { data.sss with tcpDeny := data.sss.tcpDeny + 1 } ∧
      ((processDeny junk ptr data).ssv = data.ssv ∨ ∃ l rulename,
        (processDeny junk ptr data).ssv =
          Function.update data.ssv l (updateLimit junk (data.ssv l) rulename)) := by
  cases hopen : strstr ptr (lit "(") with
  | none => simp [processDeny, hopen]
  | some rulename =>
      cases hlimit : denyLimit rulename.tail with
      | none => simp [processDeny, hopen, hlimit]
      | some l =>
          refine ⟨by simp [processDeny, hopen, hlimit], .inr ⟨l, rulename.tail, ?_⟩⟩
          simp [processDeny, hopen, hlimit]

/-- A line counts nothing, or a category other than the denied connections, or a
denied connection, which may update a limit. -/
theorem processSmtp_cases (junk : ℤ) (line : Bytes) (data : SmtpStatistics) :
    ((processSmtp junk line data).sss = data.sss ∨
      ∃ k ≠ Category.tcpDeny, Raises k data.sss (processSmtp junk line data).sss) ∧
        (processSmtp junk line data).ssv = data.ssv ∨
    Raises .tcpDeny data.sss (processSmtp junk line data).sss ∧
      ((processSmtp junk line data).ssv = data.ssv ∨ ∃ l rulename,
        (processSmtp junk line data).ssv =
          Function.update data.ssv l (updateLimit junk (data.ssv l) rulename)) := by
  unfold processSmtp
  split_ifs
  · exact .inl ⟨.inr ⟨_, by decide, raises_tcpOk data.sss⟩, rfl⟩
  cases strstr line (lit "tcpserver: deny") with
  | none => exact .inl ⟨processOther_cases data.sss line, rfl⟩
  | some ptr =>
      obtain ⟨hsss, hssv⟩ := processDeny_cases junk ptr data
      refine .inr ⟨?_, hssv⟩
      dsimp only
      rw [hsss]
      exact raises_tcpDeny data.sss

theorem process_sss (data : SmtpStatistics) (line : LogLine) :
    (process data line).sss = (processSmtp line.junk line.text data).sss := by
  unfold process
  split_ifs <;> rfl

theorem process_ssv_same {data : SmtpStatistics} {line : LogLine}
    (h : (processSmtp line.junk line.text data).ssv = data.ssv) :
    (process data line).ssv = data.ssv := by
  dsimp only [process]
  split_ifs
  · exact h
  · simp [h]

theorem limitTotal_process {data : SmtpStatistics} {line : LogLine} {l : Limit} {rulename : Bytes}
    (h : (processSmtp line.junk line.text data).ssv =
      Function.update data.ssv l (updateLimit line.junk (data.ssv l) rulename)) :
    limitTotal (process data line).ssv ≤ limitTotal data.ssv + 1 := by
  dsimp only [process]
  split_ifs
  · rw [h, limitTotal_update, countSum_updateLimit]
    omega
  · have htake : (fun k => ((processSmtp line.junk line.text data).ssv k).take
        (data.ssv k).length) = Function.update data.ssv l
          ((updateLimit line.junk (data.ssv l) rulename).take (data.ssv l).length) := by
      funext k
      rw [h]
      by_cases hk : k = l
      · subst hk
        simp
      · simp [Function.update_of_ne hk]
    have hsum := countSum_take line.junk (data.ssv l) rulename
    dsimp only
    rw [htake, limitTotal_update]
    omega

/-! ### Runs -/

/-- The counters after some lines. -/
structure Accounts (n : ℕ) (data : SmtpStatistics) : Prop where
  tls : data.sss.esmtps = tlsTotal data.sss
  limits : limitTotal data.ssv ≤ data.sss.tcpDeny
  lines : topTotal data.sss ≤ n

theorem accounts_clear (data : SmtpStatistics) : Accounts 0 (clearSmtpData data) :=
  ⟨rfl, (limitTotal_clear data.ssv).le, le_rfl⟩

/-- A category goes up with the number of lines. -/
theorem Accounts.raises {n : ℕ} {data after : SmtpStatistics} {k : Category}
    (h : Accounts n data) (hraises : Raises k data.sss after.sss)
    (hlimits : limitTotal after.ssv ≤ after.sss.tcpDeny) : Accounts (n + 1) after := by
  have htls := h.tls
  have hlines := h.lines
  have hversions := hraises.tls
  have htop := hraises.topTotal_eq
  exact ⟨by omega, hlimits, by push_cast; omega⟩

theorem accounts_process {n : ℕ} {data : SmtpStatistics} (h : Accounts n data) (line : LogLine) :
    Accounts (n + 1) (process data line) := by
  have hlimits := h.limits
  have hlines := h.lines
  rcases processSmtp_cases line.junk line.text data with
    ⟨hsame | ⟨k, hk, hraises⟩, hssv⟩ | ⟨hraises, hssv⟩
  · rw [← process_sss] at hsame
    refine ⟨by rw [hsame, h.tls], by rwa [hsame, process_ssv_same hssv], ?_⟩
    rw [hsame]
    omega
  · rw [← process_sss] at hraises
    have hdeny := hraises.value_eq .tcpDeny
    rw [if_neg hk.symm, add_zero] at hdeny
    apply h.raises hraises
    rw [process_ssv_same hssv]
    exact hlimits.trans hdeny.ge
  · rw [← process_sss] at hraises
    have hdeny := hraises.value_eq .tcpDeny
    rw [if_pos rfl] at hdeny
    simp only [value] at hdeny
    apply h.raises hraises
    rcases hssv with hssv | ⟨l, rulename, hssv⟩
    · rw [process_ssv_same hssv]
      omega
    · have hsum := limitTotal_process hssv
      omega

theorem accounts_run (lines : List LogLine) {n : ℕ} {data : SmtpStatistics}
    (h : Accounts n data) : Accounts (n + lines.length) (lines.foldl process data) := by
  induction lines generalizing n data with
  | nil => exact h
  | cons line lines ih =>
      rw [List.foldl_cons, List.length_cons, Nat.add_comm lines.length, ← Nat.add_assoc]
      exact ih (accounts_process h line)

/-- Whatever lines come after a clear: the TLS versions add up to the connections
with TLS, the rules count at most the denied connections, and the categories at
most the lines, since every line leaves them alone or raises one of them by one. -/
theorem smtp_accounted (data : SmtpStatistics) (lines : List LogLine) :
    Accounts lines.length (lines.foldl process (clearSmtpData data)) ∧
      ∀ before line,
        (∀ c, value c (process before line).sss = value c before.sss) ∨
        ∃ k, ∀ c, value c (process before line).sss =
          value c before.sss + if c = k then 1 else 0 := by
  refine ⟨?_, fun before line => ?_⟩
  · simpa using accounts_run lines (accounts_clear data)
  · rw [process_sss]
    rcases processSmtp_cases line.junk line.text before with
      ⟨hsame | ⟨k, -, hraises⟩, -⟩ | ⟨hraises, -⟩
    · exact .inl fun c => by rw [hsame]
    · exact .inr ⟨k, hraises.value_eq⟩
    · exact .inr ⟨.tcpDeny, hraises.value_eq⟩

end NetdataPlugins.SmtpAccounting
