import NetdataPlugins.QmailCharts
import NetdataPlugins.Runs

/-!
# The time announced for the limit charts

A BEGIN line tells the collector how much time has passed since the last one of
the same chart. `print_limits` puts the whole interval of the tick on the block
of the known rules and once more on the block of each new rule, so a chart may
announce more time than has passed.
-/
namespace NetdataPlugins.LimitTiming
open MemoryBlock CString Netdata Timer Smtp QmailPlugin QmailCharts Runs
open LogDirectory (DirEntry)

def exec (s : System) (op : Op) : Option System := some (step s op)

/-- A tick announces its interval at most once for each limit. -/
def Once (s : System) : Op → Prop
  | .event _ _ => True
  | .tick t reading =>
      ∀ l, (announced (limitChart l) (tick s t reading).stdout).length ≤ 1

/-- The interval is too short to be announced, or no rule of a limit is new, or
its only rule is. -/
def FewNew (s : System) : Op → Prop
  | .event _ _ => True
  | .tick t reading => lastUpdate s reading ≤ 10000 ∨
      ∀ l, (∀ e ∈ handedOver s t l, e.new = 0) ∨ ∃ e, handedOver s t l = [e]

/-- The clock reads a time, and is not set back. -/
def ClockForward (s : System) : Op → Prop
  | .event _ _ => True
  | .tick _ reading => reading.Normal ∧ s.ratelimitsppTime.nanos ≤ reading.nanos

/-- Since the state `start` no limit chart has announced more time than passed. -/
def InTime (start s : System) : Prop :=
  ∀ l, ((announced (limitChart l) s.stdout).sum : ℤ) * 1000 ≤
    s.ratelimitsppTime.nanos - start.ratelimitsppTime.nanos

/-! ### One tick -/

theorem announced_tick (l : Limit) (s : System) (t : ℕ → Turn) (reading : Timespec) :
    announced (limitChart l) (tick s t reading).stdout =
      (if ∃ e ∈ handedOver s t l, e.new = 0 then interval (lastUpdate s reading) else []) ++
        ((handedOver s t l).filter fun e => e.new ≠ 0).flatMap fun _ =>
          interval (lastUpdate s reading) := by
  obtain ⟨before, hsilent, hout⟩ := tick_stdout l s t reading
  rw [hout, announced_append, hsilent.announced, announced_tcpserverlimitsPrint]
  rfl

/-- The blocks of a limit: one for the known rules, one for each new rule. -/
def blocks (limit : List LimitT) : ℕ :=
  (if ∃ e ∈ limit, e.new = 0 then 1 else 0) + (limit.filter fun e => e.new ≠ 0).length

theorem announced_blocks (l : Limit) (s : System) (t : ℕ → Turn) (reading : Timespec) :
    announced (limitChart l) (tick s t reading).stdout =
      (List.replicate (blocks (handedOver s t l)) (interval (lastUpdate s reading))).flatten := by
  rw [announced_tick, blocks, List.replicate_add, List.flatten_append]
  congr 1
  · split_ifs <;> simp
  · rw [List.flatMap_def, List.map_const']

theorem blocks_le_one (limit : List LimitT) :
    blocks limit ≤ 1 ↔ (∀ e ∈ limit, e.new = 0) ∨ ∃ e, limit = [e] := by
  unfold blocks
  constructor
  · intro h
    by_cases hnew : ∀ e ∈ limit, e.new = 0
    · exact .inl hnew
    · push Not at hnew
      obtain ⟨e, he, hne⟩ := hnew
      have hmem : e ∈ limit.filter fun e => e.new ≠ 0 :=
        List.mem_filter.mpr ⟨he, by simpa using hne⟩
      have hpos := List.length_pos_of_mem hmem
      have hold : ¬ ∃ e ∈ limit, e.new = 0 := fun hold => by
        rw [if_pos hold] at h
        omega
      have hall : (limit.filter fun e => e.new ≠ 0) = limit :=
        List.filter_eq_self.mpr fun x hx => by simpa using fun h0 => hold ⟨x, hx, h0⟩
      rw [if_neg hold, hall] at h
      rw [hall] at hpos
      exact .inr (List.length_eq_one_iff.mp (by omega))
  · rintro (hold | ⟨e, rfl⟩)
    · have hnone : (limit.filter fun e => e.new ≠ 0) = [] :=
        List.filter_eq_nil_iff.mpr fun e he => by simpa using hold e he
      rw [hnone]
      split_ifs <;> simp
    · by_cases he : e.new = 0 <;> simp [he]

theorem once_iff (s : System) (op : Op) : Once s op ↔ FewNew s op := by
  cases op with
  | event i lines => exact Iff.rfl
  | tick t reading =>
      simp only [Once, FewNew, announced_blocks, ← blocks_le_one, List.length_flatten,
        List.map_replicate, List.sum_replicate_nat, interval_length]
      by_cases hshort : lastUpdate s reading ≤ 10000
      · simp [hshort]
      · simp [hshort]

/-- A tick that announces its interval at most once stays within it. -/
theorem announced_sum_le {s : System} {t : ℕ → Turn} {reading : Timespec}
    (h : Once s (.tick t reading)) (l : Limit) :
    (announced (limitChart l) (tick s t reading).stdout).sum ≤ lastUpdate s reading := by
  have hlength := h l
  rw [announced_blocks] at hlength ⊢
  simp only [List.length_flatten, List.sum_flatten, List.map_replicate, List.sum_replicate_nat,
    interval_length] at hlength ⊢
  by_cases hshort : lastUpdate s reading ≤ 10000
  · simp [interval, Nat.not_lt.mpr hshort]
  · rw [if_neg hshort, mul_one] at hlength
    calc blocks (handedOver s t l) * (interval (lastUpdate s reading)).sum
        ≤ 1 * lastUpdate s reading := Nat.mul_le_mul hlength (interval_sum_le _)
      _ = lastUpdate s reading := one_mul _

/-! ### Runs -/

/-- The step announces its interval once at most, and what was announced since
`start` stays within the time that passed. -/
def Timely (start s : System) (op : Op) : Prop := Once s op ∧ InTime start (step s op)

theorem step_inTime {start s : System} {op : Op} (hin : InTime start s)
    (hnormal : s.ratelimitsppTime.Normal) (hclock : ClockForward s op) (honce : Once s op) :
    InTime start (step s op) := by
  cases op with
  | event i lines => exact hin
  | tick t reading =>
      intro l
      obtain ⟨hreading, hforward⟩ := hclock
      have hsum : ((announced (limitChart l) (tick s t reading).stdout).sum : ℤ) ≤
          lastUpdate s reading := by exact_mod_cast announced_sum_le honce l
      have helapsed := updateTimestamp_le hnormal hreading hforward
      have hbefore := hin l
      have hstdout : (step s (.tick t reading)).stdout =
          s.stdout ++ (tick s t reading).stdout := rfl
      have htime : (step s (.tick t reading)).ratelimitsppTime = reading := rfl
      rw [hstdout, htime, announced_append, List.sum_append, Nat.cast_add]
      unfold lastUpdate at hsum
      omega

theorem step_normal {s : System} {op : Op} (hnormal : s.ratelimitsppTime.Normal)
    (hclock : ClockForward s op) : (step s op).ratelimitsppTime.Normal := by
  cases op with
  | event i lines => exact hnormal
  | tick t reading => exact hclock.1

theorem along_timely_iff {start s : System} {ops : List Op} (hin : InTime start s)
    (hnormal : s.ratelimitsppTime.Normal) (hclock : Along exec ClockForward s ops) :
    Along exec (Timely start) s ops ↔ Along exec FewNew s ops := by
  induction ops generalizing s with
  | nil => exact Iff.rfl
  | cons op ops ih =>
      obtain ⟨hforward, hlater⟩ := hclock
      have hrest (h : InTime start (step s op)) :
          Along exec (Timely start) (step s op) ops ↔ Along exec FewNew (step s op) ops :=
        ih h (step_normal hnormal hforward) (hlater _ rfl)
      constructor
      · rintro ⟨⟨honce, htime⟩, hcont⟩
        refine ⟨(once_iff s op).mp honce, ?_⟩
        rintro u ⟨rfl⟩
        exact (hrest htime).mp (hcont _ rfl)
      · rintro ⟨hfew, hcont⟩
        have honce := (once_iff s op).mpr hfew
        have htime := step_inTime hin hnormal hforward honce
        refine ⟨⟨honce, htime⟩, ?_⟩
        rintro u ⟨rfl⟩
        exact (hrest htime).mpr (hcont _ rfl)

theorem start_inTime (entries : List DirEntry) (hasQueue : Bool) (readings : ℕ → Timespec)
    (ratelimitsppTime : Timespec) :
    let s := start entries hasQueue readings ratelimitsppTime
    InTime s s := by
  intro s l
  have hsilent := start_silent (limitChart l) entries hasQueue readings ratelimitsppTime
  rw [hsilent.announced]
  simp

/-- With a clock that is not set back, no limit chart ever announces an interval
twice or more time than passed since the start, exactly when in every tick with
an interval of more than 10 ms each limit has no new rule, or just one rule. -/
theorem run_timely_iff (entries : List DirEntry) (hasQueue : Bool) (readings : ℕ → Timespec)
    (ratelimitsppTime : Timespec) (hnormal : ratelimitsppTime.Normal) (ops : List Op)
    (hclock : Along exec ClockForward (start entries hasQueue readings ratelimitsppTime) ops) :
    let s := start entries hasQueue readings ratelimitsppTime
    Along exec (Timely s) s ops ↔ Along exec FewNew s ops :=
  along_timely_iff (start_inTime entries hasQueue readings ratelimitsppTime) hnormal hclock

/-- One smtp directory, and a clock that starts at zero. -/
def oneDirectory : System :=
  start [⟨lit "smtpd", true, fun _ => some 1, fun _ => true⟩] false (fun _ => ⟨0, 0⟩) ⟨0, 0⟩

/-- A tick after one second, in which these lines are read. -/
def oneTick (lines : List Bytes) : Op :=
  .tick (fun _ => ⟨lines.map fun text => ⟨text, 0⟩, ⟨0, 0⟩, ⟨1, 0⟩⟩) ⟨1, 0⟩

/-- A tick that denies one connection, and one that denies two more by the same rule. -/
def oneRule : List Op :=
  [oneTick [lit "tcpserver: deny 1 (MAXLOAD:a)"],
    .tick (fun _ => ⟨[⟨lit "tcpserver: deny 2 (MAXLOAD:a)", 0⟩,
      ⟨lit "tcpserver: deny 3 (MAXLOAD:a)", 0⟩], ⟨0, 0⟩, ⟨2, 0⟩⟩) ⟨2, 0⟩]

theorem oneRule_clock : Along exec ClockForward oneDirectory oneRule := by
  refine ⟨⟨by decide, by decide⟩, ?_⟩
  rintro u ⟨rfl⟩
  exact ⟨⟨by decide, by decide +kernel⟩, fun _ _ => trivial⟩

theorem run_timely_iff_idle :
    announced (limitChart .maxload) (after oneDirectory oneRule).stdout = [1000000, 1000000] ∧
      (Along exec (Timely oneDirectory) oneDirectory oneRule ↔
        Along exec FewNew oneDirectory oneRule) := by
  constructor
  · decide +kernel
  · exact run_timely_iff [⟨lit "smtpd", true, fun _ => some 1, fun _ => true⟩] false
      (fun _ => ⟨0, 0⟩) ⟨0, 0⟩ (by decide) oneRule oneRule_clock

/-- Two rules are new in one tick: the chart announces two seconds after one. -/
theorem two_new_rules_announce_twice :
    let op := oneTick [lit "tcpserver: deny 1 (MAXLOAD:a)", lit "tcpserver: deny 2 (MAXLOAD:b)"]
    announced (limitChart .maxload) (step oneDirectory op).stdout = [1000000, 1000000] ∧
      ¬ Along exec (Timely oneDirectory) oneDirectory [op] := by
  intro op
  have htwice : announced (limitChart .maxload) (step oneDirectory op).stdout =
      [1000000, 1000000] := by decide +kernel
  refine ⟨htwice, fun h => ?_⟩
  have htime := h.1.2 .maxload
  rw [htwice] at htime
  exact absurd htime (by decide)

end NetdataPlugins.LimitTiming
