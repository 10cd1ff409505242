import NetdataPlugins.LimitVectors
import NetdataPlugins.QmailCharts

/-!
# Every denied connection is reported once

A denied connection is counted in the record of its directory, moves to the
shared vectors when the record is postprocessed, and is printed by the same
tick. What was printed, what waits in the records and what is in the shared
vectors always add up to the lines that were handled.
-/
namespace NetdataPlugins.LimitAccounting
open MemoryBlock CString Netdata Timer Smtp QmailPlugin QmailCharts KeyedTally LimitVectors
open LogDirectory (DirEntry)

/-- The limits kept in a record. -/
def limitsOf : Data → SmtpStatisticsVector
  | .smtp data => data.ssv
  | _ => fun _ => []

/-- The lines of a directory that `process_smtp` gets to see. -/
def heard (data : Data) (lines : List Line) : List Line :=
  match data with
  | .smtp _ => lines
  | _ => []

def heardInTurns : List Watch → (ℕ → Turn) → List Line
  | [], _ => []
  | w :: watches, t => heard w.data (t 0).lines ++ heardInTurns watches fun i => t (i + 1)

def handled (s : System) : Op → List Line
  | .event i lines => ((s.watches[i]?).map fun w => heard w.data lines).getD []
  | .tick t _ => heardInTurns s.watches t

/-- The lines handled in a run. -/
def history : System → List Op → List Line
  | _, [] => []
  | s, op :: ops => handled s op ++ history (step s op) ops

/-- The lines assigned to a rule of a limit. -/
def assigned (l : Limit) (name : Bytes) (lines : List Line) : ℤ :=
  (lines.map fun line => hits l name line.text).sum

/-- A rule is known once a line was assigned to it. -/
def Known (l : Limit) (name : Bytes) (lines : List Line) : Prop :=
  ∃ line ∈ lines, denied line.text = some (l, name)

instance (l : Limit) (name : Bytes) (lines : List Line) : Decidable (Known l name lines) := by
  unfold Known
  infer_instance

theorem history_concat (s : System) (ops : List Op) (op : Op) :
    history s (ops ++ [op]) = history s ops ++ handled (after s ops) op := by
  induction ops generalizing s with
  | nil => simp [history, after]
  | cons o ops ih => simp [history, ih, after]

section Lines
variable (l : Limit) (name : Bytes)

theorem assigned_append (a b : List Line) :
    assigned l name (a ++ b) = assigned l name a + assigned l name b := by
  simp [assigned]

theorem known_append (a b : List Line) :
    Known l name (a ++ b) ↔ Known l name a ∨ Known l name b := by
  simp [Known, or_and_right, exists_or]

/-! ### One record -/

theorem limitsOf_process (line : Line) (data : Data) :
    total name (limitsOf (data.process line) l) =
        total name (limitsOf data l) + assigned l name (heard data [line]) ∧
      (name ∈ names (limitsOf (data.process line) l) ↔
        name ∈ names (limitsOf data l) ∨ Known l name (heard data [line])) ∧
      ∀ lines, heard (data.process line) lines = heard data lines := by
  cases data with
  | send d => exact ⟨by simp [limitsOf, Data.process, heard, assigned],
      by simp [limitsOf, Data.process, heard, Known], fun _ => rfl⟩
  | queue d => exact ⟨by simp [limitsOf, Data.process, heard, assigned],
      by simp [limitsOf, Data.process, heard, Known], fun _ => rfl⟩
  | smtp d =>
      refine ⟨?_, ?_, fun _ => rfl⟩
      · simp [limitsOf, Data.process, heard, assigned, total_processSmtp]
      · simp only [limitsOf, Data.process, heard, Known, List.mem_singleton, exists_eq_left]
        exact mem_names_processSmtp line.junk line.text d l name

theorem limitsOf_lines (lines : List Line) (data : Data) :
    let data' := lines.foldl (fun data line => data.process line) data
    total name (limitsOf data' l) =
        total name (limitsOf data l) + assigned l name (heard data lines) ∧
      (name ∈ names (limitsOf data' l) ↔
        name ∈ names (limitsOf data l) ∨ Known l name (heard data lines)) ∧
      ∀ more, heard data' more = heard data more := by
  induction lines generalizing data with
  | nil => cases data <;> simp [heard, assigned, Known]
  | cons line lines ih =>
      obtain ⟨htotal, hnames, hheard⟩ := limitsOf_process l name line data
      obtain ⟨ihtotal, ihnames, ihheard⟩ := ih (data.process line)
      have hcons : heard data (line :: lines) = heard data [line] ++ heard data lines := by
        cases data <;> rfl
      simp only [List.foldl_cons]
      refine ⟨?_, ?_, fun more => (ihheard more).trans (hheard more)⟩
      · rw [ihtotal, htotal, hheard, hcons, assigned_append]
        omega
      · rw [ihnames, hnames, hheard, hcons, known_append, or_assoc]

theorem limitsOf_collect (t : Turn) (data : Data) :
    total name (limitsOf (data.collect t.lines t.measured) l) =
        total name (limitsOf data l) + assigned l name (heard data t.lines) ∧
      (name ∈ names (limitsOf (data.collect t.lines t.measured) l) ↔
        name ∈ names (limitsOf data l) ∨ Known l name (heard data t.lines)) := by
  have h := limitsOf_lines l name t.lines data
  cases data with
  | send d => exact ⟨h.1, h.2.1⟩
  | smtp d => exact ⟨h.1, h.2.1⟩
  | queue d => simp [Data.collect, limitsOf, heard, assigned, Known]

end Lines

theorem limitsOf_postprocess (aggregated : Aggregated) (data : Data) (l : Limit) :
    entries (limitsOf (data.postprocess aggregated).1 l) = entries (limitsOf data l) ∧
      (data.postprocess aggregated).2.limits l =
        (postprocessLimits (aggregated.limits l) (limitsOf data l)).1 := by
  cases data with
  | send d => exact ⟨rfl, rfl⟩
  | queue d => exact ⟨rfl, rfl⟩
  | smtp d => exact ⟨entries_postprocessLimits_snd _ _, rfl⟩

theorem limitsOf_clear (data : Data) (l : Limit) :
    limitsOf data.clear l = clearLimits (limitsOf data l) := by
  cases data <;> rfl

/-! ### A tick -/

/-- What a part of a tick does to one shared vector: it adds to one tally, it
adds names, and it keeps the names distinct. -/
structure Moved (name : Bytes) (aggregated aggregated' : List LimitT) (added : ℤ) (seen : Prop) :
    Prop where
  total : total name aggregated' = total name aggregated + added
  names : name ∈ names aggregated' ↔ name ∈ names aggregated ∨ seen
  nodup : (LimitVectors.names aggregated).Nodup → (LimitVectors.names aggregated').Nodup

theorem Moved.trans {name : Bytes} {a b c : List LimitT} {m n : ℤ} {p q : Prop}
    (hab : Moved name a b m p) (hbc : Moved name b c n q) : Moved name a c (m + n) (p ∨ q) := by
  constructor
  · rw [hbc.total, hab.total, add_assoc]
  · rw [hbc.names, hab.names, or_assoc]
  · exact fun h => hbc.nodup (hab.nodup h)

theorem turn_moves (l : Limit) (name : Bytes) (aggregated : Aggregated) (w : Watch) (t : Turn) :
    Moved name (aggregated.limits l) ((turn aggregated w t).2.1.limits l)
      (total name (limitsOf w.data l) + assigned l name (heard w.data t.lines))
      (name ∈ names (limitsOf w.data l) ∨ Known l name (heard w.data t.lines)) := by
  obtain ⟨htotal, hnames⟩ := limitsOf_collect l name t w.data
  have hlimits := (limitsOf_postprocess aggregated (w.data.collect t.lines t.measured) l).2
  simp only [turn, hlimits]
  constructor
  · rw [total_postprocessLimits, htotal]
  · rw [mem_names_postprocessLimits, hnames]
  · exact nodup_postprocessLimits _ _

/-- After its turn a record has nothing left to report, and its names are known
to the shared vectors. -/
theorem turn_record (l : Limit) (name : Bytes) (aggregated : Aggregated) (w : Watch) (t : Turn) :
    total name (limitsOf (turn aggregated w t).1.data l) = 0 ∧
      (name ∈ names (limitsOf (turn aggregated w t).1.data l) →
        name ∈ names ((turn aggregated w t).2.1.limits l)) := by
  obtain ⟨hentries, hlimits⟩ :=
    limitsOf_postprocess aggregated (w.data.collect t.lines t.measured) l
  constructor
  · simp only [turn, limitsOf_clear, total_clearLimits]
  · simp only [turn, limitsOf_clear, names_clearLimits, hlimits]
    intro hmem
    rw [← entries_fst, hentries, entries_fst] at hmem
    exact (mem_names_postprocessLimits _ _ _).mpr (.inr hmem)

/-- What waits in the records for one rule. -/
def pending (l : Limit) (name : Bytes) (watches : List Watch) : ℤ :=
  (watches.map fun w => total name (limitsOf w.data l)).sum

/-- A rule that some record has an entry for. -/
def Recorded (l : Limit) (name : Bytes) (watches : List Watch) : Prop :=
  ∃ w ∈ watches, name ∈ names (limitsOf w.data l)

theorem recorded_cons (l : Limit) (name : Bytes) (w : Watch) (watches : List Watch) :
    Recorded l name (w :: watches) ↔
      name ∈ names (limitsOf w.data l) ∨ Recorded l name watches := by
  simp [Recorded]

theorem turns_spec (l : Limit) (name : Bytes) (aggregated : Aggregated) (watches : List Watch)
    (t : ℕ → Turn) :
    let r := turns aggregated watches t
    Moved name (aggregated.limits l) (r.2.1.limits l)
        (pending l name watches + assigned l name (heardInTurns watches t))
        (Recorded l name watches ∨ Known l name (heardInTurns watches t)) ∧
      pending l name r.1 = 0 ∧
      (Recorded l name r.1 → name ∈ names (r.2.1.limits l)) := by
  induction watches generalizing aggregated t with
  | nil =>
      refine ⟨⟨?_, ?_, id⟩, rfl, ?_⟩
      · simp [turns, pending, heardInTurns, assigned]
      · simp [turns, Recorded, heardInTurns, Known]
      · rintro ⟨w, hw, -⟩
        cases hw
  | cons w watches ih =>
      have hturn := turn_moves l name aggregated w (t 0)
      obtain ⟨hrecord, hknown⟩ := turn_record l name aggregated w (t 0)
      obtain ⟨hmoved, hpending, hrecorded⟩ :=
        ih (turn aggregated w (t 0)).2.1 fun i => t (i + 1)
      have hboth := hturn.trans hmoved
      refine ⟨⟨?_, ?_, hboth.nodup⟩, ?_, ?_⟩
      · apply hboth.total.trans
        simp only [pending, heardInTurns, assigned_append, List.map_cons, List.sum_cons]
        omega
      · apply hboth.names.trans
        rw [recorded_cons, heardInTurns, known_append]
        tauto
      · simpa [pending, turns, hrecord] using hpending
      · rintro ⟨v, hv, hmem⟩
        rcases List.mem_cons.mp hv with rfl | hv
        · exact hmoved.names.mpr (.inl (hknown hmem))
        · exact hrecorded ⟨v, hv, hmem⟩

/-- A dimension of a limit chart is set once if it is known, to its tally. -/
theorem values_printLimits {l : Limit} {limits : SmtpStatisticsVector} (time : ℕ) (name : Bytes)
    (h : (names (limits l)).Nodup) :
    values (limitChart l) name (tcpserverlimitsPrint limits time).2 =
      if name ∈ names (limits l) then [total name (limits l)] else [] := by
  have hperm : (printed (limits l)).Perm (entries (limits l)) := printed_perm _
  have hnames : ((printed (limits l)).map Prod.fst).Perm (names (limits l)) :=
    entries_fst (limits l) ▸ hperm.map Prod.fst
  have hcounts := counts_of_nodup Prod.snd (hnames.nodup_iff.mpr h) name
  rw [values, reported_tcpserverlimitsPrint, hcounts, total, tally_perm name hperm]
  simp only [hnames.mem_iff]

/-- After the print the shared vectors keep their names and start from zero. -/
theorem limits_after_print (l : Limit) (limits : SmtpStatisticsVector) (time : ℕ) (name : Bytes) :
    total name (tcpserverlimitsClear (tcpserverlimitsPrint limits time).1 l) = 0 ∧
      names (tcpserverlimitsClear (tcpserverlimitsPrint limits time).1 l) = names (limits l) := by
  constructor
  · exact total_clearLimits _ _
  · rw [tcpserverlimitsClear, names_clearLimits, tcpserverlimitsPrint_fst]
    simp [names]

/-- What a tick does to the state and which values it prints. -/
theorem tick_spec (l : Limit) (name : Bytes) (s : System) (t : ℕ → Turn) (reading : Timespec)
    (hnodup : (names (s.aggregated.limits l)).Nodup) :
    let s' := tick s t reading
    names (s'.aggregated.limits l) = names (handedOver s t l) ∧
      total name (s'.aggregated.limits l) = 0 ∧
      Closed s'.stdout ∧
      values (limitChart l) name s'.stdout =
        if name ∈ names (handedOver s t l) then [total name (handedOver s t l)] else [] := by
  obtain ⟨hmoved, -⟩ := turns_spec l name s.aggregated s.watches t
  obtain ⟨before, hsilent, hout⟩ := tick_stdout l s t reading
  have hprint := limits_after_print l (handedOver s t) (lastUpdate s reading) name
  have hdistinct : (names (handedOver s t l)).Nodup := hmoved.nodup hnodup
  refine ⟨hprint.2, hprint.1, ?_, ?_⟩
  · rw [hout]
    exact hsilent.1.append (tcpserverlimitsPrint_closed _ _)
  · rw [hout, hsilent.1.values_append, values_printLimits _ name hdistinct, values,
      hsilent.reported]
    rfl

/-! ### Runs -/

/-- What was printed, what waits and what was handled fit together, and a rule
is in some vector exactly when a line was assigned to it. -/
structure Accounted (l : Limit) (name : Bytes) (past : List Line) (s : System) : Prop where
  closed : Closed s.stdout
  nodup : (names (s.aggregated.limits l)).Nodup
  cleared : total name (s.aggregated.limits l) = 0
  sum : (values (limitChart l) name s.stdout).sum + pending l name s.watches =
    assigned l name past
  known : name ∈ names (s.aggregated.limits l) ∨ Recorded l name s.watches ↔ Known l name past

theorem readLines_watches (l : Limit) (name : Bytes) (watches : List Watch) (i : ℕ)
    (lines : List Line) :
    let read := ((watches[i]?).map fun w => heard w.data lines).getD []
    let watches' := watches.modify i fun w => w.readLines lines
    pending l name watches' = pending l name watches + assigned l name read ∧
      (Recorded l name watches' ↔ Recorded l name watches ∨ Known l name read) := by
  induction watches generalizing i with
  | nil => simp [pending, Recorded, assigned, Known]
  | cons w watches ih =>
      cases i with
      | zero =>
          obtain ⟨htotal, hnames, -⟩ := limitsOf_lines l name lines w.data
          constructor
          · simp only [pending, List.modify_zero_cons, List.map_cons, List.sum_cons,
              Watch.readLines, htotal, List.getElem?_cons_zero, Option.map_some, Option.getD_some]
            omega
          · simp only [List.modify_zero_cons, recorded_cons, Watch.readLines, hnames,
              List.getElem?_cons_zero, Option.map_some, Option.getD_some]
            tauto
      | succ i =>
          obtain ⟨hpending, hrecorded⟩ := ih i
          constructor
          · simp only [pending, List.modify_succ_cons, List.map_cons, List.sum_cons,
              List.getElem?_cons_succ] at hpending ⊢
            omega
          · simp only [List.modify_succ_cons, recorded_cons, List.getElem?_cons_succ, hrecorded]
            tauto

theorem event_accounted (l : Limit) (name : Bytes) {past : List Line} {s : System}
    (h : Accounted l name past s) (i : ℕ) (lines : List Line) :
    Accounted l name (past ++ handled s (.event i lines)) (step s (.event i lines)) := by
  obtain ⟨hpending, hrecorded⟩ := readLines_watches l name s.watches i lines
  refine ⟨h.closed, h.nodup, h.cleared, ?_, ?_⟩
  · rw [assigned_append, ← h.sum, handled, add_assoc, ← hpending]
    rfl
  · rw [known_append, ← h.known, or_assoc, handled, ← hrecorded]
    rfl

/-- The rules a tick prints are the known ones. -/
theorem mem_names_tick {l : Limit} {name : Bytes} {past : List Line} {s : System}
    (h : Accounted l name past s) (t : ℕ → Turn) :
    name ∈ names (handedOver s t l) ↔ Known l name (past ++ heardInTurns s.watches t) := by
  obtain ⟨hmoved, -⟩ := turns_spec l name s.aggregated s.watches t
  rw [handedOver, hmoved.names, known_append, ← h.known, or_assoc]

theorem tick_accounted (l : Limit) (name : Bytes) {past : List Line} {s : System}
    (h : Accounted l name past s) (t : ℕ → Turn) (reading : Timespec) :
    Accounted l name (past ++ handled s (.tick t reading)) (step s (.tick t reading)) := by
  obtain ⟨hmoved, hpending, hrecorded⟩ := turns_spec l name s.aggregated s.watches t
  obtain ⟨hnames, hcleared, hclosed, hvalues⟩ := tick_spec l name s t reading h.nodup
  refine ⟨h.closed.append hclosed, hnames ▸ hmoved.nodup h.nodup, hcleared, ?_, ?_⟩
  · have hprinted : (values (limitChart l) name (tick s t reading).stdout).sum =
        total name (handedOver s t l) := by
      rw [hvalues]
      split_ifs with hin
      · simp
      · simp [total_of_notMem hin]
    have hstdout : (step s (.tick t reading)).stdout = s.stdout ++ (tick s t reading).stdout := rfl
    have hnone : pending l name (step s (.tick t reading)).watches = 0 := hpending
    rw [hstdout, h.closed.values_append, List.sum_append, hprinted, hnone, handedOver,
      hmoved.total, h.cleared, assigned_append, ← h.sum, handled]
    omega
  · have hshared : (step s (.tick t reading)).aggregated = (tick s t reading).aggregated := rfl
    rw [hshared, hnames, handled, ← mem_names_tick h]
    constructor
    · rintro (hin | hin)
      · exact hin
      · exact hrecorded hin
    · exact .inl

theorem run_accounted (l : Limit) (name : Bytes) {s : System} (h : Accounted l name [] s)
    (ops : List Op) : Accounted l name (history s ops) (after s ops) := by
  induction ops using List.reverseRecOn with
  | nil => exact h
  | append_singleton ops op ih =>
      rw [history_concat, after_concat]
      cases op with
      | event i lines => exact event_accounted l name ih i lines
      | tick t reading => exact tick_accounted l name ih t reading

/-! ### From the start -/

theorem limitsOf_dirData {name : Bytes} {data : Data} (h : dirData name = some data) :
    limitsOf data = fun _ => [] := by
  unfold dirData at h
  split_ifs at h
  · cases h
    rfl
  · cases h
    rfl

theorem limitsOf_found {entries : List DirEntry} {hasQueue : Bool} {w : Bytes × Data}
    (h : w ∈ detectLogDirs entries ++ appendQueueWatcher hasQueue) :
    limitsOf w.2 = fun _ => [] := by
  rcases List.mem_append.mp h with h | h
  · exact limitsOf_dirData (mem_detectLogDirs h)
  · unfold appendQueueWatcher at h
    split_ifs at h
    · rw [List.mem_singleton.mp h]
      rfl
    · cases h

theorem start_limitsOf {entries : List DirEntry} {hasQueue : Bool} {readings : ℕ → Timespec}
    {ratelimitsppTime : Timespec} {w : Watch}
    (h : w ∈ (start entries hasQueue readings ratelimitsppTime).watches) :
    limitsOf w.data = fun _ => [] := by
  obtain ⟨i, hi, rfl⟩ := List.mem_mapIdx.mp h
  exact limitsOf_found (List.getElem_mem hi)

theorem start_accounted (l : Limit) (name : Bytes) (entries : List DirEntry) (hasQueue : Bool)
    (readings : ℕ → Timespec) (ratelimitsppTime : Timespec) :
    Accounted l name [] (start entries hasQueue readings ratelimitsppTime) := by
  have hout := start_silent (limitChart l) entries hasQueue readings ratelimitsppTime
  refine ⟨hout.1, List.nodup_nil, rfl, ?_, ?_⟩
  · have hpending : pending l name
        (start entries hasQueue readings ratelimitsppTime).watches = 0 := by
      apply List.sum_eq_zero
      intro n hn
      obtain ⟨w, hw, rfl⟩ := List.mem_map.mp hn
      rw [start_limitsOf hw]
      rfl
    rw [hpending, values, hout.reported]
    rfl
  · constructor
    · rintro (h | ⟨w, hw, hname⟩)
      · cases h
      · rw [start_limitsOf hw] at hname
        cases hname
    · rintro ⟨line, hline, -⟩
      cases hline

/-- After every tick the values printed for a rule add up to the lines assigned
to it, and the tick itself sets every known rule once, and no other. -/
theorem limits_accounted (entries : List DirEntry) (hasQueue : Bool) (readings : ℕ → Timespec)
    (ratelimitsppTime : Timespec) (ops : List Op) (t : ℕ → Turn) (reading : Timespec)
    (l : Limit) (name : Bytes) :
    let s := start entries hasQueue readings ratelimitsppTime
    let ticked := ops ++ [.tick t reading]
    (values (limitChart l) name (after s ticked).stdout).sum =
        assigned l name (history s ticked) ∧
      (values (limitChart l) name (tick (after s ops) t reading).stdout).length =
        if Known l name (history s ticked) then 1 else 0 := by
  intro s ticked
  have hbefore := run_accounted l name
    (start_accounted l name entries hasQueue readings ratelimitsppTime) ops
  have hafter := run_accounted l name
    (start_accounted l name entries hasQueue readings ratelimitsppTime) ticked
  obtain ⟨-, hpending, -⟩ := turns_spec l name (after s ops).aggregated (after s ops).watches t
  obtain ⟨-, -, -, hvalues⟩ := tick_spec l name (after s ops) t reading hbefore.nodup
  have hknown : name ∈ names (handedOver (after s ops) t l) ↔
      Known l name (history s ticked) := by
    rw [mem_names_tick hbefore t, history_concat]
    rfl
  constructor
  · have hwatches : pending l name (after s ticked).watches = 0 := by
      rw [after_concat]
      exact hpending
    rw [← hafter.sum, hwatches, add_zero]
  · rw [hvalues]
    by_cases hk : Known l name (history s ticked)
    · rw [if_pos (hknown.mpr hk), if_pos hk]
      rfl
    · rw [if_neg (mt hknown.mp hk), if_neg hk]
      rfl

end NetdataPlugins.LimitAccounting
