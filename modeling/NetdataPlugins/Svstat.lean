import Mathlib.Tactic.Ring
import NetdataPlugins.Netdata
import NetdataPlugins.Runs
import NetdataPlugins.Timer

/-!
# svstat.plugin

Every tick reads the status file of each service below the service directory
and prints three charts. The operating system decides what `chdir`, `open`,
`read` and `fchdir` do; a tick is given with these outcomes.

A SET should stand for a status that was read in the same tick. The code misses
this twice. `read` returns an `int`, and the comparison with `sizeof status`
makes an unsigned number of its −1. And the loop that clears each entry before
it is read ends at the first `fchdir` that fails, so the entries behind it keep
what an earlier tick left there.
-/
namespace NetdataPlugins.Svstat
open MemoryBlock CString Netdata Timer Runs

inductive Status where
  | success | errChdir | errOpen | errRead
  deriving DecidableEq, Repr

structure Data where
  timestamp : ℕ
  isUp : Bool
  want : UInt8
  err : Status
  deriving DecidableEq, Repr

/-- The fields after `memset`. Its zero is `SUCCESS` for `err`. -/
def Data.zero : Data := ⟨0, false, 0, .success⟩

structure Statistics where
  data : Data
  name : Bytes
  deriving DecidableEq, Repr

/-- What the system calls do for one service. `stack` is what the local array
holds before the read, and `read` the bytes that arrive, or `none` for −1. -/
structure Outcome where
  chdirFails : Bool
  openFails : Bool
  stack : Block 18
  read : Option {cs : Bytes // cs.length ≤ 18}
  fchdirFails : Bool

namespace Outcome

def ret (o : Outcome) : ℤ :=
  match o.read with
  | some cs => cs.1.length
  | none => -1

/-- The local array after the read. -/
def status (o : Outcome) : Block 18 :=
  match o.read with
  | some cs => ⟨cs.1 ++ o.stack.bytes.drop cs.1.length, by simp; omega⟩
  | none => o.stack

end Outcome

/-- `be64toh` of the first eight bytes. -/
def seconds (status : Block 18) : ℕ :=
  (status.bytes.take 8).foldl (fun n b => n * 256 + b.toNat) 0

def pid (status : Block 18) : ℕ :=
  ((status.bytes.drop 12).take 4).foldr (fun b n => b.toNat + 256 * n) 0

def want (status : Block 18) : UInt8 := status.bytes.getD 17 0

/-- An `int` that meets a `size_t` in a comparison. -/
def toSize (ret : ℤ) : ℤ := ret % 2 ^ 64

def collectUptime (statistics : Statistics) (o : Outcome) : Statistics :=
  if o.chdirFails then
    { statistics with data := { statistics.data with err := .errChdir } }
  else if o.openFails then
    { statistics with data := { statistics.data with err := .errOpen } }
  else if toSize o.ret < 18 then
    { statistics with data := { statistics.data with err := .errRead } }
  else
    { statistics with
      data := ⟨seconds o.status, pid o.status ≠ 0, want o.status, .success⟩ }

/-- The loop over the services; `outcomes i` is for the `i`-th of them. -/
def collectAll : List Statistics → (ℕ → Outcome) → List Statistics
  | [], _ => []
  | st :: rest, outcomes =>
      let st := collectUptime { st with data := Data.zero } (outcomes 0)
      if (outcomes 0).fchdirFails then st :: rest
      else st :: collectAll rest fun i => outcomes (i + 1)

def daemontools : Bytes := lit "daemontools"
def uptimeId : Bytes := lit "uptime"
def downtimeId : Bytes := lit "downtime"
def upDownId : Bytes := lit "up_down"

/-- A chart of the plugin; its id is passed as the prefix. -/
def chartId (id : Bytes) : Bytes := printTypePrefixId daemontools (some id) none

/-- A `uint64_t` where a signed number of 64 bits is expected. -/
def toLong (x : ℤ) : ℤ := (x % 2 ^ 64).bmod (2 ^ 64)

/-- `4611686018427387914ULL + time(NULL)`, kept in a `time_t`. -/
def taiNow (time : ℤ) : ℤ := toLong (4611686018427387914 + time)

/-- `now - st->data.timestamp`, unsigned, printed as a `long`. -/
def since (now : ℤ) (timestamp : ℕ) : ℤ := toLong (now - timestamp)

def uptimeSet (now : ℤ) (st : Statistics) : Option (Bytes × ℤ) :=
  if st.data.err = .success ∧ st.data.isUp then some (st.name, since now st.data.timestamp)
  else none

def downtimeSet (now : ℤ) (st : Statistics) : Option (Bytes × ℤ) :=
  if st.data.err = .success then
    some (st.name, if !st.data.isUp then since now st.data.timestamp else 0)
  else none

def upDownSet (st : Statistics) : Option (Bytes × ℤ) :=
  if st.data.err = .success then some (st.name, if st.data.isUp then 1 else 0) else none

def present (directories : List Statistics) (lastUpdate : ℕ) (now : ℤ) : List Command :=
  block (ndBeginTime daemontools (some uptimeId) none lastUpdate)
    (directories.filterMap (uptimeSet now)) ++
  block (ndBeginTime daemontools (some downtimeId) none lastUpdate)
    (directories.filterMap (downtimeSet now)) ++
  block (ndBeginTime daemontools (some upDownId) none lastUpdate)
    (directories.filterMap upDownSet)

/-- The charts announced at the start, with one dimension for each service. -/
def announce (directories : List Statistics) : List Command :=
  let dimensions := directories.map fun st =>
    ndDimension st.name (some st.name) .absolute 1 1 .visible
  [ndChart daemontools (some uptimeId) none none (some (lit "Service Uptime"))
    (some (lit "seconds")) (some daemontools) (some (lit "daemontools.uptime")) .line] ++
  dimensions ++
  [ndChart daemontools (some downtimeId) none none (some (lit "Service Downtime"))
    (some (lit "seconds")) (some daemontools) (some (lit "daemontools.downtime")) .line] ++
  dimensions ++
  [ndChart daemontools (some upDownId) none none (some (lit "Service Up/Down"))
    (some (lit "up/down")) (some daemontools) (some (lit "daemontools.up_down")) .line] ++
  dimensions

structure System where
  directories : List Statistics
  timestamp : Timespec

/-- What a tick meets: the system calls, the clock and `time()`. -/
structure Tick where
  outcomes : ℕ → Outcome
  reading : Timespec
  time : ℤ

def tick (s : System) (a : Tick) : System × List Command :=
  let directories := collectAll s.directories a.outcomes
  let (lastUpdate, timestamp) := updateTimestamp s.timestamp a.reading
  (⟨directories, timestamp⟩, present directories lastUpdate (taiNow a.time))

def exec (s : System) (a : Tick) : Option System := some (tick s a).1

def start (names : List Bytes) (timestamp : Timespec) : System :=
  ⟨names.map fun name => ⟨Data.zero, name⟩, timestamp⟩

/-! ### What the output should say -/

/-- `read` returned all 18 bytes of the status. -/
def Outcome.Full (o : Outcome) : Prop :=
  o.chdirFails = false ∧ o.openFails = false ∧ o.ret = 18

/-- `read` returned −1. -/
def Outcome.ReadFails (o : Outcome) : Prop :=
  o.chdirFails = false ∧ o.openFails = false ∧ o.ret = -1

instance (o : Outcome) : Decidable o.Full := inferInstanceAs (Decidable (_ ∧ _))

instance (o : Outcome) : Decidable o.ReadFails := inferInstanceAs (Decidable (_ ∧ _))

/-- The statuses that a tick reads in full, with the names of their services. -/
def fullReads : List Statistics → (ℕ → Outcome) → List (Bytes × Block 18)
  | [], _ => []
  | st :: rest, outcomes =>
      let later := if (outcomes 0).fchdirFails then []
        else fullReads rest fun i => outcomes (i + 1)
      if (outcomes 0).Full then (st.name, (outcomes 0).status) :: later else later

/-- One of the bytes 12 to 15 is set. -/
def Up (status : Block 18) : Prop := ∃ b ∈ (status.bytes.drop 12).take 4, b ≠ 0

instance (status : Block 18) : Decidable (Up status) := by
  unfold Up
  infer_instance

/-- `now - t` in 64 bits, with `now` the TAI label of `time`. -/
def age (time : ℤ) (status : Block 18) : ℤ :=
  (2 ^ 62 + 10 + time - seconds status).bmod (2 ^ 64)

/-- Every SET of a tick stands for a status read in full in this tick, with the
value this status gives. -/
def Reports (s : System) (a : Tick) : Prop :=
  let reads := fullReads s.directories a.outcomes
  let out := (tick s a).2
  (reported (chartId uptimeId) out).Sublist
    (reads.filterMap fun r => if Up r.2 then some (r.1, age a.time r.2) else none) ∧
  (reported (chartId downtimeId) out).Sublist
    (reads.map fun r => (r.1, if Up r.2 then 0 else age a.time r.2)) ∧
  (reported (chartId upDownId) out).Sublist
    (reads.map fun r => (r.1, if Up r.2 then 1 else 0))

/-- No `read` fails in the services up to the first failed `fchdir`, and behind
it no entry is left that says `SUCCESS`. -/
def CleanFrom : List Statistics → (ℕ → Outcome) → Prop
  | [], _ => True
  | _ :: rest, outcomes =>
      ¬ (outcomes 0).ReadFails ∧
        if (outcomes 0).fchdirFails then ∀ st ∈ rest, st.data.err ≠ .success
        else CleanFrom rest fun i => outcomes (i + 1)

def Clean (s : System) (a : Tick) : Prop := CleanFrom s.directories a.outcomes

theorem Outcome.ret_cases (o : Outcome) : o.ret = -1 ∨ (0 ≤ o.ret ∧ o.ret ≤ 18) := by
  unfold Outcome.ret
  cases o.read with
  | none => exact .inl rfl
  | some cs =>
      refine .inr ⟨by positivity, ?_⟩
      have := cs.2
      dsimp only
      omega

/-- The check lets pass a full status and the −1 of a failed `read`. -/
theorem toSize_ret (o : Outcome) : ¬ toSize o.ret < 18 ↔ o.ret = 18 ∨ o.ret = -1 := by
  unfold toSize
  rcases o.ret_cases with h | h <;> omega

theorem pid_ne_zero (status : Block 18) : pid status ≠ 0 ↔ Up status := by
  unfold pid Up
  generalize (status.bytes.drop 12).take 4 = bs
  induction bs with
  | nil => simp
  | cons b bs ih =>
      have hb : b.toNat = 0 ↔ b = 0 := by simp [UInt8.ext_iff]
      simp only [List.foldr_cons, List.mem_cons, exists_eq_or_imp, ← ih]
      rw [Ne, Ne, Ne, ← hb]
      omega

theorem toLong_eq (x : ℤ) : toLong x = x.bmod (2 ^ 64) := by
  have hcast : (2 : ℤ) ^ 64 = ((2 ^ 64 : ℕ) : ℤ) := by norm_num
  rw [toLong, hcast, Int.emod_bmod]

theorem since_taiNow (time : ℤ) (status : Block 18) :
    since (taiNow time) (seconds status) = age time status := by
  unfold since taiNow age
  rw [toLong_eq, toLong_eq, Int.bmod_sub_bmod]
  norm_num

/-- What a full status puts into the entry of its service. -/
def dataOf (status : Block 18) : Data := ⟨seconds status, pid status ≠ 0, want status, .success⟩

theorem dataOf_isUp (status : Block 18) : (dataOf status).isUp = decide (Up status) :=
  decide_eq_decide.mpr (pid_ne_zero status)

theorem dataOf_timestamp (status : Block 18) : (dataOf status).timestamp = seconds status := rfl

/-- The entries that the charts show. -/
def shown (directories : List Statistics) : List Statistics :=
  directories.filter fun st => st.data.err = .success

theorem collectUptime_success (st : Statistics) (o : Outcome) :
    (collectUptime st o).data.err = .success ↔ o.Full ∨ o.ReadFails := by
  unfold collectUptime Outcome.Full Outcome.ReadFails
  have := toSize_ret o
  cases o.chdirFails with
  | true => simp
  | false =>
      cases o.openFails with
      | true => simp
      | false =>
          by_cases hlt : toSize o.ret < 18
          · simp only [hlt, Bool.false_eq_true, if_false, if_true]
            simp only [hlt, not_true_eq_false, false_iff] at this
            simpa using this
          · simp only [hlt, Bool.false_eq_true, if_false]
            simp only [hlt, not_false_eq_true, true_iff] at this
            simpa using this

theorem collectUptime_full {st : Statistics} {o : Outcome} (h : o.Full) :
    collectUptime st o = ⟨dataOf o.status, st.name⟩ := by
  obtain ⟨hchdir, hopen, hret⟩ := h
  have hpass := (toSize_ret o).mpr (.inl hret)
  simp [collectUptime, hchdir, hopen, hpass, dataOf]

theorem shown_cons (st : Statistics) (rest : List Statistics) :
    shown (st :: rest) = if st.data.err = .success then st :: shown rest else shown rest := by
  simp [shown, List.filter_cons]

/-- One service of the loop: its entry is shown after a full read and after a
failed one. -/
theorem shown_collectAll_cons (st : Statistics) (rest : List Statistics)
    (outcomes : ℕ → Outcome) :
    shown (collectAll (st :: rest) outcomes) =
      (if (outcomes 0).Full ∨ (outcomes 0).ReadFails
        then [collectUptime { st with data := Data.zero } (outcomes 0)] else []) ++
      if (outcomes 0).fchdirFails then shown rest
      else shown (collectAll rest fun i => outcomes (i + 1)) := by
  have hsuccess := collectUptime_success { st with data := Data.zero } (outcomes 0)
  simp only [collectAll]
  split_ifs <;> simp_all [shown_cons]

theorem shown_collectAll_clean {directories : List Statistics} {outcomes : ℕ → Outcome}
    (h : CleanFrom directories outcomes) :
    shown (collectAll directories outcomes) =
      (fullReads directories outcomes).map fun r => ⟨dataOf r.2, r.1⟩ := by
  induction directories generalizing outcomes with
  | nil => rfl
  | cons st rest ih =>
      obtain ⟨hread, hrest⟩ := h
      have htail : (if (outcomes 0).fchdirFails then shown rest
          else shown (collectAll rest fun i => outcomes (i + 1))) =
          List.map (fun r => (⟨dataOf r.2, r.1⟩ : Statistics))
            (if (outcomes 0).fchdirFails then []
              else fullReads rest fun i => outcomes (i + 1)) := by
        split_ifs at hrest ⊢ with hfchdir
        · exact List.filter_eq_nil_iff.mpr fun st hst => by simpa using hrest st hst
        · exact ih hrest
      rw [shown_collectAll_cons, htail, fullReads]
      by_cases hfull : (outcomes 0).Full
      · simp [hfull, collectUptime_full hfull]
      · simp [hfull, hread]

theorem fullReads_length_le (directories : List Statistics) (outcomes : ℕ → Outcome) :
    (fullReads directories outcomes).length ≤ (shown (collectAll directories outcomes)).length := by
  induction directories generalizing outcomes with
  | nil => simp [fullReads]
  | cons st rest ih =>
      have := ih fun i => outcomes (i + 1)
      rw [shown_collectAll_cons, fullReads]
      by_cases hfull : (outcomes 0).Full <;> cases (outcomes 0).fchdirFails
      all_goals simp only [hfull, true_or, false_or, if_true, if_false, Bool.false_eq_true,
        List.length_cons, List.length_append, List.length_nil]
      all_goals omega

/-- Entries shown without a full read make the charts too long. -/
theorem clean_of_shown_le {directories : List Statistics} {outcomes : ℕ → Outcome}
    (h : (shown (collectAll directories outcomes)).length ≤
      (fullReads directories outcomes).length) : CleanFrom directories outcomes := by
  induction directories generalizing outcomes with
  | nil => trivial
  | cons st rest ih =>
      have hle := fullReads_length_le rest fun i => outcomes (i + 1)
      have hnot : (outcomes 0).ReadFails → ¬ (outcomes 0).Full := fun hr hf => by
        have h18 := hf.2.2
        rw [hr.2.2] at h18
        cases h18
      rw [shown_collectAll_cons, fullReads] at h
      have hread : ¬ (outcomes 0).ReadFails := fun hr => by
        cases hfchdir : (outcomes 0).fchdirFails with
        | true => simp [hr, hnot hr, hfchdir] at h
        | false =>
            simp [hr, hnot hr, hfchdir] at h
            omega
      simp only [hread, or_false] at h
      refine ⟨hread, ?_⟩
      split_ifs with hfchdir
      · have hnone : (shown rest).length = 0 := by
          by_cases hfull : (outcomes 0).Full <;> simpa [hfull, hfchdir] using h
        intro st hst
        have := List.filter_eq_nil_iff.mp (List.length_eq_zero_iff.mp hnone) st hst
        simpa using this
      · apply ih
        by_cases hfull : (outcomes 0).Full <;> simpa [hfull, hfchdir] using h

/-! ### The three charts of a tick -/

theorem uptime_sets (now : ℤ) (directories : List Statistics) :
    directories.filterMap (uptimeSet now) = (shown directories).filterMap fun st =>
      if st.data.isUp then some (st.name, since now st.data.timestamp) else none := by
  rw [shown, List.filterMap_filter]
  congr 1
  funext st
  by_cases h : st.data.err = .success <;> simp [uptimeSet, h]

theorem downtime_sets (now : ℤ) (directories : List Statistics) :
    directories.filterMap (downtimeSet now) = (shown directories).map fun st =>
      (st.name, if !st.data.isUp then since now st.data.timestamp else 0) := by
  rw [shown, ← List.filterMap_eq_map, List.filterMap_filter]
  congr 1
  funext st
  by_cases h : st.data.err = .success <;> simp [downtimeSet, h]

theorem upDown_sets (directories : List Statistics) :
    directories.filterMap upDownSet = (shown directories).map fun st =>
      (st.name, if st.data.isUp then 1 else 0) := by
  rw [shown, ← List.filterMap_eq_map, List.filterMap_filter]
  congr 1
  funext st
  by_cases h : st.data.err = .success <;> simp [upDownSet, h]

theorem reported_present (chart : Bytes) (directories : List Statistics) (lastUpdate : ℕ)
    (now : ℤ) :
    reported chart (present directories lastUpdate now) =
      (if chartId uptimeId = chart then directories.filterMap (uptimeSet now) else []) ++
      (if chartId downtimeId = chart then directories.filterMap (downtimeSet now) else []) ++
      (if chartId upDownId = chart then directories.filterMap upDownSet else []) := by
  unfold present ndBeginTime
  rw [((block_closed _ _ _).append (block_closed _ _ _)).reported_append,
    (block_closed _ _ _).reported_append, reported_block, reported_block, reported_block]
  rfl

/-- Every tick begins the charts announced at the start, and no others. -/
theorem begun_present (directories : List Statistics) (lastUpdate : ℕ) (now : ℤ) :
    begun (present directories lastUpdate now) = defined (announce directories) := by
  have hdimensions : defined (directories.map fun st =>
      ndDimension st.name (some st.name) .absolute 1 1 .visible) = [] := by
    simp [defined, ndDimension]
  simp only [present, announce, ndBeginTime, begun_append, begun_block, defined_append,
    hdimensions]
  rfl

theorem chartId_ne : chartId uptimeId ≠ chartId downtimeId ∧
    chartId uptimeId ≠ chartId upDownId ∧ chartId downtimeId ≠ chartId upDownId := by
  decide

/-- After a clean tick every service read in full is reported, and nothing else. -/
theorem tick_reported {s : System} {a : Tick} (h : Clean s a) :
    let reads := fullReads s.directories a.outcomes
    let out := (tick s a).2
    reported (chartId uptimeId) out =
      (reads.filterMap fun r => if Up r.2 then some (r.1, age a.time r.2) else none) ∧
    reported (chartId downtimeId) out =
      (reads.map fun r => (r.1, if Up r.2 then 0 else age a.time r.2)) ∧
    reported (chartId upDownId) out =
      (reads.map fun r => (r.1, if Up r.2 then 1 else 0)) := by
  obtain ⟨h₁, h₂, h₃⟩ := chartId_ne
  simp only [tick, reported_present, uptime_sets, downtime_sets, upDown_sets,
    shown_collectAll_clean h, h₁, h₂, h₃, h₁.symm, h₂.symm, h₃.symm, if_true, if_false,
    List.append_nil, List.nil_append, List.filterMap_map, List.map_map]
  refine ⟨?_, ?_, ?_⟩
  all_goals
    congr 1
    funext r
    by_cases hup : Up r.2
  all_goals simp [dataOf_isUp, dataOf_timestamp, since_taiNow, hup]

theorem reports_iff (s : System) (a : Tick) : Reports s a ↔ Clean s a := by
  constructor
  · rintro ⟨-, hdown, -⟩
    have hlen := hdown.length_le
    obtain ⟨h₁, -, h₃⟩ := chartId_ne
    simp only [tick, reported_present, downtime_sets, h₁, h₃.symm, if_true, if_false,
      List.append_nil, List.nil_append, List.length_map] at hlen
    exact clean_of_shown_le hlen
  · intro h
    obtain ⟨hup, hdown, hupDown⟩ := tick_reported h
    unfold Reports
    exact ⟨hup ▸ .refl _, hdown ▸ .refl _, hupDown ▸ .refl _⟩

/-- A `read` that fails after `open` succeeded. -/
def failedRead : Outcome :=
  ⟨false, false, ⟨List.replicate 18 0, by simp⟩, none, false⟩

end NetdataPlugins.Svstat
