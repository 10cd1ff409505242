import NetdataPlugins.ParserPlugin

/-!
# The inotify queue as bytes (fs.c)

A `read` from the inotify descriptor gives some records, one behind the other.
`process_fs_event_queue` steps from one to the next by the lengths of the names,
which the kernel pads. However the kernel fills the records and groups them into
reads, the watchers end up as in the main loop that takes one event at a time.
-/
namespace NetdataPlugins.InotifyQueue
open MemoryBlock CString FileWatch IndexedLoop LogWatch Runs PluginLoop

/-! ### Numbers in memory -/

def littleEndian (bytes : Bytes) : ℕ := bytes.foldr (fun b n => b.toNat + 256 * n) 0

/-- The lowest `k` bytes of a number. -/
def toBytes : ℕ → ℕ → Bytes
  | 0, _ => []
  | k + 1, n => UInt8.ofNat n :: toBytes k (n / 256)

@[simp] theorem toBytes_length (k n : ℕ) : (toBytes k n).length = k := by
  induction k generalizing n with
  | zero => rfl
  | succ k ih => simp [toBytes, ih]

theorem littleEndian_toBytes (k n : ℕ) : littleEndian (toBytes k n) = n % 256 ^ k := by
  induction k generalizing n with
  | zero => simp [toBytes, littleEndian, Nat.mod_one]
  | succ k ih =>
      have hfirst : (UInt8.ofNat n).toNat = n % 256 := rfl
      have hrest : littleEndian (toBytes (k + 1) n) =
          (UInt8.ofNat n).toNat + 256 * littleEndian (toBytes k (n / 256)) := rfl
      rw [hrest, ih, hfirst, pow_succ', Nat.mod_mul]

/-- The value of an `int` with these bits. -/
def toInt (n : ℕ) : ℤ := (n : ℤ).bmod (2 ^ 32)

theorem toInt_mod {z : ℤ} (h : -2 ^ 31 ≤ z ∧ z < 2 ^ 31) :
    toInt ((z % 2 ^ 32).toNat % 256 ^ 4) = z := by
  have hcast : (((z % 2 ^ 32).toNat % 256 ^ 4 : ℕ) : ℤ) = z % 2 ^ 32 := by omega
  have hmod : (z % 2 ^ 32).bmod (2 ^ 32) = z.bmod (2 ^ 32) := Int.emod_bmod z (2 ^ 32)
  have hrange : z.bmod (2 ^ 32) = z := Int.bmod_eq_of_le_mul_two (by omega) (by omega)
  unfold toInt
  rw [hcast]
  exact hmod.trans hrange

/-! ### The buffer -/

variable {bufsiz : ℕ} {σ : Type}

def eventSize : ℕ := 16

/-- The record at `ptr`; `strcmp` looks at its name only if it has one. -/
def eventAt (buf : Block bufsiz) (ptr : ℕ) : Option InotifyEvent := do
  let wd ← buf.slice ptr 4
  let len ← buf.slice (ptr + 12) 4
  let name := buf.bytes.drop (ptr + eventSize)
  if littleEndian len = 0 then pure ⟨toInt (littleEndian wd), 0, []⟩
  else if 0 ∈ name then pure ⟨toInt (littleEndian wd), littleEndian len, cstr name⟩
  else none

/-- The loop over `ptr`, up to the end of what was read. -/
def processBuffer (processFsEvent : InotifyEvent → σ → Option σ) (buf : Block bufsiz)
    (len ptr : ℕ) (s : σ) : Option σ :=
  if ptr < len then do
    let event ← eventAt buf ptr
    let s ← processFsEvent event s
    processBuffer processFsEvent buf len (ptr + eventSize + event.len) s
  else pure s
termination_by len - ptr
decreasing_by
  have : 0 < eventSize := Nat.succ_pos _
  omega

/-- `reads` are the results of `read`, up to the one that finds the queue empty. -/
def processFsEventQueue (processFsEvent : InotifyEvent → σ → Option σ) :
    Block bufsiz → List Bytes → σ → Option σ
  | _, [], s => pure s
  | buf, data :: reads, s => do
      let buf ← buf.fill 0 data
      let s ← processBuffer processFsEvent buf data.length 0 s
      processFsEventQueue processFsEvent buf reads s

theorem slice_middle {buf : Block bufsiz} {a b c : Bytes} {off len : ℕ} (hlen : b.length = len)
    (hoff : a.length = off) (h : buf.bytes = a ++ (b ++ c)) : buf.slice off len = some b := by
  subst hlen hoff
  have hbuf := buf.length_eq
  rw [h, List.length_append, List.length_append] at hbuf
  rw [buf.slice_eq_some (by omega), h, List.drop_left, List.take_left]

/-! ### What the kernel writes -/

/-- The name ends with a NUL, and may have more behind it. -/
structure Record where
  wd : ℤ
  mask : ℕ
  cookie : ℕ
  name : Bytes
  wd_range : -2 ^ 31 ≤ wd ∧ wd < 2 ^ 31
  name_length : name.length < 2 ^ 32
  terminated : name = [] ∨ 0 ∈ name

namespace Record

def bytes (r : Record) : Bytes :=
  toBytes 4 (r.wd % 2 ^ 32).toNat ++ toBytes 4 r.mask ++ toBytes 4 r.cookie ++
    toBytes 4 r.name.length ++ r.name

def event (r : Record) : InotifyEvent := ⟨r.wd, r.name.length, cstr r.name⟩

theorem bytes_length (r : Record) : r.bytes.length = eventSize + r.name.length := by
  simp only [bytes, List.length_append, toBytes_length, eventSize]

/-- The record is read back wherever it stands. -/
theorem eventAt_bytes (r : Record) {buf : Block bufsiz} {before after : Bytes}
    (h : buf.bytes = before ++ (r.bytes ++ after)) :
    eventAt buf before.length = some r.event := by
  have hwd : buf.slice before.length 4 = some (toBytes 4 (r.wd % 2 ^ 32).toNat) := by
    refine slice_middle (c := toBytes 4 r.mask ++ (toBytes 4 r.cookie ++
      (toBytes 4 r.name.length ++ (r.name ++ after)))) (toBytes_length _ _) rfl ?_
    simp only [h, bytes, List.append_assoc]
  have hlen : buf.slice (before.length + 12) 4 = some (toBytes 4 r.name.length) := by
    refine slice_middle (a := before ++ (toBytes 4 (r.wd % 2 ^ 32).toNat ++
      (toBytes 4 r.mask ++ toBytes 4 r.cookie))) (c := r.name ++ after) (toBytes_length _ _) ?_ ?_
    · simp
    · simp only [h, bytes, List.append_assoc]
  have hname : buf.bytes.drop (before.length + eventSize) = r.name ++ after := by
    have hsplit : buf.bytes = (before ++ (toBytes 4 (r.wd % 2 ^ 32).toNat ++ (toBytes 4 r.mask ++
        (toBytes 4 r.cookie ++ toBytes 4 r.name.length)))) ++ (r.name ++ after) := by
      simp only [h, bytes, List.append_assoc]
    rw [hsplit]
    exact List.drop_left' (by simp [eventSize])
  have hsize : littleEndian (toBytes 4 r.name.length) = r.name.length := by
    have hlength := r.name_length
    rw [littleEndian_toBytes, Nat.mod_eq_of_lt (by omega)]
  simp only [eventAt, hwd, hlen, hname, Option.bind_eq_bind, Option.bind_some, hsize,
    littleEndian_toBytes 4 (r.wd % 2 ^ 32).toNat, toInt_mod r.wd_range]
  rcases r.terminated with hnil | hnul
  · simp [event, hnil, cstr]
  · have hsome : r.name.length ≠ 0 := (List.length_pos_of_mem hnul).ne'
    obtain ⟨s, junk, hsplit, hs⟩ := List.eq_append_cons_of_mem hnul
    have hcstr : cstr (r.name ++ after) = cstr r.name := by
      rw [hsplit, List.append_assoc, List.cons_append, cstr_append_nul _ _ hs,
        cstr_append_nul _ _ hs]
    rw [if_neg hsome, if_pos (List.mem_append_left _ hnul), hcstr]
    rfl

end Record

/-! ### Reading the records -/

section Reading
variable (processFsEvent : InotifyEvent → σ → Option σ)

theorem processBuffer_records {buf : Block bufsiz} {before after : Bytes} {rs : List Record}
    (h : buf.bytes = before ++ (rs.flatMap Record.bytes ++ after)) (s : σ) :
    processBuffer processFsEvent buf (before.length + (rs.flatMap Record.bytes).length)
        before.length s =
      (rs.map Record.event).foldlM (fun s e => processFsEvent e s) s := by
  induction rs generalizing before s with
  | nil =>
      rw [processBuffer, List.flatMap_nil, List.length_nil, if_neg (by omega)]
      rfl
  | cons r rs ih =>
      have hlen := r.bytes_length
      have hfirst : buf.bytes = before ++ (r.bytes ++ (rs.flatMap Record.bytes ++ after)) := by
        rw [h, List.flatMap_cons, List.append_assoc]
      have hrest : buf.bytes = (before ++ r.bytes) ++ (rs.flatMap Record.bytes ++ after) := by
        rw [hfirst, List.append_assoc]
      have hnext : before.length + eventSize + r.event.len = (before ++ r.bytes).length := by
        rw [List.length_append, hlen]
        exact Nat.add_assoc _ _ _
      have hend : before.length + ((r :: rs).flatMap Record.bytes).length =
          (before ++ r.bytes).length + (rs.flatMap Record.bytes).length := by
        rw [List.flatMap_cons, List.length_append, List.length_append, Nat.add_assoc]
      rw [processBuffer, if_pos (by simp [hlen, eventSize]), r.eventAt_bytes hfirst, hend]
      simp only [Option.bind_eq_bind, Option.bind_some, hnext, ih hrest, List.map_cons,
        List.foldlM_cons]

/-- However the records are grouped into reads that fit the buffer, each of them
is processed once, in order. -/
theorem processFsEventQueue_records {reads : List (List Record)}
    (hfit : ∀ rs ∈ reads, (rs.flatMap Record.bytes).length ≤ bufsiz) (buf : Block bufsiz) (s : σ) :
    processFsEventQueue processFsEvent buf (reads.map fun rs => rs.flatMap Record.bytes) s =
      (reads.flatten.map Record.event).foldlM (fun s e => processFsEvent e s) s := by
  induction reads generalizing buf s with
  | nil => rfl
  | cons rs reads ih =>
      have hsize : (rs.flatMap Record.bytes).length ≤ bufsiz := hfit rs (by simp)
      have hroom : 0 + (rs.flatMap Record.bytes).length ≤ bufsiz := by simpa using hsize
      obtain ⟨buf', hbuf, hbytes⟩ := buf.fill_eq_some hroom
      have hstart : buf'.bytes = [] ++ (rs.flatMap Record.bytes ++ buf.bytes.drop
          (0 + (rs.flatMap Record.bytes).length)) := by
        rw [hbytes, List.take_zero, List.append_assoc]
      have hread (s : σ) := processBuffer_records processFsEvent hstart s
      simp only [List.length_nil, Nat.zero_add] at hread
      have hrest := ih fun rs hrs => hfit rs (List.mem_cons_of_mem _ hrs)
      simp only [List.map_cons, processFsEventQueue, hbuf, Option.bind_eq_bind, Option.bind_some,
        hread, hrest, List.flatten_cons, List.map_append, List.foldlM_append]

end Reading

/-! ### The main loop -/

section Loop
variable {ι γ δ : Type}

/-- What a call of `process_fs_event` meets. -/
structure Call (ι : Type) where
  logs : Key → LogFile
  answers : ℕ → Answers ι

/-- `process_fs_event`; the first list has what the calls meet. -/
def processFsEvent (P : Plugin ι γ δ) (event : InotifyEvent) :
    List (Call ι) × List (Watch bufsiz δ) → Option (List (Call ι) × List (Watch bufsiz δ))
  | (call :: calls, ws) => do
      let ws ← forEach
        (fun i w => w.processFsEvent P event (call.logs w.key) (call.answers i)) 0 ws
      pure (calls, ws)
  | ([], _) => none

/-- The steps that come between a poll and the end of the queue. -/
def Draining : Step ι → Prop
  | .append _ _ => True
  | .rotate _ => True
  | .event _ => True
  | _ => False

/-- What the calls meet in a run, in which the writers go on. -/
def calls : (Key → LogFile) → List (Step ι) → List (Call ι)
  | _, [] => []
  | logs, .append key bytes :: steps =>
      calls (Function.update logs key ((logs key).append bytes)) steps
  | logs, .rotate key :: steps => calls (Function.update logs key (logs key).rotate) steps
  | logs, .event answers :: steps => ⟨logs, answers⟩ :: calls logs steps
  | logs, _ :: steps => calls logs steps

/-- The events that are queued in a run. -/
def created : List (Step ι) → List InotifyEvent
  | [] => []
  | .rotate key :: steps => createEvent key :: created steps
  | _ :: steps => created steps

/-- The record is what the kernel writes for the event. -/
structure About (r : Record) (e : InotifyEvent) : Prop where
  wd : r.wd = e.wd
  len : r.name = [] ↔ e.len = 0
  name : cstr r.name = e.name

theorem processFsEvent_about {P : Plugin ι γ δ} {r : Record} {e : InotifyEvent} (h : About r e)
    (x : List (Call ι) × List (Watch bufsiz δ)) :
    processFsEvent P r.event x = processFsEvent P e x := by
  have hwatch (f : LogFile) (a : Answers ι) (w : Watch bufsiz δ) :
      w.processFsEvent P r.event f a = w.processFsEvent P e f a := by
    have hlen : r.name.length ≠ 0 ↔ e.len ≠ 0 := by
      rw [ne_eq, List.length_eq_zero_iff, h.len]
    simp only [Watch.processFsEvent, LogWatch.processFsEvent, Record.event, h.wd, h.name, hlen]
  obtain ⟨_ | ⟨call, calls⟩, ws⟩ := x
  · rfl
  · simp only [processFsEvent, hwatch]

theorem foldlM_about {P : Plugin ι γ δ} {rs : List Record} {events : List InotifyEvent}
    (h : List.Forall₂ About rs events) (x : List (Call ι) × List (Watch bufsiz δ)) :
    (rs.map Record.event).foldlM (fun x e => processFsEvent P e x) x =
      events.foldlM (fun x e => processFsEvent P e x) x := by
  induction h generalizing x with
  | nil => rfl
  | cons habout _ ih =>
      rw [List.map_cons, List.foldlM_cons, List.foldlM_cons, processFsEvent_about habout]
      exact bind_congr ih

/-- The events are taken one by one, in the order in which they were queued. -/
theorem run_draining {P : Plugin ι γ δ} {s s' : System bufsiz γ δ} {steps : List (Step ι)}
    (hsteps : ∀ a ∈ steps, Draining a) (hr : run (exec P) s steps = some s')
    (hempty : s'.queue = []) :
    (s.queue ++ created steps).foldlM (fun x e => processFsEvent P e x)
        (calls s.logs steps, s.watches) = some ([], s'.watches) := by
  induction steps generalizing s with
  | nil =>
      cases hr
      rw [hempty]
      rfl
  | cons a steps ih =>
      obtain ⟨u, hu, hr⟩ := Option.bind_eq_some_iff.mp hr
      have hrest := ih (fun b hb => hsteps b (List.mem_cons_of_mem _ hb)) hr
      cases a with
      | append key bytes =>
          cases hu
          exact hrest
      | rotate key =>
          cases hu
          rw [← hrest]
          simp [created, calls]
      | event answers =>
          obtain ⟨timer, e, queue, ws, -, hqueue, hws, rfl⟩ := event_cases hu
          rw [hqueue, List.cons_append, List.foldlM_cons]
          simp only [calls, processFsEvent, hws]
          exact hrest
      | _ => exact (hsteps _ List.mem_cons_self).elim

/-- A call of `process_fs_event_queue`, on the bytes: whatever the records have
beside the descriptor and the name, and however they are grouped into reads, all
events that were queued before the call ends are processed, and the watchers end
up as in the run of the main loop. -/
theorem eventQueue_refines {P : Plugin ι γ δ} {s s' : System bufsiz γ δ}
    {steps : List (Step ι)} (hsteps : ∀ a ∈ steps, Draining a)
    (hr : run (exec P) s (steps ++ [.drained]) = some s') {reads : List (List Record)}
    (hfit : ∀ rs ∈ reads, (rs.flatMap Record.bytes).length ≤ bufsiz)
    (habout : List.Forall₂ About reads.flatten (s.queue ++ created steps))
    (buf : Block bufsiz) :
    processFsEventQueue (processFsEvent P) buf (reads.map fun rs => rs.flatMap Record.bytes)
      (calls s.logs steps, s.watches) = some ([], s'.watches) := by
  rw [run_append, Option.bind_eq_some_iff] at hr
  obtain ⟨u, hu, hr⟩ := hr
  obtain ⟨v, hv, hr⟩ := Option.bind_eq_some_iff.mp hr
  cases hr
  obtain ⟨timer, -, hempty, rfl⟩ := drained_cases hv
  rw [processFsEventQueue_records _ hfit, foldlM_about habout]
  have hdrained := run_draining hsteps hu hempty
  exact hdrained

end Loop

/-- What `IN_CREATE` for a new log looks like, with its padding. -/
def createdRecord : Record where
  wd := 1
  mask := 256
  cookie := 0
  name := lit "current" ++ List.replicate 9 0
  wd_range := by decide
  name_length := by decide
  terminated := by decide

/-- A log that was rotated, when its event is to be read. -/
def rotated : Option (System 8192 Unit Parser.ParserStatistics) :=
  run (exec ParserPlugin.parserPlugin) ParserPlugin.oneDirectoryStart
    [.rotate (1, lit "current"), .poll false true true]

def rotatedSteps : List (Step Unit) := [.event fun _ => ⟨[], fun _ => ()⟩]

theorem eventQueue_refines_rotated :
    ∃ s s', rotated = some s ∧
      run (exec ParserPlugin.parserPlugin) s (rotatedSteps ++ [.drained]) = some s' ∧
      processFsEventQueue (processFsEvent ParserPlugin.parserPlugin)
        ⟨List.replicate 8192 0, List.length_replicate⟩
        ([[createdRecord]].map fun rs => rs.flatMap Record.bytes)
        (calls s.logs rotatedSteps, s.watches) = some ([], s'.watches) := by
  have hrun : (rotated.bind fun s => run (exec ParserPlugin.parserPlugin) s
      (rotatedSteps ++ [.drained])).isSome = true := by decide
  have hqueue : rotated.map (fun s => s.queue) = some [createEvent (1, lit "current")] := by
    decide
  obtain ⟨s', h⟩ := Option.isSome_iff_exists.mp hrun
  obtain ⟨s, hs, hs'⟩ := Option.bind_eq_some_iff.mp h
  rw [hs, Option.map_some, Option.some_inj] at hqueue
  refine ⟨s, s', hs, hs', ?_⟩
  have habout : List.Forall₂ About [[createdRecord]].flatten (s.queue ++ created rotatedSteps) := by
    rw [hqueue]
    exact .cons ⟨rfl, by decide, by decide⟩ .nil
  have hfit : ∀ rs ∈ [[createdRecord]], (rs.flatMap Record.bytes).length ≤ 8192 := by
    decide
  exact eventQueue_refines (by simp [rotatedSteps, Draining]) hs' hfit habout _

end NetdataPlugins.InotifyQueue
