import NetdataPlugins.FileWatch
import Mathlib.Data.List.Nodup
import Mathlib.Logic.Function.Basic

/-!
# The watch of a log

A log is a file name in a watched directory. A writer appends to the current
file of a log, or replaces it by a new one, which queues one event. A watcher
answers an event about its log with `read_log_file` and `reopen_log_file`. The
answer is one step: no writer comes between the read and the `open`, which
succeeds.

Every byte written after the start carries its place in the writing order of
its log. What a watcher has consumed is kept beside it; nothing reads it.
`Tracks` is what every step keeps of a watcher that answers events in order.
-/
namespace NetdataPlugins.LogWatch
open MemoryBlock FileWatch GenerationLog

structure Cell where
  serial : ℕ
  byte : UInt8
  deriving DecidableEq, Repr

def stamp (start : ℕ) (bytes : Bytes) : List Cell :=
  (bytes.zipIdx start).map fun p => ⟨p.2, p.1⟩

theorem stamp_serials (start : ℕ) (bytes : Bytes) :
    (stamp start bytes).map Cell.serial = List.range' start bytes.length := by
  induction bytes generalizing start with
  | nil => rfl
  | cons b bytes ih => simpa [stamp, List.range'_succ] using ih (start + 1)

/-- A log, with what was written to it since the watchers were set up. -/
structure LogFile where
  log : Log Cell
  written : List Cell
  serials : written.map Cell.serial = List.range written.length

theorem LogFile.written_nodup (f : LogFile) : f.written.Nodup :=
  List.Nodup.of_map Cell.serial (by rw [f.serials]; exact List.nodup_range)

def LogFile.append (f : LogFile) (bytes : Bytes) : LogFile where
  log := f.log.append (stamp f.written.length bytes)
  written := f.written ++ stamp f.written.length bytes
  serials := by
    have hlen : (stamp f.written.length bytes).length = bytes.length := by simp [stamp]
    have happend := @List.range'_append_1 0 f.written.length bytes.length
    rw [Nat.zero_add] at happend
    rw [List.map_append, f.serials, stamp_serials, List.length_append, hlen,
      List.range_eq_range', List.range_eq_range', happend]

def LogFile.rotate (f : LogFile) : LogFile := { f with log := f.log.rotate }

structure InotifyEvent where
  wd : ℤ
  len : ℕ
  name : Bytes
  deriving DecidableEq, Repr

/-- The watch descriptor of a directory, and a file name in it. -/
abbrev Key := ℤ × Bytes

/-- The length of an event's name counts its NUL. -/
def createEvent (key : Key) : InotifyEvent := ⟨key.1, key.2.length + 1, key.2⟩

structure Watcher (bufsiz : ℕ) where
  watch : FsWatch bufsiz
  consumed : List Cell
  deriving DecidableEq

variable {bufsiz : ℕ}

/-- The event is about the log of the watch. -/
def InotifyEvent.Matches (e : InotifyEvent) (w : Watcher bufsiz) : Prop :=
  e.wd = w.watch.watchDir ∧ e.len ≠ 0 ∧ e.name = w.watch.fileName

/-- The tests of `process_fs_event` for the watcher at hand: `answer` is what is
done about an event of its log. -/
def processFsEvent {α : Type} (event : InotifyEvent) (item : Watcher bufsiz) (answer : Option α)
    (x : α) : Option α := do
  if event.wd = item.watch.watchDir then
    if event.len ≠ 0 then
      if event.name = item.watch.fileName then answer
      else pure x
    else pure x
  else pure x

theorem processFsEvent_matches {α : Type} {e : InotifyEvent} {w : Watcher bufsiz}
    (h : e.Matches w) (answer : Option α) (x : α) : processFsEvent e w answer x = answer := by
  simp only [processFsEvent, h.1, h.2.1, h.2.2, if_true, ne_eq, not_false_eq_true]

theorem processFsEvent_other {α : Type} {e : InotifyEvent} {w : Watcher bufsiz}
    (h : ¬ e.Matches w) (answer : Option α) (x : α) : processFsEvent e w answer x = some x := by
  unfold InotifyEvent.Matches at h
  unfold processFsEvent
  split_ifs with h₁ h₂ h₃
  · exact (h ⟨h₁, h₂, h₃⟩).elim
  all_goals rfl

theorem processFsEvent_cases {α : Type} {e : InotifyEvent} {w : Watcher bufsiz}
    {answer : Option α} {x y : α} (h : processFsEvent e w answer x = some y) :
    (¬ e.Matches w ∧ y = x) ∨ (e.Matches w ∧ answer = some y) := by
  by_cases hm : e.Matches w
  · exact .inr ⟨hm, by rwa [processFsEvent_matches hm] at h⟩
  · rw [processFsEvent_other hm] at h
    exact .inl ⟨hm, (Option.some.inj h).symm⟩

namespace Watcher

def key (w : Watcher bufsiz) : Key := (w.watch.watchDir, w.watch.fileName)

/-- The bytes of its log that a watcher has consumed. -/
def bytes (w : Watcher bufsiz) : Bytes := w.consumed.map Cell.byte

/-- `read_log_file` on a regular file: the `read`s go on to its end. The lines
are those handed to `func->process`. -/
def readLogFile (f : LogFile) (answers : List Bytes) (w : Watcher bufsiz) :
    Option (Watcher bufsiz × List Bytes) := do
  match w.watch.fd with
  | none => pure (w, [])
  | some p =>
      if legal w.watch answers = true ∧ answers.flatten = (f.log.unread p).map Cell.byte then
        let r ← FileWatch.readLogFile w.watch answers
        pure (⟨{ r.2.1 with fd := some (f.log.atEnd p) }, w.consumed ++ f.log.unread p⟩,
          handed r.2.2)
      else none

def reopenLogFile (f : LogFile) (w : Watcher bufsiz) : Watcher bufsiz :=
  { w with watch := { w.watch with fd := some f.log.start } }

def processFsEvent (event : InotifyEvent) (f : LogFile) (answers : List Bytes)
    (w : Watcher bufsiz) : Option (Watcher bufsiz) :=
  LogWatch.processFsEvent event w (do
    let (w', _) ← w.readLogFile f answers
    pure (w'.reopenLogFile f)) w

/-- The buffer of a watcher holds the end of what it has consumed. -/
def Followed (w : Watcher bufsiz) : Prop :=
  Follows w.watch (LineSplit.split newline w.bytes).2

section Read
variable {f : LogFile} {answers : List Bytes} {w w' : Watcher bufsiz} {lines : List Bytes}

theorem readLogFile_cases (h : w.readLogFile f answers = some (w', lines)) :
    (w.watch.fd = none ∧ w' = w ∧ lines = []) ∨
      ∃ p err watch es, w.watch.fd = some p ∧ legal w.watch answers = true ∧
        answers.flatten = (f.log.unread p).map Cell.byte ∧
        FileWatch.readLogFile w.watch answers = some (err, watch, es) ∧ lines = handed es ∧
        w' = ⟨{ watch with fd := some (f.log.atEnd p) }, w.consumed ++ f.log.unread p⟩ := by
  unfold readLogFile at h
  split at h
  · rename_i hfd
    cases h
    exact .inl ⟨hfd, rfl, rfl⟩
  · rename_i p hfd
    split_ifs at h with hl
    simp only [Option.bind_eq_bind, Option.bind_eq_some_iff, Option.pure_def,
      Option.some.injEq, Prod.mk.injEq] at h
    obtain ⟨⟨err, watch, es⟩, hr, rfl, rfl⟩ := h
    exact .inr ⟨p, err, watch, es, hfd, hl.1, hl.2, hr, rfl, rfl⟩

/-- Reading does not change what a watcher is about. -/
theorem readLogFile_source (h : w.readLogFile f answers = some (w', lines)) :
    w'.watch.dirName = w.watch.dirName ∧ w'.watch.fileName = w.watch.fileName ∧
      w'.watch.watchDir = w.watch.watchDir := by
  rcases readLogFile_cases h with ⟨-, rfl, -⟩ | ⟨p, err, watch, es, -, -, -, hr, -, rfl⟩
  · exact ⟨rfl, rfl, rfl⟩
  · have hsource := FileWatch.readLogFile_source hr
    simp only [FsWatch.source, Prod.mk.injEq] at hsource
    exact ⟨hsource.1, hsource.2.1, hsource.2.2.1⟩

theorem key_readLogFile (h : w.readLogFile f answers = some (w', lines)) : w'.key = w.key := by
  obtain ⟨-, hfile, hdir⟩ := readLogFile_source h
  rw [key, key, hfile, hdir]

/-- The lines that a watcher reads are those that the bytes add to what it has
seen. -/
theorem Followed.readLogFile (hw : w.Followed) (h : w.readLogFile f answers = some (w', lines)) :
    w'.Followed ∧ ∃ new, List.Forall₂ PointsTo lines new ∧
      seen bufsiz w.bytes ++ new = seen bufsiz w'.bytes := by
  rcases readLogFile_cases h with ⟨-, rfl, rfl⟩ | ⟨p, err, watch, es, -, hl, hflat, hr, rfl, rfl⟩
  · exact ⟨hw, [], .nil, List.append_nil _⟩
  · obtain ⟨err', watch', es', hr', -, hc⟩ := readLogFile_consumes answers hw hl
    rw [hr, Option.some.injEq, Prod.mk.injEq, Prod.mk.injEq] at hr'
    obtain ⟨-, rfl, rfl⟩ := hr'
    have hfollows := hc.follows
    obtain ⟨new, hnew, hseen⟩ := hc.hands
    have hbytes : w.bytes ++ answers.flatten =
        (w.consumed ++ f.log.unread p).map Cell.byte := by
      rw [hflat, List.map_append]
      rfl
    rw [hbytes] at hfollows hseen
    exact ⟨⟨hfollows.buffered_lt, hfollows.holds⟩, new, hnew, hseen⟩

theorem Followed.reopenLogFile (h : w.Followed) : (w.reopenLogFile f).Followed :=
  ⟨h.buffered_lt, h.holds⟩

end Read
end Watcher

/-! ### The balance of a watcher -/

/-- A watcher at `p`: its balance with the log, and its buffer with what it has
consumed. -/
structure Reads (f : LogFile) (w : Watcher bufsiz) (p : Position) : Prop where
  fd : w.watch.fd = some p
  accounts : Accounts f.log p w.consumed f.written
  follows : w.Followed

namespace Reads
variable {f : LogFile} {w w' : Watcher bufsiz} {p : Position} {answers lines : List Bytes}

theorem readLogFile (h : Reads f w p) (hr : w.readLogFile f answers = some (w', lines)) :
    Reads f w' (f.log.atEnd p) := by
  have hfollows := (h.follows.readLogFile hr).1
  rcases Watcher.readLogFile_cases hr with ⟨hfd, -, -⟩ | ⟨q, err, watch, es, hfd, -, -, -, -, rfl⟩
  · exact absurd (hfd.symm.trans h.fd) (by simp)
  · obtain rfl : p = q := Option.some.inj (h.fd.symm.trans hfd)
    exact ⟨rfl, h.accounts.read, hfollows⟩

theorem reopenLogFile (h : Reads f w (f.log.atEnd p)) (ho : f.log.Orderly p) :
    Reads f (w.reopenLogFile f) f.log.start :=
  ⟨rfl, h.accounts.reopen ho, h.follows.reopenLogFile⟩

theorem readLogFile_enabled (h : Reads f w p) :
    ∃ answers w' lines, w.readLogFile f answers = some (w', lines) := by
  obtain ⟨answers, hl, hflat⟩ :=
    exists_legal h.follows (by simp [h.fd]) ((f.log.unread p).map Cell.byte)
  obtain ⟨err, v, es, hrun, _, _⟩ := readLogFile_consumes answers h.follows hl
  exact ⟨answers, _, handed es,
    by simp [Watcher.readLogFile, h.fd, hl, hflat, hrun]; rfl⟩

end Reads

/-- A watcher keeps its balance; and as long as its file is not the newest one,
an event that will move it on is queued. -/
def Tracks (logs : Key → LogFile) (queue : List InotifyEvent) (w : Watcher bufsiz) : Prop :=
  ∃ p, Reads (logs w.key) w p ∧
    (p.generation < (logs w.key).log.newest → ∃ e ∈ queue, e.Matches w)

namespace Tracks
variable {logs : Key → LogFile} {queue : List InotifyEvent} {e : InotifyEvent}
  {w w' : Watcher bufsiz} {answers lines : List Bytes}

/-- A watcher at the end of the only file of a log that was not written to. -/
theorem start (hn : 0 < bufsiz) (hconsumed : w.consumed = []) (hfresh : Fresh w.watch)
    (hfd : w.watch.fd = some ⟨0, (logs w.key).log.current.length⟩)
    (hwritten : (logs w.key).written = []) (hpast : (logs w.key).log.past = []) :
    Tracks logs queue w := by
  have hnew : (logs w.key).log.newest = 0 := by simp [Log.newest, hpast]
  have hcontents : (logs w.key).log.contents 0 = (logs w.key).log.current := by
    rw [← hnew]
    exact Log.contents_newest _
  refine ⟨_, ⟨hfd, ⟨Nat.zero_le _, by rw [hcontents], ?_⟩, ?_⟩, ?_⟩
  · rw [hconsumed, hwritten, Log.younger_newest _ (by rw [hnew]), Log.unread, hcontents]
    simp
  · rw [Watcher.Followed, Watcher.bytes, hconsumed]
    exact hfresh.follows hn
  · intro hlt
    omega

theorem append (h : Tracks logs queue w) (key : Key) (bytes : Bytes) :
    Tracks (Function.update logs key ((logs key).append bytes)) queue w := by
  obtain ⟨p, hp, hq⟩ := h
  rcases eq_or_ne w.key key with rfl | hne
  · refine ⟨p, ⟨hp.fd, ?_, hp.follows⟩, ?_⟩
    · simp only [Function.update_self]
      exact hp.accounts.append _
    · simp only [Function.update_self]
      exact hq
  · exact ⟨p, by simpa [hne] using hp, by simpa [hne] using hq⟩

theorem rotate (h : Tracks logs queue w) (key : Key) :
    Tracks (Function.update logs key (logs key).rotate) (queue ++ [createEvent key]) w := by
  obtain ⟨p, hp, hq⟩ := h
  rcases eq_or_ne w.key key with rfl | hne
  · refine ⟨p, ⟨hp.fd, ?_, hp.follows⟩, fun _ => ?_⟩
    · simp only [Function.update_self]
      exact hp.accounts.rotate
    · exact ⟨createEvent w.key, by simp, rfl, Nat.succ_ne_zero _, rfl⟩
  · refine ⟨p, by simpa [hne] using hp, fun hlt => ?_⟩
    obtain ⟨e, he, hm⟩ := hq (by simpa [hne] using hlt)
    exact ⟨e, List.mem_append_left _ he, hm⟩

theorem read (h : Tracks logs queue w)
    (hr : w.readLogFile (logs w.key) answers = some (w', lines)) : Tracks logs queue w' := by
  obtain ⟨p, hp, hq⟩ := h
  obtain ⟨-, hfile, hdir⟩ := Watcher.readLogFile_source hr
  have hkey := Watcher.key_readLogFile hr
  refine ⟨_, by rw [hkey]; exact hp.readLogFile hr, fun hlt => ?_⟩
  rw [hkey] at hlt
  obtain ⟨e, he, hm⟩ := hq hlt
  exact ⟨e, he, by rwa [InotifyEvent.Matches, hfile, hdir]⟩

/-- The answer to the first event of the queue, if going on with the newest file
passes over nothing and repeats nothing. -/
theorem event (h : Tracks logs (e :: queue) w)
    (ho : e.Matches w → ∀ p, w.watch.fd = some p → (logs w.key).log.Orderly p)
    (hw : w.processFsEvent e (logs w.key) answers = some w') :
    Tracks logs queue w' := by
  obtain ⟨p, hp, hq⟩ := h
  rcases processFsEvent_cases hw with ⟨hm, rfl⟩ | ⟨hm, hanswer⟩
  · refine ⟨p, hp, fun hlt => ?_⟩
    obtain ⟨e', he', hm'⟩ := hq hlt
    rcases List.mem_cons.mp he' with rfl | he'
    · exact (hm hm').elim
    · exact ⟨e', he', hm'⟩
  · simp only [Option.bind_eq_bind, Option.bind_eq_some_iff, Option.pure_def,
      Option.some.injEq] at hanswer
    obtain ⟨⟨v, lines⟩, hv, rfl⟩ := hanswer
    have hsame := Watcher.key_readLogFile hv
    have hkey : (v.reopenLogFile (logs w.key)).key = w.key := hsame
    refine ⟨_, by rw [hkey]; exact (hp.readLogFile hv).reopenLogFile (ho hm p hp.fd),
      fun hlt => ?_⟩
    rw [hkey] at hlt
    exact (lt_irrefl _ hlt).elim

theorem followed (h : Tracks logs queue w) : w.Followed := by
  obtain ⟨p, hp, -⟩ := h
  exact hp.follows

theorem prefix_written (h : Tracks logs queue w) : w.consumed <+: (logs w.key).written := by
  obtain ⟨p, hp, -⟩ := h
  exact hp.accounts.prefix_written

/-- With no event queued, a watcher that reads is up to date. -/
theorem read_complete (h : Tracks logs [] w)
    (hr : w.readLogFile (logs w.key) answers = some (w', lines)) :
    w'.consumed = (logs w.key).written := by
  obtain ⟨p, hp, hq⟩ := h
  have hnewest : p.generation = (logs w.key).log.newest := by
    apply hp.accounts.generation_le.eq_of_not_lt
    intro hlt
    obtain ⟨e, he, -⟩ := hq hlt
    exact List.not_mem_nil he
  exact (hp.readLogFile hr).accounts.complete hnewest

/-- Nothing blocks a watcher that reads. -/
theorem read_enabled (h : Tracks logs queue w) :
    ∃ answers w' lines, w.readLogFile (logs w.key) answers = some (w', lines) := by
  obtain ⟨p, hp, -⟩ := h
  exact hp.readLogFile_enabled

/-- Nor does anything block its answer to an event. -/
theorem event_enabled (h : Tracks logs queue w) (e : InotifyEvent) :
    ∃ answers w', w.processFsEvent e (logs w.key) answers = some w' := by
  by_cases hm : e.Matches w
  · obtain ⟨answers, w', lines, hread⟩ := h.read_enabled
    exact ⟨answers, _, by rw [Watcher.processFsEvent, processFsEvent_matches hm, hread]; rfl⟩
  · exact ⟨[], w, processFsEvent_other hm _ _⟩

end Tracks

end NetdataPlugins.LogWatch
