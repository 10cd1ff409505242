import NetdataPlugins.GenerationLog
import NetdataPlugins.LineSplit
import NetdataPlugins.MemoryBlock
import Mathlib.Data.List.Forall2

/-!
# The log reader of fs.c

One `fs_watch` keeps the bytes of an unfinished line at the start of its buffer
and a flag for the rest of an over-long line. A `read` appends to these bytes,
and the inner loop hands out every finished line in place.

The environment of a call of `read_log_file` is the list of the byte strings
its successive positive `read` results deliver; the call ends with one more
`read`, which gives no bytes. A `read` may give any non-empty part of what was
asked for. The size of the buffer, `BUFSIZ` in the source, is a parameter.
-/
namespace NetdataPlugins.FileWatch
open MemoryBlock LineSplit

inductive NdErr where
  | success | error | alloc | inotify | file
  deriving DecidableEq, Repr

inductive Skip where
  | doNotSkip | skipTheRest
  deriving DecidableEq, Repr

/-- An open descriptor stands for one of the files that have had the name, and
a position in it; `fd = none` is the descriptor -1. -/
structure FsWatch (bufsiz : ℕ) where
  dirName : Bytes
  fileName : Bytes
  watchDir : ℤ
  fd : Option GenerationLog.Position
  buf : Block bufsiz
  buffered : ℕ
  skip : Skip
  deriving DecidableEq

/-- The part of a watch that reading leaves as it is. -/
def FsWatch.source {bufsiz : ℕ} (w : FsWatch bufsiz) :
    Bytes × Bytes × ℤ × Option GenerationLog.Position :=
  (w.dirName, w.fileName, w.watchDir, w.fd)

/-- What a call does: the `read`s it makes, as offset into `buf` and size, and
the pointers it hands to `func->process`, as the memory they point to. -/
inductive Event where
  | read (offset size : ℕ)
  | process (line : Bytes)
  deriving DecidableEq, Repr

variable {bufsiz : ℕ}

def newline : UInt8 := 10

/-- `func->process` is called unless the line is the end of a skipped one. -/
def FsWatch.hand (w : FsWatch bufsiz) (mem : Bytes) : List Event :=
  if w.skip = .doNotSkip then [.process mem] else []

/-- The inner loop, over the first `ret` bytes of the buffer from `line` on.
Each turn but the last finds a newline, so `ret - line + 1` turns suffice. -/
def processLines (ret : ℕ) : ℕ → ℕ → FsWatch bufsiz → Option (FsWatch bufsiz × List Event)
  | 0, _, _ => none
  | fuel + 1, line, w => do
      let maxLineLength := ret - line
      match ← w.buf.memchr line newline maxLineLength with
      | some last =>
          let buf ← w.buf.store last 0
          let r ← processLines ret fuel (last + 1) { w with buf := buf, skip := .doNotSkip }
          pure (r.1, w.hand (buf.bytes.drop line) ++ r.2)
      | none =>
          if 0 < maxLineLength ∧ maxLineLength < bufsiz then
            let buf ← w.buf.memmove 0 line maxLineLength
            pure ({ w with buf := buf, buffered := maxLineLength }, [])
          else if maxLineLength = bufsiz then
            let buf ← w.buf.store (bufsiz - 1) 0
            pure ({ w with buf := buf, skip := .skipTheRest }, w.hand (buf.bytes.drop line))
          else
            pure (w, [])

/-- One turn of the outer loop, on a `read` that gave `chunk`. -/
def readChunk (w : FsWatch bufsiz) (chunk : Bytes) : Option (FsWatch bufsiz × List Event) := do
  let buf ← w.buf.fill w.buffered chunk
  let ret := chunk.length + w.buffered
  processLines ret (ret + 1) 0 { w with buf := buf, buffered := 0 }

def FsWatch.request (w : FsWatch bufsiz) : Event := .read w.buffered (bufsiz - w.buffered)

def readLoop : FsWatch bufsiz → List Bytes → Option (FsWatch bufsiz × List Event)
  | w, [] => pure (w, [w.request])
  | w, chunk :: chunks => do
      let a ← readChunk w chunk
      let b ← readLoop a.1 chunks
      pure (b.1, w.request :: a.2 ++ b.2)

def readLogFile (w : FsWatch bufsiz) (answers : List Bytes) :
    Option (NdErr × FsWatch bufsiz × List Event) := do
  if w.fd = none then pure (.file, w, []) else
    let r ← readLoop w answers
    pure (.success, r.1, r.2)

/-- Successive calls, each with the `read` results it meets. -/
def readCalls : FsWatch bufsiz → List (List Bytes) → Option (FsWatch bufsiz × List Event)
  | w, [] => pure (w, [])
  | w, answers :: calls => do
      let a ← readLogFile w answers
      let b ← readCalls a.2.1 calls
      pure (b.1, a.2.2 ++ b.2)

/-- The contract of `read`: a positive result is at most what was asked for,
and comes from an open descriptor only. -/
def legal : FsWatch bufsiz → List Bytes → Bool
  | _, [] => true
  | w, chunk :: chunks =>
      w.fd.isSome && 1 ≤ chunk.length && chunk.length ≤ bufsiz - w.buffered &&
        match readChunk w chunk with
        | none => true
        | some a => legal a.1 chunks

def legalCalls : FsWatch bufsiz → List (List Bytes) → Bool
  | _, [] => true
  | w, answers :: calls =>
      legal w answers &&
        match readLogFile w answers with
        | none => true
        | some a => legalCalls a.2.1 calls

/-- The pointers handed to `func->process`, in order. -/
def handed (events : List Event) : List Bytes :=
  events.filterMap fun
    | .read _ _ => none
    | .process line => some line

/-- A pointer to exactly these bytes, followed by the terminating NUL. -/
def PointsTo (mem line : Bytes) : Prop := line ++ [0] <+: mem

/-- The bytes given up when the buffer overflowed inside the current line. -/
def Dropped (bufsiz : ℕ) : Skip → Bytes → Prop
  | .doNotSkip, dropped => dropped = []
  | .skipTheRest, dropped => bufsiz ≤ dropped.length

/-- The watch holds the unfinished line `tail`, up to dropped bytes. -/
structure Follows (w : FsWatch bufsiz) (tail : Bytes) : Prop where
  buffered_lt : w.buffered < bufsiz
  holds : ∃ dropped, Dropped bufsiz w.skip dropped ∧
    tail = dropped ++ w.buf.bytes.take w.buffered

@[simp] theorem handed_append (a b : List Event) : handed (a ++ b) = handed a ++ handed b := by
  simp [handed]

theorem PointsTo.cstr_eq {mem line : Bytes} (h : PointsTo mem line) : cstr mem = cstr line := by
  obtain ⟨rest, rfl⟩ := h
  by_cases h0 : (0 : UInt8) ∈ line
  · obtain ⟨a, b, rfl, ha⟩ := List.eq_append_cons_of_mem h0
    simp only [List.append_assoc, List.cons_append, cstr_append_nul _ _ ha]
  · have hl : line.takeWhile (· != 0) = line :=
      List.takeWhile_eq_self_iff.mpr fun c hc => by simpa using fun he : c = 0 => h0 (he ▸ hc)
    rw [List.append_assoc, List.singleton_append, cstr_append_nul _ _ h0, cstr, hl]

/-- Overwriting the byte after a line terminates the line. -/
theorem pointsTo_set {mem : Bytes} {k : ℕ} (h : k < mem.length) :
    PointsTo (mem.set k 0) (mem.take k) := by
  rw [List.set_eq_take_append_cons_drop, if_pos h]
  exact ⟨mem.drop (k + 1), by simp⟩

theorem processLines_no_read (ret fuel line : ℕ) (w w' : FsWatch bufsiz) (es : List Event)
    (h : processLines ret fuel line w = some (w', es)) (o s : ℕ) : Event.read o s ∉ es := by
  induction fuel generalizing line w w' es with
  | zero => simp [processLines] at h
  | succ fuel ih =>
      have hand (v : FsWatch bufsiz) (mem : Bytes) : Event.read o s ∉ v.hand mem := by
        simp only [FsWatch.hand]
        split_ifs <;> simp
      simp only [processLines, Option.bind_eq_bind, Option.bind_eq_some_iff] at h
      obtain ⟨found, _, h⟩ := h
      cases found with
      | some last =>
          simp only [Option.bind_eq_some_iff] at h
          obtain ⟨buf, _, r, hr, he⟩ := h
          cases he
          simpa [hand] using ih _ _ _ _ hr
      | none =>
          split_ifs at h with h₁ h₂
          · simp only [Option.bind_eq_some_iff] at h
            obtain ⟨buf, _, he⟩ := h
            cases he
            simp
          · simp only [Option.bind_eq_some_iff] at h
            obtain ⟨buf, _, he⟩ := h
            cases he
            exact hand _ _
          · cases h
            simp

theorem processLines_source (ret fuel line : ℕ) {w : FsWatch bufsiz}
    {r : FsWatch bufsiz × List Event} (h : processLines ret fuel line w = some r) :
    r.1.source = w.source := by
  induction fuel generalizing line w r with
  | zero => simp [processLines] at h
  | succ fuel ih =>
      simp only [processLines, Option.bind_eq_bind, Option.bind_eq_some_iff] at h
      obtain ⟨found, _, h⟩ := h
      cases found with
      | some last =>
          simp only [Option.bind_eq_some_iff] at h
          obtain ⟨buf, _, r', hr', he⟩ := h
          cases he
          have hrest := ih (last + 1) hr'
          exact hrest
      | none =>
          split_ifs at h with h₁ h₂
          · simp only [Option.bind_eq_some_iff] at h
            obtain ⟨buf, _, he⟩ := h
            cases he
            rfl
          · simp only [Option.bind_eq_some_iff] at h
            obtain ⟨buf, _, he⟩ := h
            cases he
            rfl
          · cases h
            rfl

theorem readLoop_source {w : FsWatch bufsiz} {answers : List Bytes}
    {r : FsWatch bufsiz × List Event} (h : readLoop w answers = some r) :
    r.1.source = w.source := by
  induction answers generalizing w r with
  | nil =>
      cases h
      rfl
  | cons chunk chunks ih =>
      simp only [readLoop, readChunk, Option.bind_eq_bind, Option.bind_eq_some_iff] at h
      obtain ⟨a, ⟨buf, _, ha⟩, b, hb, he⟩ := h
      cases he
      have hchunk := processLines_source _ _ _ ha
      exact (ih hb).trans hchunk

/-- Reading never changes what a watch is about. -/
theorem readLogFile_source {w : FsWatch bufsiz} {answers : List Bytes}
    {r : NdErr × FsWatch bufsiz × List Event} (h : readLogFile w answers = some r) :
    r.2.1.source = w.source := by
  unfold readLogFile at h
  split_ifs at h with hfd
  · cases h
    rfl
  · simp only [Option.bind_eq_bind, Option.bind_eq_some_iff] at h
    obtain ⟨a, ha, he⟩ := h
    cases he
    exact readLoop_source ha

/-- The unread part of the buffer in the inner loop. -/
def FsWatch.rest (w : FsWatch bufsiz) (line ret : ℕ) : Bytes :=
  (w.buf.bytes.drop line).take (ret - line)

/-- The lines seen of a log through this buffer. -/
abbrev seen (bufsiz : ℕ) (s : Bytes) : List Bytes := bounded newline (bufsiz - 1) s

theorem Dropped.early_append {skip : Skip} {dropped : Bytes} (hn : 0 < bufsiz)
    (h : Dropped bufsiz skip dropped) {t : Bytes} (ht : t.length < bufsiz) :
    early (bufsiz - 1) (dropped ++ t) = early (bufsiz - 1) dropped := by
  cases skip with
  | doNotSkip =>
      have hd : dropped = [] := h
      subst hd
      rw [List.nil_append, early_short (by omega), early_short (by simp)]
  | skipTheRest =>
      have hd : bufsiz ≤ dropped.length := h
      exact LineSplit.early_append (by omega) t

/-- A line that ends: either it is handed out whole, or it was handed out early
and now only ends the skip. -/
theorem hand_close {w : FsWatch bufsiz} {dropped seg mem : Bytes} (hn : 0 < bufsiz)
    (hd : Dropped bufsiz w.skip dropped) (hseg : seg.length < bufsiz) (hm : PointsTo mem seg) :
    ∃ new, List.Forall₂ PointsTo (handed (w.hand mem)) new ∧
      early (bufsiz - 1) dropped ++ new = [(dropped ++ seg).take (bufsiz - 1)] := by
  cases hs : w.skip with
  | doNotSkip =>
      rw [hs] at hd
      have hd' : dropped = [] := hd
      subst hd'
      refine ⟨[seg], by simpa [FsWatch.hand, hs, handed] using hm, ?_⟩
      rw [early_short (by simp), List.nil_append, List.nil_append,
        List.take_of_length_le (by omega)]
  | skipTheRest =>
      rw [hs] at hd
      have hd' : bufsiz ≤ dropped.length := hd
      refine ⟨[], by simp [FsWatch.hand, hs, handed], ?_⟩
      rw [early, if_pos (by omega), List.append_nil, List.take_append_of_le_length (by omega)]

/-- The buffer is full of one unfinished line: its first bytes are handed out,
unless that has happened before. -/
theorem hand_full {w : FsWatch bufsiz} {dropped data mem : Bytes} (hn : 0 < bufsiz)
    (hd : Dropped bufsiz w.skip dropped) (hdata : data.length = bufsiz)
    (hm : PointsTo mem (data.take (bufsiz - 1))) :
    ∃ new, List.Forall₂ PointsTo (handed (w.hand mem)) new ∧
      early (bufsiz - 1) dropped ++ new = early (bufsiz - 1) (dropped ++ data) := by
  cases hs : w.skip with
  | doNotSkip =>
      rw [hs] at hd
      have hd' : dropped = [] := hd
      subst hd'
      refine ⟨[data.take (bufsiz - 1)], by simpa [FsWatch.hand, hs, handed] using hm, ?_⟩
      rw [early_short (by simp), List.nil_append, List.nil_append, early, if_pos (by omega)]
  | skipTheRest =>
      rw [hs] at hd
      have hd' : bufsiz ≤ dropped.length := hd
      exact ⟨[], by simp [FsWatch.hand, hs, handed], by
        rw [LineSplit.early_append (by omega), List.append_nil]⟩

/-- What the inner loop makes of the bytes `data` before it, behind the bytes
`dropped` of the same line: it never leaves the buffer, it hands out what they
add to the lines seen, and keeps their tail. -/
def HandsOut (w : FsWatch bufsiz) (dropped data : Bytes)
    (result : Option (FsWatch bufsiz × List Event)) : Prop :=
  ∃ w' es new, result = some (w', es) ∧ w'.source = w.source ∧
    Follows w' (split newline (dropped ++ data)).2 ∧
    List.Forall₂ PointsTo (handed es) new ∧
    early (bufsiz - 1) dropped ++ new = seen bufsiz (dropped ++ data)

section Turn
variable {w : FsWatch bufsiz} {line ret : ℕ}

theorem rest_length (hret : ret ≤ bufsiz) : (w.rest line ret).length = ret - line := by
  have hlen : w.buf.bytes.length = bufsiz := w.buf.length_eq
  simp [FsWatch.rest]
  omega

theorem memchr_rest (hline : line ≤ ret) (hret : ret ≤ bufsiz) :
    w.buf.memchr line newline (ret - line) =
      some (if newline ∈ w.rest line ret then
        some (line + (w.rest line ret).idxOf newline) else none) :=
  w.buf.memchr_eq_some newline (by omega)

/-- The turn that finds the end of `seg` terminates it in place. The bytes
behind it stay as they are. -/
theorem terminate_segment {seg more : Bytes} (hret : ret ≤ bufsiz)
    (hdata : w.rest line ret = seg ++ newline :: more) :
    ∃ buf, w.buf.store (line + seg.length) 0 = some buf ∧ PointsTo (buf.bytes.drop line) seg ∧
      (buf.bytes.drop (line + seg.length + 1)).take (ret - (line + seg.length + 1)) = more := by
  have hlen : w.buf.bytes.length = bufsiz := w.buf.length_eq
  have hk : seg.length < ret - line := by
    rw [← rest_length hret, hdata]
    simp
  obtain ⟨buf, hstore, hbytes⟩ :=
    w.buf.store_eq_some 0 (show line + seg.length < bufsiz by omega)
  refine ⟨buf, hstore, ?_, ?_⟩
  · have htake : (w.buf.bytes.drop line).take seg.length = seg := by
      have h := congrArg (List.take seg.length) hdata
      simpa [FsWatch.rest, List.take_take, Nat.min_eq_left hk.le] using h
    have hin : seg.length < (w.buf.bytes.drop line).length := by simp; omega
    rw [hbytes, List.drop_set, if_neg (by omega), Nat.add_sub_cancel_left]
    simpa [htake] using pointsTo_set hin
  · have hdrop : (w.rest line ret).drop (seg.length + 1) = more := by
      rw [hdata, ← List.drop_drop]
      simp
    rw [← hdrop, FsWatch.rest, hbytes, List.drop_set_of_lt (by omega), List.drop_take,
      List.drop_drop]
    congr 1
    omega

/-- A line that fills the buffer is cut off at its last byte. -/
theorem terminate_full (hn : 0 < bufsiz) :
    ∃ buf, w.buf.store (bufsiz - 1) 0 = some buf ∧
      PointsTo (buf.bytes.drop 0) ((w.rest 0 bufsiz).take (bufsiz - 1)) := by
  have hlen : w.buf.bytes.length = bufsiz := w.buf.length_eq
  obtain ⟨buf, hstore, hbytes⟩ := w.buf.store_eq_some 0 (show bufsiz - 1 < bufsiz by omega)
  have hall : w.rest 0 bufsiz = w.buf.bytes := by
    simp [FsWatch.rest, List.take_of_length_le hlen.le]
  refine ⟨buf, hstore, ?_⟩
  rw [hall, List.drop_zero, hbytes]
  exact pointsTo_set (by omega)

/-- The last turn finds no newline. It keeps what is left, or gives it up when
it fills the buffer. -/
theorem processLines_open {dropped : Bytes} (hn : 0 < bufsiz) (hline : line ≤ ret)
    (hret : ret ≤ bufsiz) (hbuf : w.buffered = 0) (hd : Dropped bufsiz w.skip dropped)
    (hnl : newline ∉ dropped) (hmem : newline ∉ w.rest line ret) (fuel : ℕ) :
    HandsOut w dropped (w.rest line ret) (processLines ret (fuel + 1) line w) := by
  have hrest : (w.rest line ret).length = ret - line := rest_length hret
  have hchr := memchr_rest (w := w) hline hret
  rw [if_neg hmem] at hchr
  have hopen : newline ∉ dropped ++ w.rest line ret := by simp [hnl, hmem]
  unfold HandsOut
  rw [split_open hopen, seen, bounded_open hopen]
  by_cases h₁ : 0 < ret - line ∧ ret - line < bufsiz
  · obtain ⟨buf, hmove, hbytes⟩ :=
      w.buf.memmove_eq_some (show line + (ret - line) ≤ bufsiz by omega)
    refine ⟨{ w with buf := buf, buffered := ret - line }, [], [], ?_, rfl,
      ⟨h₁.2, dropped, hd, by rw [hbytes]; rfl⟩, by simp [handed], ?_⟩
    · simp only [processLines, hchr, Option.bind_eq_bind, Option.bind_some, if_pos h₁, hmove]
      rfl
    · rw [List.append_nil, hd.early_append hn (by omega)]
  · by_cases h₂ : ret - line = bufsiz
    · obtain rfl : line = 0 := by omega
      obtain rfl : ret = bufsiz := by omega
      obtain ⟨buf, hstore, hpoint⟩ := terminate_full (w := w) hn
      obtain ⟨new, hnew, hfull⟩ := hand_full hn hd (by omega) hpoint
      refine ⟨{ w with buf := buf, skip := .skipTheRest }, w.hand (buf.bytes.drop 0), new,
        ?_, rfl, ⟨by simpa [hbuf] using hn, dropped ++ w.rest 0 ret, ?_, ?_⟩, hnew, hfull⟩
      · simp only [processLines, hchr, Option.bind_eq_bind, Option.bind_some, if_neg h₁,
          if_pos h₂, hstore]
        rfl
      · change ret ≤ (dropped ++ w.rest 0 ret).length
        simp [hrest]
      · simp [hbuf]
    · have hnil : w.rest line ret = [] := List.eq_nil_of_length_eq_zero (by omega)
      refine ⟨w, [], [], ?_, rfl, ⟨by omega, dropped, hd, by simp [hnil, hbuf]⟩,
        by simp [handed], by simp [hnil]⟩
      simp only [processLines, hchr, Option.bind_eq_bind, Option.bind_some, if_neg h₁, if_neg h₂]
      rfl

end Turn

theorem processLines_spec (hn : 0 < bufsiz) (ret fuel line : ℕ) (w : FsWatch bufsiz)
    (dropped : Bytes) (hfuel : ret - line < fuel) (hline : line ≤ ret) (hret : ret ≤ bufsiz)
    (hbuf : w.buffered = 0) (hd : Dropped bufsiz w.skip dropped) (hnl : newline ∉ dropped) :
    HandsOut w dropped (w.rest line ret) (processLines ret fuel line w) := by
  induction fuel generalizing line w dropped with
  | zero => omega
  | succ fuel ih =>
      by_cases hmem : newline ∈ w.rest line ret
      · obtain ⟨seg, more, hdata, hseg⟩ := List.eq_append_cons_of_mem hmem
        have hk : (w.rest line ret).length = ret - line := rest_length hret
        rw [hdata, List.length_append, List.length_cons] at hk
        have hchr := memchr_rest (w := w) hline hret
        rw [if_pos hmem, hdata, List.idxOf_append_of_notMem hseg, List.idxOf_cons_self,
          Nat.add_zero] at hchr
        obtain ⟨buf, hstore, hpoint, hmore⟩ := terminate_segment hret hdata
        -- From here on the line is whole again, and nothing of it is dropped.
        obtain ⟨w', es, new, hrun, hsource, hfollows, hnew, hseen⟩ :=
          ih (line + seg.length + 1) { w with buf := buf, skip := .doNotSkip } []
            (by omega) (by omega) hbuf rfl (by simp)
        obtain ⟨first, hfirst, hclose⟩ := hand_close hn hd (by omega) hpoint
        have hopen : newline ∉ dropped ++ seg := by simp [hnl, hseg]
        have hall : dropped ++ w.rest line ret = (dropped ++ seg) ++ newline :: more := by
          rw [hdata, List.append_assoc]
        rw [FsWatch.rest, hmore, List.nil_append] at hfollows hseen
        refine ⟨w', w.hand (buf.bytes.drop line) ++ es, first ++ new, ?_, hsource, ?_, ?_, ?_⟩
        · simp [processLines, hchr, hstore, hrun]
        · rw [hall, split_close hopen]
          exact hfollows
        · rw [handed_append]
          exact List.rel_append hfirst hnew
        · rw [early_short (by simp), List.nil_append] at hseen
          rw [hall, seen, bounded_close hopen, ← List.append_assoc, hclose, hseen]
          rfl
      · exact processLines_open hn hline hret hbuf hd hnl hmem fuel

theorem Follows.early_eq {w : FsWatch bufsiz} {tail dropped : Bytes} (h : Follows w tail)
    (hd : Dropped bufsiz w.skip dropped)
    (ht : tail = dropped ++ w.buf.bytes.take w.buffered) :
    early (bufsiz - 1) tail = early (bufsiz - 1) dropped := by
  have hlt := h.buffered_lt
  rw [ht]
  exact hd.early_append (by omega) (by simp; omega)

/-- One `read`: the watch goes from the tail before the chunk to the tail
after it, and hands out exactly the lines which the chunk adds. -/
theorem readChunk_spec {w : FsWatch bufsiz} {tail chunk : Bytes} (h : Follows w tail)
    (hopen : newline ∉ tail) (hfit : chunk.length ≤ bufsiz - w.buffered) :
    ∃ w' es new, readChunk w chunk = some (w', es) ∧ w'.source = w.source ∧
      Follows w' (split newline (tail ++ chunk)).2 ∧
      List.Forall₂ PointsTo (handed es) new ∧ (∀ o s, Event.read o s ∉ es) ∧
      early (bufsiz - 1) tail ++ new = seen bufsiz (tail ++ chunk) := by
  have hlt := h.buffered_lt
  obtain ⟨dropped, hd, ht⟩ := h.holds
  obtain ⟨buf, hfill, hbytes⟩ :=
    w.buf.fill_eq_some (show w.buffered + chunk.length ≤ bufsiz by omega)
  let v : FsWatch bufsiz := { w with buf := buf, buffered := 0 }
  have hrest : v.rest 0 (chunk.length + w.buffered) = w.buf.bytes.take w.buffered ++ chunk := by
    have hlen : (w.buf.bytes.take w.buffered ++ chunk).length = chunk.length + w.buffered := by
      simp
      omega
    simp only [FsWatch.rest, v, hbytes, List.drop_zero, Nat.sub_zero]
    rw [List.take_append_of_le_length hlen.ge, List.take_of_length_le hlen.le]
  obtain ⟨w', es, new, hrun, hfd, hfollows, hnew, hseen⟩ :=
    processLines_spec (by omega) (chunk.length + w.buffered) (chunk.length + w.buffered + 1) 0 v
      dropped (by omega) (by omega) (by omega) rfl hd
      (fun hm => hopen (by rw [ht]; exact List.mem_append_left _ hm))
  rw [hrest, ← List.append_assoc, ← ht] at hfollows hseen
  refine ⟨w', es, new, ?_, hfd, hfollows, hnew, ?_, ?_⟩
  · simpa [readChunk, hfill] using hrun
  · exact processLines_no_read _ _ _ _ _ _ hrun
  · rw [h.early_eq hd ht, hseen]

/-- A `read` that asks for a non-empty part of the buffer, up to its end. -/
def InBuffer (bufsiz : ℕ) : Event → Prop
  | .read offset size => offset < bufsiz ∧ offset + size = bufsiz
  | .process _ => True

theorem Follows.request_inBuffer {w : FsWatch bufsiz} {tail : Bytes} (h : Follows w tail) :
    InBuffer bufsiz w.request := by
  have hlt := h.buffered_lt
  exact ⟨hlt, by omega⟩

/-- What a run of the reader amounts to, from a watch that has consumed `s` to
one that has consumed `s ++ t`. -/
structure Consumes (s t : Bytes) (w : FsWatch bufsiz) (es : List Event) : Prop where
  follows : Follows w (split newline (s ++ t)).2
  hands : ∃ new, List.Forall₂ PointsTo (handed es) new ∧
    seen bufsiz s ++ new = seen bufsiz (s ++ t)
  inBuffer : ∀ e ∈ es, InBuffer bufsiz e

theorem Consumes.trans {s t u : Bytes} {w w' : FsWatch bufsiz} {es es' : List Event}
    (h : Consumes s t w es) (k : Consumes (s ++ t) u w' es') :
    Consumes s (t ++ u) w' (es ++ es') := by
  obtain ⟨new, hnew, hseen⟩ := h.hands
  obtain ⟨new', hnew', hseen'⟩ := k.hands
  refine ⟨by simpa using k.follows, ⟨new ++ new', ?_, ?_⟩, ?_⟩
  · rw [handed_append]
    exact List.rel_append hnew hnew'
  · rw [← List.append_assoc, hseen, hseen', List.append_assoc]
  · intro e he
    rcases List.mem_append.mp he with he | he
    · exact h.inBuffer e he
    · exact k.inBuffer e he

theorem readChunk_consumes {w : FsWatch bufsiz} {s chunk : Bytes}
    (h : Follows w (split newline s).2) (hfit : chunk.length ≤ bufsiz - w.buffered) :
    ∃ w' es, readChunk w chunk = some (w', es) ∧ w'.source = w.source ∧ Consumes s chunk w' es := by
  obtain ⟨w', es, new, hrun, hfd, hfollows, hnew, hread, hseen⟩ :=
    readChunk_spec h (split_tail_open newline s) hfit
  refine ⟨w', es, hrun, hfd, ?_, ⟨new, hnew, ?_⟩, ?_⟩
  · simpa only [split_append newline s chunk] using hfollows
  · rw [seen, seen, bounded_append, show bounded newline (bufsiz - 1) _ = _ from hseen.symm,
      bounded, List.append_assoc]
  · intro e he
    cases e with
    | read o size => exact (hread o size he).elim
    | process line => trivial

theorem readLoop_consumes {w : FsWatch bufsiz} {s : Bytes} (answers : List Bytes)
    (h : Follows w (split newline s).2) (hl : legal w answers = true) :
    ∃ w' es, readLoop w answers = some (w', es) ∧ w'.source = w.source ∧
      Consumes s answers.flatten w' es := by
  induction answers generalizing w s with
  | nil =>
      refine ⟨w, [w.request], rfl, rfl, by simpa using h, ⟨[], by simp [handed, FsWatch.request],
        by simp⟩, ?_⟩
      simpa using h.request_inBuffer
  | cons chunk chunks ih =>
      simp only [legal, Bool.and_eq_true, decide_eq_true_eq] at hl
      obtain ⟨w₁, es₁, hrun₁, hfd₁, hc₁⟩ := readChunk_consumes h hl.1.2
      have hl' : legal w₁ chunks = true := by simpa [hrun₁] using hl.2
      obtain ⟨w₂, es₂, hrun₂, hfd₂, hc₂⟩ := ih hc₁.follows hl'
      refine ⟨w₂, w.request :: es₁ ++ es₂, by simp [readLoop, hrun₁, hrun₂], hfd₂.trans hfd₁, ?_⟩
      have hc := hc₁.trans hc₂
      refine ⟨hc.follows, hc.hands, ?_⟩
      intro e he
      rcases List.mem_cons.mp he with rfl | he
      · exact h.request_inBuffer
      · exact hc.inBuffer e he

/-- Whatever there is to read can be read: an open watch always has room. -/
theorem exists_legal {w : FsWatch bufsiz} {s : Bytes} (h : Follows w (split newline s).2)
    (hfd : w.fd.isSome = true) (bytes : Bytes) :
    ∃ answers, legal w answers = true ∧ answers.flatten = bytes := by
  induction hk : bytes.length using Nat.strong_induction_on generalizing w s bytes with
  | _ k ih =>
      have hlt := h.buffered_lt
      rcases eq_or_ne bytes [] with rfl | hne
      · exact ⟨[], rfl, rfl⟩
      · have hpos : 0 < bytes.length := List.length_pos_of_ne_nil hne
        have hfit : (bytes.take (bufsiz - w.buffered)).length ≤ bufsiz - w.buffered :=
          List.length_take_le _ _
        obtain ⟨w', es, hrun, hfd', hc⟩ := readChunk_consumes h hfit
        obtain ⟨answers, hlegal, hflat⟩ := ih (bytes.drop (bufsiz - w.buffered)).length
          (by simp; omega) hc.follows (by
            have hsame : w'.fd = w.fd := congrArg (fun q => q.2.2.2) hfd'
            rwa [hsame]) _ rfl
        refine ⟨bytes.take (bufsiz - w.buffered) :: answers, ?_, ?_⟩
        · simp only [legal, hfd, hrun, hlegal, hfit, decide_true, Bool.true_and, Bool.and_true,
            decide_eq_true_eq]
          simp
          omega
        · rw [List.flatten_cons, hflat, List.take_append_drop]

theorem readLogFile_consumes {w : FsWatch bufsiz} {s : Bytes} (answers : List Bytes)
    (h : Follows w (split newline s).2) (hl : legal w answers = true) :
    ∃ err w' es, readLogFile w answers = some (err, w', es) ∧ w'.source = w.source ∧
      Consumes s answers.flatten w' es := by
  by_cases hfd : w.fd = none
  · have hnil : answers = [] := by
      cases answers with
      | nil => rfl
      | cons chunk chunks => simp [legal, hfd] at hl
    subst hnil
    exact ⟨.file, w, [], by simp [readLogFile, hfd], rfl, by simpa using h,
      ⟨[], by simp [handed], by simp⟩, by simp⟩
  · obtain ⟨w', es, hrun, hfd', hc⟩ := readLoop_consumes answers h hl
    exact ⟨.success, w', es, by simp [readLogFile, hfd, hrun], hfd', hc⟩

theorem readCalls_consumes {w : FsWatch bufsiz} {s : Bytes} (calls : List (List Bytes))
    (h : Follows w (split newline s).2) (hl : legalCalls w calls = true) :
    ∃ w' es, readCalls w calls = some (w', es) ∧ Consumes s calls.flatten.flatten w' es := by
  induction calls generalizing w s with
  | nil =>
      exact ⟨w, [], rfl, by simpa using h, ⟨[], by simp [handed], by simp⟩, by simp⟩
  | cons answers calls ih =>
      simp only [legalCalls, Bool.and_eq_true] at hl
      obtain ⟨err, w₁, es₁, hrun₁, _, hc₁⟩ := readLogFile_consumes answers h hl.1
      obtain ⟨w₂, es₂, hrun₂, hc₂⟩ := ih hc₁.follows (by simpa [hrun₁] using hl.2)
      exact ⟨w₂, es₁ ++ es₂, by simp [readCalls, hrun₁, hrun₂], by simpa using hc₁.trans hc₂⟩

/-- A watch as it is set up: nothing buffered and nothing skipped. -/
structure Fresh (w : FsWatch bufsiz) : Prop where
  buffered : w.buffered = 0
  skip : w.skip = .doNotSkip

/-- `prepare_watcher`: the watch is cleared, and the file open at its end. -/
def prepareWatcher (bufsiz : ℕ) (dirName fileName : Bytes) (watchDir : ℤ)
    (fd : Option GenerationLog.Position) : FsWatch bufsiz :=
  { dirName, fileName, watchDir, fd, buf := ⟨List.replicate bufsiz 0, by simp⟩
    buffered := 0, skip := .doNotSkip }

theorem prepareWatcher_fresh (bufsiz : ℕ) (dirName fileName : Bytes) (watchDir : ℤ)
    (fd : Option GenerationLog.Position) :
    Fresh (prepareWatcher bufsiz dirName fileName watchDir fd) := ⟨rfl, rfl⟩

theorem Fresh.follows {w : FsWatch bufsiz} (hn : 0 < bufsiz) (h : Fresh w) :
    Follows w (split newline []).2 :=
  ⟨by simpa [h.buffered] using hn, [], by simp [h.skip, Dropped], by simp [h.buffered]⟩

/-- However the bytes arrive, and in however many calls, the lines handed to
`process` are those of the bytes consumed so far, and every `read` asks for a
non-empty part of the buffer. -/
theorem readLogFile_chunk_independent (hn : 0 < bufsiz) (w : FsWatch bufsiz) (hw : Fresh w)
    (calls : List (List Bytes)) (hl : legalCalls w calls = true) :
    ∃ w' es, readCalls w calls = some (w', es) ∧
      List.Forall₂ PointsTo (handed es)
        (bounded newline (bufsiz - 1) calls.flatten.flatten) ∧
      (handed es).map cstr = (bounded newline (bufsiz - 1) calls.flatten.flatten).map cstr ∧
      ∀ offset size, Event.read offset size ∈ es →
        offset < bufsiz ∧ 0 < size ∧ offset + size = bufsiz := by
  obtain ⟨w', es, hrun, hc⟩ := readCalls_consumes calls (hw.follows hn) hl
  obtain ⟨new, hnew, hseen⟩ := hc.hands
  have hlines : new = seen bufsiz calls.flatten.flatten := by
    simpa [bounded, early_short] using hseen
  subst hlines
  refine ⟨w', es, hrun, hnew, ?_, ?_⟩
  · rw [← List.forall₂_eq_eq_eq, List.forall₂_map_left_iff, List.forall₂_map_right_iff]
    exact hnew.imp fun _ _ => PointsTo.cstr_eq
  · intro offset size he
    have h := hc.inBuffer _ he
    exact ⟨h.1, by have := h.1; have := h.2; omega, h.2⟩

theorem readLogFile_chunk_independent_cut :
    ∃ w' es, readCalls (prepareWatcher 4 [] [] 1 (some ⟨0, 0⟩))
        [[[97], [98, 99, 100]], [], [[101, 10], [102]]] = some (w', es) ∧
      List.Forall₂ PointsTo (handed es) [[97, 98, 99]] ∧
      (handed es).map cstr = [[97, 98, 99]] ∧
      ∀ offset size, Event.read offset size ∈ es → offset < 4 ∧ 0 < size ∧ offset + size = 4 :=
  readLogFile_chunk_independent (by decide) _ (prepareWatcher_fresh 4 [] [] 1 (some ⟨0, 0⟩))
    [[[97], [98, 99, 100]], [], [[101, 10], [102]]] (by decide)

end NetdataPlugins.FileWatch
