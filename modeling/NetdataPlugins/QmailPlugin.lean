import NetdataPlugins.LogDirectory
import NetdataPlugins.Queue
import NetdataPlugins.Send
import NetdataPlugins.SmtpOutput
import NetdataPlugins.Timer

/-!
# The main loop of qmail.plugin

The state is the list of watchers with their records, the statistics that all
smtp watchers share, the time of their last print, and what was written to
stdout. A step is either an event of the file system, which makes one watcher
read lines, or a tick of the timer. The lines a watcher reads, the readings of
the clock and the measured queue are given with the step. Writing succeeds.
-/
namespace NetdataPlugins.QmailPlugin
open MemoryBlock CString Netdata Timer Smtp Send Queue
open LogDirectory (DirEntry)

/-- A line of a log; `junk` is what `update_limit` finds on the stack for it. -/
structure Line where
  text : Bytes
  junk : ℤ

/-- The record of a watcher, which also says whose functions it uses. -/
inductive Data where
  | send (data : SendStatistics)
  | smtp (data : SmtpStatistics)
  | queue (data : QueueStatistics)

/-- The watcher of the queue has no directory and prints no name. -/
structure Watch where
  dirName : Bytes
  time : Timespec
  data : Data

namespace Data

def printHdr (name : Bytes) : Data → List Command
  | .send _ => printSendHdr name
  | .smtp _ => printSmtpHeader name
  | .queue _ => printQueueHdr

def process (line : Line) : Data → Data
  | .send data => .send (processSendLogLine line.text data)
  | .smtp data => .smtp (processSmtp line.junk line.text data)
  | .queue data => .queue data

def postprocess (aggregated : Aggregated) : Data → Data × Aggregated
  | .smtp data => (.smtp (postprocessData data aggregated).1, (postprocessData data aggregated).2)
  | .send data => (.send data, aggregated)
  | .queue data => (.queue data, aggregated)

def print (name : Bytes) (time : ℕ) : Data → List Command
  | .send data => printSendData name data time
  | .smtp data => printSmtpData name data time
  | .queue data => printQueueData data time

def clear : Data → Data
  | .send data => .send (clearSendStatistics data)
  | .smtp data => .smtp (clearSmtpData data)
  | .queue data => .queue (clearData data)

/-- `read_log_file` for a log, `measure_queue` for the queue. -/
def collect (lines : List Line) (measured : QueueStatistics) : Data → Data
  | .queue _ => .queue measured
  | data => lines.foldl (fun data line => data.process line) data

end Data

structure System where
  watches : List Watch
  aggregated : Aggregated
  ratelimitsppTime : Timespec
  stdout : List Command

/-- What one watcher meets in a tick. -/
structure Turn where
  lines : List Line
  measured : QueueStatistics
  reading : Timespec

inductive Op where
  | event (i : ℕ) (lines : List Line)
  | tick (turns : ℕ → Turn) (reading : Timespec)

def Watch.readLines (w : Watch) (lines : List Line) : Watch :=
  { w with data := lines.foldl (fun data line => data.process line) w.data }

/-- The body of the loop over the watchers, with what it prints. -/
def turn (aggregated : Aggregated) (w : Watch) (t : Turn) : Watch × Aggregated × List Command :=
  let (data, aggregated) := (w.data.collect t.lines t.measured).postprocess aggregated
  let (lastUpdate, time) := updateTimestamp w.time t.reading
  (⟨w.dirName, time, data.clear⟩, aggregated, data.print w.dirName lastUpdate)

/-- The loop over the watchers; `t i` is for the `i`-th of them. -/
def turns : Aggregated → List Watch → (ℕ → Turn) → List Watch × Aggregated × List Command
  | aggregated, [], _ => ([], aggregated, [])
  | aggregated, w :: watches, t =>
      let (w, aggregated, out) := turn aggregated w (t 0)
      let (watches, aggregated, outs) := turns aggregated watches fun i => t (i + 1)
      (w :: watches, aggregated, out ++ outs)

/-- A tick of the timer; `stdout` of the result is what this tick prints. -/
def tick (s : System) (t : ℕ → Turn) (reading : Timespec) : System :=
  let (watches, aggregated, out) := turns s.aggregated s.watches t
  let (lastUpdate, time) := updateTimestamp s.ratelimitsppTime reading
  let (limits, outLimits) := tcpserverlimitsPrint aggregated.limits lastUpdate
  ⟨watches, ⟨.zero, tcpserverlimitsClear limits⟩, time,
    out ++ ratelimitsppPrint aggregated.ratelimitspp lastUpdate ++ outLimits⟩

def step (s : System) : Op → System
  | .event i lines => { s with watches := s.watches.modify i fun w => w.readLines lines }
  | .tick t reading => { tick s t reading with stdout := s.stdout ++ (tick s t reading).stdout }

def after (s : System) (ops : List Op) : System := ops.foldl step s

theorem after_concat (s : System) (ops : List Op) (op : Op) :
    after s (ops ++ [op]) = step (after s ops) op := by
  simp [after]

/-! ### Start -/

/-- The record for a directory, by its name. -/
def dirData (name : Bytes) : Option Data :=
  if contains name (lit "send") then some (.send sendDataInit)
  else if contains name (lit "smtp") then some (.smtp smtpDataInit)
  else none

/-- The watcher of a directory, if it has one; `prepare` is `prepare_watcher`. -/
def dirWatches {α : Type} (prepare : DirEntry → Bytes → Data → Option α) (e : DirEntry) :
    List α :=
  ((dirData e.name).bind (prepare e (lit "current"))).toList

def prepareWatcher (e : DirEntry) (fileName : Bytes) (data : Data) : Option (Bytes × Data) :=
  (e.watchDir fileName).map fun _ => (e.name, data)

def detectLogDirs (entries : List DirEntry) : List (Bytes × Data) :=
  LogDirectory.detectLogDirs (dirWatches prepareWatcher) entries

/-- The watcher of the queue is there if its directories are. -/
def appendQueueWatcher (hasQueue : Bool) : List (Bytes × Data) :=
  if hasQueue then [([], .queue queueDataInit)] else []

/-- The state when the loop begins. `readings i` is the clock for the `i`-th
watcher. -/
def start (entries : List DirEntry) (hasQueue : Bool) (readings : ℕ → Timespec)
    (ratelimitsppTime : Timespec) : System :=
  let found := detectLogDirs entries ++ appendQueueWatcher hasQueue
  ⟨found.mapIdx fun i w => ⟨w.1, readings i, w.2⟩, ⟨.zero, fun _ => []⟩, ratelimitsppTime,
    (found.flatMap fun w => w.2.printHdr w.1) ++ ratelimitsppPrintHdr⟩

theorem mem_dirWatches {α : Type} {prepare : DirEntry → Bytes → Data → Option α} {e : DirEntry}
    {a : α} (h : a ∈ dirWatches prepare e) :
    ∃ data, dirData e.name = some data ∧ prepare e (lit "current") data = some a :=
  Option.bind_eq_some_iff.mp (Option.mem_toList.mp h)

theorem mem_detectLogDirs {entries : List DirEntry} {w : Bytes × Data}
    (h : w ∈ detectLogDirs entries) : dirData w.1 = some w.2 := by
  obtain ⟨e, -, hw⟩ := LogDirectory.mem_detectLogDirs h
  obtain ⟨data, hdata, hprep⟩ := mem_dirWatches hw
  obtain ⟨-, -, rfl⟩ := Option.map_eq_some_iff.mp hprep
  exact hdata

end NetdataPlugins.QmailPlugin
