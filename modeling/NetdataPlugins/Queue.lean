import NetdataPlugins.Netdata

/-!
# Statistics of the queue (queue.c)

The two counters are measured at every tick; the walk through the directories
is an input here.
-/
namespace NetdataPlugins.Queue
open MemoryBlock CString Netdata

structure QueueStatistics where
  mess : ℤ
  todo : ℤ
  deriving DecidableEq, Repr

def queueDataInit : QueueStatistics := ⟨0, 0⟩

def clearData (_ : QueueStatistics) : QueueStatistics := ⟨0, 0⟩

def printQueueHdr : List Command :=
  [ndChart (lit "qmail") (some (lit "queue")) none none none none none
      (some (lit "qmail.queue")) .area,
    ndDimension (lit "mess") none .absolute 1 1 .visible,
    ndDimension (lit "todo") none .absolute 1 1 .visible]

def printQueueData (data : QueueStatistics) (time : ℕ) : List Command :=
  block (ndBeginTime (lit "qmail") (some (lit "queue")) none time)
    [(lit "mess", data.mess), (lit "todo", data.todo)]

end NetdataPlugins.Queue
