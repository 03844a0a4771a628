import Octar.Broker.RecoveredMessages
import Octar.Storage.SnapshotFile
import Octar.Storage.Suffix

namespace Octar

open Go

/-- The records with a number above `walSeq` in the segments from `segmentID` on. -/
def Dir.recordsBehind (d : Dir Bytes) (snap : Snapshot) : List Event :=
  d.readDir.flatMap (d.replayEntry ⟨some (fileName snap.segmentID .snap),
    snap.walSeq, snap.segmentID⟩)

/-- What a directory has of its queue: the newest snapshot with a number above zero and the records
behind it, or all records if that snapshot does not load. -/
def Dir.found (d : Dir Bytes) : Option Snapshot × List Event :=
  match d.findLatestSnapshot.1.bind (d.loadSnapshot loadSnapshotFile) with
  | none => (none, d.logRecords)
  | some snap => (some snap, d.recordsBehind snap)

section Cut

variable {w : Writer Bytes} {closed : List (List Event)} {current : List Event} {snap : Snapshot}
    {n : Nat}

end Cut

end Octar
