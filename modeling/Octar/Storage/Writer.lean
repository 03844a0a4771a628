import Octar.Storage.Directory

namespace Octar

open Go

/-- How far a running `saveSnapshot` is: it has read the sequence number and the segment, or its
file is synced and the old segments are still there. -/
inductive SaveSnapshot
  | read (seq segID : Nat)
  | synced (segID : Nat)
  deriving DecidableEq, Repr

/-- `completed` is what the last snapshot written by this session had read, and `written` the
history of the directory: every record flushed into it so far. -/
structure Writer (S : Type) where
  dir : Dir S
  seq : Nat
  segmentID : Nat
  job : Option SaveSnapshot
  completed : Option (Nat × Nat)
  written : List Event

inductive WriterOp
  | flush (batch : List Event)
  | rotate
  | beginSnapshot
  | writeSnapshot (groups : List GroupSnapshot) (now : Int)
  | removeOldSegments

def newQueueWAL {S : Type} (d : Dir S) (written : List Event) : Writer S :=
  ⟨d.openSegment d.findLastSegmentID, 0, d.findLastSegmentID, none, none, written⟩

namespace Writer

variable {S : Type}

def flushBatch (w : Writer S) (batch : List Event) : Writer S :=
  { w with
    dir := w.dir.appendRecords w.segmentID (stamp w.seq batch)
    seq := w.seq + batch.length
    written := w.written ++ stamp w.seq batch }

def rotateSegment (w : Writer S) : Writer S :=
  { w with segmentID := w.segmentID + 1, dir := w.dir.openSegment (w.segmentID + 1) }

def beginSnapshot (w : Writer S) : Writer S :=
  { w with job := w.job.or (some (.read w.seq w.segmentID)) }

def writeSnapshot (encode : Snapshot → S) (w : Writer S) (groups : List GroupSnapshot) (now : Int) :
    Writer S :=
  match w.job with
  | some (.read seq segID) =>
    { w with
      dir := w.dir.insert (fileName segID .snap) (.snap (encode ⟨segID, seq, now, groups⟩))
      job := some (.synced segID)
      completed := some (seq, segID) }
  | _ => w

def removeOldSegments (w : Writer S) : Writer S :=
  match w.job with
  | some (.synced segID) => { w with dir := w.dir.removeOldSegments segID, job := none }
  | _ => w

def exec (encode : Snapshot → S) (w : Writer S) : WriterOp → Writer S
  | .flush batch => w.flushBatch batch
  | .rotate => w.rotateSegment
  | .beginSnapshot => w.beginSnapshot
  | .writeSnapshot groups now => w.writeSnapshot encode groups now
  | .removeOldSegments => w.removeOldSegments

def after (encode : Snapshot → S) (w : Writer S) (ops : List WriterOp) : Writer S :=
  ops.foldl (exec encode) w

end Writer

namespace Dir

variable {S : Type} {d : Dir S} {name : Bytes} {content : S}

theorem snap_create {name' : Bytes} {empty : File S} (he : empty.ext ≠ .snap)
    (h : (d.create name' empty).lookup name = some (.snap content)) :
    d.lookup name = some (.snap content) := by
  rw [lookup_create] at h
  split at h
  · rename_i hn
    subst hn
    cases hl : d.lookup name with
    | none =>
      rw [hl] at h
      cases h
      exact absurd rfl he
    | some f =>
      rw [hl] at h
      exact h
  · exact h

theorem snap_openSegment {id : Nat} (h : (d.openSegment id).lookup name = some (.snap content)) :
    d.lookup name = some (.snap content) :=
  snap_create (by simp [File.ext]) (snap_create (by simp [File.ext]) h)

theorem snap_appendRecords {id : Nat} {records : List Event}
    (h : (d.appendRecords id records).lookup name = some (.snap content)) :
    d.lookup name = some (.snap content) := by
  unfold appendRecords at h
  split at h
  · by_cases hn : name = fileName id .log
    · subst hn
      rw [AList.lookup_insert] at h
      cases h
    · rwa [AList.lookup_insert_ne hn] at h
  · exact h

theorem snap_removeOldSegments {id : Nat}
    (h : (d.removeOldSegments id).lookup name = some (.snap content)) :
    d.lookup name = some (.snap content) := by
  rw [lookup_removeOldSegments] at h
  split at h
  · cases h
  · exact h

end Dir

end Octar
