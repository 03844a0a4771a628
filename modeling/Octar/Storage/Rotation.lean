import Octar.Storage.Suffix

namespace Octar

open Go

inductive OpenResult
  | opened | logFails | idxFails
  deriving DecidableEq, Repr

/-- A writer that knows which log file it appends to: `file` is the number of that file.  `placed`
and `taken` are its history: every record flushed with the number of its file, and the sequence
number and segment of every snapshot written. -/
structure OpenWriter (S : Type) where
  dir : Dir S
  seq : Nat
  segmentID : Nat
  file : Nat
  job : Option SaveSnapshot
  placed : List (Event × Nat)
  taken : List (Nat × Nat)
  file_le : file ≤ segmentID
  job_le : ∀ seq segID, job = some (.read seq segID) → segID ≤ segmentID

inductive OpenWriterOp
  | flush (batch : List Event)
  | rotate (result : OpenResult)
  | beginSnapshot
  | writeSnapshot (groups : List GroupSnapshot) (now : Int)
  | removeOldSegments

namespace OpenWriter

variable {S : Type}

def newQueueWAL (d : Dir S) : OpenWriter S :=
  ⟨d.openSegment d.findLastSegmentID, 0, d.findLastSegmentID, d.findLastSegmentID, none, [], [],
    Nat.le_refl _, nofun⟩

def openSegment (w : OpenWriter S) : OpenResult → OpenWriter S
  | .opened =>
    { w with file := w.segmentID, dir := w.dir.openSegment w.segmentID, file_le := Nat.le_refl _ }
  | .logFails => w
  | .idxFails =>
    { w with
      file := w.segmentID
      dir := w.dir.create (fileName w.segmentID .log) (.log [])
      file_le := Nat.le_refl _ }

def rotateSegment (w : OpenWriter S) (result : OpenResult) : OpenWriter S :=
  { w with
    segmentID := w.segmentID + 1
    file_le := Nat.le_succ_of_le w.file_le
    job_le := fun seq segID h => Nat.le_succ_of_le (w.job_le seq segID h) }.openSegment result

def flushBatch (w : OpenWriter S) (batch : List Event) : OpenWriter S :=
  { w with
    dir := w.dir.appendRecords w.file (stamp w.seq batch)
    seq := w.seq + batch.length
    placed := w.placed ++ (stamp w.seq batch).map fun e => (e, w.file) }

def beginSnapshot (w : OpenWriter S) : OpenWriter S :=
  { w with
    job := w.job.or (some (.read w.seq w.segmentID))
    job_le := by
      intro seq segID h
      rcases Option.or_eq_some_iff.mp h with h | ⟨-, h⟩
      · exact w.job_le seq segID h
      · cases h
        exact Nat.le_refl _ }

def writeSnapshot (encode : Snapshot → S) (w : OpenWriter S) (groups : List GroupSnapshot)
    (now : Int) :
    OpenWriter S :=
  match w.job with
  | some (.read seq segID) =>
    { w with
      dir := w.dir.insert (fileName segID .snap) (.snap (encode ⟨segID, seq, now, groups⟩))
      job := some (.synced segID)
      taken := w.taken ++ [(seq, segID)]
      job_le := fun _ _ h => (nomatch h) }
  | _ => w

def removeOldSegments (w : OpenWriter S) : OpenWriter S :=
  match w.job with
  | some (.synced segID) =>
    { w with dir := w.dir.removeOldSegments segID, job := none, job_le := fun _ _ h => (nomatch h) }
  | _ => w

def exec (encode : Snapshot → S) (w : OpenWriter S) : OpenWriterOp → OpenWriter S
  | .flush batch => w.flushBatch batch
  | .rotate result => w.rotateSegment result
  | .beginSnapshot => w.beginSnapshot
  | .writeSnapshot groups now => w.writeSnapshot encode groups now
  | .removeOldSegments => w.removeOldSegments

def after (encode : Snapshot → S) (w : OpenWriter S) (ops : List OpenWriterOp) : OpenWriter S :=
  ops.foldl (exec encode) w

end OpenWriter

def WriterOp.toOpen : WriterOp → OpenWriterOp
  | .flush batch => .flush batch
  | .rotate => .rotate .opened
  | .beginSnapshot => .beginSnapshot
  | .writeSnapshot groups now => .writeSnapshot groups now
  | .removeOldSegments => .removeOldSegments

namespace OpenWriter

variable {S : Type} {w : OpenWriter S}

def toWriter (w : OpenWriter S) : Writer S :=
  ⟨w.dir, w.seq, w.segmentID, w.job, w.taken.getLast?, w.placed.map Prod.fst⟩

theorem toWriter_exec (h : w.file = w.segmentID) (encode : Snapshot → S) (op : WriterOp) :
    (w.exec encode op.toOpen).file = (w.exec encode op.toOpen).segmentID ∧
      (w.exec encode op.toOpen).toWriter = w.toWriter.exec encode op := by
  cases op with
  | flush batch =>
    refine ⟨h, ?_⟩
    simp [WriterOp.toOpen, exec, flushBatch, toWriter, Writer.exec, Writer.flushBatch, h,
      Function.comp_def]
  | rotate => exact ⟨rfl, rfl⟩
  | beginSnapshot => exact ⟨h, rfl⟩
  | writeSnapshot groups now =>
    simp only [WriterOp.toOpen, exec, writeSnapshot, Writer.exec, Writer.writeSnapshot, toWriter]
    cases hj : w.job with
    | none => exact ⟨h, by rw [hj]⟩
    | some job =>
      cases job with
      | read seq segID => exact ⟨h, by simp⟩
      | synced segID => exact ⟨h, by rw [hj]⟩
  | removeOldSegments =>
    simp only [WriterOp.toOpen, exec, removeOldSegments, Writer.exec, Writer.removeOldSegments,
      toWriter]
    cases hj : w.job with
    | none => exact ⟨h, by rw [hj]⟩
    | some job =>
      cases job with
      | read seq segID => exact ⟨h, by rw [hj]⟩
      | synced segID => exact ⟨h, rfl⟩

theorem toWriter_after (h : w.file = w.segmentID) (encode : Snapshot → S) (ops : List WriterOp) :
    (w.after encode (ops.map WriterOp.toOpen)).toWriter = w.toWriter.after encode ops := by
  induction ops generalizing w with
  | nil => rfl
  | cons op ops ih =>
    obtain ⟨hfile, hwriter⟩ := toWriter_exec h encode op
    rw [List.map_cons, after, List.foldl_cons, ← after, ih hfile, hwriter]
    rfl

theorem toWriter_session (d : Dir S) (encode : Snapshot → S) (ops : List WriterOp) :
    ((newQueueWAL d).after encode (ops.map WriterOp.toOpen)).toWriter =
      (Octar.newQueueWAL d []).after encode ops := toWriter_after rfl encode ops

/-- Every flushed record is in a file that a replay from a snapshot before it does not skip, so that
the replay dispatches it as long as the file is there. -/
def WellPlaced (read : S → Option Snapshot) (w : OpenWriter S) : Prop :=
  ∀ r n, (r, n) ∈ w.placed → ∀ seq segID, (seq, segID) ∈ w.taken → seq < r.seq → segID ≤ n ∧
    ∀ records path, w.dir.lookup (fileName n .log) = some (.log records) →
      r ∈ (w.dir.replayFromSnapshot read ⟨some path, seq, segID⟩).2

def sinceRotation (w : OpenWriter S) (result : OpenResult) : OpenWriter S :=
  { w.rotateSegment result with placed := [], taken := [] }

def Snap (w : OpenWriter S) (seq segID : Nat) : Prop :=
  (seq, segID) ∈ w.taken ∨ w.job = some (.read seq segID)

structure Aligned (w : OpenWriter S) : Prop where
  file_eq : w.file = w.segmentID
  snap_le : ∀ seq segID, w.Snap seq segID → segID ≤ w.segmentID
  placed_le : ∀ r n, (r, n) ∈ w.placed → r.seq ≤ w.seq ∧ n ≤ w.segmentID
  cut : ∀ r n, (r, n) ∈ w.placed → ∀ seq segID, w.Snap seq segID → seq < r.seq → segID ≤ n
  content : ∀ r n, (r, n) ∈ w.placed →
    ∀ records, w.dir.lookup (fileName n .log) = some (.log records) → r ∈ records

theorem Aligned.wellPlaced (h : w.Aligned) (read : S → Option Snapshot) : w.WellPlaced read := by
  intro r n hr seq segID htaken hlt
  have hle := h.cut r n hr seq segID (.inl htaken) hlt
  refine ⟨hle, ?_⟩
  intro records path hfile
  refine List.mem_flatMap.mpr ⟨fileName n .log, Dir.mem_readDir.mpr (by rw [hfile]; rfl), ?_⟩
  rw [Dir.replayEntry, sscanf_fileName_self]
  simp only
  rw [if_neg fun hskip => Nat.not_lt.mpr hle hskip.2, Dir.replayFile, hfile]
  exact List.mem_filter.mpr ⟨h.content r n hr records hfile, by simpa using Nat.succ_le_of_lt hlt⟩

theorem Aligned.flush (h : w.Aligned) (batch : List Event) : (w.flushBatch batch).Aligned := by
  have hstamp : ∀ r ∈ stamp w.seq batch, r.seq ≤ w.seq + batch.length := by
    intro r hr
    have hseq := List.mem_map_of_mem (f := Event.seq) hr
    rw [map_seq_stamp, List.mem_range'_1] at hseq
    omega
  have hplaced : ∀ r n, (r, n) ∈ (w.flushBatch batch).placed →
      (r, n) ∈ w.placed ∨ r ∈ stamp w.seq batch ∧ n = w.file := by
    intro r n hr
    rcases List.mem_append.mp hr with hr | hr
    · exact .inl hr
    · obtain ⟨e, he, heq⟩ := List.mem_map.mp hr
      cases heq
      exact .inr ⟨he, rfl⟩
  refine ⟨h.file_eq, h.snap_le, ?_, ?_, ?_⟩
  · intro r n hr
    rcases hplaced r n hr with hr | ⟨hnew, rfl⟩
    · exact ⟨Nat.le_add_right_of_le (h.placed_le r n hr).1, (h.placed_le r n hr).2⟩
    · exact ⟨hstamp r hnew, w.file_le⟩
  · intro r n hr seq segID hsnap hlt
    rcases hplaced r n hr with hr | ⟨-, rfl⟩
    · exact h.cut r n hr seq segID hsnap hlt
    · exact h.file_eq ▸ h.snap_le seq segID hsnap
  · intro r n hr records hfile
    simp only [flushBatch, Dir.appendRecords] at hfile
    split at hfile
    · rename_i old hold
      by_cases hn : n = w.file
      · subst hn
        rw [AList.lookup_insert] at hfile
        cases hfile
        rcases hplaced r _ hr with hr | ⟨hnew, -⟩
        · exact List.mem_append_left _ (h.content r _ hr old hold)
        · exact List.mem_append_right _ hnew
      · rw [AList.lookup_insert_ne fun heq => hn (fileName_inj.mp heq).1] at hfile
        exact h.content r n ((hplaced r n hr).resolve_right fun h => hn h.2) records hfile
    · rename_i hnone
      rcases hplaced r n hr with hr | ⟨-, rfl⟩
      · exact h.content r n hr records hfile
      · exact absurd hfile (hnone records)

theorem Aligned.rotate (h : w.Aligned) {result : OpenResult} (hlog : result ≠ .logFails) :
    (w.rotateSegment result).Aligned := by
  have hsnap : ∀ seq segID, w.Snap seq segID → segID ≤ w.segmentID + 1 := fun seq segID hs =>
    Nat.le_succ_of_le (h.snap_le seq segID hs)
  have hplaced : ∀ r n, (r, n) ∈ w.placed → r.seq ≤ w.seq ∧ n ≤ w.segmentID + 1 := fun r n hr =>
    ⟨(h.placed_le r n hr).1, Nat.le_succ_of_le (h.placed_le r n hr).2⟩
  have hne : ∀ r n, (r, n) ∈ w.placed → ∀ ext,
      fileName n .log ≠ fileName (w.segmentID + 1) ext := by
    intro r n hr ext heq
    have hle := (h.placed_le r n hr).2
    have hn := (fileName_inj.mp heq).1
    omega
  cases result with
  | opened =>
    refine ⟨rfl, hsnap, hplaced, h.cut, ?_⟩
    intro r n hr records hfile
    change (w.dir.openSegment (w.segmentID + 1)).lookup (fileName n .log) = _ at hfile
    rw [Dir.lookup_openSegment_ne _ (hne r n hr)] at hfile
    exact h.content r n hr records hfile
  | logFails => exact absurd rfl hlog
  | idxFails =>
    refine ⟨rfl, hsnap, hplaced, h.cut, ?_⟩
    intro r n hr records hfile
    change (w.dir.create (fileName (w.segmentID + 1) .log) (.log [])).lookup
      (fileName n .log) = _ at hfile
    rw [Dir.lookup_create, if_neg (hne r n hr .log)] at hfile
    exact h.content r n hr records hfile

theorem Aligned.beginSnapshot (h : w.Aligned) : w.beginSnapshot.Aligned := by
  have hsnap : ∀ seq segID, w.beginSnapshot.Snap seq segID →
      w.Snap seq segID ∨ seq = w.seq ∧ segID = w.segmentID := by
    intro seq segID hs
    rcases hs with hs | hs
    · exact .inl (.inl hs)
    · rcases Option.or_eq_some_iff.mp hs with hs | ⟨-, hs⟩
      · exact .inl (.inr hs)
      · cases hs
        exact .inr ⟨rfl, rfl⟩
  refine ⟨h.file_eq, ?_, h.placed_le, ?_, h.content⟩
  · intro seq segID hs
    rcases hsnap seq segID hs with hs | ⟨-, rfl⟩
    · exact h.snap_le seq segID hs
    · exact Nat.le_refl _
  · intro r n hr seq segID hs hlt
    rcases hsnap seq segID hs with hs | ⟨rfl, -⟩
    · exact h.cut r n hr seq segID hs hlt
    -- a snapshot covers the records flushed before it
    · exact absurd hlt (Nat.not_lt.mpr (h.placed_le r n hr).1)

theorem Aligned.writeSnapshot (h : w.Aligned) (encode : Snapshot → S) (groups : List GroupSnapshot)
    (now : Int) : (w.writeSnapshot encode groups now).Aligned := by
  unfold OpenWriter.writeSnapshot
  split
  · rename_i seq segID hjob
    have hsnap : ∀ seq' segID', (seq', segID') ∈ w.taken ++ [(seq, segID)] ∨
        some (SaveSnapshot.synced segID) = some (.read seq' segID') → w.Snap seq' segID' := by
      rintro seq' segID' (hs | hs)
      · rcases List.mem_append.mp hs with hs | hs
        · exact .inl hs
        · cases List.mem_singleton.mp hs
          exact .inr hjob
      · cases hs
    refine ⟨h.file_eq, fun seq' segID' hs => h.snap_le _ _ (hsnap seq' segID' hs), h.placed_le,
      fun r n hr seq' segID' hs => h.cut r n hr _ _ (hsnap seq' segID' hs), ?_⟩
    intro r n hr records hfile
    have hne : fileName n .log ≠ fileName segID .snap := fun heq => by cases (fileName_inj.mp heq).2
    simp only [AList.lookup_insert_ne hne] at hfile
    exact h.content r n hr records hfile
  · exact h

theorem Aligned.removeOldSegments (h : w.Aligned) : w.removeOldSegments.Aligned := by
  unfold OpenWriter.removeOldSegments
  split
  · rename_i segID hjob
    have hsnap : ∀ seq' segID', (seq', segID') ∈ w.taken ∨
        none = some (SaveSnapshot.read seq' segID') →
        w.Snap seq' segID' := fun _ _ hs => .inl (hs.resolve_right fun h => (nomatch h))
    refine ⟨h.file_eq, fun seq' segID' hs => h.snap_le _ _ (hsnap seq' segID' hs), h.placed_le,
      fun r n hr seq' segID' hs => h.cut r n hr _ _ (hsnap seq' segID' hs), ?_⟩
    intro r n hr records hfile
    simp only [Dir.lookup_removeOldSegments_fileName] at hfile
    split at hfile
    · cases hfile
    · exact h.content r n hr records hfile
  · exact h

theorem Aligned.after (h : w.Aligned) (encode : Snapshot → S) {ops : List OpenWriterOp}
    (hops : ∀ op ∈ ops, op ≠ .rotate .logFails) : (w.after encode ops).Aligned := by
  induction ops generalizing w with
  | nil => exact h
  | cons op ops ih =>
    rw [List.forall_mem_cons] at hops
    refine ih ?_ hops.2
    cases op with
    | flush batch => exact h.flush batch
    | rotate result => exact h.rotate fun hlog => hops.1 (by rw [hlog])
    | beginSnapshot => exact h.beginSnapshot
    | writeSnapshot groups now => exact h.writeSnapshot encode groups now
    | removeOldSegments => exact h.removeOldSegments

theorem Aligned.sinceRotation (w : OpenWriter S) {result : OpenResult} (hlog : result ≠ .logFails) :
    (w.sinceRotation result).Aligned := by
  have hsnap : ∀ seq segID, (seq, segID) ∈ ([] : List (Nat × Nat)) ∨
      w.job = some (.read seq segID) → segID ≤ w.segmentID + 1 := fun seq segID hs =>
    Nat.le_succ_of_le (w.job_le seq segID (hs.resolve_left List.not_mem_nil))
  cases result with
  | opened =>
    exact ⟨rfl, hsnap, by simp [OpenWriter.sinceRotation], by simp [OpenWriter.sinceRotation],
      by simp [OpenWriter.sinceRotation]⟩
  | logFails => exact absurd rfl hlog
  | idxFails =>
    exact ⟨rfl, hsnap, by simp [OpenWriter.sinceRotation], by simp [OpenWriter.sinceRotation],
      by simp [OpenWriter.sinceRotation]⟩

end OpenWriter

def misplacingOps : List OpenWriterOp :=
  [.writeSnapshot [] 0, .removeOldSegments, .beginSnapshot, .writeSnapshot [] 0,
    .flush [sampleRecord]]

/-- From any state of the writer, the records and snapshots after a rotation fit together exactly if
the new log file was opened: with a failing index file they do, with a failing log file they do
not. -/
theorem failed_rotation_places_records_iff {S : Type} (encode : Snapshot → S)
    (read : S → Option Snapshot) (w : OpenWriter S) (result : OpenResult) :
    (∀ ops : List OpenWriterOp, (∀ op ∈ ops, op ≠ .rotate .logFails) →
        ((w.sinceRotation result).after encode ops).WellPlaced read) ↔ result ≠ .logFails := by
  constructor
  · rintro h rfl
    have hplaced :=
      h misplacingOps (by simp [misplacingOps]) { sampleRecord with seq := w.seq + 1 } w.file ?_
      w.seq (w.segmentID + 1) ?_ (Nat.lt_succ_self _)
    · exact absurd (Nat.le_trans hplaced.1 w.file_le) (Nat.not_succ_le_self _)
    all_goals
      rcases hjob : w.job with _ | (_ | _)
      all_goals
        simp [misplacingOps, OpenWriter.after, OpenWriter.exec, OpenWriter.sinceRotation,
          OpenWriter.rotateSegment, OpenWriter.openSegment, OpenWriter.writeSnapshot,
          OpenWriter.removeOldSegments, OpenWriter.beginSnapshot, OpenWriter.flushBatch, stamp,
          hjob]
  · intro hlog ops hops
    exact ((OpenWriter.Aligned.sinceRotation w hlog).after encode hops).wellPlaced read

def fullWriter : OpenWriter Snapshot :=
  { dir := Dir.openSegment ∅ 0, seq := 0, segmentID := 0, file := 0, job := none,
    placed := [], taken := [],
    file_le := Nat.le_refl 0, job_le := fun _ _ h => (nomatch h) : OpenWriter Snapshot }.flushBatch
      [sampleRecord]

theorem failed_rotation_places_records_sample :
    let w := (fullWriter.sinceRotation .idxFails).after id misplacingOps
    w.placed = [({ sampleRecord with seq := 2 }, 1)] ∧ w.taken = [(1, 1)] ∧
      { sampleRecord with seq := 2 } ∈
        (w.dir.replayFromSnapshot some ⟨some (fileName 1 .snap), 1, 1⟩).2 := by
  intro w
  have hplaced := (failed_rotation_places_records_iff id some fullWriter .idxFails).mpr (by decide)
    misplacingOps (by simp [misplacingOps])
  refine ⟨rfl, rfl, ?_⟩
  exact (hplaced { sampleRecord with seq := 2 } 1 (List.mem_singleton_self _) 1 1
    (List.mem_singleton_self _) (by decide)).2 [{ sampleRecord with seq := 2 }] _ rfl

/-- After a failure to open the new log file, the next record is in a file below the number that the
next snapshot records, and a restart does not replay it. -/
theorem failed_rotation_misplaces_record :
    let w := (fullWriter.sinceRotation .logFails).after id misplacingOps
    w.placed = [({ sampleRecord with seq := 2 }, 0)] ∧ w.taken = [(1, 1)] ∧
      w.dir.lookup (fileName 0 .log) =
        some (.log [{ sampleRecord with seq := 1 }, { sampleRecord with seq := 2 }]) ∧
      w.dir.recovered some = (some ⟨1, 1, 0, []⟩, []) := by
  refine ⟨rfl, rfl, rfl, ?_⟩
  decide +kernel

end Octar
