import Octar.Storage.Replay
import Octar.Storage.Writer

namespace Octar

open Go

namespace Writer

variable {S : Type} {w : Writer S} {closed : List (List Event)} {current : List Event}

def Cuts (closed : List (List Event)) (seq segID : Nat) : Prop :=
  segID ≤ closed.length ∧ ∀ segment ∈ closed.take segID, ∀ r ∈ segment, r.seq ≤ seq

/-- The session has written the segments `closed` and then `current`, the one that is open.  The
files of segments from the last snapshot on are all there. -/
structure Logs (w : Writer S) (closed : List (List Event)) (current : List Event) : Prop where
  segmentID : w.segmentID = closed.length
  written : w.written = closed.flatten ++ current
  seqs : w.written.map Event.seq = List.range' 1 w.seq
  numbered : w.dir.Numbered w.segmentID
  content : ∀ id f, w.dir.lookup (fileName id .log) = some f → ∃ records, f = .log records ∧
    (closed ++ [current])[id]? = some records
  present : ∀ id ≤ w.segmentID, (∀ c ∈ w.completed, c.2 ≤ id) →
    (w.dir.lookup (fileName id .log)).isSome
  completed : ∀ c ∈ w.completed, Cuts closed c.1 c.2
  reading : ∀ seq segID, w.job = some (.read seq segID) → Cuts closed seq segID ∧
    ∀ c ∈ w.completed, c.2 ≤ segID
  cleaning : ∀ segID, w.job = some (.synced segID) → ∃ seq, w.completed = some (seq, segID)
  snaps : ∀ id, (w.dir.lookup (fileName id .snap)).isSome → ∃ c ∈ w.completed, id ≤ c.2

theorem Cuts.append {seq segID : Nat} (h : Cuts closed seq segID) (segment : List Event) :
    Cuts (closed ++ [segment]) seq segID := by
  refine ⟨Nat.le_trans h.1 (by simp), ?_⟩
  rw [List.take_append_of_le_length h.1]
  exact h.2

theorem newQueueWAL_empty :
    newQueueWAL (∅ : Dir S) [] = ⟨Dir.openSegment ∅ 0, 0, 0, none, none, []⟩ := rfl

theorem Logs.newQueueWAL : Logs (newQueueWAL (∅ : Dir S) []) [] [] := by
  rw [newQueueWAL_empty]
  have hlog : (Dir.openSegment (∅ : Dir S) 0).lookup (fileName 0 .log) = some (.log []) := by
    rw [Dir.lookup_openSegment_log, AList.lookup_empty]
    rfl
  refine ⟨rfl, rfl, rfl, ?_, ?_, ?_, by simp, by simp, by simp, ?_⟩
  · exact Dir.Numbered.openSegment (fun name f hf => by cases hf) (Nat.le_refl 0)
  · intro id f hf
    simp only at hf
    by_cases hid : id = 0
    · rw [hid, hlog] at hf
      cases hf
      exact ⟨[], rfl, by rw [hid]; rfl⟩
    · rw [Dir.lookup_openSegment_ne _ fun ext h => hid (fileName_inj.mp h).1,
        AList.lookup_empty] at hf
      cases hf
  · intro id hid _
    simp only at hid
    rw [Nat.le_zero.mp hid, hlog]
    rfl
  · intro id hid
    simp only at hid
    rw [Dir.lookup_openSegment_snap, AList.lookup_empty] at hid
    cases hid

theorem Logs.current_file (h : w.Logs closed current) :
    w.dir.lookup (fileName w.segmentID .log) = some (.log current) := by
  have hpresent := h.present w.segmentID (Nat.le_refl _) (fun c hc => by
    have hcut := (h.completed c hc).1
    rwa [h.segmentID])
  obtain ⟨f, hf⟩ := Option.isSome_iff_exists.mp hpresent
  obtain ⟨records, rfl, hrec⟩ := h.content _ f hf
  rw [h.segmentID, List.getElem?_concat_length] at hrec
  cases hrec
  exact hf

theorem Logs.seq_le (h : w.Logs closed current) {r : Event} (hr : r ∈ w.written) :
    r.seq ≤ w.seq := by
  have hseq := List.mem_map_of_mem (f := Event.seq) hr
  rw [h.seqs, List.mem_range'_1] at hseq
  omega

theorem Logs.flush (h : w.Logs closed current) (batch : List Event) :
    (w.flushBatch batch).Logs closed (current ++ stamp w.seq batch) := by
  have hlookup : (w.flushBatch batch).dir.lookup (fileName w.segmentID .log) =
      some (.log (current ++ stamp w.seq batch)) := by
    simp only [flushBatch, Dir.appendRecords, h.current_file, AList.lookup_insert]
  have hother : ∀ id, id ≠ w.segmentID → (w.flushBatch batch).dir.lookup (fileName id .log) =
      w.dir.lookup (fileName id .log) := fun id hid =>
    Dir.lookup_appendRecords_ne _ _ fun h => hid (fileName_inj.mp h).1
  refine ⟨h.segmentID, ?_, ?_, h.numbered.appendRecords (Nat.le_refl _) _, ?_, ?_, h.completed,
    h.reading, h.cleaning,
    fun id hid => h.snaps id (Dir.lookup_appendRecords_snap _ _ _ _ ▸ hid)⟩
  · change w.written ++ stamp w.seq batch = _
    rw [h.written, List.append_assoc]
  · change (w.written ++ stamp w.seq batch).map Event.seq = List.range' 1 (w.seq + batch.length)
    rw [List.map_append, h.seqs, map_seq_stamp, Nat.add_comm w.seq 1]
    exact List.range'_append_1
  · intro id f hf
    by_cases hid : id = w.segmentID
    · subst hid
      cases hlookup.symm.trans hf
      exact ⟨_, rfl, by rw [h.segmentID, List.getElem?_concat_length]⟩
    · rw [hother id hid] at hf
      obtain ⟨records, rfl, hrec⟩ := h.content id f hf
      refine ⟨records, rfl, ?_⟩
      rw [← hrec, List.getElem?_append, List.getElem?_append]
      split
      · rfl
      · rename_i hlen
        have hne : id - closed.length ≠ 0 := by
          rw [h.segmentID] at hid
          omega
        rw [List.getElem?_eq_none (by simp; omega), List.getElem?_eq_none (by simp; omega)]
  · intro id hid hc
    by_cases hid' : id = w.segmentID
    · subst hid'
      exact Option.isSome_iff_exists.mpr ⟨_, hlookup⟩
    · rw [hother id hid']
      exact h.present id hid hc

theorem Logs.rotate (h : w.Logs closed current) :
    w.rotateSegment.Logs (closed ++ [current]) [] := by
  have hfresh : w.dir.lookup (fileName (w.segmentID + 1) .log) = none := by
    by_contra hne
    obtain ⟨f, hf⟩ := Option.ne_none_iff_exists'.mp hne
    obtain ⟨id, hid, hname⟩ := h.numbered _ f hf
    have := (fileName_inj.mp hname).1
    omega
  have hlookup : w.rotateSegment.dir.lookup (fileName (w.segmentID + 1) .log) = some (.log []) := by
    refine (Dir.lookup_openSegment_log _ _).trans ?_
    rw [hfresh]
    rfl
  have hother : ∀ id, id ≠ w.segmentID + 1 → w.rotateSegment.dir.lookup (fileName id .log) =
      w.dir.lookup (fileName id .log) := fun id hid =>
    Dir.lookup_openSegment_ne _ fun ext h => hid (fileName_inj.mp h).1
  have hlen : (closed ++ [current]).length = w.segmentID + 1 := by simp [h.segmentID]
  refine ⟨hlen.symm, ?_, h.seqs, (h.numbered.mono (Nat.le_succ _)).openSegment (Nat.le_refl _), ?_,
    ?_, fun c hc => (h.completed c hc).append current, ?_, h.cleaning,
    fun id hid => h.snaps id (Dir.lookup_openSegment_snap _ _ _ ▸ hid)⟩
  · change w.written = _
    rw [h.written]
    simp
  · intro id f hf
    by_cases hid : id = w.segmentID + 1
    · subst hid
      cases hlookup.symm.trans hf
      exact ⟨[], rfl, by rw [← hlen, List.getElem?_concat_length]⟩
    · rw [hother id hid] at hf
      obtain ⟨records, rfl, hrec⟩ := h.content id f hf
      refine ⟨records, rfl, ?_⟩
      obtain ⟨hlt, -⟩ := List.getElem?_eq_some_iff.mp hrec
      rw [List.getElem?_append_left hlt, hrec]
  · intro id hid hc
    by_cases hid' : id = w.segmentID + 1
    · subst hid'
      exact Option.isSome_iff_exists.mpr ⟨_, hlookup⟩
    · rw [hother id hid']
      have hid : id ≤ w.segmentID + 1 := hid
      exact h.present id (by omega) hc
  · intro seq segID hjob
    obtain ⟨hcut, hc⟩ := h.reading seq segID hjob
    exact ⟨hcut.append current, hc⟩

theorem Logs.beginSnapshot (h : w.Logs closed current) : w.beginSnapshot.Logs closed current := by
  have hjob : ∀ j, w.beginSnapshot.job = some j → w.job = some j ∨ j = .read w.seq w.segmentID := by
    intro j hj
    rcases Option.or_eq_some_iff.mp hj with hj | ⟨-, hj⟩
    · exact .inl hj
    · exact .inr (Option.some.inj hj).symm
  refine ⟨h.segmentID, h.written, h.seqs, h.numbered, h.content, h.present, h.completed, ?_, ?_,
    h.snaps⟩
  · intro seq segID hj
    rcases hjob _ hj with hj | hj
    · exact h.reading seq segID hj
    · cases hj
      refine ⟨⟨Nat.le_of_eq h.segmentID, ?_⟩, ?_⟩
      · intro segment hsegment r hr
        apply h.seq_le
        rw [h.written]
        exact List.mem_append_left _ (List.mem_flatten_of_mem (List.mem_of_mem_take hsegment) hr)
      · intro c hc
        have hcut := (h.completed c hc).1
        rwa [h.segmentID]
  · intro segID hj
    rcases hjob _ hj with hj | hj
    · exact h.cleaning segID hj
    · cases hj

theorem Logs.writeSnapshot (h : w.Logs closed current) (encode : Snapshot → S)
    (groups : List GroupSnapshot)
    (now : Int) : (w.writeSnapshot encode groups now).Logs closed current := by
  unfold Writer.writeSnapshot
  split
  · rename_i seq segID hjob
    obtain ⟨hcut, hc⟩ := h.reading seq segID hjob
    let f : File S := .snap (encode ⟨segID, seq, now, groups⟩)
    have hlog : ∀ id, AList.lookup (fileName id .log) (w.dir.insert (fileName segID .snap) f) =
        w.dir.lookup (fileName id .log) := fun id =>
      AList.lookup_insert_ne fun h => by cases (fileName_inj.mp h).2
    refine ⟨h.segmentID, h.written, h.seqs, h.numbered.insert (f := f) ?_, ?_, ?_,
      ?_, by simp, ?_, ?_⟩
    · rw [h.segmentID]
      exact hcut.1
    · intro id f hf
      exact h.content id f ((hlog id).symm.trans hf)
    · intro id hid hcomp
      have hle : segID ≤ id := hcomp (seq, segID) rfl
      exact (congrArg Option.isSome (hlog id)).trans
        (h.present id hid fun c hmem => Nat.le_trans (hc c hmem) hle)
    · intro c hmem
      cases hmem
      exact hcut
    · intro k hk
      cases hk
      exact ⟨seq, rfl⟩
    · intro id hid
      refine ⟨(seq, segID), rfl, ?_⟩
      rcases Dir.isSome_insert_snap hid with rfl | hold
      · exact Nat.le_refl _
      · obtain ⟨c, hmem, hle⟩ := h.snaps id hold
        exact Nat.le_trans hle (hc c hmem)
  · exact h

theorem Logs.removeOldSegments (h : w.Logs closed current) :
    w.removeOldSegments.Logs closed current := by
  unfold Writer.removeOldSegments
  split
  · rename_i segID hjob
    obtain ⟨seq, hcomp⟩ := h.cleaning segID hjob
    refine ⟨h.segmentID, h.written, h.seqs, h.numbered.removeOldSegments segID, ?_, ?_, h.completed,
      by simp,
      by simp, ?_⟩
    · intro id f hf
      rw [Dir.lookup_removeOldSegments] at hf
      split at hf
      · cases hf
      · exact h.content id f hf
    · intro id hid hc
      have hle : segID ≤ id := hc (seq, segID) hcomp
      -- what is removed lies before the segment of the snapshot
      have hkeep : Dir.keepFrom segID ≤ id := by
        unfold Dir.keepFrom
        split <;> omega
      rw [Dir.lookup_removeOldSegments_fileName, if_neg (Nat.not_lt.mpr hkeep)]
      exact h.present id hid hc
    · intro id hid
      rw [Dir.lookup_removeOldSegments_fileName] at hid
      split at hid
      · cases hid
      · exact h.snaps id hid
  · exact h

theorem Logs.exec (h : w.Logs closed current) (encode : Snapshot → S) (op : WriterOp) :
    ∃ closed current, (w.exec encode op).Logs closed current := by
  cases op with
  | flush batch => exact ⟨_, _, h.flush batch⟩
  | rotate => exact ⟨_, _, h.rotate⟩
  | beginSnapshot => exact ⟨_, _, h.beginSnapshot⟩
  | writeSnapshot groups now => exact ⟨_, _, h.writeSnapshot encode groups now⟩
  | removeOldSegments => exact ⟨_, _, h.removeOldSegments⟩

theorem Logs.after (h : w.Logs closed current) (encode : Snapshot → S) (ops : List WriterOp) :
    ∃ closed current, (w.after encode ops).Logs closed current := by
  induction ops generalizing w closed current with
  | nil => exact ⟨_, _, h⟩
  | cons op ops ih =>
    obtain ⟨_, _, h'⟩ := h.exec encode op
    exact ih h'

theorem Logs.replayFile (h : w.Logs closed current) (id startSeq : Nat) :
    w.dir.replayFile (fileName id .log) startSeq =
      if (w.dir.lookup (fileName id .log)).isSome then
        ((closed ++ [current])[id]?.getD []).filter fun e => ¬ e.seq < startSeq
      else [] := by
  unfold Dir.replayFile
  cases hf : w.dir.lookup (fileName id .log) with
  | none => rfl
  | some f =>
    obtain ⟨records, rfl, hrec⟩ := h.content id f hf
    rw [hrec]
    rfl

theorem Logs.segmentIDs (h : w.Logs closed current) (htop : w.segmentID < 10 ^ 9) {seq segID : Nat}
    (hcomp : w.completed = some (seq, segID)) :
    (w.dir.segmentIDs.filter fun id => segID ≤ id) =
    List.range' segID ((closed ++ [current]).length - segID) := by
  refine List.Pairwise.eq_of_mem_iff ((h.numbered.pairwise_segmentIDs htop).filter _)
    List.pairwise_lt_range' ?_
  intro id
  rw [List.mem_filter, h.numbered.mem_segmentIDs, List.mem_range'_1, List.length_append,
    List.length_singleton, ← h.segmentID, decide_eq_true_eq]
  have hcut := (h.completed _ hcomp).1
  rw [← h.segmentID] at hcut
  constructor
  · rintro ⟨hsome, hle⟩
    obtain ⟨f, hf⟩ := Option.isSome_iff_exists.mp hsome
    obtain ⟨id', hid', hname⟩ := h.numbered _ f hf
    have := (fileName_inj.mp hname).1
    simp only at hcut
    omega
  · rintro ⟨hle, hlt⟩
    simp only at hcut
    refine ⟨h.present id (by omega) ?_, hle⟩
    intro c hc
    cases hcomp.symm.trans hc
    exact hle

theorem drop_eq_map_range' (l : List (List Event)) (k : Nat) :
    l.drop k = (List.range' k (l.length - k)).map fun i => l[i]?.getD [] := by
  apply List.ext_getElem
  · simp
  · intro i h₁ h₂
    simp only [List.getElem_drop, List.getElem_map, List.getElem_range', Nat.one_mul]
    rw [List.getElem?_eq_getElem, Option.getD_some]

theorem Cuts.filter_eq_nil {seq segID id : Nat} (h : Cuts closed seq segID) (hid : id < segID) :
    (((closed ++ [current])[id]?.getD []).filter fun e => seq < e.seq) = [] := by
  rw [List.filter_eq_nil_iff]
  intro r hr
  have hlt : id < closed.length := Nat.lt_of_lt_of_le hid h.1
  rw [List.getElem?_append_left hlt, List.getElem?_eq_getElem hlt, Option.getD_some] at hr
  simpa using h.2 _ (List.mem_take_iff_getElem.mpr ⟨id, by omega, rfl⟩) r hr

theorem Cuts.filter_written {seq segID : Nat} (h : Cuts closed seq segID) :
    ((closed.flatten ++ current).filter fun e => seq < e.seq) =
      ((closed ++ [current]).drop segID).flatten.filter fun e => seq < e.seq := by
  have hsplit : closed.flatten ++ current =
      (closed.take segID).flatten ++ ((closed ++ [current]).drop segID).flatten := by
    rw [← List.take_append_of_le_length h.1, ← List.flatten_append, List.take_append_drop]
    simp
  have hold : ((closed.take segID).flatten.filter fun e => seq < e.seq) = [] := by
    rw [List.filter_eq_nil_iff]
    intro r hr
    obtain ⟨segment, hsegment, hr⟩ := List.mem_flatten.mp hr
    simpa using h.2 segment hsegment r hr
  rw [hsplit, List.filter_append, hold, List.nil_append]

theorem Logs.replay (h : w.Logs closed current) (htop : w.segmentID < 10 ^ 9) {seq segID : Nat}
    (hcomp : w.completed = some (seq, segID)) (path : Option Bytes) :
    w.dir.readDir.flatMap (w.dir.replayEntry ⟨path, seq, segID⟩) =
    w.written.filter fun e => seq < e.seq := by
  let segments := closed ++ [current]
  let suffix : Nat → List Event := fun id => (segments[id]?.getD []).filter fun e => seq < e.seq
  have hcut : Cuts closed seq segID := h.completed _ hcomp
  calc w.dir.readDir.flatMap (w.dir.replayEntry ⟨path, seq, segID⟩)
      = w.dir.segmentIDs.flatMap (fun id => if segID ≤ id then suffix id else []) := by
        rw [h.numbered.replay]
        apply List.flatMap_congr
        intro id hid
        have hfile : w.dir.replayFile (fileName id .log) (seq + 1) = suffix id := by
          rw [h.replayFile, if_pos (h.numbered.mem_segmentIDs.mp hid)]
          exact List.filter_congr fun e _ => decide_eq_decide.mpr (by omega)
        simp only [hfile]
        by_cases hle : segID ≤ id
        · rw [if_neg (by omega), if_pos hle]
        -- a skipped file and one without a record behind `seq` dispatch the same
        · rw [if_neg hle, show suffix id = [] from hcut.filter_eq_nil (Nat.not_le.mp hle), ite_self]
    _ = (w.dir.segmentIDs.filter fun id => segID ≤ id).flatMap suffix := flatMap_ite _ _ _
    _ = (segments.drop segID).flatten.filter fun e => seq < e.seq := by
        rw [h.segmentIDs htop hcomp, drop_eq_map_range', List.filter_flatten, List.map_map,
          List.flatMap_def]
        rfl
    _ = w.written.filter fun e => seq < e.seq := by
        rw [h.written, hcut.filter_written]

end Writer

/-- After the last completed snapshot, `ReplayFromSnapshot` dispatches the records behind it, each
once and in the order of their numbers. -/
theorem replay_covers_suffix {S : Type} (encode : Snapshot → S) (read : S → Option Snapshot)
    (ops : List WriterOp)
    (path : Option Bytes) (seq segID : Nat)
    (hsegments : ((newQueueWAL ∅ []).after encode ops).segmentID < 10 ^ 9)
    (hcompleted : ((newQueueWAL ∅ []).after encode ops).completed = some (seq, segID)) :
    let w := (newQueueWAL ∅ []).after encode ops
    let events := (w.dir.replayFromSnapshot read ⟨path, seq, segID⟩).2
    (events = w.written.filter fun e => seq < e.seq) ∧ events.Pairwise fun a b =>
      a.seq < b.seq := by
  obtain ⟨closed, current, hlogs⟩ := Writer.Logs.newQueueWAL.after encode ops
  have hevents := hlogs.replay hsegments hcompleted path
  refine ⟨hevents, ?_⟩
  have hsorted : (((newQueueWAL ∅ []).after encode ops).written.map Event.seq).Pairwise
      (· < ·) := by
    rw [hlogs.seqs]
    exact List.pairwise_lt_range'
  simp only [Dir.replayFromSnapshot, hevents]
  exact (List.pairwise_map.mp hsorted).filter _

def slowSnapshotOps : List WriterOp :=
  let e := sampleRecord
  [.flush [e], .rotate, .flush [e], .beginSnapshot, .flush [e], .rotate, .writeSnapshot [] 0,
    .flush [e], .removeOldSegments]

theorem replay_covers_suffix_sample :
    let w := (newQueueWAL ∅ []).after id slowSnapshotOps
    let events := (w.dir.replayFromSnapshot some ⟨some (fileName 1 .snap), 2, 1⟩).2
    w.written.map Event.seq = [1, 2, 3, 4] ∧ w.completed = some (2, 1) ∧
      events.map Event.seq = [3, 4] := by
  intro w events
  refine ⟨rfl, rfl, ?_⟩
  have hevents := (replay_covers_suffix id some slowSnapshotOps (some (fileName 1 .snap)) 2 1
    (by decide) rfl).1
  change events = _ at hevents
  rw [hevents]
  rfl

end Octar
