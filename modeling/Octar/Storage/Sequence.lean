import Octar.Storage.Writer
import Mathlib.Data.List.Induction

namespace Octar

open Go

def WriterOp.flushed : WriterOp → List Event
  | .flush batch => batch
  | _ => []

def flushedIn (session : List WriterOp) : List Event := session.flatMap WriterOp.flushed

@[simp] theorem flushedIn_cons (op : WriterOp) (ops : List WriterOp) :
    flushedIn (op :: ops) = op.flushed ++ flushedIn ops := List.flatMap_cons

def runSession (s : Dir Snapshot × List Event) (session : List WriterOp) :
    Dir Snapshot × List Event :=
  let w := (newQueueWAL s.1 s.2).after id session
  (w.dir, w.written)

def writerAt (earlier : List (List WriterOp)) (ops : List WriterOp) : Writer Snapshot :=
  let s := earlier.foldl runSession (∅, [])
  (newQueueWAL s.1 s.2).after id ops

/-- Every event of the batch gets a number above those of all records before it and of all
snapshots in the directory. -/
def FlushGrows (w : Writer Snapshot) (batch : List Event) : Prop :=
  ∀ old e new, stamp w.seq batch = old ++ e :: new →
    (∀ r ∈ w.written ++ old, r.seq < e.seq) ∧
      ∀ name snap, w.dir.lookup name = some (.snap snap) → snap.walSeq < e.seq

def SeqsGrow (sessions : List (List WriterOp)) : Prop :=
  ∀ earlier ops batch rest later, sessions = earlier ++ (ops ++ .flush batch :: rest) :: later →
    FlushGrows (writerAt earlier ops) batch

structure Fresh (w : Writer Snapshot) : Prop where
  written : w.written.map Event.seq = List.range' 1 w.seq
  snaps : ∀ name snap, w.dir.lookup name = some (.snap snap) → snap.walSeq ≤ w.seq
  job : ∀ seq segID, w.job = some (.read seq segID) → seq ≤ w.seq

theorem Fresh.exec {w : Writer Snapshot} (h : Fresh w) (op : WriterOp) : Fresh (w.exec id op) := by
  cases op with
  | flush batch =>
    refine ⟨?_, ?_, ?_⟩
    · change (w.written ++ stamp w.seq batch).map Event.seq = List.range' 1 (w.seq + batch.length)
      rw [List.map_append, h.written, map_seq_stamp, Nat.add_comm w.seq 1]
      exact List.range'_append_1
    · intro name snap hl
      exact Nat.le_add_right_of_le (h.snaps name snap (Dir.snap_appendRecords hl))
    · intro seq segID hjob
      exact Nat.le_add_right_of_le (h.job seq segID hjob)
  | rotate =>
    exact ⟨h.written, fun name snap hl => h.snaps name snap (Dir.snap_openSegment hl), h.job⟩
  | beginSnapshot =>
    refine ⟨h.written, h.snaps, ?_⟩
    intro seq segID hjob
    change w.job.or (some (.read w.seq w.segmentID)) = _ at hjob
    rcases Option.or_eq_some_iff.mp hjob with hjob | ⟨-, hjob⟩
    · exact h.job seq segID hjob
    · cases hjob
      exact Nat.le_refl _
  | writeSnapshot groups now =>
    rw [Writer.exec, Writer.writeSnapshot]
    split
    · rename_i seq segID hjob
      refine ⟨h.written, ?_, by simp⟩
      intro name snap hl
      by_cases hn : name = fileName segID .snap
      · subst hn
        rw [AList.lookup_insert] at hl
        cases hl
        exact h.job seq segID hjob
      · rw [AList.lookup_insert_ne hn] at hl
        exact h.snaps name snap hl
    · exact h
  | removeOldSegments =>
    rw [Writer.exec, Writer.removeOldSegments]
    split
    · exact ⟨h.written, fun name snap hl => h.snaps name snap (Dir.snap_removeOldSegments hl),
        by simp⟩
    · exact h

theorem Fresh.after {w : Writer Snapshot} (h : Fresh w) (ops : List WriterOp) :
    Fresh (w.after id ops) := by
  induction ops generalizing w with
  | nil => exact h
  | cons op ops ih => exact ih (h.exec op)

theorem Fresh.grows {w : Writer Snapshot} (h : Fresh w) (batch : List Event) :
    FlushGrows w batch := by
  intro old e new hstamp
  have hall := (h.exec (.flush batch)).written
  change (w.written ++ stamp w.seq batch).map Event.seq = _ at hall
  rw [hstamp, ← List.append_assoc, List.map_append, List.map_cons] at hall
  have hlt : ∀ n ∈ (w.written ++ old).map Event.seq, n < e.seq := by
    have hsorted : (List.range' 1 (w.exec id (.flush batch)).seq).Pairwise (· < ·) :=
        List.pairwise_lt_range'
    rw [← hall, List.pairwise_append] at hsorted
    exact fun n hn => hsorted.2.2 n hn e.seq List.mem_cons_self
  refine ⟨fun r hr => hlt _ (List.mem_map_of_mem hr), ?_⟩
  intro name snap hl
  have hseq : e.seq ∈ (stamp w.seq batch).map Event.seq := by
    rw [hstamp]
    simp
  rw [map_seq_stamp, List.mem_range'_1] at hseq
  have := h.snaps name snap hl
  omega

theorem seq_exec (w : Writer Snapshot) (op : WriterOp) :
    (w.exec id op).seq = w.seq + op.flushed.length := by
  cases op with
  | flush batch => rfl
  | rotate | beginSnapshot => rfl
  | writeSnapshot groups now =>
    rw [Writer.exec, Writer.writeSnapshot]
    split <;> rfl
  | removeOldSegments =>
    rw [Writer.exec, Writer.removeOldSegments]
    split <;> rfl

theorem seq_after (w : Writer Snapshot) (ops : List WriterOp) :
    (w.after id ops).seq = w.seq + (flushedIn ops).length := by
  induction ops generalizing w with
  | nil => rfl
  | cons op ops ih =>
    rw [Writer.after, List.foldl_cons, ← Writer.after, ih, seq_exec, flushedIn_cons,
      List.length_append, Nat.add_assoc]

theorem written_exec (w : Writer Snapshot) (op : WriterOp) :
    (w.exec id op).written = w.written ++ stamp w.seq op.flushed := by
  cases op with
  | flush batch => rfl
  | rotate | beginSnapshot => exact (List.append_nil _).symm
  | writeSnapshot groups now =>
    rw [Writer.exec, Writer.writeSnapshot]
    split <;> exact (List.append_nil _).symm
  | removeOldSegments =>
    rw [Writer.exec, Writer.removeOldSegments]
    split <;> exact (List.append_nil _).symm

theorem written_after (w : Writer Snapshot) (ops : List WriterOp) :
    ∃ new, (w.after id ops).written = w.written ++ new ∧ new.length = (flushedIn ops).length ∧
      ∀ r ∈ new, 1 ≤ r.seq := by
  induction ops generalizing w with
  | nil => exact ⟨[], (List.append_nil _).symm, rfl, by simp⟩
  | cons op ops ih =>
    obtain ⟨new, hnew, hlen, hpos⟩ := ih (w.exec id op)
    refine ⟨stamp w.seq op.flushed ++ new, ?_, ?_, ?_⟩
    · rw [Writer.after, List.foldl_cons, ← Writer.after, hnew, written_exec, List.append_assoc]
    · have hstamp := congrArg List.length (map_seq_stamp w.seq op.flushed)
      rw [List.length_map, List.length_range'] at hstamp
      rw [List.length_append, hstamp, hlen, flushedIn_cons, List.length_append]
    · intro r hr
      rcases List.mem_append.mp hr with hr | hr
      · have hseq := List.mem_map_of_mem (f := Event.seq) hr
        rw [map_seq_stamp, List.mem_range'_1] at hseq
        omega
      · exact hpos r hr

theorem written_runSessions (s : Dir Snapshot × List Event) (sessions : List (List WriterOp)) :
    ∃ new, (sessions.foldl runSession s).2 = s.2 ++ new ∧
      new.length = (sessions.flatMap flushedIn).length ∧
      ∀ r ∈ new, 1 ≤ r.seq := by
  induction sessions generalizing s with
  | nil => exact ⟨[], (List.append_nil _).symm, rfl, by simp⟩
  | cons session sessions ih =>
    obtain ⟨new, hnew, hlen, hpos⟩ := written_after (newQueueWAL s.1 s.2) session
    obtain ⟨new', hnew', hlen', hpos'⟩ := ih (runSession s session)
    refine ⟨new ++ new', ?_, ?_, ?_⟩
    · rw [List.foldl_cons, hnew', runSession, hnew, List.append_assoc]
      rfl
    · rw [List.length_append, hlen, hlen', List.flatMap_cons, List.length_append]
    · intro r hr
      exact (List.mem_append.mp hr).elim (hpos r) (hpos' r)

theorem fresh_newQueueWAL {earlier : List (List WriterOp)}
    (h : ∀ session ∈ earlier, flushedIn session = []) :
    Fresh (writerAt earlier []) := by
  induction earlier using List.reverseRecOn with
  | nil =>
    refine ⟨rfl, ?_, by simp [writerAt, newQueueWAL, Writer.after]⟩
    intro name snap hl
    have hnone := Dir.snap_openSegment hl
    cases hnone
  | append_singleton earlier session ih =>
    have hold := ih fun s hs => h s (List.mem_append_left _ hs)
    have hw := hold.after session
    have hseq := seq_after (writerAt earlier []) session
    rw [h session (by simp)] at hseq
    have hzero : (writerAt earlier []).seq = 0 := rfl
    rw [hzero] at hseq
    have hstate : (earlier ++ [session]).foldl runSession (∅, []) =
        (((writerAt earlier []).after id session).dir,
          ((writerAt earlier []).after id session).written) := by
      rw [List.foldl_append]
      rfl
    rw [writerAt, hstate]
    refine ⟨?_, ?_, by simp [newQueueWAL, Writer.after]⟩
    · have hwritten := hw.written
      rw [hseq] at hwritten
      exact hwritten
    · intro name snap hl
      have hle := hw.snaps name snap (Dir.snap_openSegment hl)
      rw [hseq] at hle
      exact hle

theorem exists_first_flush {session : List WriterOp} (h : flushedIn session ≠ []) :
    ∃ ops e batch rest, session = ops ++ .flush (e :: batch) :: rest ∧ flushedIn ops = [] := by
  induction session with
  | nil => exact absurd rfl h
  | cons op session ih =>
    cases hop : op.flushed with
    | cons e batch =>
      refine ⟨[], e, batch, session, ?_, rfl⟩
      cases op with
      | flush b =>
        cases hop
        rfl
      | rotate | beginSnapshot | writeSnapshot | removeOldSegments => cases hop
    | nil =>
      rw [flushedIn_cons, hop, List.nil_append] at h
      obtain ⟨ops, e, batch, rest, rfl, hops⟩ := ih h
      exact ⟨op :: ops, e, batch, rest, rfl, by rw [flushedIn_cons, hop, List.nil_append, hops]⟩

theorem exists_written {earlier : List (List WriterOp)} {session : List WriterOp}
    (hmem : session ∈ earlier) (h : flushedIn session ≠ []) (ops : List WriterOp) :
    ∃ r ∈ (writerAt earlier ops).written, 1 ≤ r.seq := by
  obtain ⟨old, hold, hlen, hpos⟩ := written_runSessions (∅, []) earlier
  have hne : old ≠ [] := by
    intro hnil
    rw [hnil] at hlen
    have hflat := List.flatMap_eq_nil_iff.mp (List.length_eq_zero_iff.mp hlen.symm)
    exact h (hflat session hmem)
  obtain ⟨r, hr⟩ := List.exists_mem_of_ne_nil old hne
  obtain ⟨new, hnew, -, -⟩ := written_after (writerAt earlier []) ops
  refine ⟨r, ?_, hpos r hr⟩
  change r ∈ ((writerAt earlier []).after id ops).written
  rw [hnew]
  apply List.mem_append_left
  change r ∈ (earlier.foldl runSession (∅, [])).2
  rw [hold]
  exact hr

theorem earlier_flush_nothing {earlier later : List (List WriterOp)} {session : List WriterOp}
    (h : flushedIn session ≠ [])
    (hlen : ((earlier ++ session :: later).filter fun s => flushedIn s ≠ []).length ≤ 1) :
    ∀ s ∈ earlier, flushedIn s = [] := by
  rw [List.filter_append, List.filter_cons_of_pos (by simpa using h), List.length_append,
    List.length_cons] at hlen
  have hnil : (earlier.filter fun s => flushedIn s ≠ []) = [] :=
    List.length_eq_zero_iff.mp (by omega)
  intro s hs
  simpa using List.filter_eq_nil_iff.mp hnil s hs

/-- Sequence numbers grow over a run exactly if at most one of its sessions flushes events: every
session starts to count at one. -/
theorem seqs_grow_iff (sessions : List (List WriterOp)) :
    SeqsGrow sessions ↔ (sessions.filter fun session => flushedIn session ≠ []).length ≤ 1 := by
  constructor
  · intro hgrow
    by_contra hlen
    obtain ⟨s, s', l, hl⟩ : ∃ s s' l, (sessions.filter fun session => flushedIn session ≠ []) =
      s :: s' :: l := by
      match sessions.filter fun session => flushedIn session ≠ [], hlen with
      | [], hlen => simp at hlen
      | [s], hlen => simp at hlen
      | s :: s' :: l, _ => exact ⟨s, s', l, rfl⟩
    obtain ⟨a, rest, rfl, -, hs, hrest⟩ := List.filter_eq_cons_iff.mp hl
    obtain ⟨b, c, rfl, -, hs', -⟩ := List.filter_eq_cons_iff.mp hrest
    obtain ⟨ops, e, batch, rest, rfl, hops⟩ := exists_first_flush (by simpa using hs')
    have hflush := hgrow (a ++ s :: b) ops (e :: batch) rest c (by simp)
    have hseq : (writerAt (a ++ s :: b) ops).seq = 0 := by
      have := seq_after (writerAt (a ++ s :: b) []) ops
      rwa [hops] at this
    -- the record that `s` flushed has a number of at least one, as the new event has
    obtain ⟨r, hr, hpos⟩ := exists_written (show s ∈ a ++ s :: b by simp) (by simpa using hs) ops
    have hlt := (hflush [] { e with seq := 1 } (stamp 1 batch) (by rw [hseq]; rfl)).1 r
      (by simpa using hr)
    simp only at hlt
    omega
  · intro hlen earlier ops batch rest later hsessions
    cases batch with
    | nil =>
      intro old e new hstamp
      cases old <;> cases hstamp
    | cons e batch =>
      have hthis : flushedIn (ops ++ .flush (e :: batch) :: rest) ≠ [] := by
        simp [flushedIn, WriterOp.flushed]
      rw [hsessions] at hlen
      have hearlier := earlier_flush_nothing hthis hlen
      exact ((fresh_newQueueWAL hearlier).after ops).grows (e :: batch)

def firstSession : List WriterOp :=
  [.flush [sampleRecord], .beginSnapshot, .writeSnapshot [] 0, .removeOldSegments]

/-- The next session gives its first event the number of a record and of a snapshot. -/
theorem second_session_repeats_seq :
    ¬ SeqsGrow [firstSession, [.flush [sampleRecord]]] ∧
      (stamp (writerAt [firstSession] []).seq [sampleRecord]).map Event.seq = [1] ∧
      (writerAt [firstSession] []).written.map Event.seq = [1] ∧
      (writerAt [firstSession] []).dir.lookup (fileName 0 .snap) = some (.snap ⟨0, 1, 0, []⟩) := by
  refine ⟨?_, rfl, rfl, rfl⟩
  intro hgrow
  have hlt :=
    (hgrow [firstSession] [] [sampleRecord] [] [] rfl [] { sampleRecord with seq := 1 } [] rfl).1
    { sampleRecord with seq := 1 } List.mem_cons_self
  exact absurd hlt (by decide)

end Octar
