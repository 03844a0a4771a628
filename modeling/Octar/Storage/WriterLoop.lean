import Mathlib.Algebra.GroupWithZero.Nat
import Octar.Storage.Rotation
import Octar.Storage.Segment

/-! `writerLoop` and the replies it sends to the callers of `AppendSync`. -/

namespace Octar

open Go

structure DiskError where
  isClosed : Bool
  message : Bytes
  deriving DecidableEq, Repr

def containsAny (s : Bytes) (substrs : List Bytes) : Bool :=
  substrs.any fun sub => s.tails.any fun rest => sub.isPrefixOf rest

def DiskError.isDiskFull (e : DiskError) : Bool :=
  e.isClosed ||
    containsAny e.message
      [str "no space left on device", str "disk quota exceeded", str "not enough space"]

inductive WALError
  | disk (e : DiskError)
  | failed (e : DiskError)
  deriving DecidableEq, Repr

structure QueuedEvent where
  event : Event
  waiter : Bool
  deriving DecidableEq, Repr

structure WALConfig where
  flushMaxMessages : Int
  segmentMaxBytes : Int
  deriving DecidableEq, Repr

/-- What the file system does during one flush: how many bytes reach the log if its flush fails, the
result of the fsync, and the result of a rotation with the size of the file it opens. -/
structure FlushOutcome where
  log : Option (DiskError × Nat)
  sync : Option DiskError
  rotation : OpenResult
  newSize : Nat

/-- A flush that was made: the position of its first event among those received, their number, and
the results of the log flush and the fsync. -/
structure Flush where
  first : Nat
  count : Nat
  durable : Bool
  log : Option DiskError
  sync : Option DiskError
  deriving DecidableEq, Repr

def Flush.Has (f : Flush) (i : Nat) : Prop := f.first ≤ i ∧ i < f.first + f.count

def Flush.Succeeded (f : Flush) : Prop := f.log = none ∧ (f.durable → f.sync = none)

inductive LoopPhase
  | running | draining | failing | exited
  deriving DecidableEq, Repr

/-- `logErr` is the error that `logBuf` keeps, `err` the permanent one, and `closed` and `log` are
the bytes this session has written into the segments it has left and into the open one.  The
history: `answered` are the events received that are not in the batch any more, `replies` the
replies with the positions of their events among those received. -/
structure WriterLoop where
  phase : LoopPhase
  batch : List QueuedEvent
  seq : Nat
  durable : Bool
  logErr : Option DiskError
  err : Option WALError
  closed : List Bytes
  log : Bytes
  fileSize : Nat
  answered : List QueuedEvent
  replies : List (Nat × Option WALError)
  flushes : List Flush

/-- What the loop can see.  `empty` is the default branch of the two draining loops; an input that
writes to disk carries the outcome. -/
inductive LoopInput
  | event (r : QueuedEvent) (o : FlushOutcome)
  | closed (o : FlushOutcome)
  | flushTick (o : FlushOutcome)
  | snapshotTick
  | stop
  | empty (o : FlushOutcome)
  | setDurable (durable : Bool)

def LoopInput.event? : LoopInput → Option QueuedEvent
  | .event r _ => some r
  | _ => none

def waiters (first : Nat) : List QueuedEvent → List Nat
  | [] => []
  | r :: batch => (if r.waiter then [first] else []) ++ waiters (first + 1) batch

namespace WriterLoop

def start (durable : Bool) (fileSize : Nat) : WriterLoop :=
  ⟨.running, [], 0, durable, none, none, [], [], fileSize, [], [], []⟩

def received (s : WriterLoop) : List QueuedEvent := s.answered ++ s.batch

def session (s : WriterLoop) : Bytes := s.closed.flatten ++ s.log

def signalDone (s : WriterLoop) (err : Option WALError) : WriterLoop :=
  { s with replies := s.replies ++ (waiters s.answered.length s.batch).map fun i => (i, err) }

def failBatch (s : WriterLoop) (e : DiskError) : WriterLoop :=
  { s with err := if e.isDiskFull then some (.failed e) else s.err }.signalDone (some (.disk e))

def flushLog (s : WriterLoop) (bytes : Bytes) (result : Option (DiskError × Nat)) : WriterLoop :=
  match s.logErr, result with
  | some _, _ => s
  | none, none => { s with log := s.log ++ bytes }
  | none, some (e, reached) => { s with log := s.log ++ bytes.take reached, logErr := some e }

def rotateSegment (s : WriterLoop) (o : FlushOutcome) : WriterLoop :=
  match o.rotation with
  | .logFails => { s with fileSize := 0 }
  | .opened | .idxFails =>
    { s with closed := s.closed ++ [s.log], log := [], fileSize := o.newSize }

section Loop

variable (update : UInt32 → Bytes → UInt32) (cfg : WALConfig)

def writeBatch (s : WriterLoop) (o : FlushOutcome) : WriterLoop :=
  let records := stamp s.seq (s.batch.map QueuedEvent.event)
  let s := { s with
    seq := s.seq + s.batch.length
    fileSize := s.fileSize + (records.map recordSize).sum }.flushLog
      (encodeLog update records) o.log
  let made : Flush := ⟨s.answered.length, s.batch.length, s.durable, s.logErr, o.sync⟩
  { s with flushes := s.flushes ++ [made] }

def flushBatch (s : WriterLoop) (o : FlushOutcome) : WriterLoop :=
  let s := s.writeBatch update o
  match s.logErr with
  | some e => s.failBatch e
  | none =>
    match if s.durable then o.sync else none with
    | some e => s.failBatch e
    | none =>
      let s := s.signalDone none
      if cfg.segmentMaxBytes ≤ s.fileSize then s.rotateSegment o else s

def flush (s : WriterLoop) (o : FlushOutcome) : WriterLoop :=
  if s.batch = [] then s
  else { s.flushBatch update cfg o with answered := s.answered ++ s.batch, batch := [] }

def take (s : WriterLoop) (r : QueuedEvent) (o : FlushOutcome) : WriterLoop :=
  let s := { s with batch := s.batch ++ [r] }
  if cfg.flushMaxMessages ≤ s.batch.length then s.flush update cfg o else s

def checkErr (s : WriterLoop) : WriterLoop :=
  if s.err.isSome then { s with phase := .failing } else s

def refuse (s : WriterLoop) (r : QueuedEvent) : WriterLoop :=
  { s with
    replies := s.replies ++ (waiters s.answered.length [r]).map fun i => (i, s.err)
    answered := s.answered ++ [r] }

def exit (s : WriterLoop) : WriterLoop := { s with phase := .exited }

def step (s : WriterLoop) : LoopInput → WriterLoop
  | .setDurable durable => { s with durable := durable }
  | .snapshotTick => s
  | .event r o =>
    match s.phase with
    | .running => (s.take update cfg r o).checkErr
    | .draining => s.take update cfg r o
    | .failing => s.refuse r
    | .exited => s
  | .closed o =>
    match s.phase with
    | .running | .draining => (s.flush update cfg o).exit
    | .failing => s.exit
    | .exited => s
  | .flushTick o =>
    match s.phase with
    | .running => (s.flush update cfg o).checkErr
    | _ => s
  | .stop =>
    match s.phase with
    | .running => { s with phase := .draining }
    | _ => s
  | .empty o =>
    match s.phase with
    | .draining => (s.flush update cfg o).exit
    | .failing => s.exit
    | _ => s

def after (s : WriterLoop) (inputs : List LoopInput) : WriterLoop :=
  inputs.foldl (step update cfg) s

def untilExit (s : WriterLoop) : List LoopInput → List LoopInput
  | [] => []
  | input :: inputs =>
    if s.phase = .exited then [] else input :: untilExit (s.step update cfg input) inputs

end Loop

end WriterLoop

theorem waiters_append (first : Nat) (l l' : List QueuedEvent) :
    waiters first (l ++ l') = waiters first l ++ waiters (first + l.length) l' := by
  induction l generalizing first with
  | nil => rfl
  | cons r l ih =>
    rw [List.cons_append, waiters, ih, waiters, List.append_assoc, List.length_cons, Nat.add_assoc,
      Nat.add_comm 1]

theorem lt_of_mem_waiters {first i : Nat} {l : List QueuedEvent} (h : i ∈ waiters first l) :
    first ≤ i ∧ i < first + l.length := by
  induction l generalizing first with
  | nil => cases h
  | cons r l ih =>
    rcases List.mem_append.mp h with h | h
    · split at h
      · cases List.mem_singleton.mp h
        exact ⟨Nat.le_refl _, by simp⟩
      · cases h
    · have hi := ih h
      rw [List.length_cons]
      omega

theorem count_waiters (first : Nat) {k : Nat} {l : List QueuedEvent} {r : QueuedEvent}
    (h : l[k]? = some r) :
    (waiters first l).count (first + k) = if r.waiter then 1 else 0 := by
  induction l generalizing first k with
  | nil => simp at h
  | cons r' l ih =>
    cases k with
    | zero =>
      cases h
      have hlater : (waiters (first + 1) l).count first = 0 := by
        rw [List.count_eq_zero]
        intro hmem
        have := (lt_of_mem_waiters hmem).1
        omega
      rw [waiters, List.count_append, Nat.add_zero, hlater]
      split <;> simp
    | succ k =>
      have hhead : (if r'.waiter then [first] else []).count (first + (k + 1)) = 0 := by
        split
        · rw [List.count_eq_zero, List.mem_singleton]
          omega
        · rfl
      have hrest := ih (first + 1) h
      rw [Nat.add_assoc, Nat.add_comm 1] at hrest
      rw [waiters, List.count_append, hhead, Nat.zero_add, hrest]

def LoopPhase.flushing (p : LoopPhase) : Prop := p = .running ∨ p = .draining

namespace WriterLoop

variable {update : UInt32 → Bytes → UInt32} {cfg : WALConfig} {s : WriterLoop}

def stamped (l : List QueuedEvent) : List Event := stamp 0 (l.map QueuedEvent.event)

theorem encodeLog_stamped_append (l l' : List QueuedEvent) :
    encodeLog update (stamped (l ++ l')) =
      encodeLog update (stamped l) ++ encodeLog update
        (stamp l.length (l'.map QueuedEvent.event)) := by
  rw [stamped, List.map_append, stamp_append, encodeLog_append, List.length_map, Nat.zero_add]
  rfl

theorem encodeLog_stamped_le (l l' : List QueuedEvent) :
    encodeLog update (stamped l) <+: encodeLog update (stamped (l ++ l')) := by
  rw [encodeLog_stamped_append]
  exact List.prefix_append _ _

def batchBytes (update : UInt32 → Bytes → UInt32) (s : WriterLoop) : Bytes :=
  encodeLog update (stamp s.seq (s.batch.map QueuedEvent.event))

/-- What the log flush does: the records are at the end of the log, all of them if there is no
error, and none of them if there was one before. -/
structure Written (update : UInt32 → Bytes → UInt32) (s s' : WriterLoop) : Prop where
  phase : s'.phase = s.phase
  seq : s'.seq = s.seq + s.batch.length
  session : ∃ reached, s'.session = s.session ++ (s.batchBytes update).take reached
  broken : s.logErr ≠ none → s'.session = s.session
  whole : s'.logErr = none → s.logErr = none ∧ s'.session = s.session ++ s.batchBytes update

theorem writeBatch_written (update : UInt32 → Bytes → UInt32) (s : WriterLoop) (o : FlushOutcome) :
    Written update s (s.writeBatch update o) := by
  unfold writeBatch flushLog
  cases hl : s.logErr with
  | some e =>
    refine ⟨rfl, rfl, ⟨0, (List.append_nil _).symm⟩, fun _ => rfl, ?_⟩
    intro h
    cases (show some e = none from h)
  | none =>
    cases ho : o.log with
    | none =>
      have hsession : s.closed.flatten ++ (s.log ++ s.batchBytes update) =
          s.session ++ s.batchBytes update := (List.append_assoc ..).symm
      refine ⟨rfl, rfl, ⟨(s.batchBytes update).length, ?_⟩, fun h => absurd hl h,
        fun _ => ⟨hl, hsession⟩⟩
      rw [List.take_length]
      exact hsession
    | some x =>
      refine ⟨rfl, rfl, ⟨x.2, (List.append_assoc ..).symm⟩, fun h => absurd hl h, ?_⟩
      intro h
      cases h

theorem writeBatch_frame (update : UInt32 → Bytes → UInt32) (s : WriterLoop) (o : FlushOutcome) :
    (s.writeBatch update o).batch = s.batch ∧ (s.writeBatch update o).answered = s.answered ∧
      (s.writeBatch update o).replies = s.replies ∧ (s.writeBatch update o).durable = s.durable ∧
      (s.writeBatch update o).flushes = s.flushes ++
        [⟨s.answered.length, s.batch.length, s.durable,
          (s.writeBatch update o).logErr, o.sync⟩] := by
  unfold writeBatch flushLog
  cases hl : s.logErr with
  | some e => simp
  | none => cases o.log <;> simp

structure Flushed (update : UInt32 → Bytes → UInt32) (s s' : WriterLoop) : Prop
    extends Written update s s' where
  replies : ∃ err f, s'.flushes = s.flushes ++ [f] ∧ f.first = s.answered.length ∧
    f.count = s.batch.length ∧
    s'.replies = s.replies ++ (waiters s.answered.length s.batch).map (fun i => (i, err)) ∧
    (err = none → s'.logErr = none ∧ f.Succeeded)

theorem rotateSegment_session (s : WriterLoop) (o : FlushOutcome) :
    (s.rotateSegment o).session = s.session := by
  unfold rotateSegment
  split
  · rfl
  all_goals simp [session]

theorem rotateSegment_frame (s : WriterLoop) (o : FlushOutcome) :
    (s.rotateSegment o).phase = s.phase ∧ (s.rotateSegment o).seq = s.seq ∧
      (s.rotateSegment o).logErr = s.logErr ∧ (s.rotateSegment o).flushes = s.flushes ∧
      (s.rotateSegment o).replies = s.replies := by
  unfold rotateSegment
  split
  all_goals exact ⟨rfl, rfl, rfl, rfl, rfl⟩

theorem flushBatch_flushed (update : UInt32 → Bytes → UInt32) (cfg : WALConfig) (s : WriterLoop)
    (o : FlushOutcome) : Flushed update s (s.flushBatch update cfg o) := by
  have hw := writeBatch_written update s o
  obtain ⟨hbatch, hanswered, hreplies, hdurable, hflushes⟩ := writeBatch_frame update s o
  have hfail : ∀ e, Flushed update s ((s.writeBatch update o).failBatch e) := by
    intro e
    refine ⟨⟨hw.phase, hw.seq, hw.session, hw.broken, hw.whole⟩, some (.disk e), _,
      hflushes, rfl, rfl, ?_, fun h => (nomatch h)⟩
    rw [failBatch, signalDone, hreplies, hanswered, hbatch]
  unfold flushBatch
  simp only
  split
  · exact hfail _
  · rename_i hlog
    split
    · exact hfail _
    · rename_i hsync
      have hok : Flushed update s ((s.writeBatch update o).signalDone none) := by
        refine ⟨⟨hw.phase, hw.seq, hw.session, hw.broken, hw.whole⟩, none, _,
          hflushes, rfl, rfl, ?_, fun _ => ⟨hlog, hlog, ?_⟩⟩
        · rw [signalDone, hreplies, hanswered, hbatch]
        · intro hd
          rwa [hdurable, if_pos hd] at hsync
      split
      · obtain ⟨hphase, hseq, hlogErr, hfl, hrep⟩ :=
          rotateSegment_frame ((s.writeBatch update o).signalDone none) o
        have hsession := rotateSegment_session ((s.writeBatch update o).signalDone none) o
        refine ⟨⟨hphase ▸ hok.phase, hseq ▸ hok.seq, hsession ▸ hok.session,
          hsession ▸ hok.broken, ?_⟩, ?_⟩
        · rw [hlogErr, hsession]
          exact hok.whole
        · rw [hlogErr, hfl, hrep]
          exact hok.replies
      · exact hok

structure Answers (update : UInt32 → Bytes → UInt32) (s : WriterLoop) : Prop where
  replies : s.replies.map Prod.fst = waiters 0 s.answered
  session : s.session <+: encodeLog update (stamped s.answered)
  whole : s.phase.flushing → s.seq = s.answered.length ∧
    (s.logErr = none → s.session = encodeLog update (stamped s.answered))
  truthful : ∀ i, (i, none) ∈ s.replies →
    encodeLog update (stamped (s.answered.take (i + 1))) <+: s.session ∧
    ∃ f ∈ s.flushes, f.Has i ∧ f.Succeeded
  disjoint : s.flushes.Pairwise fun f f' => f.first + f.count ≤ f'.first
  made : ∀ f ∈ s.flushes, f.first + f.count ≤ s.answered.length
  refused : s.phase = .failing → s.err ≠ none

/-- What holds between two steps: a batch is left only if the loop goes on, and the head of the loop
has found no error. -/
structure Between (update : UInt32 → Bytes → UInt32) (s : WriterLoop) :
    Prop extends Answers update s where
  idle : ¬ s.phase.flushing → s.batch = []
  healthy : s.phase = .running → s.err = none

theorem Answers.lt (h : Answers update s) {i : Nat} {err : Option WALError}
    (hi : (i, err) ∈ s.replies) :
    i < s.answered.length := by
  have hmem : i ∈ waiters 0 s.answered := h.replies ▸ List.mem_map_of_mem hi
  simpa using (lt_of_mem_waiters hmem).2

section Flushed

variable {s' : WriterLoop}

theorem Answers.whole_flushed (h : Answers update s) (hp : s.phase.flushing)
    (hf : Written update s s') (hlog : s'.logErr = none) :
    s'.session = encodeLog update (stamped (s.answered ++ s.batch)) := by
  obtain ⟨hseq, hwhole⟩ := h.whole hp
  obtain ⟨hbefore, hall⟩ := hf.whole hlog
  rw [hall, hwhole hbefore, encodeLog_stamped_append, batchBytes, hseq]

theorem Answers.session_flushed (h : Answers update s) (hp : s.phase.flushing)
    (hf : Written update s s') :
    s'.session <+: encodeLog update (stamped (s.answered ++ s.batch)) := by
  obtain ⟨hseq, hwhole⟩ := h.whole hp
  obtain ⟨reached, hreached⟩ := hf.session
  by_cases hlog : s.logErr = none
  · rw [hreached, hwhole hlog, encodeLog_stamped_append, batchBytes, hseq,
      List.prefix_append_right_inj]
    exact List.take_prefix _ _
  · rw [hf.broken hlog]
    exact h.session.trans (encodeLog_stamped_le _ _)

theorem Answers.truthful_flushed (h : Answers update s) (hp : s.phase.flushing)
    (hf : Flushed update s s') {i : Nat} (hi : (i, none) ∈ s'.replies) :
    encodeLog update (stamped ((s.answered ++ s.batch).take (i + 1))) <+: s'.session ∧
      ∃ f ∈ s'.flushes, f.Has i ∧ f.Succeeded := by
  obtain ⟨err, f, hflushes, hfirst, hcount, hreplies, hnil⟩ := hf.replies
  rw [hreplies, List.mem_append] at hi
  rw [hflushes]
  rcases hi with hi | hi
  -- an earlier reply: the log only grows
  · obtain ⟨hwritten, f', hmem, hflush⟩ := h.truthful i hi
    obtain ⟨reached, hreached⟩ := hf.session
    rw [List.take_append_of_le_length (h.lt hi), hreached]
    exact ⟨hwritten.trans (List.prefix_append _ _), f', List.mem_append_left _ hmem, hflush⟩
  -- a reply of this flush, which has written the whole batch
  · obtain ⟨j, hj, heq⟩ := List.mem_map.mp hi
    cases heq
    obtain ⟨hlog, hflush⟩ := hnil rfl
    obtain ⟨hle, hlt⟩ := lt_of_mem_waiters hj
    refine ⟨?_, f, List.mem_append_right _ (List.mem_singleton_self _), ⟨hfirst ▸ hle, ?_⟩, hflush⟩
    · rw [h.whole_flushed hp hf.toWritten hlog]
      nth_rewrite 2 [← List.take_append_drop (i + 1) (s.answered ++ s.batch)]
      exact encodeLog_stamped_le _ _
    · rw [hfirst, hcount]
      exact hlt

end Flushed

theorem Answers.flush (h : Answers update s) (hp : s.phase.flushing) (o : FlushOutcome) :
    Answers update (s.flush update cfg o) := by
  unfold WriterLoop.flush
  split
  · exact h
  have hf := flushBatch_flushed update cfg s o
  obtain ⟨err, f, hflushes, hfirst, hcount, hreplies, -⟩ := hf.replies
  have hsession := h.session_flushed hp hf.toWritten
  have hwhole := fun hlog => h.whole_flushed hp hf.toWritten hlog
  have htruthful := fun i hi => h.truthful_flushed hp hf (i := i) hi
  refine ⟨?_, hsession, fun _ => ⟨?_, hwhole⟩, htruthful, ?_, ?_, ?_⟩
  · change (s.flushBatch update cfg o).replies.map Prod.fst = waiters 0 (s.answered ++ s.batch)
    rw [hreplies, List.map_append, h.replies, waiters_append, Nat.zero_add, List.map_map]
    exact congrArg _ (List.map_id _)
  · change (s.flushBatch update cfg o).seq = (s.answered ++ s.batch).length
    rw [hf.seq, (h.whole hp).1, List.length_append]
  · change (s.flushBatch update cfg o).flushes.Pairwise _
    rw [hflushes, List.pairwise_append]
    refine ⟨h.disjoint, List.pairwise_singleton _ _, ?_⟩
    intro f' hf' _ hmem
    cases List.mem_singleton.mp hmem
    rw [hfirst]
    exact h.made f' hf'
  · change ∀ f' ∈ (s.flushBatch update cfg o).flushes,
      f'.first + f'.count ≤ (s.answered ++ s.batch).length
    rw [hflushes, List.length_append]
    intro f' hf'
    rcases List.mem_append.mp hf' with hf' | hf'
    · exact Nat.le_add_right_of_le (h.made f' hf')
    · rw [List.mem_singleton.mp hf', hfirst, hcount]
  · intro hfailing
    change (s.flushBatch update cfg o).phase = .failing at hfailing
    rw [hf.phase] at hfailing
    rcases hp with hp | hp
    all_goals
      rw [hp] at hfailing
      cases hfailing

theorem phase_flush (s : WriterLoop) (o : FlushOutcome) :
    (s.flush update cfg o).phase = s.phase := by
  unfold WriterLoop.flush
  split
  · rfl
  · exact (flushBatch_flushed update cfg s o).phase

theorem batch_flush (s : WriterLoop) (o : FlushOutcome) : (s.flush update cfg o).batch = [] := by
  unfold WriterLoop.flush
  split
  · assumption
  · rfl

theorem received_flush (s : WriterLoop) (o : FlushOutcome) :
    (s.flush update cfg o).received = s.received := by
  unfold WriterLoop.flush
  split
  · rfl
  · exact List.append_nil _

theorem received_take (s : WriterLoop) (r : QueuedEvent) (o : FlushOutcome) :
    (s.take update cfg r o).received = s.received ++ [r] := by
  have hbatch : { s with batch := s.batch ++ [r] }.received = s.received ++ [r] :=
    (List.append_assoc ..).symm
  unfold WriterLoop.take
  simp only
  split
  · rw [received_flush, hbatch]
  · exact hbatch

theorem received_checkErr (s : WriterLoop) : s.checkErr.received = s.received := by
  unfold checkErr
  split <;> rfl

theorem Answers.toPhase (h : Answers update s) (hp : s.phase.flushing) {p : LoopPhase}
    (hfailing : p = .failing → s.err ≠ none) : Answers update { s with phase := p } :=
  ⟨h.replies, h.session, fun _ => h.whole hp, h.truthful, h.disjoint, h.made, hfailing⟩

theorem Answers.take (h : Answers update s) (cfg : WALConfig) (hp : s.phase.flushing)
    (r : QueuedEvent) (o : FlushOutcome) :
    Answers update (s.take update cfg r o) ∧ (s.take update cfg r o).phase = s.phase ∧
      ((s.take update cfg r o).err = s.err ∨ (s.take update cfg r o).batch = []) := by
  have hbatch : Answers update { s with batch := s.batch ++ [r] } :=
    ⟨h.replies, h.session, h.whole, h.truthful, h.disjoint, h.made, h.refused⟩
  unfold WriterLoop.take
  simp only
  split
  · exact ⟨hbatch.flush hp o, phase_flush _ o, .inr (batch_flush _ o)⟩
  · exact ⟨hbatch, rfl, .inl rfl⟩

theorem Between.checkErr (h : Answers update s) (hp : s.phase = .running)
    (hbatch : s.err = none ∨ s.batch = []) :
    Between update s.checkErr := by
  unfold WriterLoop.checkErr
  split
  · rename_i herr
    have hne : s.err ≠ none := Option.isSome_iff_ne_none.mp herr
    exact ⟨h.toPhase (.inl hp) fun _ => hne, fun _ => hbatch.resolve_left hne, fun h => (nomatch h)⟩
  · rename_i herr
    exact ⟨h, fun hnot => absurd (.inl hp) hnot, fun _ => by simpa using herr⟩

theorem Between.exit (h : Answers update s) (hbatch : s.batch = []) : Between update s.exit where
  replies := h.replies
  session := h.session
  whole hexit := by rcases hexit with hexit | hexit <;> cases hexit
  truthful := h.truthful
  disjoint := h.disjoint
  made := h.made
  refused hexit := nomatch hexit
  idle _ := hbatch
  healthy hexit := nomatch hexit

theorem Between.refuse (h : Between update s) (hp : s.phase = .failing) (r : QueuedEvent) :
    Between update (s.refuse r) := by
  have hnot : ¬ s.phase.flushing := by
    rw [hp]
    rintro (h | h) <;> cases h
  refine ⟨⟨?_, h.session.trans (encodeLog_stamped_le _ _), fun hflush => absurd hflush hnot, ?_,
    h.disjoint, ?_, h.refused⟩, h.idle, h.healthy⟩
  · change (s.replies ++ (waiters s.answered.length [r]).map fun i => (i, s.err)).map Prod.fst = _
    rw [List.map_append, h.replies, WriterLoop.refuse, waiters_append, Nat.zero_add, List.map_map]
    exact congrArg _ (List.map_id _)
  · intro i hi
    rcases List.mem_append.mp hi with hi | hi
    · rw [WriterLoop.refuse, List.take_append_of_le_length (h.lt hi)]
      exact h.truthful i hi
    · obtain ⟨j, -, heq⟩ := List.mem_map.mp hi
      exact absurd (congrArg Prod.snd heq) (h.refused hp)
  · intro f hf
    rw [WriterLoop.refuse, List.length_append]
    exact Nat.le_add_right_of_le (h.made f hf)

theorem Between.start (durable : Bool) (fileSize : Nat) :
    Between update (.start durable fileSize) where
  replies := rfl
  session := List.nil_prefix
  whole _ := ⟨rfl, fun _ => rfl⟩
  truthful _ hi := nomatch hi
  disjoint := .nil
  made _ hf := nomatch hf
  refused h := nomatch h
  idle _ := rfl
  healthy _ := rfl

theorem Between.step (h : Between update s) (input : LoopInput) :
    Between update (s.step update cfg input) := by
  have hnot : s.phase = .failing → ¬ s.phase.flushing := by
    intro hp hflush
    rw [hp] at hflush
    rcases hflush with hflush | hflush <;> cases hflush
  cases input with
  | setDurable durable =>
    exact ⟨⟨h.replies, h.session, h.whole, h.truthful, h.disjoint, h.made, h.refused⟩,
      h.idle, h.healthy⟩
  | snapshotTick => exact h
  | event r o =>
    simp only [WriterLoop.step]
    split
    · rename_i hp
      obtain ⟨htake, hphase, hbatch⟩ := h.take cfg (.inl hp) r o
      exact .checkErr htake (hphase.trans hp)
        (hbatch.imp_left fun herr => herr.trans (h.healthy hp))
    · rename_i hp
      obtain ⟨htake, hphase, -⟩ := h.take cfg (.inr hp) r o
      have hp' := hphase.trans hp
      exact ⟨htake, fun hidle => absurd (.inr hp') hidle,
        fun hrun => by rw [hp'] at hrun; cases hrun⟩
    · rename_i hp
      exact h.refuse hp r
    · exact h
  | closed o =>
    simp only [WriterLoop.step]
    split
    · rename_i hp
      exact .exit (h.flush (.inl hp) o) (batch_flush s o)
    · rename_i hp
      exact .exit (h.flush (.inr hp) o) (batch_flush s o)
    · rename_i hp
      exact .exit h.toAnswers (h.idle (hnot hp))
    · exact h
  | flushTick o =>
    simp only [WriterLoop.step]
    split
    · rename_i hp
      exact .checkErr (h.flush (.inl hp) o) ((phase_flush s o).trans hp) (.inr (batch_flush s o))
    · exact h
  | stop =>
    simp only [WriterLoop.step]
    split
    · rename_i hp
      exact ⟨h.toPhase (.inl hp) (fun hfailing => (nomatch hfailing)),
        fun hidle => absurd (.inr rfl) hidle, fun hrun => (nomatch hrun)⟩
    · exact h
  | empty o =>
    simp only [WriterLoop.step]
    split
    · rename_i hp
      exact .exit (h.flush (.inr hp) o) (batch_flush s o)
    · rename_i hp
      exact .exit h.toAnswers (h.idle (hnot hp))
    · exact h

theorem Between.after (h : Between update s) (inputs : List LoopInput) :
    Between update (s.after update cfg inputs) := by
  induction inputs generalizing s with
  | nil => exact h
  | cons input inputs ih => exact ih (h.step input)

theorem Between.received_step (h : Between update s) (hp : s.phase ≠ .exited) (input : LoopInput) :
    (s.step update cfg input).received = s.received ++ input.event?.toList := by
  cases input with
  | event r o =>
    simp only [WriterLoop.step, LoopInput.event?, Option.toList_some]
    split
    · rw [received_checkErr, received_take]
    · exact received_take s r o
    · -- a refused event is behind all others: there is no batch any more
      rename_i hfailing
      have hbatch : s.batch = [] := h.idle (by rw [hfailing]; rintro (h | h) <;> cases h)
      simp [WriterLoop.refuse, received, hbatch]
    · contradiction
  | closed o =>
    simp only [WriterLoop.step, LoopInput.event?, Option.toList_none, List.append_nil]
    split
    any_goals exact received_flush s o
    all_goals rfl
  | flushTick o =>
    simp only [WriterLoop.step, LoopInput.event?, Option.toList_none, List.append_nil]
    split
    · rw [received_checkErr, received_flush]
    · rfl
  | empty o =>
    simp only [WriterLoop.step, LoopInput.event?, Option.toList_none, List.append_nil]
    split
    · exact received_flush s o
    all_goals rfl
  | stop =>
    simp only [WriterLoop.step, LoopInput.event?, Option.toList_none, List.append_nil]
    split <;> rfl
  | snapshotTick => exact (List.append_nil _).symm
  | setDurable durable => exact (List.append_nil _).symm

theorem after_of_exited (hp : s.phase = .exited) (inputs : List LoopInput) :
    (s.after update cfg inputs).received = s.received := by
  induction inputs generalizing s with
  | nil => rfl
  | cons input inputs ih =>
    have hstep : (s.step update cfg input).phase = .exited ∧
        (s.step update cfg input).received = s.received := by
      cases input <;> simp [WriterLoop.step, hp, received]
    exact (ih hstep.1).trans hstep.2

theorem Between.received_after (h : Between update s) (inputs : List LoopInput) :
    (s.after update cfg inputs).received =
      s.received ++ (s.untilExit update cfg inputs).filterMap LoopInput.event? := by
  induction inputs generalizing s with
  | nil => exact (List.append_nil _).symm
  | cons input inputs ih =>
    by_cases hp : s.phase = .exited
    · rw [after_of_exited hp, untilExit, if_pos hp, List.filterMap_nil, List.append_nil]
    · rw [untilExit, if_neg hp]
      refine (ih (h.step input)).trans ?_
      rw [h.received_step hp, List.append_assoc]
      cases hevent : input.event? with
      | none => rw [List.filterMap_cons_none hevent, Option.toList_none, List.nil_append]
      | some r => rw [List.filterMap_cons_some hevent, Option.toList_some, List.singleton_append]

theorem Answers.eq_of_has (h : Answers update s) {f f' : Flush} {i : Nat} (hf : f ∈ s.flushes)
    (hf' : f' ∈ s.flushes) (hi : f.Has i) (hi' : f'.Has i) : f = f' := by
  by_contra hne
  let apart (f f' : Flush) : Prop := f.first + f.count ≤ f'.first ∨ f'.first + f'.count ≤ f.first
  have : Std.Symm apart := ⟨fun _ _ => Or.symm⟩
  have hpairs : s.flushes.Pairwise apart := h.disjoint.imp Or.inl
  have hsep : f.first + f.count ≤ f'.first ∨ f'.first + f'.count ≤ f.first :=
    hpairs.forall hf hf' hne
  obtain ⟨hle, hlt⟩ := hi
  obtain ⟨hle', hlt'⟩ := hi'
  omega

theorem phase_stop_empty (s : WriterLoop) (o : FlushOutcome) :
    ((s.step update cfg .stop).step update cfg (.empty o)).phase = .exited := by
  cases hp : s.phase <;> simp [WriterLoop.step, hp, WriterLoop.exit]

end WriterLoop

/-- For every run of the writer and every result of its flushes: it has received the events of its
inputs up to its exit, in their order; whoever waits for one of them has had exactly one reply when
the writer exits, which it does once it is stopped; the reply is nil only if the flush of the
event's batch has succeeded, and the record is then in the log; and the session is a prefix of the
records of the events received, in that order and numbered from one. -/
theorem writer_answers_once_and_truthfully (update : UInt32 → Bytes → UInt32) (cfg : WALConfig)
    (durable : Bool) (fileSize : Nat) (inputs : List LoopInput) :
    let s := (WriterLoop.start durable fileSize).after update cfg inputs
    s.received = ((WriterLoop.start durable fileSize).untilExit update cfg inputs).filterMap
      LoopInput.event? ∧
    (s.phase = .exited → ∀ i r, s.received[i]? = some r →
      (s.replies.map Prod.fst).count i = if r.waiter then 1 else 0) ∧
    (∀ o, ((s.step update cfg .stop).step update cfg (.empty o)).phase = .exited) ∧
    (∀ i, (i, none) ∈ s.replies →
      encodeLog update (WriterLoop.stamped (s.received.take (i + 1))) <+: s.session ∧
      ∃ f ∈ s.flushes, f.Has i ∧ f.Succeeded ∧ ∀ f' ∈ s.flushes, f'.Has i → f' = f) ∧
    s.session <+: encodeLog update (WriterLoop.stamped s.received) ∧
    (WriterLoop.stamped s.received).map Event.seq = List.range' 1 s.received.length := by
  intro s
  have hstart : WriterLoop.Between update (.start durable fileSize) := .start durable fileSize
  have h : WriterLoop.Between update s := hstart.after inputs
  refine ⟨hstart.received_after inputs, ?_, s.phase_stop_empty, ?_,
    h.session.trans (WriterLoop.encodeLog_stamped_le _ _), ?_⟩
  · intro hexit i r hr
    have hbatch : s.batch = [] := h.idle (by rw [hexit]; rintro (h | h) <;> cases h)
    rw [WriterLoop.received, hbatch, List.append_nil] at hr
    have hcount := count_waiters 0 hr
    rwa [Nat.zero_add, ← h.replies] at hcount
  · intro i hi
    obtain ⟨hlog, f, hf, hhas, hsucc⟩ := h.truthful i hi
    refine ⟨?_, f, hf, hhas, hsucc, fun f' hf' hhas' => h.eq_of_has hf' hf hhas' hhas⟩
    rwa [WriterLoop.received, List.take_append_of_le_length (h.lt hi)]
  · rw [WriterLoop.stamped, map_seq_stamp, List.length_map]

namespace WriterLoop

def sampleQueued (id : Bytes) (waiter : Bool) : QueuedEvent :=
  ⟨⟨.publish, str "ns", str "q", str "g", id, str "payload", 0, 0⟩, waiter⟩

def sampleInputs : List LoopInput :=
  [.event (sampleQueued (str "a") true) ⟨none, none, .opened, 0⟩,
    .flushTick ⟨none, none, .opened, 0⟩,
    .event (sampleQueued (str "b") false) ⟨none, none, .opened, 0⟩,
    .event (sampleQueued (str "c") true) ⟨none,
      some ⟨false, str "no space left on device"⟩, .opened, 0⟩,
    .event (sampleQueued (str "d") true) ⟨none, none, .opened, 0⟩,
    .empty ⟨none, none, .opened, 0⟩]

end WriterLoop

theorem writer_answers_once_and_truthfully_sample :
    ∃ s, s = (WriterLoop.start true 0).after (fun crc _ => crc) ⟨2, 1000⟩ WriterLoop.sampleInputs ∧
      s.phase = .exited ∧ s.received[2]? = some (WriterLoop.sampleQueued (str "c") true) ∧
      s.received = ((WriterLoop.start true 0).untilExit (fun crc _ => crc) ⟨2, 1000⟩
        WriterLoop.sampleInputs).filterMap LoopInput.event? ∧
      (s.replies.map Prod.fst).count 2 = 1 ∧ (0, none) ∈ s.replies ∧
      ∃ f ∈ s.flushes, f.Has 0 ∧ f.Succeeded := by
  obtain ⟨s, hs, hexit, hreceived, hreply⟩ :
      ∃ s, s = (WriterLoop.start true 0).after (fun crc _ => crc) ⟨2,
        1000⟩ WriterLoop.sampleInputs ∧
        s.phase = .exited ∧ s.received[2]? = some (WriterLoop.sampleQueued (str "c") true) ∧
        (0, none) ∈ s.replies :=
    ⟨_, rfl, by decide +kernel, by decide +kernel, by decide +kernel⟩
  obtain ⟨hinputs, honce, -, htrue, -⟩ :=
    writer_answers_once_and_truthfully (fun crc _ => crc) ⟨2, 1000⟩ true 0 WriterLoop.sampleInputs
  rw [← hs] at hinputs honce htrue
  obtain ⟨-, f, hf, hhas, hsucc, -⟩ := htrue 0 hreply
  exact ⟨s, hs, hexit, hreceived, hinputs, honce hexit 2 _ hreceived, hreply, f, hf, hhas, hsucc⟩

end Octar
