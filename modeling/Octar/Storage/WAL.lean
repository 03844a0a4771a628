import Octar.Storage.Export

namespace Octar

open Go

def walChannelCap : Nat := 8192

structure QueueWAL (P : Type) where
  durable : Bool
  ch : List Event
  batch : List Event
  seq : Nat
  segmentID : Nat
  stateProvider : Option P

structure WAL (P : Type) where
  durable : Bool
  lastSegmentID : Bytes → Nat
  queues : Map Bytes (QueueWAL P)
  queueDurable : Map Bytes Bool

def walKey (ns queue : Bytes) : Bytes := ns ++ str "/" ++ queue

/-- The calls on a WAL.  `receive` and `flush` are the steps of a queue's writer goroutine; a flush
rotates the segment if its file has reached the maximal size. -/
inductive WALOp (P : Type)
  | registerQueueState (ns queue : Bytes) (provider : P)
  | setQueueDurable (ns queue : Bytes) (durable : Bool)
  | append (e : Event)
  | appendSync (e : Event)
  | receive (ns queue : Bytes)
  | flush (ns queue : Bytes) (rotated : Bool)
  | saveSnapshot (ns queue : Bytes) (call : P → Option QueueState) (ord : RangeOrder) (now : Int)

namespace QueueWAL

variable {P : Type}

def send (q : QueueWAL P) (e : Event) : QueueWAL P :=
  if q.ch.length < walChannelCap then { q with ch := q.ch ++ [e] } else q

def receive (q : QueueWAL P) : QueueWAL P :=
  { q with ch := q.ch.drop 1, batch := q.batch ++ q.ch.take 1 }

def flush (q : QueueWAL P) (rotated : Bool) : QueueWAL P :=
  { q with
    batch := []
    seq := q.seq + q.batch.length
    segmentID := if rotated then q.segmentID + 1 else q.segmentID }

end QueueWAL

def providedGroups (ord : RangeOrder) : Option QueueState → List GroupSnapshot
  | none => []
  | some state => convertQueueStateToSnapshot ord state

def QueueWAL.snapshot {P : Type} (q : QueueWAL P) (call : P → Option QueueState) (ord : RangeOrder)
    (now : Int) : Snapshot where
  segmentID := q.segmentID
  walSeq := q.seq
  timestamp := now
  groups := providedGroups ord (q.stateProvider.bind call)

def newWAL (P : Type) (durable : Bool) (lastSegmentID : Bytes → Nat) : WAL P :=
  ⟨durable, lastSegmentID, ∅, ∅⟩

namespace WAL

variable {P : Type}

def newQueueWAL (w : WAL P) (key : Bytes) : QueueWAL P :=
  ⟨(w.queueDurable.lookup key).getD w.durable, [], [], 0, w.lastSegmentID key, none⟩

def getQueueWAL (w : WAL P) (key : Bytes) : QueueWAL P :=
  (w.queues.lookup key).getD (w.newQueueWAL key)

def update (w : WAL P) (key : Bytes) (f : QueueWAL P → QueueWAL P) : WAL P :=
  match w.queues.lookup key with
  | none => w
  | some q => { w with queues := w.queues.insert key (f q) }

def send (w : WAL P) (e : Event) : WAL P :=
  let key := walKey e.ns e.queue
  { w with queues := w.queues.insert key ((w.getQueueWAL key).send e) }

def registerQueueState (w : WAL P) (ns queue : Bytes) (provider : P) : WAL P :=
  w.update (walKey ns queue) fun q => { q with stateProvider := some provider }

def setQueueDurable (w : WAL P) (ns queue : Bytes) (durable : Bool) : WAL P :=
  let key := walKey ns queue
  { w with queueDurable := w.queueDurable.insert key durable }.update key fun q =>
    { q with durable := durable }

def exec (w : WAL P) : WALOp P → WAL P × Option Snapshot
  | .registerQueueState ns queue provider => (w.registerQueueState ns queue provider, none)
  | .setQueueDurable ns queue durable => (w.setQueueDurable ns queue durable, none)
  | .append e | .appendSync e => (w.send e, none)
  | .receive ns queue => (w.update (walKey ns queue) QueueWAL.receive, none)
  | .flush ns queue rotated => (w.update (walKey ns queue) fun q => q.flush rotated, none)
  | .saveSnapshot ns queue call ord now =>
    (w, (w.queues.lookup (walKey ns queue)).map fun q => q.snapshot call ord now)

def after (w : WAL P) (ops : List (WALOp P)) : WAL P := ops.foldl (fun w op => (w.exec op).1) w

end WAL

namespace WALOp

variable {P : Type}

def registers : WALOp P → Option (Bytes × P)
  | .registerQueueState ns queue provider => some (walKey ns queue, provider)
  | _ => none

def appends : WALOp P → Option Bytes
  | .append e | .appendSync e => some (walKey e.ns e.queue)
  | _ => none

end WALOp

namespace WAL

variable {P : Type} {w : WAL P} {key : Bytes}

def provider (w : WAL P) (key : Bytes) : Option P :=
  (w.queues.lookup key).bind QueueWAL.stateProvider

theorem lookup_update (w : WAL P) (key' : Bytes) (f : QueueWAL P → QueueWAL P) (key : Bytes) :
    (w.update key' f).queues.lookup key =
      if key = key' then (w.queues.lookup key).map f else w.queues.lookup key := by
  unfold update
  split
  · rename_i hnone
    split
    · rename_i hk
      rw [hk, hnone]
      rfl
    · rfl
  · rename_i q hq
    by_cases hk : key = key'
    · subst hk
      simp [hq]
    · simp [hk, AList.lookup_insert_ne hk]

theorem isSome_update (w : WAL P) (key' : Bytes) (f : QueueWAL P → QueueWAL P) (key : Bytes) :
    ((w.update key' f).queues.lookup key).isSome = (w.queues.lookup key).isSome := by
  rw [lookup_update]
  split <;> simp

theorem provider_update (w : WAL P) (key' : Bytes) (f : QueueWAL P → QueueWAL P)
    (hf : ∀ q, (f q).stateProvider = q.stateProvider) (key : Bytes) :
    (w.update key' f).provider key = w.provider key := by
  rw [provider, provider, lookup_update]
  split
  · cases w.queues.lookup key with
    | none => rfl
    | some q => exact hf q
  · rfl

theorem lookup_send (w : WAL P) (e : Event) (key : Bytes) :
    (w.send e).queues.lookup key =
      if key = walKey e.ns e.queue then some ((w.getQueueWAL key).send e)
      else w.queues.lookup key := by
  by_cases hk : key = walKey e.ns e.queue
  · subst hk
    rw [if_pos rfl]
    exact AList.lookup_insert _
  · rw [if_neg hk]
    exact AList.lookup_insert_ne hk

theorem provider_send (w : WAL P) (e : Event) (key : Bytes) :
    (w.send e).provider key = w.provider key := by
  rw [provider, provider, lookup_send]
  split
  · have hsend : ∀ q : QueueWAL P, (q.send e).stateProvider = q.stateProvider := by
      intro q
      unfold QueueWAL.send
      split <;> rfl
    rw [Option.bind_some, hsend, getQueueWAL]
    cases w.queues.lookup key <;> rfl
  · rfl

theorem isSome_exec (w : WAL P) (op : WALOp P) (key : Bytes) :
    ((w.exec op).1.queues.lookup key).isSome ↔ (w.queues.lookup key).isSome ∨
      op.appends = some key := by
  cases op with
  | append e | appendSync e =>
    simp only [exec, lookup_send, WALOp.appends, Option.some.injEq]
    split
    · rename_i hk
      simp [hk]
    · rename_i hk
      simp [Ne.symm hk]
  | registerQueueState | receive | flush => simp [exec, registerQueueState, isSome_update,
    WALOp.appends]
  | setQueueDurable => simp [exec, setQueueDurable, isSome_update, WALOp.appends]
  | saveSnapshot => simp [exec, WALOp.appends]

theorem provider_exec (w : WAL P) {op : WALOp P} (h : ∀ p, op.registers ≠ some (key, p)) :
    (w.exec op).1.provider key = w.provider key := by
  cases op with
  | append e | appendSync e => exact provider_send w e key
  | registerQueueState ns queue p =>
    have hk : key ≠ walKey ns queue := fun hk => h p (by rw [hk]; rfl)
    rw [exec, provider, registerQueueState, lookup_update, if_neg hk]
    rfl
  | setQueueDurable ns queue durable =>
    exact provider_update _ _ (fun q => { q with durable := durable }) (fun _ => rfl) key
  | receive ns queue => exact provider_update w _ QueueWAL.receive (fun _ => rfl) key
  | flush ns queue rotated =>
    exact provider_update w _ (fun q => q.flush rotated) (fun _ => rfl) key
  | saveSnapshot => rfl

theorem provider_register (w : WAL P) {op : WALOp P} {p : P} (h : op.registers = some (key, p)) :
    (w.exec op).1.provider key = if (w.queues.lookup key).isSome then some p else none := by
  cases op with
  | registerQueueState ns queue p' =>
    cases h
    rw [exec, provider, registerQueueState, lookup_update, if_pos rfl]
    cases w.queues.lookup (walKey ns queue) <;> rfl
  | setQueueDurable | append | appendSync | receive | flush | saveSnapshot => cases h

theorem after_append (w : WAL P) (l l' : List (WALOp P)) :
    w.after (l ++ l') = (w.after l).after l' :=
  List.foldl_append

theorem isSome_after (w : WAL P) (ops : List (WALOp P)) (key : Bytes) :
    ((w.after ops).queues.lookup key).isSome ↔
      (w.queues.lookup key).isSome ∨ ∃ op ∈ ops, op.appends = some key := by
  induction ops generalizing w with
  | nil => simp [after]
  | cons op ops ih =>
    rw [after, List.foldl_cons, ← after, ih, isSome_exec]
    simp [or_assoc]

theorem provider_after (w : WAL P) {ops : List (WALOp P)}
    (h : ∀ op ∈ ops, ∀ p, op.registers ≠ some (key, p)) :
    (w.after ops).provider key = w.provider key := by
  induction ops generalizing w with
  | nil => rfl
  | cons op ops ih =>
    rw [List.forall_mem_cons] at h
    rw [after, List.foldl_cons, ← after, ih _ h.2, provider_exec w h.1]

end WAL

/-- A snapshot contains the state of the provider registered last for its key exactly if an append
came before that registration, or there is no state to contain. -/
theorem snapshot_has_registered_state_iff {P : Type} {durable : Bool} {lastSegmentID : Bytes → Nat}
    (before rest : List (WALOp P)) (register : WALOp P) {ns queue : Bytes} {p : P}
    {call : P → Option QueueState} {ord : RangeOrder} {now : Int} {snap : Snapshot}
    (hregister : register.registers = some (walKey ns queue, p))
    (hlast : ∀ op ∈ rest, ∀ p', op.registers ≠ some (walKey ns queue, p'))
    (hsnap : (((newWAL P durable lastSegmentID).after (before ++ register :: rest)).exec
      (.saveSnapshot ns queue call ord now)).2 = some snap) :
    snap.groups = providedGroups ord (call p) ↔
      (∃ op ∈ before, op.appends = some (walKey ns queue)) ∨ providedGroups ord (call p) = [] := by
  let w := (newWAL P durable lastSegmentID).after before
  have hmade : (w.queues.lookup (walKey ns queue)).isSome ↔
      ∃ op ∈ before, op.appends = some (walKey ns queue) := by
    rw [WAL.isSome_after]
    simp [newWAL]
  have hprovider : ((newWAL P durable lastSegmentID).after (before ++ register :: rest)).provider
      (walKey ns queue) = if (w.queues.lookup (walKey ns queue)).isSome then some p else none := by
    rw [WAL.after_append, WAL.after, List.foldl_cons, ← WAL.after, WAL.provider_after _ hlast,
      WAL.provider_register _ hregister]
  obtain ⟨q, hq, rfl⟩ := Option.map_eq_some_iff.mp hsnap
  rw [WAL.provider, hq, Option.bind_some] at hprovider
  rw [← hmade, QueueWAL.snapshot, hprovider]
  by_cases hw : (w.queues.lookup (walKey ns queue)).isSome
  · simp [hw]
  · simp only [hw, if_false, false_or, Bool.false_eq_true]
    exact eq_comm

def heldState : QueueState :=
  ⟨[], [], AList.singleton (str "g")
    ⟨str "g", 1, 1, [newMessageAt [] [] (str "g") [] 0 (str "a")], [], [], none⟩⟩

def snapshotAfter (ops : List (WALOp Unit)) : Option Snapshot :=
  (((newWAL Unit true fun _ => 0).after ops).exec
    (.saveSnapshot [] [] (fun _ => some heldState) .inOrder 0)).2

theorem snapshot_has_registered_state_sample :
    ∃ snap, snapshotAfter [.append sampleRecord, .registerQueueState [] [] ()] = some snap ∧
      snap.groups = convertQueueStateToSnapshot .inOrder heldState := by
  refine ⟨_, rfl, ?_⟩
  exact (snapshot_has_registered_state_iff [.append sampleRecord] []
    (.registerQueueState [] [] ()) rfl (by simp) rfl).mpr (.inl ⟨_, List.mem_singleton_self _, rfl⟩)

/-- A provider registered before the first append never reaches the writer. -/
theorem snapshot_misses_registered_state :
    ∃ snap, snapshotAfter [.registerQueueState [] [] (), .append sampleRecord, .receive [] [],
        .flush [] [] false] = some snap ∧
      snap.walSeq = 1 ∧ snap.groups = [] ∧ convertQueueStateToSnapshot .inOrder heldState ≠ [] :=
  ⟨_, rfl, rfl, rfl, by decide⟩

end Octar
