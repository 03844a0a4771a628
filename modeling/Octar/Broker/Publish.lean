import Octar.Broker.ReplayMoves
import Octar.Storage.Contents
import Octar.Storage.WAL

/-! `onPublish` on one queue of the broker, with the writer it waits for and the restarts after
it. -/

namespace Octar

open Go

structure PublishFrame where
  group : Bytes
  payload : Bytes
  deriving DecidableEq, Repr

inductive ErrorText
  | text (s : Bytes)
  | queue (err : QueueError)
  deriving DecidableEq, Repr

inductive Answer
  | publishOK (msgID : Bytes)
  | error (code : Nat) (message : ErrorText)
  | backpressure (reason : Bytes) (retryAfter : Nat)
  deriving DecidableEq, Repr

/-- The ways `onPublish` ends.  `AppendSync` fails because the writer has given up, because the
channel stays full, with the error of a flush, which may have `written` the record all the same, or
because no reply has come. -/
inductive PublishOutcome
  | queueNotFound
  | globalLimit
  | walFailed
  | channelFull
  | flushFailed (written : Bool)
  | unconfirmed
  | refused (err : QueueError)
  | accepted
  deriving DecidableEq, Repr

namespace PublishOutcome

def answer (queue msgID : Bytes) : PublishOutcome → Answer
  | .queueNotFound => .error 404 (.text (str "queue not found: " ++ queue))
  | .globalLimit => .backpressure (str "global message limit reached") 5
  | .walFailed | .channelFull | .flushFailed _ | .unconfirmed =>
    .error 500 (.text (str "internal durability error"))
  | .refused err => .error 500 (.queue err)
  | .accepted => .publishOK msgID

def NeverWritten : PublishOutcome → Prop
  | .queueNotFound | .globalLimit | .walFailed | .channelFull => True
  | .flushFailed written => written = false
  | .unconfirmed | .refused _ | .accepted => False

end PublishOutcome

/-- One queue of a broker.  `ch` are the events in the channel or the batch of the writer, `waiting`
and `confirmed` the publishers that wait for the writer and those it has answered with nil.  A
snapshot file is the snapshot, or unreadable.  `ended` and `handedOut` are the history: how each
`onPublish` has ended, and the messages given to consumers. -/
structure Broker where
  name : Bytes
  ns : Bytes
  globalMaxMsgs : Int
  globalMsgs : Int
  queue : Option Queue
  walFailed : Bool
  ch : List Event
  waiting : List Event
  confirmed : List Event
  wal : OpenWriter (Option Snapshot)
  exported : Option QueueState
  ended : List (Bytes × PublishOutcome)
  handedOut : List Message

/-- What can become of the files: how many records are missing at the end of a log, and which
snapshots cannot be read. -/
structure Damage where
  missing : Bytes → Nat
  torn : Bytes → Bool

namespace Damage

def nothing : Damage := ⟨fun _ => 0, fun _ => false⟩

def apply (damage : Damage) (d : Dir (Option Snapshot)) : Dir (Option Snapshot) :=
  Map.mapTo d fun name f =>
    match f with
    | .log records => .log (records.take (records.length - damage.missing name))
    | .idx => .idx
    | .snap content => .snap (if damage.torn name then none else content)

end Damage

/-- What happens in a broker.  `publish` is `onPublish` up to the wait in `AppendSync`, with the
identifier it generates and whether the channel takes the event; `timeout` and `enqueue` are what
follows on the wait.  A `flush` answers the publishers of the next `count` events; a failed one
tells how many records came into the log, one that is cut off included, and whether the writer gives
up. A `live` operation appends records of other types.  A `restart` loses what is `lost` of the
files and does not see what is `hidden`, such as a record that is cut off and all that follow it. -/
inductive BrokerStep
  | declareQueue
  | publish (f : PublishFrame) (msgID : Bytes) (sent : Bool)
  | flush (count : Nat) (failure : Option (Nat × Bool))
  | timeout (msgID : Bytes)
  | enqueue (msgID : Bytes) (now : Int)
  | live (op : LiveOp) (records : List { e : Event // e.type ≠ .publish })
  | addGlobalMsgs (delta : Int)
  | rotate (result : OpenResult)
  | beginSnapshot
  | exportState
  | writeSnapshot (ord : RangeOrder) (now : Int)
  | removeOldSegments
  | restart (lost hidden : Damage) (cfgs : List GroupConfig) (ord : RangeOrder) (now : Int)
    (clock : Event → Int)

def BrokerStep.publishID : BrokerStep → Option Bytes
  | .publish _ msgID _ => some msgID
  | .live op _ => op.publishID
  | _ => none

namespace Broker

def start (name ns : Bytes) (globalMaxMsgs : Int) : Broker :=
  ⟨name, ns, globalMaxMsgs, 0, none, false, [], [], [], .newQueueWAL ∅, none, [], []⟩

def incGlobalMsgs (b : Broker) : Option Broker :=
  if 0 < b.globalMaxMsgs ∧ b.globalMaxMsgs ≤ b.globalMsgs then none
  else some { b with globalMsgs := b.globalMsgs + 1 }

def decGlobalMsgs (b : Broker) : Broker := { b with globalMsgs := b.globalMsgs - 1 }

def finish (b : Broker) (msgID : Bytes) (o : PublishOutcome) : Broker :=
  { b with ended := b.ended ++ [(msgID, o)] }

def publishEvent (b : Broker) (f : PublishFrame) (msgID : Bytes) : Event :=
  ⟨.publish, b.ns, b.name, f.group, msgID, f.payload, 0, 0⟩

def publish (b : Broker) (f : PublishFrame) (msgID : Bytes) (sent : Bool) : Broker :=
  match b.queue with
  | none => b.finish msgID .queueNotFound
  | some _ =>
    match b.incGlobalMsgs with
    | none => b.finish msgID .globalLimit
    | some b =>
      if b.walFailed then (b.finish msgID .walFailed).decGlobalMsgs
      else if sent then
        { b with
          ch := b.ch ++ [b.publishEvent f msgID]
          waiting := b.waiting ++ [b.publishEvent f msgID] }
      else (b.finish msgID .channelFull).decGlobalMsgs

def flushOK (b : Broker) (count : Nat) : Broker :=
  let batch := b.ch.take count
  { b with
    ch := b.ch.drop count
    waiting := b.waiting.filter fun e => e ∉ batch
    confirmed := b.confirmed ++ b.waiting.filter fun e => e ∈ batch
    wal := b.wal.flushBatch batch }

def flushError (b : Broker) (count written : Nat) (failed : Bool) : Broker :=
  let batch := b.ch.take count
  let replied := b.waiting.filter fun e => e ∈ batch
  { b with
    globalMsgs := b.globalMsgs - replied.length
    walFailed := failed
    ch := b.ch.drop count
    waiting := b.waiting.filter fun e => e ∉ batch
    wal := { b.wal.flushBatch (batch.take written) with seq := b.wal.seq + batch.length }
    ended := b.ended ++ replied.map fun e => (e.msgID, .flushFailed (e ∈ batch.take written)) }

def flush (b : Broker) (count : Nat) (failure : Option (Nat × Bool)) : Broker :=
  if b.walFailed then b.flushError count 0 true
  else
    match failure with
    | none => b.flushOK count
    | some (written, failed) => b.flushError count written failed

def timeout (b : Broker) (msgID : Bytes) : Broker :=
  if ∃ e ∈ b.waiting, e.msgID = msgID then
    ({ b with waiting := b.waiting.filter fun e => e.msgID ≠ msgID }.finish msgID
      .unconfirmed).decGlobalMsgs
  else b

section

variable [PathMatch]

def enqueue (b : Broker) (msgID : Bytes) (now : Int) : Except Panic Broker :=
  match b.queue, b.confirmed.find? fun e => e.msgID = msgID with
  | some q, some e => do
    let (q, r) ← q.publishWithID e.group e.msgID e.payload now
    let b := { b with queue := some q, confirmed := b.confirmed.filter fun e => e.msgID ≠ msgID }
    match r with
    | .ok _ => return b.finish msgID .accepted
    | .error err => return (b.finish msgID (.refused err)).decGlobalMsgs
  | _, _ => .ok b

def live (b : Broker) (op : LiveOp) (records : List Event) : Except Panic Broker :=
  match b.queue with
  | none => .ok b
  | some q => do
    let (q, r) ← q.exec op
    return { b with
      queue := some q, ch := b.ch ++ records, handedOut := b.handedOut ++ r.handedOut }

/-- The broker stops and starts again: the queue is made from its group configs in the database, its
snapshot and its log. -/
def restart (b : Broker) (lost hidden : Damage) (cfgs : List GroupConfig) (ord : RangeOrder)
    (now : Int) (clock : Event → Int) : Except Panic Broker :=
  let dir := lost.apply b.wal.dir
  let b' := { b with
    globalMsgs := 0
    walFailed := false
    ch := []
    waiting := []
    confirmed := []
    exported := none
    wal := .newQueueWAL dir }
  match b.queue with
  | none => .ok b'
  | some _ => do
    let q ← Octar.restart (cfgs.foldl Queue.setGroupConfig (newQueue b.name b.ns)) ord now clock
      ((hidden.apply dir).recovered fun content => content)
    return { b' with queue := some q }

def step (b : Broker) : BrokerStep → Except Panic Broker
  | .declareQueue => .ok { b with queue := b.queue.or (some (newQueue b.name b.ns)) }
  | .publish f msgID sent => .ok (b.publish f msgID sent)
  | .flush count failure => .ok (b.flush count failure)
  | .timeout msgID => .ok (b.timeout msgID)
  | .enqueue msgID now => b.enqueue msgID now
  | .live op records => b.live op (records.map Subtype.val)
  | .addGlobalMsgs delta => .ok { b with globalMsgs := b.globalMsgs + delta }
  | .rotate result => .ok { b with wal := b.wal.rotateSegment result }
  | .beginSnapshot => .ok { b with wal := b.wal.beginSnapshot }
  | .exportState => .ok { b with exported := b.queue.map Queue.exportState }
  | .writeSnapshot ord now =>
    .ok { b with
      wal := b.wal.writeSnapshot some (providedGroups ord b.exported) now, exported := none }
  | .removeOldSegments => .ok { b with wal := b.wal.removeOldSegments }
  | .restart lost hidden cfgs ord now clock => b.restart lost hidden cfgs ord now clock

end

end Broker

end Octar
