import Octar.Lib.Run
import Octar.Queue.Queue
import Octar.Storage.Event

namespace Octar

open Go

def messageForRecovery (queueName ns groupKey : Bytes) (ms : MessageSnapshot) : Message :=
  { newMessageAt queueName ns groupKey ms.payload ms.createdAt ms.id with
    state := .ofInt8 ms.state
    attempts := ms.attempts
    scheduledAt := ms.scheduledAt
    lastError := ms.lastError }

def restoreMessage (now : Int) (gs : GroupState) (msg : Message) : GroupState :=
  match msg.state with
  | .processing => { gs with processingMsgs := some (gs.processingMsgs.table.insert msg.id msg) }
  | .pending =>
    if now < msg.scheduledAt then { gs with delayedMsgs := gs.delayedMsgs ++ [msg] }
    else { gs with readyMsgs := gs.readyMsgs ++ [msg] }
  | _ => gs

def restoreGroup (queueName ns : Bytes) (now : Int) (gs : GroupSnapshot) : GroupState :=
  (gs.messages.map (messageForRecovery queueName ns gs.key)).foldl (restoreMessage now)
    { key := gs.key, parallelism := gs.parallelism, quantum := gs.quantum, readyMsgs := [],
      urgentMsgs := [], delayedMsgs := [], processingMsgs := none }

def restoreState (queueName ns : Bytes) (now : Int) (groups : List GroupSnapshot) : QueueState :=
  ⟨[], [], groups.foldl (fun m gs => m.insert gs.key (restoreGroup queueName ns now gs)) ∅⟩

namespace Queue

def onSnapshot [PathMatch] (q : Queue) (snap : Snapshot) (ord : RangeOrder) (now : Int) :
    Except Panic Queue := q.importState ord (restoreState q.name q.ns now snap.groups)

def onPublish [PathMatch] (q : Queue) (e : Event) (now : Int) : Except Panic Queue := do
  let (q, _) ← q.publishWithID e.group e.msgID e.payload now
  return q

def onLease (q : Queue) (e : Event) (now : Int) : Except Panic Queue := do
  let (q, _) ← q.replayLease e.group e.msgID now
  return q

def onACK (q : Queue) (e : Event) : Queue :=
  match q.complete e.group e.msgID with
  | (q, .ok _) => q
  | (q, .error _) => (q.removeMessage e.group e.msgID).1

def onNACK (q : Queue) (e : Event) (now : Int) : Except Panic Queue := do
  let (q, r) ← q.fail e.group e.msgID (str "replayed NACK") now
  match r with
  | .ok _ => return q
  | .error _ => return (q.removeMessage e.group e.msgID).1

def onExpire (q : Queue) (e : Event) : Queue := (q.complete e.group e.msgID).1

def dispatch [PathMatch] (q : Queue) (e : Event) (now : Int) : Except Panic Queue :=
  match e.type with
  | .publish => q.onPublish e now
  | .lease => q.onLease e now
  | .ack => .ok (q.onACK e)
  | .nack => q.onNACK e now
  | .expire => .ok (q.onExpire e)
  | .unknown _ => .ok q

end Queue

def replayEvents [PathMatch] (q : Queue) (events : List (Event × Int)) : Except Panic Queue :=
  run (fun q e => q.dispatch e.1 e.2) q events

end Octar
