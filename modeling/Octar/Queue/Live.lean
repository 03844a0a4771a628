import Octar.Lib.Run
import Octar.Queue.Queue

namespace Octar

open Go

inductive LiveOp
  | publish (groupKey payload newID : Bytes) (now : Int)
  | publishWithID (groupKey msgID payload : Bytes) (now : Int)
  | tryDispatchOne (groupKey : Bytes) (ord : RangeOrder) (now : Int)
  | drainGroup (groupKey : Bytes) (ord : RangeOrder) (now : Int)
  | complete (groupKey msgID : Bytes)
  | completeAndNext (groupKey msgID : Bytes) (ord : RangeOrder) (now : Int)
  | fail (groupKey msgID errMsg : Bytes) (now : Int)
  | failAndNext (groupKey msgID errMsg : Bytes) (ord : RangeOrder) (now : Int)
  | returnToPending (groupKey msgID : Bytes)
  | sweepExpiredLeases (ord : RangeOrder) (now : Int)
  | setGroupConfig (cfg : GroupConfig)
  | deleteGroupConfig (key : Bytes)

structure Reply where
  accepted : List Message
  handedOut : List Message

namespace Reply

def nothing : Reply := ⟨[], []⟩

def published : Except QueueError Message → Reply
  | .ok msg => ⟨[msg], []⟩
  | .error _ => nothing

def handed (msgs : List Message) : Reply := ⟨[], msgs⟩

end Reply

def LiveOp.publishID : LiveOp → Option Bytes
  | .publish _ _ newID _ => some newID
  | .publishWithID _ msgID _ _ => some msgID
  | _ => none

def LiveOp.publishKey : LiveOp → Option Bytes
  | .publish groupKey _ _ _ | .publishWithID groupKey _ _ _ => some groupKey
  | _ => none

namespace Queue

def exec [PathMatch] (q : Queue) : LiveOp → Except Panic (Queue × Reply)
  | .publish groupKey payload newID now => do
    let (q, r) ← q.publish groupKey payload newID now
    return (q, .published r)
  | .publishWithID groupKey msgID payload now => do
    let (q, r) ← q.publishWithID groupKey msgID payload now
    return (q, .published r)
  | .tryDispatchOne groupKey ord now => do
    let (q, msg) ← q.tryDispatchOne groupKey ord now
    return (q, .handed msg.toList)
  | .drainGroup groupKey ord now => do
    let (q, r) ← q.drainGroup groupKey ord now
    return (q, .handed (r.ready.getD []))
  | .complete groupKey msgID => .ok ((q.complete groupKey msgID).1, .nothing)
  | .completeAndNext groupKey msgID ord now => do
    let (q, msg) ← q.completeAndNext groupKey msgID ord now
    return (q, .handed msg.toList)
  | .fail groupKey msgID errMsg now => do
    let (q, _) ← q.fail groupKey msgID errMsg now
    return (q, .nothing)
  | .failAndNext groupKey msgID errMsg ord now => do
    let (q, _, msg) ← q.failAndNext groupKey msgID errMsg ord now
    return (q, .handed msg.toList)
  | .returnToPending groupKey msgID => .ok (q.returnToPending groupKey msgID, .nothing)
  | .sweepExpiredLeases ord now => .ok ((q.sweepExpiredLeases ord now).1, .nothing)
  | .setGroupConfig cfg => .ok (q.setGroupConfig cfg, .nothing)
  | .deleteGroupConfig key => .ok ((q.deleteGroupConfig key).1, .nothing)

def leasedMessage (q : Queue) (groupKey msgID : Bytes) : Option (Group × Message) :=
  (q.groups.lookup groupKey).bind fun g => (g.processing.get? msgID).map fun msg => (g, msg)

def completedBy (q : Queue) : LiveOp → List Message
  | .complete groupKey msgID | .completeAndNext groupKey msgID _ _ =>
    (q.leasedMessage groupKey msgID).toList.map fun s => s.2.origin
  | _ => []

def exhaustedBy (q : Queue) : LiveOp → List Message
  | .fail groupKey msgID _ _ | .failAndNext groupKey msgID _ _ _ =>
    ((q.leasedMessage groupKey msgID).toList.filter fun s =>
      s.1.cfg.retry.maxAttempts ≤ s.2.attempts + 1).map fun s => s.2.origin
  | _ => []

end Queue

inductive QueueStep
  | live (op : LiveOp)
  | importState (ord : RangeOrder) (state : QueueState)

def Queue.take [PathMatch] (q : Queue) : QueueStep → Except Panic Queue
  | .live op => do
    let (q, _) ← q.exec op
    return q
  | .importState ord state => q.importState ord state

structure LiveRun where
  queue : Queue
  accepted : List Message
  completed : List Message
  exhausted : List Message

namespace LiveRun

def start (name ns : Bytes) : LiveRun := ⟨newQueue name ns, [], [], []⟩

def step [PathMatch] (s : LiveRun) (op : LiveOp) : Except Panic LiveRun := do
  let (q, r) ← s.queue.exec op
  return {
    queue := q
    accepted := s.accepted ++ r.accepted.map Message.origin
    completed := s.completed ++ s.queue.completedBy op
    exhausted := s.exhausted ++ s.queue.exhaustedBy op }

end LiveRun

def runLive [PathMatch] (name ns : Bytes) (ops : List LiveOp) : Except Panic LiveRun :=
  run LiveRun.step (.start name ns) ops

end Octar
