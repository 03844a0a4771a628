import Octar.Queue.Group
import Mathlib.Data.List.Sort

namespace Octar

open Go

/-- The 32 lock stripes are one map here: a key is always looked up in the stripe its hash picks,
so the stripes are disjoint and every operation sees their union. -/
structure Queue where
  name : Bytes
  ns : Bytes
  cfgIdx : ConfigIdx
  groups : Map Bytes Group
  keyIdx : List Bytes

def newQueue (name ns : Bytes) : Queue := ⟨name, ns, newConfigIdx, ∅, []⟩

inductive QueueError
  | depthLimitExceeded (group : Bytes) (maxPending : Int)
  | groupNotFound (group : Bytes)
  | messageNotFound (msgID : Bytes)
  deriving DecidableEq, Repr

structure ExpiredLease where
  ns : Bytes
  queueName : Bytes
  groupKey : Bytes
  msgID : Bytes
  deriving DecidableEq, Repr

def keyIdxAdd (keys : List Bytes) (key : Bytes) : List Bytes :=
  let i := keys.findIdx fun k => decide (key ≤ k)
  if keys[i]? = some key then keys else keys.take i ++ key :: keys.drop i

namespace Queue

def resolveConfig [PathMatch] (q : Queue) (key : Bytes) : GroupConfig :=
  (q.cfgIdx.resolve key).getD (defaultGroupConfig key)

def setGroup (q : Queue) (key : Bytes) (g : Group) : Queue :=
  { q with groups := q.groups.insert key g }

def groupFor [PathMatch] (q : Queue) (groupKey : Bytes) : Except Panic Group :=
  match q.groups.lookup groupKey with
  | some g => .ok g
  | none => newGroup (q.resolveConfig groupKey)

def publishWithID [PathMatch] (q : Queue) (groupKey msgID payload : Bytes) (now : Int) :
    Except Panic (Queue × Except QueueError Message) := do
  let g ← q.groupFor groupKey
  if 0 < g.cfg.maxPending ∧ g.cfg.maxPending ≤ g.pendingCount then
    return (q.setGroup groupKey g, .error (.depthLimitExceeded groupKey g.cfg.maxPending))
  let msg := newMessageAt q.name q.ns groupKey payload now msgID
  let q' := q.setGroup groupKey (g.enqueue msg)
  if (q.groups.lookup groupKey).isSome then return (q', .ok msg)
  return ({ q' with keyIdx := keyIdxAdd q.keyIdx groupKey }, .ok msg)

def publish [PathMatch] (q : Queue) (groupKey payload : Bytes) (newID : Bytes) (now : Int) :
    Except Panic (Queue × Except QueueError Message) := q.publishWithID groupKey newID payload now

def returnToPending (q : Queue) (groupKey msgID : Bytes) : Queue :=
  match q.groups.lookup groupKey with
  | none => q
  | some g => q.setGroup groupKey (g.returnToPending msgID)

def complete (q : Queue) (groupKey msgID : Bytes) : Queue × Except QueueError Unit :=
  match q.groups.lookup groupKey with
  | none => (q, .error (.groupNotFound groupKey))
  | some g =>
    match g.complete msgID with
    | (g, none) => (q.setGroup groupKey g, .error (.messageNotFound msgID))
    | (g, some _) => (q.setGroup groupKey g, .ok ())

def completeAndNext (q : Queue) (groupKey msgID : Bytes) (ord : RangeOrder) (now : Int) :
    Except Panic (Queue × Option Message) :=
  match q.groups.lookup groupKey with
  | none => .ok (q, none)
  | some g => do
    let (g, _) := g.complete msgID
    let (g, _) := g.promoteDelayed ord now
    let (g, msg) ← g.next now
    return (q.setGroup groupKey g, msg)

def tryDispatchOne (q : Queue) (groupKey : Bytes) (ord : RangeOrder) (now : Int) :
    Except Panic (Queue × Option Message) :=
  match q.groups.lookup groupKey with
  | none => .ok (q, none)
  | some g => do
    let (g, _) := g.promoteDelayed ord now
    let (g, msg) ← g.next now
    return (q.setGroup groupKey g, msg)

def dlqTarget (g : Group) (dlq : Option Message) : Option (Bytes × Message) :=
  match dlq, g.cfg.dlq with
  | some msg, some c => some (c.queue, msg)
  | _, _ => none

def fail (q : Queue) (groupKey msgID errMsg : Bytes) (now : Int) :
    Except Panic (Queue × Except QueueError (Option (Bytes × Message))) :=
  match q.groups.lookup groupKey with
  | none => .ok (q, .error (.groupNotFound groupKey))
  | some g => do
    let (g, dlq) ← g.fail msgID errMsg now
    return (q.setGroup groupKey g, .ok (dlqTarget g dlq))

def failAndNext (q : Queue) (groupKey msgID errMsg : Bytes) (ord : RangeOrder) (now : Int) :
    Except Panic (Queue × Option (Bytes × Message) × Option Message) :=
  match q.groups.lookup groupKey with
  | none => .ok (q, none, none)
  | some g => do
    let (g, dlq) ← g.fail msgID errMsg now
    let target := dlqTarget g dlq
    let (g, _) := g.promoteDelayed ord now
    let (g, msg) ← g.next now
    return (q.setGroup groupKey g, target, msg)

def drainGroup (q : Queue) (groupKey : Bytes) (ord : RangeOrder) (now : Int) :
    Except Panic (Queue × DrainResult) :=
  match q.groups.lookup groupKey with
  | none => .ok (q, ⟨none, zeroTime, false, false⟩)
  | some g => do
    let (g, r) ← g.drainRound ord now
    return (q.setGroup groupKey g, r)

def expiredIDs (g : Group) (ord : RangeOrder) (now : Int) : List Bytes :=
  (ord.pick g.processing.table.entries).filterMap fun e =>
    if e.2.scheduledAt < now then some e.1 else none

def sweepGroup (ord : RangeOrder) (now : Int) (g : Group) : Group :=
  (expiredIDs g ord now).foldl Group.returnToPending g

def sweepExpiredLeases (q : Queue) (ord : RangeOrder) (now : Int) : Queue × List ExpiredLease :=
  ({ q with groups := Map.mapTo q.groups fun _ g => sweepGroup ord now g },
    (ord.pick q.groups.entries).flatMap fun e =>
      (expiredIDs e.2 ord now).map fun id => ⟨q.ns, q.name, e.2.cfg.key, id⟩)

def applyConfig (cfg : GroupConfig) (key : Bytes) (g : Group) : Group :=
  { g with cfg := { cfg with key := key }, quantum := cfg.quantum }

def installConfig [PathMatch] (q : Queue) (cfg : GroupConfig) : Queue :=
  let q := { q with cfgIdx := q.cfgIdx.set cfg }
  if isGlobPattern cfg.key then
    { q with groups := Map.mapTo q.groups fun key g =>
        if cfg.matchesKey key then applyConfig cfg key g else g }
  else
    match q.groups.lookup cfg.key with
    | some g => q.setGroup cfg.key (applyConfig cfg cfg.key g)
    | none => q

def setGroupConfig [PathMatch] (q : Queue) (cfg : GroupConfig) : Queue :=
  q.installConfig (if cfg.quantum ≤ 0 then { cfg with quantum := 1 } else cfg)

def deleteGroupConfig (q : Queue) (key : Bytes) : Queue × Bool :=
  let (ci, found) := q.cfgIdx.del key
  ({ q with cfgIdx := ci }, found)

def pageGroupConfigs (q : Queue) (after : Bytes) (limit : Int) : List GroupConfig × Bytes :=
  let all := q.cfgIdx.list
  let start :=
    if after = [] then 0
    else if all.any fun c => c.key == after then (all.findIdx fun c => c.key == after) + 1
    else 0
  let stop := min (start + pageLimit limit) all.length
  ((all.drop start).take (stop - start),
    if stop < all.length then (all[stop - 1]?.map GroupConfig.key).getD [] else [])

def findFrom (msgID : Bytes) : List (Option Message) → Nat → Option (Nat × Message)
  | [], _ => none
  | none :: rest, i => findFrom msgID rest (i + 1)
  | some msg :: rest, i => if msg.id = msgID then some (i, msg) else findFrom msgID rest (i + 1)

def findSlot (slots : List (Option Message)) (head : Nat) (msgID : Bytes) :
    Option (Nat × Message) :=
  findFrom msgID (slots.drop head) head

def replayLease (q : Queue) (groupKey msgID : Bytes) (now : Int) : Except Panic (Queue × Bool) :=
  match q.groups.lookup groupKey with
  | none => .ok (q, false)
  | some g =>
    match findSlot g.urgent g.urgentHead msgID with
    | some (i, msg) => do
      let (g, _) ← { g with urgent := g.urgent.set i none }.lease msg now
      return (q.setGroup groupKey g, true)
    | none =>
      match findSlot g.ready g.readyHead msgID with
      | some (i, msg) => do
        let (g, _) ← { g with ready := g.ready.set i none }.lease msg now
        return (q.setGroup groupKey g, true)
      | none => .ok (q, false)

def removeMessage (q : Queue) (groupKey msgID : Bytes) : Queue × Bool :=
  match q.groups.lookup groupKey with
  | none => (q, false)
  | some g =>
    match findSlot g.urgent g.urgentHead msgID with
    | some (i, _) => (q.setGroup groupKey { g with urgent := g.urgent.set i none }, true)
    | none =>
      match findSlot g.ready g.readyHead msgID with
      | some (i, _) => (q.setGroup groupKey { g with ready := g.ready.set i none }, true)
      | none =>
        match g.processing.get? msgID with
        | some _ => (q.setGroup groupKey { g with processing := g.processing.delete msgID }, true)
        | none => (q, false)

end Queue

structure QueueState where
  name : Bytes
  ns : Bytes
  groups : Map Bytes GroupState

namespace Queue

def exportState (q : Queue) : QueueState :=
  ⟨q.name, q.ns, Map.mapTo q.groups fun _ g => g.exportState⟩

def importGroup [PathMatch] (q : Queue) (gs : GroupState) : Except Panic Queue := do
  let g ← newGroup { q.resolveConfig gs.key with parallelism := gs.parallelism, key := gs.key }
  return q.setGroup gs.key { g.importState gs with quantum := gs.quantum }

def importState [PathMatch] (q : Queue) (ord : RangeOrder) (state : QueueState) :
    Except Panic Queue := do
  let groups := (ord.pick state.groups.entries).map Sigma.snd
  let q ← groups.foldlM importGroup q
  return { q with keyIdx := (groups.map GroupState.key).insertionSort (· ≤ ·) }

end Queue

end Octar
