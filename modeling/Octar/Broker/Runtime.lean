import Octar.Broker.Registry
import Octar.Lib.Decimal
import Octar.Lib.Threads
import Octar.Protocol.Codec
import Octar.Queue.Live
import Octar.Storage.Event

/-! The running broker: its handlers, workers and timers as programs of atomic commands.  What a
queue does under the lock of a shard is one command, and so is what an atomic or the registry is
asked; a loop that retries a compare-and-swap is the iteration that succeeds. -/

namespace Octar

open Go Threads

structure RuntimeConfig where
  maxInflight : Int
  globalMax : Int
  globalMaxMsgs : Int
  deriving DecidableEq, Repr

inductive OutFrame
  | message (msgID queue group payload : Bytes) (attempts : Int)
  | publishOK (msgID : Bytes)
  | error (code : Int) (message : Bytes)
  | backpressure (reason : Bytes) (retryAfter : Int)
  | heartbeat
  deriving DecidableEq, Repr

/-- A connection.  `reading` ends with the loop of `handleConnection`, `stopped` is the closed
`stopCh`. The code does not keep `unanswered`, what was written to the connection and not
acknowledged by it in either way, and `counted`, whether its counter was read at the end. -/
structure Conn where
  ns : Bytes
  inflight : Int
  out : List OutFrame
  reading : Bool
  stopped : Bool
  unanswered : List Bytes
  counted : Bool
  deriving DecidableEq, Repr

def outDepth : Nat := 1024

def activeDepth : Nat := 65536

structure DispatchCh where
  depth : Nat
  buf : List Message
  deriving DecidableEq, Repr

/-- The state the goroutines share.  A namespace has no `/`, so `queueKey` tells the queues apart as
their namespace and name do.  `isScheduled` and `wakeScheduledAt` are the two atomics of the groups.
The code does not keep `written`, what was written to a connection since it was leased, and
`drains`, how often a group was drained. -/
structure Runtime where
  cfg : RuntimeConfig
  queues : Map (Bytes × Bytes) Queue
  isScheduled : GroupRef → Bool
  wakeScheduledAt : GroupRef → Int
  active : List GroupRef
  timers : List (GroupRef × Int)
  dispatchChs : List DispatchCh
  registry : Registry
  conns : List Conn
  quota : Int
  globalMsgs : Int
  wal : List Event
  written : List (GroupRef × Bytes)
  drains : GroupRef → Nat

def hashKey (s : Bytes) : UInt32 := s.foldl (fun h b => (h ^^^ b.toUInt32) * 16777619) 2166136261

def keyIdxPage (keys : List Bytes) (after : Bytes) (limit : Nat) : List Bytes × Bytes :=
  let start :=
    if after = [] then 0
    else
      let i := keys.findIdx fun k => decide (after ≤ k)
      if keys[i]? = some after then i + 1 else i
  let stop := min (start + limit) keys.length
  if stop ≤ start then ([], [])
  else ((keys.drop start).take (stop - start), if stop < keys.length then keys.getD (stop - 1) []
    else [])

def Queue.pageGroupStats (q : Queue) (after : Bytes) (limit : Nat) : List Bytes × Bytes :=
  let (keys, next) := keyIdxPage q.keyIdx after limit
  if keys = [] then ([], []) else (keys.filter fun key => (q.groups.lookup key).isSome, next)

def queueShardCount : Nat := 32

def shardOf (groupKey : Bytes) : Nat := (hashKey groupKey).toNat % queueShardCount

def Queue.sweepShard (q : Queue) (shard : Nat) (ord : RangeOrder) (now : Int) :
    Queue × List ExpiredLease :=
  ({ q with
      groups := Map.mapTo q.groups fun key g =>
        if shardOf key = shard then sweepGroup ord now g else g },
    ((ord.pick q.groups.entries).filter fun e => shardOf e.1 = shard).flatMap fun e =>
      (expiredIDs e.2 ord now).map fun id => ⟨q.ns, q.name, e.2.cfg.key, id⟩)

def Queue.publishLocked [PathMatch] (q : Queue) (groupKey msgID payload : Bytes) (now : Int) :
    Except Panic (Queue × Except QueueError Message × Bool) := do
  let (q', r) ← q.publishWithID groupKey msgID payload now
  return ({ q' with keyIdx := q.keyIdx }, r, (q.groups.lookup groupKey).isNone)

def QueueError.text : QueueError → Bytes
  | .depthLimitExceeded group maxPending =>
    str "group \"" ++ group ++ str "\" depth limit exceeded (" ++
      fixedDigits (width maxPending.toNat maxPending.toNat) maxPending.toNat ++ str ")"
  | .groupNotFound group => str "group \"" ++ group ++ str "\" not found"
  | .messageNotFound msgID => str "message \"" ++ msgID ++ str "\" not found in processing"

inductive Cmd
  | getQueue (ns name : Bytes)
  | listQueues
  | publishLocked (g : GroupRef) (msgID : Option Bytes) (payload : Bytes)
  | indexKey (g : GroupRef)
  | tryDispatchOne (g : GroupRef)
  | completeAndNext (g : GroupRef) (msgID : Bytes)
  | failAndNext (g : GroupRef) (msgID reason : Bytes)
  | drainGroup (g : GroupRef)
  | returnToPending (g : GroupRef) (msgID : Bytes)
  | sweepShard (ns name : Bytes) (shard : Nat)
  | pageGroupStats (ns name after : Bytes) (limit : Nat)
  | getGroupToken (g : GroupRef)
  | trySchedule (g : GroupRef)
  | unschedule (g : GroupRef)
  | sendActive (g : GroupRef)
  | setWake (g : GroupRef) (wakeNs : Int)
  | clearWake (g : GroupRef) (wakeNs : Int)
  | addTimer (g : GroupRef) (wakeNs : Int)
  | generateID
  | incGlobalMsgs
  | decGlobalMsgs
  | append (event : Event)
  | enqueueDispatch (msg : Message)
  | registryAdd (key : GroupRef) (conn : Nat)
  | registryHas (g : GroupRef)
  | registryNext (g : GroupRef)
  | registryRemove (conn : Nat)
  | tryAcquire
  | release
  | acquireCredit (conn : Nat)
  | releaseCredit (conn : Nat)
  | inflight (conn : Nat)
  | writeMessage (conn : Nat) (msg : Message)
  | writeOrDrop (conn : Nat) (frame : OutFrame)
  | writeOrWait (conn : Nat) (frame : OutFrame)
  | close (conn : Nat)
  | readOn

abbrev Cmd.Answer : Cmd → Type
  | .getQueue .. | .getGroupToken _ | .trySchedule _ | .sendActive _ | .setWake ..
    | .incGlobalMsgs | .append _
  | .enqueueDispatch _ | .registryHas _ | .tryAcquire | .acquireCredit _ | .writeMessage .. => Bool
  | .listQueues => List (Bytes × Bytes)
  | .publishLocked .. => Except QueueError Message × Bool
  | .tryDispatchOne _ | .completeAndNext .. => Option Message
  | .failAndNext .. => Option (Bytes × Message) × Option Message
  | .drainGroup _ => DrainResult
  | .sweepShard .. => List ExpiredLease
  | .pageGroupStats .. => List Bytes × Bytes
  | .generateID => Bytes
  | .registryNext _ => Option Nat
  | .inflight _ => Int
  | .readOn => Empty
  | .indexKey _ | .returnToPending .. | .unschedule _ | .clearWake .. | .addTimer ..
    | .decGlobalMsgs | .registryAdd ..
  | .registryRemove _ | .release | .releaseCredit _ | .writeOrDrop .. | .writeOrWait ..
    | .close _ => Unit

/-- What a command meets that the state does not fix: the clock, the order of a map, the random part
of a new identifier, and how a WAL append or a `select` with two ready cases ends. -/
structure Choice where
  now : Int
  ord : RangeOrder
  newID : Bytes
  ok : Bool

inductive Stuck
  | blocked
  | panic (p : Panic)
  deriving DecidableEq, Repr

namespace Runtime

def atQueue {β : Type} (s : Runtime) (ns name : Bytes) (f : Queue → Except Panic (Queue × β)) :
    Except Stuck (Runtime × β) :=
  match s.queues.lookup (ns, name) with
  | none => .error .blocked
  | some q =>
    match f q with
    | .ok (q, b) => .ok ({ s with queues := s.queues.insert (ns, name) q }, b)
    | .error p => .error (.panic p)

def readQueue {β : Type} (s : Runtime) (ns name : Bytes) (f : Queue → β) :
    Except Stuck (Runtime × β) :=
  match s.queues.lookup (ns, name) with
  | none => .error .blocked
  | some q => .ok (s, f q)

def leased (s : Runtime) (g : GroupRef) (msgs : List Message) : Runtime :=
  { s with written := s.written.filter fun w => w ∉ msgs.map fun m => (g, m.id) }

def atConn {β : Type} (s : Runtime) (conn : Nat) (f : Conn → Except Stuck (Conn × β)) :
    Except Stuck (Runtime × β) :=
  match s.conns[conn]? with
  | none => .error .blocked
  | some c => do
    let (c, b) ← f c
    return ({ s with conns := s.conns.set conn c }, b)

end Runtime

/-- A send to `outCh` beside a receive from `stopCh`: the frame is taken only if there is room, and
for certain only if the connection is not stopped. -/
def Conn.sends (c : Conn) (ok : Bool) : Bool := c.out.length < outDepth && (!c.stopped || ok)

def Cmd.handle [PathMatch] (ch : Choice) : (c : Cmd) → Runtime → Except Stuck (Runtime × c.Answer)
  | .getQueue ns name, s => .ok (s, (s.queues.lookup (ns, name)).isSome)
  | .listQueues, s => .ok (s, (ch.ord.pick s.queues.entries).map Sigma.fst)
  | .publishLocked g msgID payload, s =>
    s.atQueue g.ns g.queue fun q => q.publishLocked g.group (msgID.getD ch.newID) payload ch.now
  | .indexKey g, s =>
    s.atQueue g.ns g.queue fun q => .ok ({ q with keyIdx := keyIdxAdd q.keyIdx g.group }, ())
  | .tryDispatchOne g, s => do
    let (s, msg) ← s.atQueue g.ns g.queue fun q => q.tryDispatchOne g.group ch.ord ch.now
    return (s.leased g msg.toList, msg)
  | .completeAndNext g msgID, s => do
    let (s, msg) ← s.atQueue g.ns g.queue fun q => q.completeAndNext g.group msgID ch.ord ch.now
    return (s.leased g msg.toList, msg)
  | .failAndNext g msgID reason, s => do
    let (s, dlq, msg) ← s.atQueue g.ns g.queue fun q =>
        q.failAndNext g.group msgID reason ch.ord ch.now
    return (s.leased g msg.toList, dlq, msg)
  | .drainGroup g, s => do
    let (s, r) ← s.atQueue g.ns g.queue fun q => q.drainGroup g.group ch.ord ch.now
    let s := { s with drains := Function.update s.drains g (s.drains g + 1) }
    return (s.leased g (r.ready.getD []), r)
  | .returnToPending g msgID, s =>
    s.atQueue g.ns g.queue fun q => .ok (q.returnToPending g.group msgID, ())
  | .sweepShard ns name shard, s =>
    s.atQueue ns name fun q => .ok (q.sweepShard shard ch.ord ch.now)
  | .pageGroupStats ns name after limit, s =>
    s.readQueue ns name fun q => q.pageGroupStats after limit
  | .getGroupToken g, s => s.readQueue g.ns g.queue fun q => (q.groups.lookup g.group).isSome
  | .trySchedule g, s =>
    if s.isScheduled g then .ok (s, false)
    else .ok ({ s with isScheduled := Function.update s.isScheduled g true }, true)
  | .unschedule g, s => .ok ({ s with isScheduled := Function.update s.isScheduled g false }, ())
  | .sendActive g, s =>
    if s.active.length < activeDepth then .ok ({ s with active := s.active ++ [g] }, true)
    else .ok (s, false)
  | .setWake g wakeNs, s =>
    if s.wakeScheduledAt g ≠ 0 ∧ s.wakeScheduledAt g ≤ wakeNs then .ok (s, false)
    else .ok ({ s with wakeScheduledAt := Function.update s.wakeScheduledAt g wakeNs }, true)
  | .clearWake g wakeNs, s =>
    if s.wakeScheduledAt g = wakeNs then
      .ok ({ s with wakeScheduledAt := Function.update s.wakeScheduledAt g 0 }, ())
    else .ok (s, ())
  | .addTimer g wakeNs, s => .ok ({ s with timers := s.timers ++ [(g, wakeNs)] }, ())
  | .generateID, s => .ok (s, ch.newID)
  | .incGlobalMsgs, s =>
    if 0 < s.cfg.globalMaxMsgs ∧ s.cfg.globalMaxMsgs ≤ s.globalMsgs then .ok (s, false)
    else .ok ({ s with globalMsgs := s.globalMsgs + 1 }, true)
  | .decGlobalMsgs, s => .ok ({ s with globalMsgs := s.globalMsgs - 1 }, ())
  | .append event, s =>
    if ch.ok then .ok ({ s with wal := s.wal ++ [event] }, true) else .ok (s, false)
  | .enqueueDispatch msg, s =>
    let idx := (hashKey msg.groupKey).toNat % s.dispatchChs.length
    match s.dispatchChs[idx]? with
    | none => .error (.panic .indexOutOfRange)
    | some c =>
      if c.buf.length < c.depth then
        .ok ({ s with dispatchChs := s.dispatchChs.set idx { c with buf := c.buf ++ [msg] } }, true)
      else .ok (s, false)
  | .registryAdd key conn, s => .ok ({ s with registry := s.registry.add key conn }, ())
  | .registryHas g, s => .ok (s, s.registry.has g)
  | .registryNext g, s =>
    .ok ({ s with registry := (s.registry.next ch.ord g).1 }, (s.registry.next ch.ord g).2)
  | .registryRemove conn, s => .ok ({ s with registry := s.registry.remove conn }, ())
  | .tryAcquire, s =>
    if s.cfg.globalMax ≤ 0 then .ok (s, true)
    else if s.cfg.globalMax ≤ s.quota then .ok (s, false)
    else .ok ({ s with quota := s.quota + 1 }, true)
  | .release, s =>
    if 0 < s.cfg.globalMax then .ok ({ s with quota := s.quota - 1 }, ()) else .ok (s, ())
  | .acquireCredit conn, s => s.atConn conn fun c =>
    if s.cfg.maxInflight ≤ c.inflight then .ok (c, false)
    else .ok ({ c with inflight := c.inflight + 1 }, true)
  | .releaseCredit conn, s => s.atConn conn fun c => .ok ({ c with inflight := c.inflight - 1 }, ())
  | .inflight conn, s => s.atConn conn fun c => .ok ({ c with counted := true }, c.inflight)
  | .writeMessage conn msg, s => do
    let frame := .message msg.id msg.queueName msg.groupKey msg.payload (msg.attempts + 1)
    let (s, sent) ← s.atConn conn fun c =>
      if c.sends ch.ok then .ok
        ({ c with out := c.out ++ [frame], unanswered := c.unanswered ++ [msg.id] }, true)
      else .ok (c, false)
    return (if sent then { s with written := s.written ++ [(msg.ref, msg.id)] } else s, sent)
  | .writeOrDrop conn frame, s => s.atConn conn fun c =>
    .ok (if c.sends ch.ok then { c with out := c.out ++ [frame] } else c, ())
  | .writeOrWait conn frame, s => s.atConn conn fun c =>
    if c.sends ch.ok then .ok ({ c with out := c.out ++ [frame] }, ())
    else if c.stopped then .ok (c, ())
    else .error .blocked
  | .close conn, s => s.atConn conn fun c => .ok ({ c with stopped := true }, ())
  | .readOn, _ => .error .blocked

abbrev Program := Prog Cmd Cmd.Answer

def command (c : Cmd) : Program c.Answer := Prog.command c

def publishAs (g : GroupRef) (msgID : Option Bytes) (payload : Bytes) :
    Program (Except QueueError Message) := do
  let r : Except QueueError Message × Bool ← command (.publishLocked g msgID payload)
  match r with
  | (.error e, _) => return .error e
  | (.ok msg, new) =>
    if new then command (.indexKey g)
    return .ok msg

def publishWithID (g : GroupRef) (msgID payload : Bytes) : Program (Except QueueError Message) :=
  publishAs g (some msgID) payload

def publish (g : GroupRef) (payload : Bytes) : Program (Except QueueError Message) :=
  publishAs g none payload

def sweepShards (ns name : Bytes) : List Nat → Program (List ExpiredLease)
  | [] => return []
  | shard :: shards => do
    let expired : List ExpiredLease ← command (.sweepShard ns name shard)
    let rest ← sweepShards ns name shards
    return expired ++ rest

def schedule (g : GroupRef) : Program Unit := do
  let won : Bool ← command (.trySchedule g)
  if won then
    let sent : Bool ← command (.sendActive g)
    if !sent then command (.unschedule g)

def activate (g : GroupRef) : Program Unit := do
  if g.group = [] then return
  let token : Bool ← command (.getGroupToken g)
  if !token then return
  schedule g

def scheduleWake (g : GroupRef) (wakeNs : Int) : Program Unit := do
  let token : Bool ← command (.getGroupToken g)
  if !token then return
  let earliest : Bool ← command (.setWake g wakeNs)
  if earliest then command (.addTimer g wakeNs)

def wake (g : GroupRef) (wakeNs : Int) : Program Unit := do
  command (.clearWake g wakeNs)
  activate g

def returnAll (g : GroupRef) : List Message → Program Unit
  | [] => return
  | msg :: msgs => do
    command (.returnToPending g msg.id)
    returnAll g msgs

def offerAll (g : GroupRef) : List Message → Program Bool
  | [] => return true
  | msg :: msgs => do
    let sent : Bool ← command (.enqueueDispatch msg)
    if sent then offerAll g msgs
    else
      returnAll g (msg :: msgs)
      return false

def drainActivated (g : GroupRef) : Program Unit := do
  let r : DrainResult ← command (.drainGroup g)
  let delivered ← offerAll g (r.ready.getD [])
  if delivered then
    if r.hasWake then scheduleWake g r.wakeAt
    else if r.stillPending then activate g

def processActivation (g : GroupRef) : Program Unit := do
  command (.unschedule g)
  drainActivated g

def walEvent (type : EventType) (g : GroupRef) (msgID payload : Bytes) : Event where
  type := type
  ns := g.ns
  queue := g.queue
  group := g.group
  msgID := msgID
  payload := payload
  seq := 0
  timestamp := 0

def dispatchOne (g : GroupRef) : Program Unit := do
  let next : Option Message ← command (.tryDispatchOne g)
  match next with
  | none => return
  | some next =>
    let sent : Bool ← command (.enqueueDispatch next)
    if !sent then command (.returnToPending g next.id)

def dispatchPublished (conn : Nat) (g : GroupRef) (msg : Message) : Program Unit := do
  command (.writeOrWait conn (.publishOK msg.id))
  dispatchOne g
  let subscribed : Bool ← command (.registryHas g)
  if subscribed then activate g

def onPublish (conn : Nat) (g : GroupRef) (payload : Bytes) : Program Unit := do
  let found : Bool ← command (.getQueue g.ns g.queue)
  if !found then
    command (.writeOrWait conn (.error 404 (str "queue not found: " ++ g.queue)))
    return
  let counted : Bool ← command .incGlobalMsgs
  if !counted then
    command (.writeOrDrop conn (.backpressure (str "global message limit reached") 5))
    return
  let msgID : Bytes ← command .generateID
  let logged : Bool ← command (.append (walEvent .publish g msgID payload))
  if !logged then
    command (.writeOrWait conn (.error 500 (str "internal durability error")))
    command .decGlobalMsgs
    return
  let published ← publishWithID g msgID payload
  match published with
  | .error e =>
    command (.writeOrWait conn (.error 500 e.text))
    command .decGlobalMsgs
  | .ok msg => dispatchPublished conn g msg

def activateAll (ns name : Bytes) : List Bytes → Program Unit
  | [] => return
  | key :: keys => do
    activate ⟨ns, name, key⟩
    activateAll ns name keys

def activatePages (ns name : Bytes) : Nat → Bytes → Program Unit
  | 0, _ => do
    let never : Empty ← command .readOn
    nomatch never
  | pages + 1, cursor => do
    let page : List Bytes × Bytes ← command (.pageGroupStats ns name cursor 1000)
    activateAll ns name page.1
    if page.2 = [] then return
    activatePages ns name pages page.2

def onSubscribe (conn : Nat) (g : GroupRef) (pages : Nat) : Program Unit := do
  command (.registryAdd g conn)
  let found : Bool ← command (.getQueue g.ns g.queue)
  if !found then return
  if isGlobPattern g.group then activatePages g.ns g.queue pages []
  else activate g

def dispatchNext (next : Option Message) : Program Unit :=
  match next with
  | none => pure ()
  | some next => do
    let _sent : Bool ← command (.enqueueDispatch next)

def onACK (conn : Nat) (g : GroupRef) (msgID : Bytes) : Program Unit := do
  command (.releaseCredit conn)
  command .release
  let found : Bool ← command (.getQueue g.ns g.queue)
  if !found then return
  let logged : Bool ← command (.append (walEvent .ack g msgID []))
  if !logged then return
  command .decGlobalMsgs
  let next : Option Message ← command (.completeAndNext g msgID)
  dispatchNext next
  activate g

def deadLetter (ns : Bytes) : Option (Bytes × Message) → Program Unit
  | none => return
  | some (name, msg) => do
    if name = [] then return
    let found : Bool ← command (.getQueue ns name)
    if !found then return
    let published ← publish ⟨ns, name, msg.groupKey⟩ msg.payload
    match published with
    | .error _ => return
    | .ok _ =>
      let subscribed : Bool ← command (.registryHas ⟨ns, name, msg.groupKey⟩)
      if subscribed then activate ⟨ns, name, msg.groupKey⟩

def onNACK (conn : Nat) (g : GroupRef) (msgID reason : Bytes) : Program Unit := do
  command (.releaseCredit conn)
  command .release
  let found : Bool ← command (.getQueue g.ns g.queue)
  if !found then return
  let logged : Bool ← command (.append (walEvent .nack g msgID []))
  if !logged then return
  let failed : Option (Bytes × Message) × Option Message ← command (.failAndNext g msgID reason)
  if failed.1.isSome then command .decGlobalMsgs
  dispatchNext failed.2
  activate g
  deadLetter g.ns failed.1

def handBack (msg : Message) : Program Unit := do
  let found : Bool ← command (.getQueue msg.ns msg.queueName)
  if found then command (.returnToPending msg.ref msg.id)

def dispatch (msg : Message) : Program Unit := do
  let conn : Option Nat ← command (.registryNext msg.ref)
  match conn with
  | none => handBack msg
  | some conn =>
    let counted : Bool ← command .tryAcquire
    if !counted then
      command (.writeOrDrop conn (.backpressure (str "broker global inflight quota exceeded") 1000))
      handBack msg
      return
    let credit : Bool ← command (.acquireCredit conn)
    if !credit then
      command .release
      command (.writeOrDrop conn (.backpressure (str "per-connection inflight limit reached") 500))
      handBack msg
      return
    let sent : Bool ← command (.writeMessage conn msg)
    if !sent then
      command (.releaseCredit conn)
      command .release
      handBack msg
      return
    let _logged : Bool ← command (.append (walEvent .lease msg.ref msg.id []))

def expireAll : List ExpiredLease → Program Unit
  | [] => return
  | lease :: leases => do
    let g : GroupRef := ⟨lease.ns, lease.queueName, lease.groupKey⟩
    let _logged : Bool ← command (.append (walEvent .expire g lease.msgID []))
    let found : Bool ← command (.getQueue lease.ns lease.queueName)
    if found then activate g
    expireAll leases

def sweepAll : List (Bytes × Bytes) → Program Unit
  | [] => return
  | (ns, name) :: queues => do
    let expired ← sweepShards ns name (List.range queueShardCount)
    expireAll expired
    sweepAll queues

def sweepLeases : Program Unit := do
  let queues : List (Bytes × Bytes) ← command .listQueues
  sweepAll queues

def releaseTimes : Nat → Program Unit
  | 0 => return
  | n + 1 => do
    command .release
    releaseTimes n

def teardown (conn : Nat) : Program Unit := do
  let leaked : Int ← command (.inflight conn)
  releaseTimes leaked.toNat
  command (.registryRemove conn)
  command (.close conn)

inductive ClientFrame
  | publish (queue group payload : Bytes)
  | subscribe (queue group : Bytes)
  | ack (msgID queue group : Bytes)
  | nack (msgID queue group reason : Bytes)
  | heartbeat
  deriving DecidableEq, Repr

def ClientFrame.valid : ClientFrame → Bool
  | .publish queue group _ | .subscribe queue group | .ack _ queue group | .nack _ queue group _ =>
    isValidIdent queue && isValidIdent group
  | .heartbeat => true

def ClientFrame.answers : ClientFrame → Option Bytes
  | .ack msgID _ _ | .nack msgID _ _ _ => some msgID
  | _ => none

inductive Task
  | frame (conn : Nat) (ns : Bytes) (f : ClientFrame) (pages : Nat)
  | teardown (conn : Nat)
  | dispatch (msg : Message)
  | process (g : GroupRef)
  | timer (g : GroupRef) (wakeNs : Int)
  | activate (g : GroupRef)
  | sweep
  deriving DecidableEq, Repr

def Task.program : Task → Program Unit
  | .frame conn ns (.publish queue group payload) _ => onPublish conn ⟨ns, queue, group⟩ payload
  | .frame conn ns (.subscribe queue group) pages => onSubscribe conn ⟨ns, queue, group⟩ pages
  | .frame conn ns (.ack msgID queue group) _ => onACK conn ⟨ns, queue, group⟩ msgID
  | .frame conn ns (.nack msgID queue group reason) _ => onNACK conn ⟨ns, queue, group⟩ msgID reason
  | .frame conn _ .heartbeat _ => command (.writeOrWait conn .heartbeat)
  | .teardown conn => Octar.teardown conn
  | .dispatch msg => Octar.dispatch msg
  | .process g => processActivation g
  | .timer g wakeNs => wake g wakeNs
  | .activate g => Octar.activate g
  | .sweep => sweepLeases

def Task.reader : Task → Option Nat
  | .frame conn .. | .teardown conn => some conn
  | _ => none

abbrev Goroutine := Thread Task Cmd Cmd.Answer

def Task.start (t : Task) : Goroutine := ⟨t, t.program⟩

structure System where
  state : Runtime
  threads : List Goroutine

/-- What happens next: something from outside, a goroutine that takes up its next piece of work, or
a command of one of them. -/
inductive Label
  | declare (ns name : Bytes) (configs : List GroupConfig)
  | connect (ns : Bytes)
  | receive (conn : Nat) (f : ClientFrame) (pages : Nat)
  | disconnect (conn : Nat)
  | deliver (channel : Nat)
  | process
  | fire (timer : Nat)
  | activate (g : GroupRef)
  | sweep
  | flush (conn n : Nat)
  | run (thread : Nat) (ch : Choice)

namespace System

def start (cfg : RuntimeConfig) (dispatchChs : List DispatchCh) : System where
  state := {
    cfg := cfg, queues := ∅, isScheduled := fun _ => false,
      wakeScheduledAt := fun _ => 0, active := [],
    timers := [], dispatchChs := dispatchChs, registry := .empty, conns := [],
      quota := 0, globalMsgs := 0, wal := [], written := [], drains := fun _ => 0 }
  threads := []

def spawn (sys : System) (t : Task) : System := { sys with threads := sys.threads ++ [t.start] }

def idle (sys : System) (conn : Nat) : Bool :=
  sys.threads.all fun t => t.task.reader != some conn || t.finished

def atReader (sys : System) (conn : Nat) : Option Conn :=
  (sys.state.conns[conn]?).filter fun c => c.reading && sys.idle conn

def step [PathMatch] (sys : System) : Label → Except Stuck System
  | .declare ns name configs =>
    if (sys.state.queues.lookup (ns, name)).isSome then .error .blocked
    else
      let q := configs.foldl Queue.setGroupConfig (newQueue name ns)
      .ok { sys with state.queues := sys.state.queues.insert (ns, name) q }
  | .connect ns =>
    .ok { sys with state.conns := sys.state.conns ++ [⟨ns, 0, [], true, false, [], false⟩] }
  | .receive conn f pages =>
    match sys.atReader conn with
    | none => .error .blocked
    | some c =>
      if f.valid then
        let c' := { c with unanswered := f.answers.elim c.unanswered c.unanswered.erase }
        .ok ({ sys with state.conns := sys.state.conns.set conn c' }.spawn
          (.frame conn c.ns f pages))
      else .error .blocked
  | .disconnect conn =>
    match sys.atReader conn with
    | none => .error .blocked
    | some c =>
      .ok ({ sys with state.conns := sys.state.conns.set conn { c with reading := false } }.spawn
        (.teardown conn))
  | .deliver channel =>
    match sys.state.dispatchChs[channel]? with
    | some ⟨depth, msg :: buf⟩ =>
      .ok ({ sys with state.dispatchChs := sys.state.dispatchChs.set channel ⟨depth, buf⟩ }.spawn
        (.dispatch msg))
    | _ => .error .blocked
  | .process =>
    match sys.state.active with
    | g :: active => .ok ({ sys with state.active := active }.spawn (.process g))
    | [] => .error .blocked
  | .fire timer =>
    match sys.state.timers[timer]? with
    | some (g, wakeNs) =>
      .ok ({ sys with state.timers := sys.state.timers.eraseIdx timer }.spawn (.timer g wakeNs))
    | none => .error .blocked
  | .activate g =>
    if (sys.state.queues.lookup (g.ns, g.queue)).isSome then .ok (sys.spawn (.activate g))
    else .error .blocked
  | .sweep => .ok (sys.spawn .sweep)
  | .flush conn n => do
    let (s, _) ← sys.state.atConn conn fun c => .ok ({ c with out := c.out.drop n }, ())
    return { sys with state := s }
  | .run thread ch => do
    let (s, threads) ← advance (Cmd.handle ch) .blocked thread sys.state sys.threads
    return ⟨s, threads⟩

end System

end Octar
