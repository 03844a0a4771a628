import Octar.Lib.GoHeap
import Octar.Queue.Config

namespace Octar

open Go

structure SlidingWindowLimiter where
  max : Int
  window : Int
  events : List Int
  deriving DecidableEq, Repr

def rateLimitInitCap : Int := 64

def newSlidingWindowLimiter (max : Int) (window : Int) : Except Panic SlidingWindowLimiter :=
  if min max rateLimitInitCap < 0 then .error .makeSlice else .ok ⟨max, window, []⟩

def SlidingWindowLimiter.allow (l : SlidingWindowLimiter) (now : Int) :
    Except Panic (SlidingWindowLimiter × Bool × Int) :=
  let events := l.events.dropWhile fun e => e < now - l.window
  if l.max ≤ events.length then
    match events with
    | [] => .error .indexOutOfRange
    | e :: _ =>
      let wakeAt := e + l.window
      .ok ({ l with events := events }, false, if wakeAt < now then now else wakeAt)
  else .ok ({ l with events := events ++ [now] }, true, zeroTime)

/-- The scheduler's two atomics (`isScheduled`, `wakeScheduledAt`) are not read by any operation
below and live with the scheduler's model. -/
structure Group where
  cfg : GroupConfig
  ready : List (Option Message)
  readyHead : Nat
  urgent : List (Option Message)
  urgentHead : Nat
  delayed : List Message
  processing : NilMap Bytes Message
  limiter : Option SlidingWindowLimiter
  deficit : Int
  quantum : Int

def groupLimiter : Option RateLimitConfig → Except Panic (Option SlidingWindowLimiter)
  | none => .ok none
  | some r => some <$> newSlidingWindowLimiter r.max r.window

def newGroup (cfg : GroupConfig) : Except Panic Group := do
  let cfg := cfg.withDefaults
  let limiter ← groupLimiter cfg.rateLimit
  return {
    cfg := cfg, ready := [], readyHead := 0, urgent := [], urgentHead := 0, delayed := [],
    processing := some ∅, limiter := limiter, deficit := 0, quantum := cfg.quantum }

inductive DispatchStopReason
  | empty | capacity | rateLimited
  deriving DecidableEq, Repr

structure Dispatch where
  msg : Option Message
  stop : DispatchStopReason
  wakeAt : Int
  deriving DecidableEq, Repr

structure DrainResult where
  ready : Option (List Message)
  wakeAt : Int
  hasWake : Bool
  stillPending : Bool
  deriving DecidableEq, Repr

def earlierWake (w t : Int) : Int := if isZero w ∨ t < w then t else w

namespace Group

def enqueue (g : Group) (msg : Message) : Group := { g with ready := g.ready ++ [some msg] }

def expireLease (now : Int) (s : Group × Int) (e : Sigma fun _ : Bytes => Message) : Group × Int :=
  if e.2.scheduledAt < now then
    ({ s.1 with
        processing := s.1.processing.delete e.1
        urgent := s.1.urgent ++ [some { e.2 with state := .pending }] }, s.2)
  else (s.1, earlierWake s.2 e.2.scheduledAt)

def promoteDue (now : Int) : Nat → Group × Int → Group × Int
  | 0, s => s
  | n + 1, s =>
    match s.1.delayed with
    | [] => s
    | msg :: _ =>
      if now < msg.scheduledAt then (s.1, earlierWake s.2 msg.scheduledAt)
      else promoteDue now n
        ({ s.1 with
            delayed := Heap.pop delayedLess s.1.delayed
            ready := s.1.ready ++ [some msg] }, s.2)

def promoteDelayed (g : Group) (ord : RangeOrder) (now : Int) : Group × Int :=
  let s := (ord.pick g.processing.table.entries).foldl (expireLease now) (g, zeroTime)
  promoteDue now s.1.delayed.length s

def nextDelayedAtOrZero (g : Group) : Int :=
  match g.delayed with
  | [] => zeroTime
  | msg :: _ => msg.scheduledAt

def pendingCount (g : Group) : Int :=
  ((g.urgent.length : Int) - g.urgentHead) +
    ((g.ready.length : Int) - g.readyHead) + g.delayed.length

def lease (g : Group) (msg : Message) (now : Int) : Except Panic (Group × Message) := do
  let msg := { msg with state := .processing, scheduledAt := now + g.cfg.leaseTimeout }
  let processing ← g.processing.set msg.id msg
  return ({ g with processing := processing }, msg)

def popReady : Nat → Group → Group × Option Message
  | 0, g => (g, none)
  | n + 1, g =>
    match g.ready[g.readyHead]? with
    | none => (g, none)
    | some slot =>
      let g := { g with ready := g.ready.set g.readyHead none, readyHead := g.readyHead + 1 }
      match slot with
      | some msg => (g, some msg)
      | none => popReady n g

def takeWaiting (g : Group) (now : Int) : Except Panic (Group × Dispatch) :=
  if g.urgentHead < g.urgent.length then
    match g.urgent[g.urgentHead]? with
    | some (some msg) => do
      let (g, msg) ← lease
        { g with urgent := g.urgent.set g.urgentHead none, urgentHead := g.urgentHead + 1 } msg now
      return (g, ⟨some msg, .empty, zeroTime⟩)
    | _ => .error .nilDeref
  else
    let g := { g with urgent := [], urgentHead := 0 }
    match popReady (g.ready.length - g.readyHead) g with
    | (g, some msg) => do
      let (g, msg) ← lease g msg now
      return (g, ⟨some msg, .empty, zeroTime⟩)
    | (g, none) =>
      let g := { g with ready := [], readyHead := 0 }
      .ok (g, ⟨none, .empty, g.nextDelayedAtOrZero⟩)

def nextDispatchable (g : Group) (now : Int) : Except Panic (Group × Dispatch) :=
  if g.cfg.parallelism ≤ g.processing.len then .ok (g, ⟨none, .capacity, zeroTime⟩)
  else
    match g.limiter with
    | none => g.takeWaiting now
    | some l => do
      let (l, allowed, wakeAt) ← l.allow now
      let g := { g with limiter := some l }
      if allowed then g.takeWaiting now else return (g, ⟨none, .rateLimited, wakeAt⟩)

def next (g : Group) (now : Int) : Except Panic (Group × Option Message) := do
  let (g, d) ← g.nextDispatchable now
  return (g, d.msg)

structure DrainState where
  group : Group
  batch : List Message
  stop : Option Dispatch

def drainLoop (now : Int) : Nat → Group → List Message → Except Panic DrainState
  | 0, g, batch => .ok ⟨g, batch, none⟩
  | n + 1, g, batch => do
    let (g, d) ← g.nextDispatchable now
    match d.msg with
    | some msg => drainLoop now n { g with deficit := g.deficit - 1 } (batch ++ [msg])
    | none => return ⟨g, batch, some d⟩

def drainRest (g : Group) (ready : List Message) (wakeAt : Int) : DrainResult :=
  if !isZero wakeAt then ⟨some ready, wakeAt, true, false⟩
  else if 0 < g.pendingCount then ⟨some ready, zeroTime, false, true⟩
  else ⟨some ready, zeroTime, false, false⟩

def drainRound (g : Group) (ord : RangeOrder) (now : Int) : Except Panic (Group × DrainResult) := do
  let (g, wakeAt) := g.promoteDelayed ord now
  if g.pendingCount = 0 then return (g, ⟨none, wakeAt, !isZero wakeAt, false⟩)
  let quantum := if g.quantum ≤ 0 then 1 else g.quantum
  let g := { g with quantum := quantum, deficit := int64 (g.deficit + quantum) }
  let ⟨g, ready, stop⟩ ← drainLoop now g.deficit.toNat g []
  match stop with
  | none => return (g, g.drainRest ready wakeAt)
  | some ⟨_, .empty, stopWake⟩ =>
    let wakeAt := if isZero stopWake then wakeAt else earlierWake wakeAt stopWake
    return (g, ⟨some ready, wakeAt, !isZero wakeAt, false⟩)
  | some ⟨_, .capacity, _⟩ => return (g, ⟨some ready, wakeAt, !isZero wakeAt, false⟩)
  | some ⟨_, .rateLimited, stopWake⟩ => return (g, g.drainRest ready (earlierWake wakeAt stopWake))

def complete (g : Group) (msgID : Bytes) : Group × Option Message :=
  match g.processing.get? msgID with
  | none => (g, none)
  | some msg =>
    ({ g with processing := g.processing.delete msgID }, some { msg with state := .done })

def retryDelay (g : Group) (attempt : Int) : Except Panic Int := do
  let base := g.cfg.retry.initialDelay
  let d ← match g.cfg.retry.backoff with
    | .exponential =>
      if attempt < 0 then .error .negativeShift else pure (int64 (base * int64 (2 ^ attempt.toNat)))
    | .linear => pure (int64 (base * int64 (attempt + 1)))
    | _ => pure base
  return if g.cfg.retry.maxDelay < d then g.cfg.retry.maxDelay else d

def fail (g : Group) (msgID errMsg : Bytes) (now : Int) : Except Panic (Group × Option Message) :=
  match g.processing.get? msgID with
  | none => .ok (g, none)
  | some msg =>
    let g := { g with processing := g.processing.delete msgID }
    let msg := { msg with lastError := errMsg, attempts := msg.attempts + 1 }
    if msg.attempts < g.cfg.retry.maxAttempts then do
      let d ← g.retryDelay msg.attempts
      let msg := { msg with scheduledAt := now + d, state := .pending }
      return ({ g with delayed := Heap.push delayedLess g.delayed msg }, none)
    else
      match g.cfg.dlq with
      | some dlq => .ok (g, if dlq.enabled then some { msg with state := .dlq } else none)
      | none => .ok (g, none)

def returnToPending (g : Group) (msgID : Bytes) : Group :=
  match g.processing.get? msgID with
  | none => g
  | some msg =>
    { g with
      processing := g.processing.delete msgID
      urgent := g.urgent ++ [some { msg with state := .pending }] }

end Group

structure GroupState where
  key : Bytes
  parallelism : Int
  quantum : Int
  readyMsgs : List Message
  urgentMsgs : List Message
  delayedMsgs : List Message
  processingMsgs : NilMap Bytes Message

namespace Group

def exportState (g : Group) : GroupState where
  key := g.cfg.key
  parallelism := g.cfg.parallelism
  quantum := g.quantum
  readyMsgs := (g.ready.drop g.readyHead).reduceOption
  urgentMsgs := (g.urgent.drop g.urgentHead).reduceOption
  delayedMsgs := g.delayed
  processingMsgs := some g.processing.table

def importState (g : Group) (state : GroupState) : Group :=
  { g with
    ready := state.readyMsgs.map some
    readyHead := 0
    urgent := state.urgentMsgs.map some
    urgentHead := 0
    delayed := Heap.init delayedLess state.delayedMsgs
    processing := state.processingMsgs }

end Group

end Octar
