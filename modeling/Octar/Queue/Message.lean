import Octar.Lib.GoMap

namespace Octar

open Go

def zeroTime : Int := -62135596800000000000

def isZero (t : Int) : Bool := t == zeroTime

inductive MessageState
  | pending | processing | done | failed | dlq
  | unknown (code : Int)
  deriving DecidableEq, Repr

def MessageState.ofInt8 : Int → MessageState
  | 0 => .pending
  | 1 => .processing
  | 2 => .done
  | 3 => .failed
  | 4 => .dlq
  | n => .unknown n

def MessageState.toInt8 : MessageState → Int
  | .pending => 0
  | .processing => 1
  | .done => 2
  | .failed => 3
  | .dlq => 4
  | .unknown n => n

structure Message where
  id : Bytes
  queueName : Bytes
  ns : Bytes
  groupKey : Bytes
  payload : Bytes
  state : MessageState
  attempts : Int
  scheduledAt : Int
  createdAt : Int
  lastError : Bytes
  deriving DecidableEq, Repr

/-- `newMessageAt` with the result of `newID` passed in; `NewMessageForRecovery` is the same
function with the identifier of the snapshot. -/
def newMessageAt (queue ns group payload : Bytes) (now : Int) (id : Bytes) : Message where
  id := id
  queueName := queue
  ns := ns
  groupKey := group
  payload := payload
  state := .pending
  attempts := 0
  scheduledAt := now
  createdAt := now
  lastError := []

def Message.body (m : Message) : Message := { m with state := .pending, scheduledAt := 0 }

def Message.origin (m : Message) : Message := { m.body with attempts := 0, lastError := [] }

@[simp] theorem Message.body_id (m : Message) : m.body.id = m.id := rfl
@[simp] theorem Message.body_groupKey (m : Message) : m.body.groupKey = m.groupKey := rfl
@[simp] theorem Message.body_attempts (m : Message) : m.body.attempts = m.attempts := rfl

def delayedLess (a b : Message) : Bool :=
  if a.scheduledAt = b.scheduledAt then decide (a.id < b.id)
  else decide (a.scheduledAt < b.scheduledAt)

end Octar
