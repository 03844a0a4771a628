import Octar.Lib.GoMap

namespace Octar

open Go

inductive EventType
  | publish | lease | ack | nack | expire
  | unknown (code : UInt8)
  deriving DecidableEq, Repr

def EventType.ofByte (b : UInt8) : EventType :=
  if b = 1 then .publish else if b = 2 then .lease else if b = 3 then .ack else if b = 4 then .nack
  else if b = 5 then .expire else .unknown b

def EventType.toByte : EventType → UInt8
  | .publish => 1
  | .lease => 2
  | .ack => 3
  | .nack => 4
  | .expire => 5
  | .unknown b => b

structure Event where
  type : EventType
  ns : Bytes
  queue : Bytes
  group : Bytes
  msgID : Bytes
  payload : Bytes
  seq : Nat
  timestamp : Int
  deriving DecidableEq, Repr

def stamp (seq : Nat) : List Event → List Event
  | [] => []
  | e :: batch => { e with seq := seq + 1 } :: stamp (seq + 1) batch

theorem map_seq_stamp (seq : Nat) (batch : List Event) :
    (stamp seq batch).map Event.seq = List.range' (seq + 1) batch.length := by
  induction batch generalizing seq with
  | nil => rfl
  | cons e batch ih => rw [stamp, List.map_cons, ih, List.length_cons, List.range'_succ]

theorem map_stamp {α : Type} {f : Event → α} (hf : ∀ e n, f { e with seq := n } = f e) (seq : Nat)
    (batch : List Event) : (stamp seq batch).map f = batch.map f := by
  induction batch generalizing seq with
  | nil => rfl
  | cons e batch ih => rw [stamp, List.map_cons, List.map_cons, ih, hf]

theorem stamp_append (seq : Nat) (batch batch' : List Event) :
    stamp seq (batch ++ batch') = stamp seq batch ++ stamp (seq + batch.length) batch' := by
  induction batch generalizing seq with
  | nil => rfl
  | cons e batch ih =>
    rw [List.cons_append, stamp, ih, stamp, List.length_cons, Nat.add_assoc, Nat.add_comm 1,
      List.cons_append]

def sampleRecord : Event := ⟨.publish, [], [], str "g", str "a", [], 0, 0⟩

structure MessageSnapshot where
  id : Bytes
  payload : Bytes
  state : Int
  attempts : Int
  createdAt : Int
  scheduledAt : Int
  lastError : Bytes
  deriving DecidableEq, Repr

structure GroupSnapshot where
  key : Bytes
  parallelism : Int
  quantum : Int
  messages : List MessageSnapshot
  deriving DecidableEq, Repr

structure Snapshot where
  segmentID : Nat
  walSeq : Nat
  timestamp : Int
  groups : List GroupSnapshot
  deriving DecidableEq, Repr

end Octar
