import Octar.Queue.Queue
import Octar.Storage.Event

namespace Octar

open Go

def int32 (n : Int) : Int := n.bmod (2 ^ 32)

def messageSnapshot (m : Message) : MessageSnapshot where
  id := m.id
  payload := m.payload
  state := m.state.toInt8
  attempts := int32 m.attempts
  createdAt := int64 m.createdAt
  scheduledAt := int64 m.scheduledAt
  lastError := m.lastError

def GroupState.messages (ord : RangeOrder) (gs : GroupState) : List Message :=
  gs.readyMsgs ++ gs.urgentMsgs ++ gs.delayedMsgs ++
    (ord.pick gs.processingMsgs.table.entries).map Sigma.snd

def groupSnapshot (ord : RangeOrder) (key : Bytes) (gs : GroupState) : GroupSnapshot where
  key := key
  parallelism := int32 gs.parallelism
  quantum := int32 gs.quantum
  messages := (gs.messages ord).map messageSnapshot

def convertQueueStateToSnapshot (ord : RangeOrder) (state : QueueState) : List GroupSnapshot :=
  (ord.pick state.groups.entries).map fun e => groupSnapshot ord e.1 e.2

end Octar
