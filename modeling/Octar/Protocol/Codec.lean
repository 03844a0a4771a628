import Octar.Lib.Fields

namespace Octar

open Go Go.Fields

def isValidIdent (s : Bytes) : Bool :=
  0 < s.length && s.length ≤ 1024 &&
    s.all fun b => (97 ≤ b && b ≤ 122) || (65 ≤ b && b ≤ 90) ||
      (48 ≤ b && b ≤ 57) || b ∈ str "_-./*:"

namespace Protocol

inductive FrameType
  | connect | connectOK | connectErr
  | publish | publishOK
  | subscribe | message
  | ack | nack
  | error | backpressure | heartbeat
  deriving DecidableEq, Repr

namespace FrameType

def toByte : FrameType → UInt8
  | .connect => 0x01
  | .connectOK => 0x02
  | .connectErr => 0x03
  | .publish => 0x10
  | .publishOK => 0x11
  | .subscribe => 0x20
  | .message => 0x21
  | .ack => 0x30
  | .nack => 0x31
  | .error => 0xF0
  | .backpressure => 0xF1
  | .heartbeat => 0xFF

def all : List FrameType :=
  [.connect, .connectOK, .connectErr, .publish, .publishOK, .subscribe, .message,
    .ack, .nack, .error, .backpressure, .heartbeat]

def ofByte (b : UInt8) : Option FrameType := all.find? fun t => t.toByte == b

@[simp] theorem ofByte_toByte (t : FrameType) : ofByte t.toByte = some t := by
  cases t <;> decide

end FrameType

@[ext] structure ConnectFrame where
  username : Bytes
  password : Bytes
  apiKey : Bytes
  token : Bytes
  ns : Bytes
  deriving DecidableEq, Repr

@[ext] structure PublishFrame where
  queue : Bytes
  group : Bytes
  payload : Bytes
  deriving DecidableEq, Repr

@[ext] structure PublishOKFrame where
  msgID : Bytes
  offset : UInt64
  deriving DecidableEq, Repr

@[ext] structure SubscribeFrame where
  queue : Bytes
  group : Bytes
  deriving DecidableEq, Repr

@[ext] structure MessageFrame where
  msgID : Bytes
  queue : Bytes
  group : Bytes
  payload : Bytes
  attempts : Int32
  deriving DecidableEq

@[ext] structure ACKFrame where
  msgID : Bytes
  queue : Bytes
  group : Bytes
  deriving DecidableEq, Repr

@[ext] structure NACKFrame where
  msgID : Bytes
  queue : Bytes
  group : Bytes
  reason : Bytes
  deriving DecidableEq, Repr

@[ext] structure ErrorFrame where
  code : UInt32
  message : Bytes
  deriving DecidableEq, Repr

@[ext] structure BackpressureFrame where
  reason : Bytes
  retryAfter : UInt32
  deriving DecidableEq, Repr

inductive Frame
  | connect (f : ConnectFrame)
  | connectOK (sessionID : Bytes)
  | connectErr (reason : Bytes)
  | publish (f : PublishFrame)
  | publishOK (f : PublishOKFrame)
  | subscribe (f : SubscribeFrame)
  | message (f : MessageFrame)
  | ack (f : ACKFrame)
  | nack (f : NACKFrame)
  | error (f : ErrorFrame)
  | backpressure (f : BackpressureFrame)
  | heartbeat
  deriving DecidableEq

def strField (s : Bytes) : Field := .bytes 2 s

def blobField (b : Bytes) : Field := .bytes 4 b

def u32Field (v : UInt32) : Field := .number 4 v.toNat

def u64Field (v : UInt64) : Field := .number 8 v.toNat

def i32Field (v : Int32) : Field := u32Field v.toUInt32

namespace Frame

def type : Frame → FrameType
  | .connect _ => .connect
  | .connectOK _ => .connectOK
  | .connectErr _ => .connectErr
  | .publish _ => .publish
  | .publishOK _ => .publishOK
  | .subscribe _ => .subscribe
  | .message _ => .message
  | .ack _ => .ack
  | .nack _ => .nack
  | .error _ => .error
  | .backpressure _ => .backpressure
  | .heartbeat => .heartbeat

def fields : Frame → List Field
  | .connect f =>
    [strField f.username, strField f.password, strField f.ns, strField f.apiKey, strField f.token]
  | .connectOK sessionID => [strField sessionID]
  | .connectErr reason => [strField reason]
  | .publish f => [strField f.queue, strField f.group, blobField f.payload]
  | .publishOK f => [strField f.msgID, u64Field f.offset]
  | .subscribe f => [strField f.queue, strField f.group]
  | .message f =>
    [strField f.msgID, strField f.queue, strField f.group, blobField f.payload, i32Field f.attempts]
  | .ack f => [strField f.msgID, strField f.queue, strField f.group]
  | .nack f => [strField f.msgID, strField f.queue, strField f.group, strField f.reason]
  | .error f => [u32Field f.code, strField f.message]
  | .backpressure f => [strField f.reason, u32Field f.retryAfter]
  | .heartbeat => []

def payload (f : Frame) : Bytes := encode f.fields

end Frame

def write (t : FrameType) (payload : Bytes) : Bytes :=
  t.toByte :: (bigEndian 4 payload.length ++ payload)

def Frame.write (f : Frame) : Bytes := Protocol.write f.type f.payload

def maxPayloadSize : Nat := 16 * 2 ^ 20

def readStr : StateM Bytes Bytes := do
  let r ← readBytes 2
  return r.1

def readBlob : StateM Bytes Bytes := do
  let r ← readBytes 4
  return r.1

def readU32 : StateM Bytes UInt32 := do
  let n ← readNumber 4
  return .ofNat n

def readU64 : StateM Bytes UInt64 := do
  let n ← readNumber 8
  return .ofNat n

def readI32 : StateM Bytes Int32 := do
  let n ← readU32
  return n.toInt32

def FrameType.read : FrameType → StateM Bytes Frame
  | .connect => do
    let username ← readStr
    let password ← readStr
    let ns ← readStr
    let apiKey ← readStr
    let token ← readStr
    return .connect ⟨username, password, apiKey, token, ns⟩
  | .publish => do
    let queue ← readStr
    let group ← readStr
    let payload ← readBlob
    return .publish ⟨queue, group, payload⟩
  | .subscribe => do
    let queue ← readStr
    let group ← readStr
    return .subscribe ⟨queue, group⟩
  | .ack => do
    let msgID ← readStr
    let queue ← readStr
    let group ← readStr
    return .ack ⟨msgID, queue, group⟩
  | .nack => do
    let msgID ← readStr
    let queue ← readStr
    let group ← readStr
    let reason ← readStr
    return .nack ⟨msgID, queue, group, reason⟩
  | .connectOK => do
    let sessionID ← readStr
    return .connectOK sessionID
  | .connectErr => do
    let reason ← readStr
    return .connectErr reason
  | .publishOK => do
    let msgID ← readStr
    let offset ← readU64
    return .publishOK ⟨msgID, offset⟩
  | .message => do
    let msgID ← readStr
    let queue ← readStr
    let group ← readStr
    let payload ← readBlob
    let attempts ← readI32
    return .message ⟨msgID, queue, group, payload, attempts⟩
  | .error => do
    let code ← readU32
    let text ← readStr
    return .error ⟨code, text⟩
  | .backpressure => do
    let reason ← readStr
    let retryAfter ← readU32
    return .backpressure ⟨reason, retryAfter⟩
  | .heartbeat => return .heartbeat

def checkQueueGroup (queue group : Bytes) : Except ReadError Unit :=
  if !isValidIdent queue then .error (.invalid "invalid queue name")
  else if !isValidIdent group then .error (.invalid "invalid group key")
  else .ok ()

def Frame.check : Frame → Except ReadError Unit
  | .connect f => if !isValidIdent f.username then .error (.invalid "invalid username") else .ok ()
  | .publish f => checkQueueGroup f.queue f.group
  | .subscribe f => checkQueueGroup f.queue f.group
  | .ack f => checkQueueGroup f.queue f.group
  | .nack f => checkQueueGroup f.queue f.group
  | .connectOK _ | .connectErr _ | .publishOK _ | .message _ | .error _ | .backpressure _
    | .heartbeat => .ok ()

def hexByte (b : UInt8) : String :=
  String.ofList [Nat.digitChar (b.toNat / 16), Nat.digitChar (b.toNat % 16)]

def decodePayload (t : UInt8) (payload : Bytes) : Except ReadError (FrameType × Frame) :=
  match FrameType.ofByte t with
  | none => .error (.invalid ("unknown frame type: 0x" ++ hexByte t))
  | some ft => do
    let f := (ft.read payload).1
    f.check
    return (ft, f)

def readPayload (n : Nat) : Reader Bytes := if 0 < n then Reader.readFull n else pure []

/-- `ReadFrame` with the decoder's buffer, all its capacity, before and after.  The payload is a
slice of it, so that a caller has to copy what it keeps. -/
def readFrame (buf : Bytes) : Reader ((FrameType × Frame) × Bytes) := do
  let header ← Reader.readFull 5
  let n := fromBigEndian (header.drop 1)
  if maxPayloadSize < n then
    Reader.fail (.invalid ("frame too large: " ++ toString n ++ " bytes (max " ++
      toString maxPayloadSize ++ ")"))
  else
    let buf := if buf.length < n then List.replicate n 0 else buf
    let payload ← readPayload n
    let f ← StateT.lift (decodePayload (header.headD 0) payload)
    return (f, payload ++ buf.drop n)

def readFrames : Nat → Bytes → Reader (List (FrameType × Frame))
  | 0, _ => return []
  | n + 1, buf => do
    let (f, buf) ← readFrame buf
    let fs ← readFrames n buf
    return f :: fs

end Protocol

end Octar
