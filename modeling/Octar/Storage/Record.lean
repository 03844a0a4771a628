import Octar.Lib.Reader
import Octar.Storage.Event

namespace Octar

open Go Reader

def recordHeader (seq : Nat) (type : EventType) (timestamp : Int) (unused : Bytes) : Bytes :=
  bigEndian 8 seq ++ type.toByte :: (bigEndian 8 (toUnsigned 8 timestamp) ++ unused)

section Checksum

variable (update : UInt32 → Bytes → UInt32)

def fieldSum (crc : UInt32) (s : Bytes) : UInt32 := update (update crc (bigEndian 2 s.length)) s

def payloadSum (crc : UInt32) (payload : Bytes) : UInt32 :=
  let crc := update crc (bigEndian 4 payload.length)
  if 0 < payload.length then update crc payload else crc

def recordSum (e : Event) (unused : Bytes) : UInt32 :=
  let crc := update 0 (recordHeader e.seq e.type e.timestamp unused)
  let crc := fieldSum update crc e.ns
  let crc := fieldSum update crc e.queue
  let crc := fieldSum update crc e.group
  let crc := fieldSum update crc e.msgID
  payloadSum update crc e.payload

def recordWith (e : Event) (unused : Bytes) : Bytes :=
  recordHeader e.seq e.type e.timestamp unused ++
    (lengthPrefixed 2 e.ns ++ (lengthPrefixed 2 e.queue ++
      (lengthPrefixed 2 e.group ++ (lengthPrefixed 2 e.msgID ++
        (bigEndian 4 e.payload.length ++ e.payload ++
          bigEndian 4 (recordSum update e unused).toNat)))))

def writeRecord (e : Event) : Bytes := recordWith update e [0, 0, 0, 0]

def recordSize (e : Event) : Nat :=
  21 + 2 + e.ns.length + 2 + e.queue.length + 2 + e.group.length + 2 + e.msgID.length + 4 +
    e.payload.length + 4

def readField (crc : UInt32) : Reader (UInt32 × Bytes) := do
  let fieldLen ← readFull 2
  let data ← readFull (fromBigEndian fieldLen)
  return (update (update crc fieldLen) data, data)

def readPayload (crc : UInt32) : Reader (UInt32 × Bytes) := do
  let payloadLenBuf ← readFull 4
  let crc := update crc payloadLenBuf
  let payloadLen := fromBigEndian payloadLenBuf
  if 0 < payloadLen then do
    let payload ← readFull payloadLen
    return (update crc payload, payload)
  else return (crc, [])

def readEvent : Reader Event := do
  let header ← readFull 21
  let seq := fromBigEndian (slice header 0 8)
  let type := EventType.ofByte (header.getD 8 0)
  let timestamp := toSigned 8 (fromBigEndian (slice header 9 17))
  let (crc, ns) ← readField update (update 0 header)
  let (crc, queue) ← readField update crc
  let (crc, group) ← readField update crc
  let (crc, msgID) ← readField update crc
  let (crc, payload) ← readPayload update crc
  let footer ← readFull 4
  if fromBigEndian footer ≠ crc.toNat then
    fail (.invalid s!"corrupted WAL record: CRC mismatch: seq={seq}")
  else return ⟨type, ns, queue, group, msgID, payload, seq, timestamp⟩

end Checksum

def castagnoli (crc : UInt32) (bs : Bytes) : UInt32 :=
  let shift (crc : UInt32) : UInt32 :=
    if crc &&& 1 = 1 then (crc >>> 1) ^^^ 0x82F63B78 else crc >>> 1
  ~~~ bs.foldl
    (fun crc b =>
      shift (shift (shift (shift (shift (shift (shift (shift (crc ^^^ b.toUInt32)))))))))
    (~~~ crc)

-- the check value of the checksum
example : castagnoli 0 (str "123456789") = 0xE3069283 := by decide +kernel

structure Event.Encodable (e : Event) : Prop where
  seq : e.seq < 256 ^ 8
  type : EventType.ofByte e.type.toByte = e.type
  timestamp : IsSigned 8 e.timestamp
  ns : e.ns.length < 256 ^ 2
  queue : e.queue.length < 256 ^ 2
  group : e.group.length < 256 ^ 2
  msgID : e.msgID.length < 256 ^ 2
  payload : e.payload.length < 256 ^ 4

theorem EventType.toByte_ofByte (b : UInt8) : (EventType.ofByte b).toByte = b := by
  unfold EventType.ofByte
  split_ifs <;> simp_all [EventType.toByte]

theorem length_recordHeader (seq : Nat) (type : EventType) (timestamp : Int) (unused : Bytes) :
    (recordHeader seq type timestamp unused).length = 17 + unused.length := by
  simp only [recordHeader, List.length_append, List.length_cons, length_bigEndian]
  omega

theorem recordHeader_read {header : Bytes} (h : header.length = 21) :
    recordHeader (fromBigEndian (slice header 0 8)) (.ofByte (header.getD 8 0))
      (toSigned 8 (fromBigEndian (slice header 9 17))) (header.drop 17) = header := by
  have hseq : bigEndian 8 (fromBigEndian (slice header 0 8)) = slice header 0 8 :=
    bigEndian_slice (i := 0) (j := 8) (by omega)
  have hts : bigEndian 8 (fromBigEndian (slice header 9 17)) = slice header 9 17 :=
    bigEndian_slice (i := 9) (j := 17) (by omega)
  have hbyte : header.getD 8 0 :: header.drop 9 = header.drop 8 := by
    rw [List.drop_eq_getElem_cons (show 8 < header.length by omega)]
    simp [List.getD_eq_getElem?_getD, h]
  have hlt : fromBigEndian (slice header 9 17) < 256 ^ 8 :=
    fromBigEndian_slice_lt (i := 9) (j := 17) (by omega)
  rw [recordHeader, hseq, toUnsigned_toSigned hlt, hts, EventType.toByte_ofByte,
    slice_append header (by decide), hbyte, slice_append header (by decide), List.drop_zero]

section Read

variable {seq : Nat} {type : EventType} {timestamp : Int} {unused : Bytes}

theorem read_recordHeader_seq (h : seq < 256 ^ 8) :
    fromBigEndian (slice (recordHeader seq type timestamp unused) 0 8) = seq := by
  have hslice : slice (recordHeader seq type timestamp unused) 0 8 = bigEndian 8 seq :=
    slice_middle (a := []) rfl (length_bigEndian 8 seq)
  rw [hslice, fromBigEndian_bigEndian h]

theorem read_recordHeader_type :
    (recordHeader seq type timestamp unused).getD 8 0 = type.toByte := by
  rw [recordHeader, List.getD_eq_getElem?_getD, List.getElem?_append_right (by simp),
    length_bigEndian]
  rfl

theorem read_recordHeader_timestamp (h : IsSigned 8 timestamp) :
    toSigned 8 (fromBigEndian (slice (recordHeader seq type timestamp unused) 9 17)) =
      timestamp := by
  have hheader : recordHeader seq type timestamp unused =
      (bigEndian 8 seq ++ [type.toByte]) ++ (bigEndian 8 (toUnsigned 8 timestamp) ++ unused) := by
    rw [List.append_assoc]
    rfl
  rw [hheader, slice_middle (by simp) (length_bigEndian 8 _),
    fromBigEndian_bigEndian (toUnsigned_lt 8 timestamp), toSigned_toUnsigned]
  exact h

end Read

variable {update : UInt32 → Bytes → UInt32}

theorem accepts_readField (crc : UInt32) :
    (readField update crc).Accepts fun x front =>
      x.2.length < 256 ^ 2 ∧ x.1 = fieldSum update crc x.2 ∧ front = lengthPrefixed 2 x.2 := by
  refine ((accepts_readFull 2).bind fun len => (accepts_readFull _).bind fun data =>
    accepts_pure _).congr ?_
  rintro ⟨crc', s⟩ front
  constructor
  · rintro ⟨_, len, _, ⟨hlen, rfl⟩, ⟨_, data, _, ⟨hdata, rfl⟩, ⟨heq, rfl⟩, rfl⟩, rfl⟩
    cases heq
    have hlt := fromBigEndian_lt len
    have hbe := bigEndian_fromBigEndian len
    rw [hlen, ← hdata] at hlt hbe
    exact ⟨hlt, by rw [fieldSum, hbe], by rw [lengthPrefixed, hbe, List.append_nil]⟩
  · rintro ⟨hlt, hcrc, rfl⟩
    obtain rfl : crc' = fieldSum update crc s := hcrc
    refine ⟨_, _, _, ⟨length_bigEndian 2 s.length, rfl⟩,
      ⟨s, _, _, ⟨?_, rfl⟩, ⟨rfl, rfl⟩, (List.append_nil s).symm⟩, rfl⟩
    exact (fromBigEndian_bigEndian hlt).symm

theorem accepts_readPayload (crc : UInt32) :
    (readPayload update crc).Accepts fun x front =>
      x.2.length < 256 ^ 4 ∧ x.1 = payloadSum update crc x.2 ∧
        front = bigEndian 4 x.2.length ++ x.2 := by
  -- the two branches behind the length, which the sender takes by the same test
  have hrest : ∀ len : Bytes, Accepts (if 0 < fromBigEndian len then do
        let payload ← readFull (fromBigEndian len)
        return (update (update crc len) payload, payload)
      else return (update crc len, [])) fun x front => x.2.length = fromBigEndian len ∧
        x.1 = (if 0 < x.2.length then update (update crc len) x.2 else update crc len) ∧
          front = x.2 := by
    intro len
    split
    · rename_i hpos
      refine ((accepts_readFull _).bind fun payload => accepts_pure _).congr ?_
      rintro ⟨crc', payload⟩ front
      constructor
      · rintro ⟨_, data, _, ⟨hdata, rfl⟩, ⟨heq, rfl⟩, rfl⟩
        cases heq
        exact ⟨hdata, by rw [if_pos (hdata ▸ hpos)], List.append_nil _⟩
      · rintro ⟨hdata, hcrc, rfl⟩
        rw [if_pos (hdata ▸ hpos)] at hcrc
        exact ⟨_, _, _, ⟨hdata, rfl⟩, ⟨by rw [← hcrc], rfl⟩, (List.append_nil _).symm⟩
    · rename_i hpos
      have hzero : fromBigEndian len = 0 := Nat.eq_zero_of_not_pos hpos
      refine (accepts_pure _).congr ?_
      rintro ⟨crc', payload⟩ front
      rw [hzero]
      constructor
      · rintro ⟨heq, rfl⟩
        cases heq
        exact ⟨rfl, rfl, rfl⟩
      · rintro ⟨hdata, hcrc, hfront⟩
        obtain rfl : payload = [] := List.length_eq_zero_iff.mp hdata
        exact ⟨congrArg (·, []) hcrc, hfront⟩
  refine ((accepts_readFull 4).bind hrest).congr ?_
  rintro ⟨crc', payload⟩ front
  constructor
  · rintro ⟨_, len, _, ⟨hlen, rfl⟩, ⟨hdata, hcrc, rfl⟩, rfl⟩
    have hlt := fromBigEndian_lt len
    have hbe := bigEndian_fromBigEndian len
    rw [hlen, ← hdata] at hlt hbe
    exact ⟨hlt, by rw [hcrc, payloadSum, hbe], by rw [hbe]⟩
  · rintro ⟨hlt, hcrc, rfl⟩
    exact ⟨_, _, _, ⟨length_bigEndian 4 payload.length, rfl⟩,
      ⟨(fromBigEndian_bigEndian hlt).symm, hcrc, rfl⟩, rfl⟩

theorem accepts_footer (crc : UInt32) (e : Event) (err : ReadError) :
    Accepts (do
      let footer ← readFull 4
      if fromBigEndian footer ≠ crc.toNat then fail err else return e) fun e' front =>
        e' = e ∧ front = bigEndian 4 crc.toNat := by
  refine ((accepts_readFull 4).bind fun footer => (accepts_pure e).unless _ err).congr ?_
  intro e' front
  simp only [not_not]
  constructor
  · rintro ⟨_, footer, _, ⟨hlen, rfl⟩, ⟨hcrc, rfl, rfl⟩, rfl⟩
    have hbe := bigEndian_fromBigEndian footer
    rw [hlen, hcrc] at hbe
    exact ⟨rfl, by rw [hbe, List.append_nil]⟩
  · rintro ⟨rfl, rfl⟩
    exact ⟨_, _, _, ⟨length_bigEndian 4 _, rfl⟩, ⟨fromBigEndian_bigEndian crc.toNat_lt, rfl, rfl⟩,
      (List.append_nil _).symm⟩

theorem accepts_readEvent :
    (readEvent update).Accepts fun e front =>
      e.Encodable ∧ ∃ unused, unused.length = 4 ∧ front = recordWith update e unused := by
  refine ((accepts_readFull 21).bind fun header =>
    (accepts_readField _).bind fun ns => (accepts_readField _).bind fun queue =>
    (accepts_readField _).bind fun group => (accepts_readField _).bind fun msgID =>
    (accepts_readPayload _).bind fun payload => accepts_footer _ _ _).congr ?_
  intro e front
  constructor
  · rintro ⟨_, header, _, ⟨hheader, rfl⟩, ⟨⟨c₁, ns⟩, _, _, ⟨hns, hc₁, rfl⟩,
      ⟨⟨c₂, queue⟩, _, _, ⟨hqueue, hc₂, rfl⟩, ⟨⟨c₃, group⟩, _, _, ⟨hgroup, hc₃, rfl⟩,
      ⟨⟨c₄, msgID⟩, _, _, ⟨hmsgID, hc₄, rfl⟩, ⟨⟨c₅, payload⟩, _, _, ⟨hpayload, hc₅, rfl⟩,
      ⟨rfl, rfl⟩, rfl⟩, rfl⟩, rfl⟩, rfl⟩, rfl⟩, rfl⟩
    simp only at hc₁ hc₂ hc₃ hc₄ hc₅
    subst hc₁ hc₂ hc₃ hc₄ hc₅
    refine ⟨⟨?_, ?_, ?_, hns, hqueue, hgroup, hmsgID, hpayload⟩, header.drop 17,
      by simp [hheader], ?_⟩
    · exact fromBigEndian_slice_lt (i := 0) (j := 8) (by omega)
    · exact congrArg EventType.ofByte (EventType.toByte_ofByte _)
    · simp only
      exact isSigned_toSigned 8 _
    · simp only [recordWith, recordSum, recordHeader_read hheader]
  · rintro ⟨he, unused, hunused, rfl⟩
    have hread : e = ⟨.ofByte ((recordHeader e.seq e.type e.timestamp unused).getD 8 0), e.ns,
        e.queue, e.group, e.msgID, e.payload,
        fromBigEndian (slice (recordHeader e.seq e.type e.timestamp unused) 0 8),
        toSigned 8 (fromBigEndian
          (slice (recordHeader e.seq e.type e.timestamp unused) 9 17))⟩ := by
      rw [read_recordHeader_seq he.seq, read_recordHeader_type,
        read_recordHeader_timestamp he.timestamp, he.type]
    exact ⟨_, _, _, ⟨by rw [length_recordHeader, hunused], rfl⟩,
      ⟨(_, e.ns), _, _, ⟨he.ns, rfl, rfl⟩,
      ⟨(_, e.queue), _, _, ⟨he.queue, rfl, rfl⟩, ⟨(_, e.group), _, _, ⟨he.group, rfl, rfl⟩,
      ⟨(_, e.msgID), _, _, ⟨he.msgID, rfl, rfl⟩, ⟨(_, e.payload), _, _, ⟨he.payload, rfl, rfl⟩,
      ⟨hread, rfl⟩, rfl⟩, rfl⟩, rfl⟩, rfl⟩, rfl⟩, rfl⟩

theorem readEvent_writeRecord {e : Event} (he : e.Encodable) (rest : Bytes) :
    readEvent update (writeRecord update e ++ rest) = .ok (e, rest) :=
  (accepts_readEvent _ _ _).mpr ⟨_, ⟨he, _, rfl, rfl⟩, rfl⟩

theorem length_recordWith (e : Event) {unused : Bytes} (h : unused.length = 4) :
    (recordWith update e unused).length = recordSize e := by
  simp only [recordWith, lengthPrefixed, recordSize, length_recordHeader, h, List.length_append,
    length_bigEndian]
  omega

theorem length_writeRecord (update : UInt32 → Bytes → UInt32) (e : Event) :
    (writeRecord update e).length = recordSize e := length_recordWith e rfl

theorem recordSize_pos (e : Event) : 0 < recordSize e := by
  unfold recordSize
  omega

theorem readEvent_length {bs : Bytes} {e : Event} {rest : Bytes}
    (h : readEvent update bs = .ok (e, rest)) :
    bs.length = recordSize e + rest.length := by
  obtain ⟨front, ⟨-, unused, hunused, rfl⟩, rfl⟩ := (accepts_readEvent _ _ _).mp h
  rw [List.length_append, length_recordWith e hunused]

section Log

variable (update : UInt32 → Bytes → UInt32)

def encodeLog (records : List Event) : Bytes := records.flatMap (writeRecord update)

def readEvents : Nat → Bytes → List Event
  | 0, _ => []
  | n + 1, bs =>
    match readEvent update bs with
    | .ok (e, rest) => e :: readEvents n rest
    | .error _ => []

def readLog (bs : Bytes) : List Event := readEvents update bs.length bs

def replayLog (bs : Bytes) (startSeq : Nat) : List Event :=
  (readLog update bs).filter fun e => ¬ e.seq < startSeq

theorem encodeLog_append (l l' : List Event) :
    encodeLog update (l ++ l') = encodeLog update l ++ encodeLog update l' := List.flatMap_append

end Log

theorem readEvents_enough {n m : Nat} {bs : Bytes} (hn : bs.length ≤ n) (hm : bs.length ≤ m) :
    readEvents update n bs = readEvents update m bs := by
  induction n generalizing m bs with
  | zero =>
    obtain rfl : bs = [] := List.length_eq_zero_iff.mp (Nat.le_zero.mp hn)
    cases m <;> rfl
  | succ n ih =>
    cases m with
    | zero =>
      obtain rfl : bs = [] := List.length_eq_zero_iff.mp (Nat.le_zero.mp hm)
      rfl
    | succ m =>
      rw [readEvents, readEvents]
      cases hr : readEvent update bs with
      | error err => rfl
      | ok x =>
        have hlen := readEvent_length hr
        have hpos := recordSize_pos x.1
        exact congrArg (x.1 :: ·) (ih (by omega) (by omega))

theorem readLog_ok {bs : Bytes} {e : Event} {rest : Bytes}
    (h : readEvent update bs = .ok (e, rest)) :
    readLog update bs = e :: readLog update rest := by
  have hlen := readEvent_length h
  have hpos := recordSize_pos e
  obtain ⟨n, hn⟩ : ∃ n, bs.length = n + 1 := ⟨bs.length - 1, by omega⟩
  rw [readLog, hn, readEvents, h]
  exact congrArg (e :: ·) (readEvents_enough (by omega) (Nat.le_refl _))

theorem readLog_error {bs : Bytes} {err : ReadError} (h : readEvent update bs = .error err) :
    readLog update bs = [] := by
  unfold readLog
  cases bs.length with
  | zero => rfl
  | succ n => rw [readEvents, h]

theorem readLog_append {records : List Event} (h : ∀ e ∈ records, e.Encodable) (rest : Bytes) :
    readLog update (encodeLog update records ++ rest) = records ++ readLog update rest := by
  induction records with
  | nil => rfl
  | cons e records ih =>
    rw [List.forall_mem_cons] at h
    rw [encodeLog, List.flatMap_cons, List.append_assoc, ← encodeLog,
      readLog_ok (readEvent_writeRecord h.1 _), ih h.2, List.cons_append]

theorem replayLog_encodeLog {records : List Event} (h : ∀ e ∈ records, e.Encodable)
    (startSeq : Nat) :
    replayLog update (encodeLog update records) startSeq =
    records.filter fun e => ¬ e.seq < startSeq := by
  have hread : readLog update (encodeLog update records ++ []) = records ++ [] :=
    readLog_append h []
  rw [List.append_nil, List.append_nil] at hread
  rw [replayLog, hread]

theorem recordSize_le {n : Nat} {bs : Bytes} {e : Event} (h : e ∈ readEvents update n bs) :
    recordSize e ≤ bs.length := by
  induction n generalizing bs with
  | zero => cases h
  | succ n ih =>
    rw [readEvents] at h
    cases hr : readEvent update bs with
    | error err =>
      rw [hr] at h
      cases h
    | ok x =>
      rw [hr] at h
      have hlen := readEvent_length hr
      rcases List.mem_cons.mp h with rfl | h
      · omega
      · have := ih h
        omega

end Octar
