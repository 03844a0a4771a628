import Octar.Protocol.Codec
import Octar.Queue.Message

namespace Octar.Protocol

open Go Go.Fields

def FrameType.layout : FrameType → List Kind
  | .connect => [.bytes 2, .bytes 2, .bytes 2, .bytes 2, .bytes 2]
  | .connectOK | .connectErr => [.bytes 2]
  | .publish => [.bytes 2, .bytes 2, .bytes 4]
  | .publishOK => [.bytes 2, .number 8]
  | .subscribe => [.bytes 2, .bytes 2]
  | .message => [.bytes 2, .bytes 2, .bytes 2, .bytes 4, .number 4]
  | .ack => [.bytes 2, .bytes 2, .bytes 2]
  | .nack => [.bytes 2, .bytes 2, .bytes 2, .bytes 2]
  | .error => [.number 4, .bytes 2]
  | .backpressure => [.bytes 2, .number 4]
  | .heartbeat => []

theorem Frame.kinds (f : Frame) : f.fields.map Field.kind = f.type.layout := by
  cases f <;> rfl

theorem readStr_apply (bs : Bytes) : readStr bs = ((readBytes 2 bs).1.1, (readBytes 2 bs).2) := rfl

theorem readBlob_apply (bs : Bytes) : readBlob bs = ((readBytes 4 bs).1.1, (readBytes 4 bs).2) :=
  rfl

theorem readU32_field (bs : Bytes) :
    u32Field (readU32 bs).1 = .number 4 (readNumber 4 bs).1 ∧
      (readU32 bs).2 = (readNumber 4 bs).2 := by
  have hlt := (readNumber_fits 4 bs).1
  refine ⟨?_, rfl⟩
  change Field.number 4 (UInt32.ofNat (readNumber 4 bs).1).toNat = _
  rw [UInt32.toNat_ofNat_of_lt' hlt]

theorem readU64_field (bs : Bytes) :
    u64Field (readU64 bs).1 = .number 8 (readNumber 8 bs).1 ∧
      (readU64 bs).2 = (readNumber 8 bs).2 := by
  have hlt := (readNumber_fits 8 bs).1
  refine ⟨?_, rfl⟩
  change Field.number 8 (UInt64.ofNat (readNumber 8 bs).1).toNat = _
  rw [UInt64.toNat_ofNat_of_lt' hlt]

theorem readI32_field (bs : Bytes) : i32Field (readI32 bs).1 = .number 4 (readNumber 4 bs).1 := by
  change u32Field (readU32 bs).1.toInt32.toUInt32 = _
  rw [UInt32.toUInt32_toInt32, (readU32_field bs).1]

theorem FrameType.type_read (ft : FrameType) (bs : Bytes) : (ft.read bs).1.type = ft := by
  cases ft <;> simp only [FrameType.read, bind_apply, pure_apply, Frame.type]

theorem FrameType.fields_read (ft : FrameType) (bs : Bytes) :
    (ft.read bs).1.fields = (readFields ft.layout bs).1 := by
  cases ft <;>
    simp only [FrameType.read, FrameType.layout, Frame.fields, bind_apply, pure_apply,
      readFields_cons, readFields_nil, readField_bytes, readField_number, readStr_apply,
      readBlob_apply, strField, blobField, readU32_field, readU64_field, readI32_field]

theorem toUInt32_inj {a b : Int32} : a.toUInt32 = b.toUInt32 ↔ a = b := by
  cases a
  cases b
  simp

theorem Frame.eq_of_fields {f g : Frame} (htype : f.type = g.type) (h : f.fields = g.fields) :
    f = g := by
  cases f <;> cases g <;> first
    | (cases htype; done)
    | simp_all [fields, strField, blobField, u32Field, u64Field, i32Field, UInt32.toNat_inj,
      UInt64.toNat_inj, toUInt32_inj, ConnectFrame.ext_iff, PublishFrame.ext_iff,
      PublishOKFrame.ext_iff, SubscribeFrame.ext_iff, MessageFrame.ext_iff, ACKFrame.ext_iff,
      NACKFrame.ext_iff, ErrorFrame.ext_iff, BackpressureFrame.ext_iff]

def Frame.idents : Frame → List Bytes
  | .connect f => [f.username]
  | .publish f => [f.queue, f.group]
  | .subscribe f => [f.queue, f.group]
  | .ack f => [f.queue, f.group]
  | .nack f => [f.queue, f.group]
  | .connectOK _ | .connectErr _ | .publishOK _ | .message _ | .error _ | .backpressure _
    | .heartbeat => []

theorem checkQueueGroup_ok {queue group : Bytes} :
    checkQueueGroup queue group = .ok () ↔ ∀ s ∈ [queue, group], isValidIdent s = true := by
  unfold checkQueueGroup
  cases hq : isValidIdent queue <;> cases hg : isValidIdent group <;> simp [hq, hg]

theorem Frame.check_ok {f : Frame} : f.check = .ok () ↔ ∀ s ∈ f.idents, isValidIdent s = true := by
  cases f with
  | connect f =>
    simp only [check, idents]
    cases hu : isValidIdent f.username <;> simp [hu]
  | publish f => exact checkQueueGroup_ok
  | subscribe f => exact checkQueueGroup_ok
  | ack f => exact checkQueueGroup_ok
  | nack f => exact checkQueueGroup_ok
  | _ => simp [check, idents]

theorem decodePayload_ok {t : UInt8} {payload : Bytes} {ft : FrameType} {f : Frame} :
    decodePayload t payload = .ok (ft, f) ↔
      FrameType.ofByte t = some ft ∧ f = (ft.read payload).1 ∧ f.check = .ok () := by
  unfold decodePayload
  cases FrameType.ofByte t with
  | none => simp
  | some ft' =>
    simp only [bind_ok, Option.some.injEq]
    constructor
    · rintro ⟨u, hcheck, heq⟩
      cases heq
      exact ⟨rfl, rfl, hcheck⟩
    · rintro ⟨rfl, rfl, hcheck⟩
      exact ⟨(), hcheck, rfl⟩

def header (t : UInt8) (n : Nat) : Bytes := t :: bigEndian 4 n

theorem write_append (t : FrameType) (payload rest : Bytes) :
    write t payload ++ rest = header t.toByte payload.length ++ (payload ++ rest) := by
  simp [write, header]

theorem accepts_readPayload (n : Nat) :
    (readPayload n).Accepts fun a front => a.length = n ∧ front = a := by
  unfold readPayload
  split
  · exact Reader.accepts_readFull n
  · rename_i hzero
    refine (Reader.accepts_pure []).congr ?_
    intro a front
    rw [Nat.eq_zero_of_not_pos hzero, List.length_eq_zero_iff]
    constructor
    · rintro ⟨rfl, rfl⟩
      exact ⟨rfl, rfl⟩
    · rintro ⟨rfl, rfl⟩
      exact ⟨rfl, rfl⟩

theorem readFrame_header {t : UInt8} {payload : Bytes} (hlen : payload.length ≤ maxPayloadSize)
    (buf rest : Bytes) :
    readFrame buf (header t payload.length ++ (payload ++ rest)) =
      (decodePayload t payload).map fun f =>
        ((f, payload ++ (if buf.length < payload.length then List.replicate payload.length 0
          else buf).drop payload.length), rest) := by
  have hlt : payload.length < 256 ^ 4 := Nat.lt_of_le_of_lt hlen (by decide)
  have hheader : (header t payload.length).length = 5 := by simp [header]
  rw [readFrame, (Reader.accepts_readFull 5).bind_apply ⟨hheader, rfl⟩]
  simp only [header, List.drop_succ_cons, List.drop_zero, fromBigEndian_bigEndian hlt,
    List.headD_cons, if_neg (Nat.not_lt.mpr hlen)]
  rw [(accepts_readPayload _).bind_apply ⟨rfl, rfl⟩]
  cases decodePayload t payload <;> rfl

theorem readFrame_tooLarge (t : FrameType) {payload : Bytes}
    (hlen : maxPayloadSize < payload.length) (hlt : payload.length < 256 ^ 4) (buf rest : Bytes) :
    ∃ err, readFrame buf (write t payload ++ rest) = .error err := by
  have hheader : (header t.toByte payload.length).length = 5 := by simp [header]
  rw [write_append, readFrame, (Reader.accepts_readFull 5).bind_apply ⟨hheader, rfl⟩]
  simp only [header, List.drop_succ_cons, List.drop_zero, fromBigEndian_bigEndian hlt, if_pos hlen]
  exact ⟨_, rfl⟩

theorem readFrame_ok {buf bs buf' rest : Bytes} {ft : FrameType} {f : Frame}
    (h : readFrame buf bs = .ok (((ft, f), buf'), rest)) :
    ∃ t payload, bs = header t payload.length ++ (payload ++ rest) ∧
      payload.length ≤ maxPayloadSize ∧ decodePayload t payload = .ok (ft, f) := by
  rw [readFrame] at h
  obtain ⟨⟨hd, rest₁⟩, hhd, hrest⟩ := bind_ok.mp h
  obtain ⟨front, ⟨hlen, rfl⟩, rfl⟩ := (Reader.accepts_readFull 5 _ _ _).mp hhd
  dsimp only at hrest
  split at hrest
  · cases hrest
  · rename_i hmax
    obtain ⟨⟨payload, rest₂⟩, hpayload, hlast⟩ := bind_ok.mp hrest
    obtain ⟨front', ⟨hn, rfl⟩, rfl⟩ := (accepts_readPayload _ _ _ _).mp hpayload
    obtain ⟨⟨g, rest₃⟩, hlift, hreturn⟩ := bind_ok.mp hlast
    obtain ⟨g', hdecode, heq⟩ := bind_ok.mp hlift
    cases heq
    cases hreturn
    cases front with
    | nil => cases hlen
    | cons t tail =>
      have htail : tail.length = 4 := Nat.succ.inj hlen
      have hbe := bigEndian_fromBigEndian tail
      rw [List.drop_succ_cons, List.drop_zero] at hn hmax
      rw [htail, ← hn] at hbe
      exact ⟨t, front', by rw [header, hbe], hn ▸ Nat.not_lt.mp hmax, hdecode⟩

structure Frame.Encodable (f : Frame) : Prop where
  strings : ∀ s, .bytes 2 s ∈ f.fields → s.length ≤ 65535
  size : f.payload.length ≤ maxPayloadSize
  idents : ∀ s ∈ f.idents, isValidIdent s = true

theorem Frame.forall_fields {P : Field → Prop} (hstr : ∀ s, P (strField s))
    (hblob : ∀ b, P (blobField b)) (hu32 : ∀ v, P (u32Field v)) (hu64 : ∀ v, P (u64Field v))
    (f : Frame) : ∀ x ∈ f.fields, P x := by
  cases f <;> simp [fields, i32Field, hstr, hblob, hu32, hu64]

theorem Frame.Encodable.fits {f : Frame} (h : f.Encodable) : ∀ x ∈ f.fields, x.Fits := by
  intro x hx
  refine Frame.forall_fields (P := fun x => x ∈ f.fields → x.Fits) ?_ ?_ ?_ ?_ f x hx hx
  · intro s hs
    exact Nat.lt_succ_of_le (h.strings s hs)
  · intro b hb
    have hle := Nat.le_trans (length_encode_le hb) h.size
    simp only [blobField, Field.encode, lengthPrefixed, List.length_append, maxPayloadSize] at hle
    change b.length < 256 ^ 4
    omega
  · intro v _
    exact v.toNat_lt
  · intro v _
    exact v.toNat_lt

theorem Frame.Encodable.decode {f : Frame} (h : f.Encodable) :
    decodePayload f.type.toByte f.payload = .ok (f.type, f) := by
  refine decodePayload_ok.mpr ⟨FrameType.ofByte_toByte _, ?_, Frame.check_ok.mpr h.idents⟩
  apply Frame.eq_of_fields (FrameType.type_read _ _).symm
  have hread := readFields_encode h.fits []
  rw [List.append_nil, Frame.kinds] at hread
  rw [FrameType.fields_read, Frame.payload, hread]

theorem Frame.Encodable.readFrame {f : Frame} (h : f.Encodable) (buf rest : Bytes) :
    ∃ buf', readFrame buf (f.write ++ rest) = .ok (((f.type, f), buf'), rest) := by
  rw [Frame.write, write_append, readFrame_header h.size, h.decode]
  exact ⟨_, rfl⟩

/-- Any frames within the codec's limits are read back from one stream as they were written, and
what follows them is left. -/
theorem frames_round_trip {fs : List Frame} (h : ∀ f ∈ fs, f.Encodable) (buf rest : Bytes) :
    readFrames fs.length buf (fs.flatMap Frame.write ++ rest) =
      .ok (fs.map fun f => (f.type, f), rest) := by
  induction fs generalizing buf with
  | nil => rfl
  | cons f fs ih =>
    rw [List.forall_mem_cons] at h
    obtain ⟨buf', hf⟩ := h.1.readFrame buf (fs.flatMap Frame.write ++ rest)
    rw [List.flatMap_cons, List.append_assoc, List.length_cons, readFrames]
    refine bind_ok.mpr ⟨_, hf, ?_⟩
    refine bind_ok.mpr ⟨_, ih h.2 buf', ?_⟩
    rfl

theorem frames_round_trip_sample :
    let fs : List Frame := [.publish ⟨str "q", str "g", [1, 2]⟩, .heartbeat,
      .message ⟨str "0123", str "q", str "g", [1, 2], -1⟩]
    readFrames 3 [0] (fs.flatMap Frame.write ++ [7]) = .ok (fs.map fun f => (f.type, f), [7]) := by
  intro fs
  have hfs : ∀ f ∈ fs, f.Encodable := by
    intro f hf
    simp only [fs, List.mem_cons, List.not_mem_nil, or_false] at hf
    rcases hf with rfl | rfl | rfl
    · exact ⟨by simp [Frame.fields, strField, blobField, str], by decide, by decide⟩
    · exact ⟨by simp [Frame.fields], by decide, by decide⟩
    · exact ⟨by simp [Frame.fields, strField, blobField, i32Field, u32Field, str],
        by decide, by decide⟩
  exact frames_round_trip hfs [0] [7]

def payloadOf (bs : Bytes) : Bytes := (bs.drop 5).take (fromBigEndian ((bs.drop 1).take 4))

theorem payloadOf_header {t : UInt8} {payload : Bytes} (hlen : payload.length ≤ maxPayloadSize)
    (rest : Bytes) :
    payloadOf (header t payload.length ++ (payload ++ rest)) = payload := by
  have hlt : payload.length < 256 ^ 4 := Nat.lt_of_le_of_lt hlen (by decide)
  simp only [payloadOf, header, List.cons_append, List.drop_succ_cons, List.drop_zero]
  rw [List.take_left' (length_bigEndian 4 _), fromBigEndian_bigEndian hlt,
    List.drop_left' (length_bigEndian 4 _), List.take_left]

/-- What is accepted is what would be written exactly if the fields of its type fill the payload. -/
theorem accepted_is_written_iff {buf bs buf' rest : Bytes} {ft : FrameType} {f : Frame}
    (h : readFrame buf bs = .ok (((ft, f), buf'), rest)) :
    bs = f.write ++ rest ↔ fill ft.layout (payloadOf bs) = true := by
  obtain ⟨t, payload, rfl, hlen, hdecode⟩ := readFrame_ok h
  obtain ⟨htype, hread, -⟩ := decodePayload_ok.mp hdecode
  have ht : f.type = ft := by rw [hread, FrameType.type_read]
  have hbyte : t = ft.toByte := by
    have hfound := List.find?_some htype
    exact (beq_iff_eq.mp hfound).symm
  have hpayload : f.payload = encode (readFields ft.layout payload).1 := by
    rw [Frame.payload, hread, FrameType.fields_read]
  rw [payloadOf_header hlen, ← encode_readFields_iff, ← hpayload, Frame.write, write_append, ht,
    hbyte]
  constructor
  · intro heq
    have hrest := (List.append_inj heq (by simp [header])).2
    exact (List.append_cancel_right hrest).symm
  · intro heq
    rw [heq]

theorem accepted_is_written_iff_sample :
    let bs : Bytes := 0x20 :: ([0, 0, 0, 6] ++ [0, 1, 113, 0, 1, 103] ++ [9])
    let f : Frame := .subscribe ⟨str "q", str "g"⟩
    (bs = f.write ++ [9] ↔ fill FrameType.subscribe.layout (payloadOf bs) = true) ∧
      fill FrameType.subscribe.layout (payloadOf bs) = true := by
  intro bs f
  have hread : readFrame [] bs = .ok (((.subscribe, f), [0, 1, 113, 0, 1, 103]), [9]) := by rfl
  exact ⟨accepted_is_written_iff hread, by decide⟩

/-- A publish frame that ends before its payload is accepted as one with an empty payload. -/
theorem truncated_publish_is_accepted :
    let bs : Bytes := 0x10 :: ([0, 0, 0, 6] ++ [0, 1, 113, 0, 1, 103])
    ∃ buf', readFrame [] bs = .ok (((.publish, .publish ⟨str "q", str "g", []⟩), buf'), []) ∧
      bs ≠ (Frame.publish ⟨str "q", str "g", []⟩).write := by
  exact ⟨[0, 1, 113, 0, 1, 103], rfl, by decide⟩

def messageFrame (msg : Message) : MessageFrame :=
  ⟨msg.id, msg.queueName, msg.groupKey, msg.payload, Int32.ofInt (msg.attempts + 1)⟩

theorem length_messageFrame (msg : Message) : (Frame.message (messageFrame msg)).payload.length =
    msg.id.length + msg.queueName.length + msg.groupKey.length + msg.payload.length + 14 := by
  simp only [Frame.payload, Frame.fields, messageFrame, strField, blobField, i32Field, u32Field,
    encode_cons, Field.encode, lengthPrefixed, List.length_append, length_bigEndian]
  simp only [encode, List.flatMap_nil, List.length_nil]
  omega

theorem length_of_publish {buf bs buf' rest : Bytes} {f : PublishFrame}
    (h : readFrame buf bs = .ok (((.publish, .publish f), buf'), rest)) :
    f.queue.length ≤ 1024 ∧ f.group.length ≤ 1024 ∧ f.payload.length ≤ maxPayloadSize := by
  obtain ⟨t, payload, rfl, hlen, hdecode⟩ := readFrame_ok h
  obtain ⟨-, hread, hcheck⟩ := decodePayload_ok.mp hdecode
  have hidents := Frame.check_ok.mp hcheck
  have hident : ∀ s, isValidIdent s = true → s.length ≤ 1024 := by
    intro s hs
    simp only [isValidIdent, Bool.and_eq_true, decide_eq_true_eq] at hs
    exact hs.1.2
  have hsize := (readFields_fits FrameType.publish.layout payload).2.2
  rw [← FrameType.fields_read, ← hread] at hsize
  simp only [Frame.fields, strField, blobField, List.map_cons, Field.size, List.sum_cons] at hsize
  exact ⟨hident _ (hidents _ (by simp [Frame.idents])),
    hident _ (hidents _ (by simp [Frame.idents])), by omega⟩

/-- A consumer accepts what is delivered for an accepted publish frame exactly if the names and the
payload leave room for the fields that the broker adds. -/
theorem delivery_is_accepted_iff {buf bs buf' rest : Bytes} {f : PublishFrame}
    (h : readFrame buf bs = .ok (((.publish, .publish f), buf'), rest)) (msg : Message)
    (hid : msg.id.length = 16) (hqueue : msg.queueName = f.queue) (hgroup : msg.groupKey = f.group)
    (hpayload : msg.payload = f.payload) (cbuf more : Bytes) :
    (∃ cbuf', readFrame cbuf ((Frame.message (messageFrame msg)).write ++ more) =
        .ok (((.message, .message (messageFrame msg)), cbuf'), more)) ↔
      f.queue.length + f.group.length + f.payload.length + 30 ≤ maxPayloadSize := by
  obtain ⟨hq, hg, hp⟩ := length_of_publish h
  have hlen := length_messageFrame msg
  rw [hid, hqueue, hgroup, hpayload] at hlen
  by_cases hfit : f.queue.length + f.group.length + f.payload.length + 30 ≤ maxPayloadSize
  · refine iff_of_true ?_ hfit
    have hencodable : (Frame.message (messageFrame msg)).Encodable := by
      refine ⟨?_, by omega, by simp [Frame.idents]⟩
      intro s hs
      simp only [Frame.fields, messageFrame, strField, blobField, i32Field, u32Field, List.mem_cons,
        Field.bytes.injEq, true_and, List.not_mem_nil, reduceCtorEq, or_false] at hs
      rcases hs with rfl | rfl | rfl | ⟨hw, -⟩
      · omega
      · rw [hqueue]
        omega
      · rw [hgroup]
        omega
      · cases hw
    exact hencodable.readFrame cbuf more
  · refine iff_of_false ?_ hfit
    rintro ⟨cbuf', hok⟩
    have hlarge : maxPayloadSize < (Frame.message (messageFrame msg)).payload.length := by omega
    have hlt : (Frame.message (messageFrame msg)).payload.length < 256 ^ 4 := by
      simp only [maxPayloadSize] at hp
      omega
    obtain ⟨err, herr⟩ := readFrame_tooLarge .message hlarge hlt cbuf more
    rw [Frame.write, Frame.type, herr] at hok
    cases hok

theorem delivery_is_accepted_iff_sample :
    let msg : Message := newMessageAt (str "q") (str "n") (str "g") [1] 0 (str "0123456789abcdef")
    ∃ cbuf', readFrame [] ((Frame.message (messageFrame msg)).write ++ []) =
      .ok (((.message, .message (messageFrame msg)), cbuf'), []) := by
  intro msg
  have hread : readFrame [] (0x10 :: ([0, 0, 0, 11] ++ [0, 1, 113, 0, 1, 103, 0, 0, 0, 1, 1])) =
      .ok (((.publish, .publish ⟨str "q", str "g", [1]⟩), [0, 1, 113, 0, 1, 103, 0, 0, 0, 1, 1]),
        []) := by rfl
  exact (delivery_is_accepted_iff hread msg (by decide) rfl rfl rfl [] []).mpr (by decide)

/-- A publish frame of exactly the largest size is accepted, and every delivery of it is refused. -/
theorem largest_publish_is_undeliverable :
    ∃ (bs : Bytes) (f : PublishFrame) (buf' : Bytes),
      readFrame [] bs = .ok (((.publish, .publish f), buf'), []) ∧
      ∃ msg : Message, msg.id.length = 16 ∧ msg.queueName = f.queue ∧ msg.groupKey = f.group ∧
        msg.payload = f.payload ∧ ∀ cbuf more,
          ∃ err, readFrame cbuf ((Frame.message (messageFrame msg)).write ++ more) =
            .error err := by
  let f : PublishFrame := ⟨str "q", str "g", List.replicate (maxPayloadSize - 10) 0⟩
  let msg : Message := newMessageAt f.queue (str "n") f.group f.payload 0 (str "0123456789abcdef")
  have hmax : 10 ≤ maxPayloadSize := by decide
  have hsize : (Frame.publish f).payload.length = maxPayloadSize := by
    simp only [Frame.payload, Frame.fields, strField, blobField, encode_cons, Field.encode,
      lengthPrefixed, List.length_append, length_bigEndian, f, List.length_replicate]
    simp only [encode, List.flatMap_nil, List.length_nil, str, List.length_map]
    change 2 + 1 + (2 + 1 + (4 + (maxPayloadSize - 10) + 0)) = _
    omega
  have hencodable : (Frame.publish f).Encodable := by
    refine ⟨?_, Nat.le_of_eq hsize, by simp only [Frame.idents, f]; decide⟩
    intro s hs
    simp only [Frame.fields, strField, blobField, List.mem_cons, Field.bytes.injEq, true_and,
      List.not_mem_nil, or_false, f] at hs
    rcases hs with rfl | rfl | ⟨hw, -⟩
    · decide
    · decide
    · cases hw
  obtain ⟨buf', hread⟩ := hencodable.readFrame [] []
  rw [List.append_nil] at hread
  refine ⟨_, f, buf', hread, msg, by decide, rfl, rfl, rfl, ?_⟩
  intro cbuf more
  have hlen : (Frame.message (messageFrame msg)).payload.length = maxPayloadSize + 22 := by
    rw [length_messageFrame]
    change 16 + 1 + 1 + (List.replicate (maxPayloadSize - 10) (0 : UInt8)).length + 14 = _
    rw [List.length_replicate]
    omega
  exact readFrame_tooLarge .message (by omega) (by rw [hlen]; decide) cbuf more

end Octar.Protocol
