import Octar.Lib.Reader
import Octar.Storage.Event

namespace Octar

open Go Reader

def writeMessage (m : MessageSnapshot) : Bytes :=
  lengthPrefixed 2 m.id ++ (lengthPrefixed 4 m.payload ++ (bigEndian 1 (toUnsigned 1 m.state) ++
    (bigEndian 4 (toUnsigned 4 m.attempts) ++ (bigEndian 8 (toUnsigned 8 m.createdAt) ++
      (bigEndian 8 (toUnsigned 8 m.scheduledAt) ++ lengthPrefixed 2 m.lastError)))))

def writeGroup (g : GroupSnapshot) : Bytes :=
  lengthPrefixed 2 g.key ++ (bigEndian 4 (toUnsigned 4 g.parallelism) ++
    (bigEndian 4 (toUnsigned 4 g.quantum) ++
      (bigEndian 4 g.messages.length ++ g.messages.flatMap writeMessage)))

def snapshotHeader (segmentID walSeq : Nat) (timestamp : Int) (flags : Bytes) : Bytes :=
  str "FSNP" ++ (bigEndian 2 1 ++ (bigEndian 8 segmentID ++ (bigEndian 8 walSeq ++
    (bigEndian 8 (toUnsigned 8 timestamp) ++ flags))))

def snapshotWith (snap : Snapshot) (flags : Bytes) : Bytes :=
  snapshotHeader snap.segmentID snap.walSeq snap.timestamp flags ++
    (bigEndian 4 snap.groups.length ++ snap.groups.flatMap writeGroup)

def writeSnapshotFile (snap : Snapshot) : Bytes := snapshotWith snap (bigEndian 2 0)

def readString (w : Nat) (what : String) : Reader Bytes := do
  let len ← (readUint w).wrap s!"snapshot: read {what} len"
  (readFull len).wrap s!"snapshot: read {what}"

def readMessage : Reader MessageSnapshot := do
  let id ← readString 2 "id"
  let payload ← readString 4 "payload"
  let state ← (readInt 1).wrap "snapshot: read state"
  let attempts ← (readInt 4).wrap "snapshot: read attempts"
  let createdAt ← (readInt 8).wrap "snapshot: read created at"
  let scheduledAt ← (readInt 8).wrap "snapshot: read scheduled at"
  let lastError ← readString 2 "error"
  return ⟨id, payload, state, attempts, createdAt, scheduledAt, lastError⟩

def readGroup : Reader GroupSnapshot := do
  let key ← readString 2 "key"
  let parallelism ← (readInt 4).wrap "snapshot: read parallelism"
  let quantum ← (readInt 4).wrap "snapshot: read quantum"
  let msgCount ← (readUint 4).wrap "snapshot: read message count"
  let messages ← readMessage.replicate msgCount
  return ⟨key, parallelism, quantum, messages⟩

def readGroups : Reader (List GroupSnapshot) := do
  let groupCount ← (readUint 4).wrap "snapshot: read group count"
  readGroup.replicate groupCount

def readSnapshot : Reader Snapshot := do
  let header ← (readFull 32).wrap "snapshot: read header"
  if slice header 0 4 ≠ str "FSNP" then fail (.invalid "snapshot: invalid magic")
  else if fromBigEndian (slice header 4 6) ≠ 1 then fail (.invalid "snapshot: unsupported version")
  else do
    let groups ← readGroups
    return ⟨fromBigEndian (slice header 6 14), fromBigEndian (slice header 14 22),
      toSigned 8 (fromBigEndian (slice header 22 30)), groups⟩

def loadSnapshotFile (content : Bytes) : Option Snapshot :=
  match readSnapshot content with
  | .ok (snap, _) => some snap
  | .error _ => none

structure MessageSnapshot.Encodable (m : MessageSnapshot) : Prop where
  id : m.id.length < 256 ^ 2
  payload : m.payload.length < 256 ^ 4
  state : IsSigned 1 m.state
  attempts : IsSigned 4 m.attempts
  createdAt : IsSigned 8 m.createdAt
  scheduledAt : IsSigned 8 m.scheduledAt
  lastError : m.lastError.length < 256 ^ 2

structure GroupSnapshot.Encodable (g : GroupSnapshot) : Prop where
  key : g.key.length < 256 ^ 2
  parallelism : IsSigned 4 g.parallelism
  quantum : IsSigned 4 g.quantum
  count : g.messages.length < 256 ^ 4
  messages : ∀ m ∈ g.messages, m.Encodable

structure Snapshot.Encodable (snap : Snapshot) : Prop where
  segmentID : snap.segmentID < 256 ^ 8
  walSeq : snap.walSeq < 256 ^ 8
  timestamp : IsSigned 8 snap.timestamp
  count : snap.groups.length < 256 ^ 4
  groups : ∀ g ∈ snap.groups, g.Encodable

theorem accepts_readString (w : Nat) (what : String) :
    (readString w what).Accepts fun s front => s.length < 256 ^ w ∧ front = lengthPrefixed w s := by
  refine (((accepts_readUint w).wrap _).bind fun len => (accepts_readFull len).wrap _).congr ?_
  intro s front
  constructor
  · rintro ⟨len, _, _, ⟨hlen, rfl⟩, ⟨rfl, rfl⟩, rfl⟩
    exact ⟨hlen, rfl⟩
  · rintro ⟨hlen, rfl⟩
    exact ⟨_, _, _, ⟨hlen, rfl⟩, ⟨rfl, rfl⟩, rfl⟩

theorem accepts_readMessage :
    readMessage.Accepts fun m front => m.Encodable ∧ front = writeMessage m := by
  refine ((accepts_readString 2 _).bind fun id => (accepts_readString 4 _).bind fun payload =>
    ((accepts_readInt 1).wrap _).bind fun state =>
    ((accepts_readInt 4).wrap _).bind fun attempts =>
    ((accepts_readInt 8).wrap _).bind fun createdAt =>
    ((accepts_readInt 8).wrap _).bind fun scheduledAt =>
    (accepts_readString 2 _).bind fun lastError => accepts_pure _).congr ?_
  intro m front
  constructor
  · rintro ⟨id, _, _, ⟨hid, rfl⟩, ⟨payload, _, _, ⟨hpayload, rfl⟩,
      ⟨state, _, _, ⟨hstate, rfl⟩, ⟨attempts, _, _, ⟨hattempts, rfl⟩,
      ⟨createdAt, _, _, ⟨hcreated, rfl⟩, ⟨scheduledAt, _, _, ⟨hscheduled, rfl⟩,
      ⟨lastError, _, _, ⟨herror, rfl⟩, ⟨rfl, rfl⟩, rfl⟩, rfl⟩, rfl⟩, rfl⟩, rfl⟩, rfl⟩, rfl⟩
    rw [List.append_nil]
    exact ⟨⟨hid, hpayload, hstate, hattempts, hcreated, hscheduled, herror⟩, rfl⟩
  · rintro ⟨h, rfl⟩
    exact ⟨_, _, _, ⟨h.id, rfl⟩, ⟨_, _, _, ⟨h.payload, rfl⟩,
      ⟨_, _, _, ⟨h.state, rfl⟩, ⟨_, _, _, ⟨h.attempts, rfl⟩,
      ⟨_, _, _, ⟨h.createdAt, rfl⟩, ⟨_, _, _, ⟨h.scheduledAt, rfl⟩,
      ⟨_, _, _, ⟨h.lastError, rfl⟩, ⟨rfl, rfl⟩, (List.append_nil _).symm⟩,
      rfl⟩, rfl⟩, rfl⟩, rfl⟩, rfl⟩, rfl⟩

theorem accepts_readGroup :
    readGroup.Accepts fun g front => g.Encodable ∧ front = writeGroup g := by
  refine ((accepts_readString 2 _).bind fun key =>
    ((accepts_readInt 4).wrap _).bind fun parallelism =>
    ((accepts_readInt 4).wrap _).bind fun quantum =>
    ((accepts_readUint 4).wrap _).bind fun count =>
    (accepts_readMessage.replicate count).bind fun messages => accepts_pure _).congr ?_
  intro g front
  simp only [sequence_iff]
  constructor
  · rintro ⟨key, _, _, ⟨hkey, rfl⟩, ⟨parallelism, _, _, ⟨hpar, rfl⟩,
      ⟨quantum, _, _, ⟨hquantum, rfl⟩, ⟨count, _, _, ⟨hcount, rfl⟩,
      ⟨messages, _, _, ⟨rfl, hmessages, rfl⟩, ⟨rfl, rfl⟩, rfl⟩, rfl⟩, rfl⟩, rfl⟩, rfl⟩
    rw [List.append_nil]
    exact ⟨⟨hkey, hpar, hquantum, hcount, hmessages⟩, rfl⟩
  · rintro ⟨h, rfl⟩
    exact ⟨_, _, _, ⟨h.key, rfl⟩, ⟨_, _, _, ⟨h.parallelism, rfl⟩,
      ⟨_, _, _, ⟨h.quantum, rfl⟩, ⟨_, _, _, ⟨h.count, rfl⟩,
      ⟨_, _, _, ⟨rfl, h.messages, rfl⟩, ⟨rfl, rfl⟩, (List.append_nil _).symm⟩,
      rfl⟩, rfl⟩, rfl⟩, rfl⟩

theorem length_snapshotHeader (segmentID walSeq : Nat) (timestamp : Int) (flags : Bytes) :
    (snapshotHeader segmentID walSeq timestamp flags).length = 30 + flags.length := by
  simp only [snapshotHeader, List.length_append, length_bigEndian,
    show (str "FSNP").length = 4 from rfl]
  omega

theorem snapshotHeader_read {header : Bytes} (h : header.length = 32)
    (hmagic : slice header 0 4 = str "FSNP")
    (hversion : fromBigEndian (slice header 4 6) = 1) :
    snapshotHeader (fromBigEndian (slice header 6 14)) (fromBigEndian (slice header 14 22))
      (toSigned 8 (fromBigEndian (slice header 22 30))) (header.drop 30) = header := by
  have hv : bigEndian 2 1 = slice header 4 6 :=
    hversion ▸ bigEndian_slice (i := 4) (j := 6) (by omega)
  have hseg : bigEndian 8 (fromBigEndian (slice header 6 14)) = slice header 6 14 :=
    bigEndian_slice (i := 6) (j := 14) (by omega)
  have hseq : bigEndian 8 (fromBigEndian (slice header 14 22)) = slice header 14 22 :=
    bigEndian_slice (i := 14) (j := 22) (by omega)
  have hts : bigEndian 8 (fromBigEndian (slice header 22 30)) = slice header 22 30 :=
    bigEndian_slice (i := 22) (j := 30) (by omega)
  have hlt : fromBigEndian (slice header 22 30) < 256 ^ 8 :=
    fromBigEndian_slice_lt (i := 22) (j := 30) (by omega)
  rw [snapshotHeader, toUnsigned_toSigned hlt, hv, hseg, hseq, hts, slice_append header (by decide),
    slice_append header (by decide), slice_append header (by decide),
    slice_append header (by decide), ← hmagic, slice_append header (by decide), List.drop_zero]

section Read

variable {segmentID walSeq : Nat} {timestamp : Int} {flags : Bytes}

theorem read_snapshotHeader :
    slice (snapshotHeader segmentID walSeq timestamp flags) 0 4 = str "FSNP" ∧
    slice (snapshotHeader segmentID walSeq timestamp flags) 4 6 = bigEndian 2 1 ∧
    slice (snapshotHeader segmentID walSeq timestamp flags) 6 14 = bigEndian 8 segmentID ∧
    slice (snapshotHeader segmentID walSeq timestamp flags) 14 22 = bigEndian 8 walSeq ∧
    slice (snapshotHeader segmentID walSeq timestamp flags) 22 30 =
    bigEndian 8 (toUnsigned 8 timestamp) := by
  have hmagic : (str "FSNP").length = 4 := rfl
  unfold snapshotHeader
  refine ⟨rfl, ?_, ?_, ?_, ?_⟩
  · exact slice_middle hmagic (length_bigEndian 2 1)
  · rw [slice_right (by simp [hmagic]), hmagic]
    exact slice_middle (length_bigEndian 2 1) (length_bigEndian 8 _)
  · rw [slice_right (by simp [hmagic]), hmagic, slice_right (by simp), length_bigEndian]
    exact slice_middle (length_bigEndian 8 _) (length_bigEndian 8 _)
  · rw [slice_right (by simp [hmagic]), hmagic, slice_right (by simp), length_bigEndian,
      slice_right (by simp), length_bigEndian]
    exact slice_middle (length_bigEndian 8 _) (length_bigEndian 8 _)

end Read

theorem accepts_readGroups :
    readGroups.Accepts fun groups front => groups.length < 256 ^ 4 ∧ (∀ g ∈ groups, g.Encodable) ∧
      front = bigEndian 4 groups.length ++ groups.flatMap writeGroup := by
  refine (((accepts_readUint 4).wrap _).bind fun count =>
    accepts_readGroup.replicate count).congr ?_
  intro groups front
  simp only [sequence_iff]
  constructor
  · rintro ⟨count, _, _, ⟨hcount, rfl⟩, ⟨rfl, hall, rfl⟩, rfl⟩
    exact ⟨hcount, hall, rfl⟩
  · rintro ⟨hcount, hall, rfl⟩
    exact ⟨_, _, _, ⟨hcount, rfl⟩, ⟨rfl, hall, rfl⟩, rfl⟩

theorem accepts_readSnapshot :
    readSnapshot.Accepts fun snap front =>
      snap.Encodable ∧ ∃ flags, flags.length = 2 ∧ front = snapshotWith snap flags := by
  refine (((accepts_readFull 32).wrap _).bind fun header =>
    ((accepts_readGroups.bind fun groups => accepts_pure _).unless _ _).unless _ _).congr ?_
  intro snap front
  simp only [not_not]
  constructor
  · rintro ⟨_, header, _, ⟨hheader, rfl⟩, ⟨hmagic, hversion, groups, _, _, ⟨hcount, hall, rfl⟩,
      ⟨rfl, rfl⟩, rfl⟩, rfl⟩
    rw [List.append_nil]
    refine ⟨⟨?_, ?_, ?_, hcount, hall⟩, header.drop 30, by simp [hheader], ?_⟩
    · exact fromBigEndian_slice_lt (i := 6) (j := 14) (by omega)
    · exact fromBigEndian_slice_lt (i := 14) (j := 22) (by omega)
    · simp only
      exact isSigned_toSigned 8 _
    · simp only [snapshotWith, snapshotHeader_read hheader hmagic hversion]
  · rintro ⟨h, flags, hflags, rfl⟩
    obtain ⟨hmagic, hversion, hseg, hseq, hts⟩ :=
      @read_snapshotHeader snap.segmentID snap.walSeq snap.timestamp flags
    refine ⟨_, _, _, ⟨by rw [length_snapshotHeader, hflags], rfl⟩,
      ⟨hmagic, by rw [hversion]; rfl, _, _, _, ⟨h.count, h.groups, rfl⟩, ⟨?_, rfl⟩,
        (List.append_nil _).symm⟩, rfl⟩
    rw [hseg, hseq, hts, fromBigEndian_bigEndian h.segmentID, fromBigEndian_bigEndian h.walSeq,
      fromBigEndian_bigEndian (toUnsigned_lt 8 _), toSigned_toUnsigned, h.timestamp]

theorem readSnapshot_write {snap : Snapshot} (h : snap.Encodable) :
    readSnapshot (writeSnapshotFile snap) = .ok (snap, []) :=
  (accepts_readSnapshot _ _ _).mpr ⟨_, ⟨h, _, rfl, rfl⟩, (List.append_nil _).symm⟩

theorem readSnapshot_part {snap : Snapshot} (h : snap.Encodable) {part lost : Bytes}
    (hpart : part ++ lost = writeSnapshotFile snap) (hlost : lost ≠ []) :
    ∃ err, readSnapshot part = .error err :=
  accepts_readSnapshot.strict_part ⟨h, _, rfl, hpart⟩ hlost

/-- `SnapshotReader.Read` gives back what `SnapshotWriter.Write` has written and accepts no strict
part of it. -/
theorem snapshot_file_round_trip {snap : Snapshot} (h : snap.Encodable) :
    readSnapshot (writeSnapshotFile snap) = .ok (snap, []) ∧
      ∀ part, part <+: writeSnapshotFile snap → part ≠ writeSnapshotFile snap →
        ∃ err, readSnapshot part = .error err := by
  refine ⟨readSnapshot_write h, ?_⟩
  rintro part ⟨lost, hpart⟩ hne
  refine readSnapshot_part h hpart ?_
  rintro rfl
  exact hne (by rw [← hpart, List.append_nil])

def sampleSnapshot : Snapshot :=
  ⟨3, 7, -1, [⟨str "g", 1, 1, []⟩,
    ⟨str "h", 2, 5, [⟨str "a", str "x", 1, 2, 5, -6, str "timeout"⟩]⟩]⟩

theorem sampleSnapshot_encodable : sampleSnapshot.Encodable := by
  refine ⟨by decide, by decide, rfl, by decide, ?_⟩
  intro g hg
  simp only [sampleSnapshot, List.mem_cons, List.not_mem_nil, or_false] at hg
  rcases hg with rfl | rfl
  · exact ⟨by decide, rfl, rfl, by decide, by simp⟩
  · refine ⟨by decide, rfl, rfl, by decide, ?_⟩
    intro m hm
    cases List.mem_singleton.mp hm
    exact ⟨by decide, by decide, rfl, rfl, rfl, rfl, by decide⟩

theorem snapshot_file_round_trip_sample :
    readSnapshot (writeSnapshotFile sampleSnapshot) = .ok (sampleSnapshot, []) ∧
      ∃ err, readSnapshot ((writeSnapshotFile sampleSnapshot).take 40) = .error err := by
  obtain ⟨hread, hpart⟩ := snapshot_file_round_trip sampleSnapshot_encodable
  exact ⟨hread, hpart _ (List.take_prefix _ _) (by decide)⟩

end Octar
