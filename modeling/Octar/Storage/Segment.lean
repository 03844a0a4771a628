import Octar.Storage.TornWrite

namespace Octar

open Go Reader

structure SegmentFiles where
  log : Bytes
  idx : Bytes
  fileSize : Nat

namespace SegmentFiles

def ofFiles (log idx : Bytes) : SegmentFiles := ⟨log, idx, log.length⟩

end SegmentFiles

def indexEntry (seq pos : Nat) : Bytes := bigEndian 8 seq ++ bigEndian 8 pos

section Write

variable (update : UInt32 → Bytes → UInt32)

namespace SegmentFiles

def writeRecord (s : SegmentFiles) (e : Event) : SegmentFiles × Nat :=
  ({ s with
      log := s.log ++ Octar.writeRecord update e
      idx := s.idx ++ indexEntry e.seq s.fileSize }, recordSize e)

def append (s : SegmentFiles) (e : Event) : SegmentFiles :=
  let (s, n) := s.writeRecord update e
  { s with fileSize := s.fileSize + n }

def appendAll (s : SegmentFiles) (records : List Event) : SegmentFiles :=
  records.foldl (append update) s

end SegmentFiles

end Write

variable {update : UInt32 → Bytes → UInt32} {records : List Event}

@[simp] theorem length_indexEntry (seq pos : Nat) : (indexEntry seq pos).length = 16 := by
  simp [indexEntry]

def indexOf (pos : Nat) : List Event → Bytes
  | [] => []
  | e :: records => indexEntry e.seq pos ++ indexOf (pos + recordSize e) records

theorem appendAll_eq (s : SegmentFiles) (records : List Event) :
    s.appendAll update records =
      { log := s.log ++ encodeLog update records
        idx := s.idx ++ indexOf s.fileSize records
        fileSize := s.fileSize + (encodeLog update records).length } := by
  induction records generalizing s with
  | nil => simp [SegmentFiles.appendAll, encodeLog, indexOf]
  | cons e records ih =>
    have hcons : encodeLog update (e :: records) = writeRecord update e ++
        encodeLog update records := List.flatMap_cons
    change (s.append update e).appendAll update records = _
    rw [ih, hcons, List.length_append, length_writeRecord]
    simp [SegmentFiles.append, SegmentFiles.writeRecord, indexOf, Nat.add_assoc]

theorem slice_indexOf {k : Nat} {r : Event} (h : records[k]? = some r) (pos : Nat) (idx : Bytes) :
    slice (idx ++ indexOf pos records) (idx.length + 16 * k) (idx.length + 16 * k + 16) =
      indexEntry r.seq (pos + (encodeLog update (records.take k)).length) := by
  induction records generalizing k pos idx with
  | nil => simp at h
  | cons e records ih =>
    cases k with
    | zero =>
      cases h
      exact slice_middle (Nat.mul_zero 16 ▸ rfl) (by rw [length_indexEntry]; omega)
    | succ k =>
      have hnext := ih h (pos + recordSize e) (idx ++ indexEntry e.seq pos)
      have hlen : (encodeLog update ((e :: records).take (k + 1))).length =
          recordSize e + (encodeLog update (records.take k)).length := by
        rw [List.take_succ_cons, encodeLog, List.flatMap_cons, List.length_append,
          length_writeRecord]
        rfl
      rw [List.length_append, length_indexEntry, List.append_assoc] at hnext
      rw [indexOf, hlen, ← Nat.add_assoc pos, ← hnext]
      congr 1 <;> omega

theorem replicate_readEvent (update : UInt32 → Bytes → UInt32) (h : ∀ e ∈ records, e.Encodable)
    (rest : Bytes) :
    (readEvent update).replicate records.length (encodeLog update records ++ rest) =
      .ok (records, rest) := by
  refine (accepts_readEvent.replicate records.length _ _ _).mpr ⟨_, ⟨rfl, ?_⟩, rfl⟩
  induction records with
  | nil => exact .nil
  | cons e records ih =>
    rw [List.forall_mem_cons] at h
    exact .cons ⟨h.1, _, rfl, rfl⟩ (ih h.2)

theorem encodeLog_take_succ {n : Nat} {r : Event} (h : records[n]? = some r) :
    encodeLog update (records.take (n + 1)) =
      encodeLog update (records.take n) ++ writeRecord update r := by
  rw [List.take_add_one, h, encodeLog_append]
  exact congrArg _ (List.flatMap_singleton _ _)

/-- Records that are appended to a segment are read back in order, then the end of the file; the
count that `writeRecord` returns is the length of what it writes, and every index entry has the
offset of its record. -/
theorem segment_round_trip (update : UInt32 → Bytes → UInt32) {records : List Event}
    (h : ∀ e ∈ records, e.Encodable) (log idx : Bytes) :
    let s := (SegmentFiles.ofFiles log idx).appendAll update records
    s.log = log ++ encodeLog update records ∧
      (readEvent update).replicate records.length (encodeLog update records) = .ok (records, []) ∧
      readEvent update [] = .error .eof ∧
      (∀ e, (writeRecord update e).length = recordSize e) ∧
      ∀ k r, records[k]? = some r → ∃ pos,
        slice s.idx (idx.length + 16 * k) (idx.length + 16 * k + 16) = indexEntry r.seq pos ∧
          writeRecord update r <+: s.log.drop pos ∧
          pos = log.length + (encodeLog update (records.take k)).length := by
  intro s
  have hs : s = _ := appendAll_eq (.ofFiles log idx) records
  have hread := replicate_readEvent update h []
  rw [List.append_nil] at hread
  refine ⟨by rw [hs]; rfl, hread, rfl, length_writeRecord update, ?_⟩
  intro k r hr
  refine ⟨_, by rw [hs]; exact slice_indexOf hr log.length idx, ?_, rfl⟩
  have hsplit : encodeLog update records = encodeLog update (records.take k) ++
      (writeRecord update r ++ encodeLog update (records.drop (k + 1))) := by
    rw [← List.append_assoc, ← encodeLog_take_succ hr, ← encodeLog_append, List.take_append_drop]
  have hlog : s.log = (log ++ encodeLog update (records.take k)) ++
      (writeRecord update r ++ encodeLog update (records.drop (k + 1))) := by
    rw [hs, List.append_assoc, ← hsplit]
    rfl
  change _ <+: s.log.drop (log.length + (encodeLog update (records.take k)).length)
  rw [hlog, ← List.length_append, List.drop_left]
  exact List.prefix_append _ _

theorem sampleEvents_encodable :
    ∀ e ∈ [sampleEvent (str "a"), sampleEvent (str "b")], e.Encodable := by
  rw [List.forall_mem_cons, List.forall_mem_singleton]
  exact ⟨sampleEvent_encodable (by decide), sampleEvent_encodable (by decide)⟩

theorem segment_round_trip_sample :
    let records := [sampleEvent (str "a"), sampleEvent (str "b")]
    (readEvent castagnoli).replicate 2 (encodeLog castagnoli records) = .ok (records, []) :=
  (segment_round_trip castagnoli sampleEvents_encodable [] []).2.1

theorem length_encodeLog_take (update : UInt32 → Bytes → UInt32) (records : List Event) {n m : Nat}
    (h : n ≤ m) :
    (encodeLog update (records.take n)).length ≤ (encodeLog update (records.take m)).length := by
  obtain ⟨rest, hrest⟩ := List.take_prefix_take_left (l := records) h
  rw [← hrest, encodeLog_append, List.length_append]
  exact Nat.le_add_right _ _

theorem readLog_take (h : ∀ e ∈ records, e.Encodable) (cut : Nat) :
    ∃ n, readLog update ((encodeLog update records).take cut) = records.take n ∧
      (encodeLog update (records.take n)).length ≤ ((encodeLog update records).take cut).length ∧
      (n < records.length → ((encodeLog update records).take cut).length <
        (encodeLog update (records.take (n + 1))).length) := by
  have hread : ∀ n rest, readLog update (encodeLog update (records.take n) ++ rest) =
      records.take n ++ readLog update rest :=
    fun n => readLog_append fun e he => h e (List.mem_of_mem_take he)
  rcases take_encodeLog records cut with ⟨n, hn⟩ | ⟨n, r, torn, lost, hr, -, hlost, hrec, hn⟩
  · refine ⟨n, ?_, Nat.le_of_eq (by rw [hn]), ?_⟩
    · have hwhole := hread n []
      rw [List.append_nil] at hwhole
      rw [hn, hwhole]
      exact List.append_nil _
    · intro hlt
      rw [hn, encodeLog_take_succ (List.getElem?_eq_getElem hlt), List.length_append,
        length_writeRecord]
      exact Nat.lt_add_of_pos_right (recordSize_pos _)
  · have hr' := h r (List.mem_of_getElem? hr)
    obtain ⟨err, herr⟩ := accepts_readEvent.strict_part ⟨hr', _, rfl, hrec⟩ hlost
    refine ⟨n, ?_, ?_, ?_⟩
    · rw [hn, hread, readLog_error herr, List.append_nil]
    · rw [hn, List.length_append]
      exact Nat.le_add_right _ _
    · intro _
      rw [hn, encodeLog_take_succ hr, ← hrec, List.length_append, List.length_append,
        List.length_append]
      have := List.length_pos_iff.mpr hlost
      omega

/-- A truncated segment is replayed up to the last record that is complete. -/
theorem truncated_segment_replays_whole_records (update : UInt32 → Bytes → UInt32)
    {records : List Event} (h : ∀ e ∈ records, e.Encodable) {segment : Bytes}
    (hpart : segment <+: encodeLog update records) :
    ∃ n, replayLog update segment 0 = records.take n ∧
      ∀ i < records.length,
        i < n ↔ (encodeLog update (records.take (i + 1))).length ≤ segment.length := by
  obtain ⟨n, hread, hle, hlt⟩ := readLog_take h segment.length
  rw [← List.prefix_iff_eq_take.mp hpart] at hread hle hlt
  refine ⟨n, by simp [replayLog, hread], ?_⟩
  intro i hi
  constructor
  · intro hin
    exact Nat.le_trans (length_encodeLog_take update records hin) hle
  · intro hsize
    by_contra hin
    have hshort := hlt (by omega)
    have hmono := length_encodeLog_take update records (show n + 1 ≤ i + 1 by omega)
    omega

theorem truncated_segment_replays_sample :
    ∃ n, replayLog castagnoli
        ((encodeLog castagnoli [sampleEvent (str "a"), sampleEvent (str "b")]).take 50) 0 =
        [sampleEvent (str "a"), sampleEvent (str "b")].take n ∧
      (0 < n ↔ recordSize (sampleEvent (str "a")) ≤ 50) := by
  obtain ⟨n, hn, hiff⟩ := truncated_segment_replays_whole_records castagnoli sampleEvents_encodable
    (List.take_prefix 50 _)
  exact ⟨n, hn, hiff 0 (by decide)⟩

def recordFront (e : Event) : Bytes :=
  recordHeader e.seq e.type e.timestamp [0, 0, 0, 0] ++
    (lengthPrefixed 2 e.ns ++ (lengthPrefixed 2 e.queue ++
      (lengthPrefixed 2 e.group ++ (lengthPrefixed 2 e.msgID ++ bigEndian 4 e.payload.length))))

def damageRecord (update : UInt32 → Bytes → UInt32) (e : Event) (payload : Bytes) : Bytes :=
  let start := (recordFront e).length
  (writeRecord update e).take start ++ payload ++ (writeRecord update e).drop
    (start + e.payload.length)

theorem writeRecord_eq (update : UInt32 → Bytes → UInt32) (e : Event) :
    writeRecord update e = recordFront e ++
      (e.payload ++ bigEndian 4 (recordSum update e [0, 0, 0, 0]).toNat) := by
  simp only [writeRecord, recordWith, recordFront, List.append_assoc]

theorem damageRecord_eq (update : UInt32 → Bytes → UInt32) (e : Event) (payload : Bytes) :
    damageRecord update e payload = recordFront e ++
      (payload ++ bigEndian 4 (recordSum update e [0, 0, 0, 0]).toNat) := by
  rw [damageRecord, writeRecord_eq]
  simp only [List.take_left, ← List.drop_drop, List.drop_left, List.append_assoc]

theorem readField_apply {s : Bytes} (h : s.length < 256 ^ 2) {β : Type} (crc : UInt32)
    (f : UInt32 × Bytes → Reader β) (rest : Bytes) :
    (readField update crc >>= f) (lengthPrefixed 2 s ++ rest) = f (fieldSum update crc s, s) rest :=
  (accepts_readField crc).bind_apply (a := (fieldSum update crc s, s)) ⟨h, rfl, rfl⟩ f rest

theorem readPayload_apply {s : Bytes} (h : s.length < 256 ^ 4) {β : Type} (crc : UInt32)
    (f : UInt32 × Bytes → Reader β) (rest : Bytes) :
    (readPayload update crc >>= f) (bigEndian 4 s.length ++ s ++ rest) =
      f (payloadSum update crc s, s) rest :=
  (accepts_readPayload crc).bind_apply (a := (payloadSum update crc s, s)) ⟨h, rfl, rfl⟩ f rest

theorem readEvent_damageRecord {e : Event} (he : e.Encodable) {payload : Bytes}
    (hlen : payload.length = e.payload.length)
    (hcrc : recordSum update { e with payload := payload } [0, 0, 0, 0] ≠
      recordSum update e [0, 0, 0, 0]) (rest : Bytes) :
    ∃ what, readEvent update (damageRecord update e payload ++ rest) = .error (.invalid what) := by
  have hpayload : payload.length < 256 ^ 4 := hlen ▸ he.payload
  have hfooter : fromBigEndian (bigEndian 4 (recordSum update e [0, 0, 0, 0]).toNat) ≠
      (recordSum update { e with payload := payload } [0, 0, 0, 0]).toNat := by
    rw [fromBigEndian_bigEndian (recordSum update e [0, 0, 0, 0]).toNat_lt]
    exact fun heq => hcrc (UInt32.toNat_inj.mp heq.symm)
  rw [damageRecord_eq, recordFront, ← hlen]
  simp only [List.append_assoc]
  apply Exists.intro
  refine ((accepts_readFull 21).bind_apply ⟨length_recordHeader _ _ _ _, rfl⟩ _ _).trans ?_
  refine (readField_apply he.ns _ _ _).trans ?_
  refine (readField_apply he.queue _ _ _).trans ?_
  refine (readField_apply he.group _ _ _).trans ?_
  refine (readField_apply he.msgID _ _ _).trans ?_
  rw [← List.append_assoc (bigEndian 4 payload.length)]
  refine (readPayload_apply hpayload _ _ _).trans ?_
  refine ((accepts_readFull 4).bind_apply ⟨length_bigEndian 4 _, rfl⟩ _ _).trans ?_
  exact congrFun (if_pos hfooter) rest

/-- A record with a damaged payload ends the replay of its segment: the other records are all
dispatched exactly if none of those behind it is due. -/
theorem corrupted_record_costs_one_iff (update : UInt32 → Bytes → UInt32)
    {before after : List Event} {e : Event} (hbefore : ∀ r ∈ before, r.Encodable) (he : e.Encodable)
    {payload : Bytes} (hlen : payload.length = e.payload.length)
    (hcrc : recordSum update { e with payload := payload } [0, 0, 0, 0] ≠
      recordSum update e [0, 0, 0, 0]) (startSeq : Nat) :
    replayLog update (encodeLog update before ++
      (damageRecord update e payload ++ encodeLog update after))
        startSeq = (before ++ after).filter (fun r => ¬ r.seq < startSeq) ↔
      ∀ r ∈ after, r.seq < startSeq := by
  obtain ⟨what, herr⟩ := readEvent_damageRecord he hlen hcrc (encodeLog update after)
  rw [replayLog, readLog_append hbefore, readLog_error herr, List.append_nil, List.filter_append,
    List.self_eq_append_right, List.filter_eq_nil_iff]
  simp

theorem sampleEvent_damaged (id : Bytes) (h : id = str "a" ∨ id = str "b") :
    recordSum castagnoli { sampleEvent id with payload := str "y" } [0, 0, 0, 0] ≠
      recordSum castagnoli (sampleEvent id) [0, 0, 0, 0] := by
  rcases h with rfl | rfl <;> decide +kernel

theorem corrupted_record_costs_one_sample :
    replayLog castagnoli (encodeLog castagnoli [sampleEvent (str "a")] ++
        (damageRecord castagnoli (sampleEvent (str "b")) (str "y") ++ encodeLog castagnoli [])) 0 =
      ([sampleEvent (str "a")] ++ []).filter fun r => ¬ r.seq < 0 :=
  (corrupted_record_costs_one_iff castagnoli (e := sampleEvent (str "b"))
    (List.forall_mem_singleton.mpr (sampleEvent_encodable (by decide)))
      (sampleEvent_encodable (by decide))
    (by decide) (sampleEvent_damaged _ (.inr rfl)) 0).mpr (by simp)

/-- The record behind the damaged one is whole, but is not dispatched. -/
theorem corrupted_record_costs_two :
    recordSum castagnoli { sampleEvent (str "a") with payload := str "y" } [0, 0, 0, 0] ≠
        recordSum castagnoli (sampleEvent (str "a")) [0, 0, 0, 0] ∧
      replayLog castagnoli (damageRecord castagnoli (sampleEvent (str "a")) (str "y") ++
        encodeLog castagnoli [sampleEvent (str "b")]) 0 = [] := by
  have hcrc := sampleEvent_damaged (str "a") (.inl rfl)
  obtain ⟨what, herr⟩ := readEvent_damageRecord (e := sampleEvent (str "a"))
    (sampleEvent_encodable (by decide)) (by decide) hcrc
      (encodeLog castagnoli [sampleEvent (str "b")])
  exact ⟨hcrc, by rw [replayLog, readLog_error herr]; rfl⟩

end Octar
