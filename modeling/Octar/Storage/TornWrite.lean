import Octar.Storage.Record

namespace Octar

open Go

variable {update : UInt32 → Bytes → UInt32}

theorem take_encodeLog (records : List Event) (cut : Nat) :
    (∃ n, (encodeLog update records).take cut = encodeLog update (records.take n)) ∨
      ∃ n r torn lost, records[n]? = some r ∧ torn ≠ [] ∧ lost ≠ [] ∧
        torn ++ lost = writeRecord update r ∧
        (encodeLog update records).take cut = encodeLog update (records.take n) ++ torn := by
  induction records generalizing cut with
  | nil => exact .inl ⟨0, by simp [encodeLog]⟩
  | cons e records ih =>
    have hcons : encodeLog update (e :: records) =
        writeRecord update e ++ encodeLog update records := List.flatMap_cons
    by_cases hcut : (writeRecord update e).length ≤ cut
    · -- the first record is whole
      obtain ⟨cut, rfl⟩ := Nat.exists_eq_add_of_le hcut
      rw [hcons, List.take_length_add_append]
      rcases ih cut with ⟨n, hn⟩ | ⟨n, r, torn, lost, hr, htorn, hlost, hrec, hn⟩
      · exact .inl ⟨n + 1, by rw [hn]; rfl⟩
      · exact .inr ⟨n + 1, r, torn, lost, hr, htorn, hlost, hrec,
          by rw [hn, ← List.append_assoc]; rfl⟩
    · have hlt := Nat.not_le.mp hcut
      rw [hcons, List.take_append_of_le_length (Nat.le_of_lt hlt)]
      by_cases hzero : cut = 0
      · exact .inl ⟨0, by rw [hzero]; rfl⟩
      · refine .inr ⟨0, e, (writeRecord update e).take cut, (writeRecord update e).drop cut, rfl,
          ?_, ?_,
          List.take_append_drop _ _, rfl⟩
        · intro hnil
          have := congrArg List.length hnil
          rw [List.length_take_of_le (Nat.le_of_lt hlt), List.length_nil] at this
          exact hzero this
        · intro hnil
          have := List.drop_eq_nil_iff.mp hnil
          omega

theorem getElem?_recordWith_type (e : Event) (unused rest : Bytes) :
    (recordWith update e unused ++ rest)[8]? = some e.type.toByte := by
  simp [recordWith, recordHeader]

theorem getElem?_writeRecord_seq {e : Event} {i : Nat} (hi : i < 8) :
    (writeRecord update e)[i]? = (bigEndian 8 e.seq)[i]? := by
  simp only [writeRecord, recordWith, recordHeader, List.append_assoc]
  exact List.getElem?_append_left (by rwa [length_bigEndian])

section Misread

variable {r e : Event} {torn lost : Bytes} (hr : r.Encodable)
    (hrec : torn ++ lost = writeRecord update r)

include hr hrec

theorem rest_lt_of_torn (hlost : lost ≠ []) {more rest : Bytes} {e' : Event}
    (h : readEvent update (torn ++ more) = .ok (e', rest)) : rest.length < more.length := by
  obtain ⟨front, hfront, heq⟩ := (accepts_readEvent _ _ _).mp h
  obtain ⟨err, herr⟩ := accepts_readEvent.strict_part ⟨hr, _, rfl, hrec⟩ hlost
  have hnot : ∀ tail, torn ≠ front ++ tail := by
    intro tail htorn
    have hok := (accepts_readEvent torn e' tail).mpr ⟨front, hfront, htorn⟩
    rw [herr] at hok
    cases hok
  rcases List.append_eq_append_iff.mp heq with ⟨tail, hfront, rfl⟩ | ⟨tail, htorn, -⟩
  · rw [List.length_append]
    have hpos : 0 < tail.length := by
      rw [List.length_pos_iff]
      rintro rfl
      exact hnot [] (by rw [hfront, List.append_nil, List.append_nil])
    omega
  · exact absurd htorn (hnot tail)

theorem ne_of_torn (htorn : torn ≠ []) (hseq : e.seq = 1) (htype : e.type = .lease ∨ e.type = .ack)
    (hne : e.type ≠ r.type) {rest : Bytes} :
    readEvent update (torn ++ writeRecord update e) ≠ .ok (e, rest) := by
  intro h
  obtain ⟨front, ⟨he, unused, -, rfl⟩, heq⟩ := (accepts_readEvent _ _ _).mp h
  have hbyte := congrArg (fun bs : Bytes => bs[8]?) heq
  simp only [getElem?_recordWith_type] at hbyte
  by_cases hlen : 8 < torn.length
  · have hold : torn[8]? = some r.type.toByte := by
      rw [← List.getElem?_append_left hlen, hrec]
      have htype : (writeRecord update r ++ [])[8]? = _ := getElem?_recordWith_type r _ []
      rwa [List.append_nil] at htype
    rw [List.getElem?_append_left hlen, hold] at hbyte
    apply hne
    rw [← he.type, ← hr.type, Option.some.inj hbyte]
  · have hpos := List.length_pos_iff.mpr htorn
    rw [List.getElem?_append_right (by omega), getElem?_writeRecord_seq (by omega), hseq] at hbyte
    have hdigits : ∀ i < 8, (bigEndian 8 1)[i]? = some 0 ∨ (bigEndian 8 1)[i]? = some 1 := by decide
    have hsmall := hdigits (8 - torn.length) (by omega)
    rw [hbyte] at hsmall
    rcases htype with htype | htype <;> rw [htype] at hsmall <;> simp [EventType.toByte] at hsmall

theorem not_mem_readLog_torn (htorn : torn ≠ []) (hlost : lost ≠ []) (hseq : e.seq = 1)
    (htype : e.type = .lease ∨ e.type = .ack) (hne : e.type ≠ r.type) :
    e ∉ readLog update (torn ++ writeRecord update e) := by
  cases hread : readEvent update (torn ++ writeRecord update e) with
  | error err =>
    rw [readLog_error hread]
    exact List.not_mem_nil
  | ok x =>
    obtain ⟨e', rest⟩ := x
    rw [readLog_ok hread, List.mem_cons, not_or]
    constructor
    · rintro rfl
      exact ne_of_torn hr hrec htorn hseq htype hne hread
    · intro hmem
      have hle := recordSize_le hmem
      have hlt := rest_lt_of_torn hr hrec hlost hread
      rw [writeRecord, length_recordWith e rfl] at hlt
      omega

end Misread

def Recovered (update : UInt32 → Bytes → UInt32) (segment : Bytes) (startSeq : Nat)
    (confirmed : List Event) : Prop :=
  ∀ e ∈ confirmed, (replayLog update segment startSeq).count e <
    (replayLog update (segment ++ encodeLog update confirmed) startSeq).count e

theorem recovered_of_whole {records confirmed : List Event} (h : ∀ e ∈ records, e.Encodable)
    (hconfirmed : ∀ e ∈ confirmed, e.Encodable) {startSeq : Nat}
    (hstart : ∀ e ∈ confirmed, startSeq ≤ e.seq) :
    Recovered update (encodeLog update records) startSeq confirmed := by
  intro e he
  have hall : ∀ e ∈ records ++ confirmed, e.Encodable := by
    intro e he
    exact (List.mem_append.mp he).elim (h e) (hconfirmed e)
  have hlog : encodeLog update records ++ encodeLog update confirmed =
      encodeLog update (records ++ confirmed) :=
    List.flatMap_append.symm
  rw [hlog, replayLog_encodeLog h, replayLog_encodeLog hall, List.filter_append, List.count_append]
  have hmem : e ∈ confirmed.filter fun e => ¬ e.seq < startSeq := by
    rw [List.mem_filter, decide_eq_true_eq]
    exact ⟨he, Nat.not_lt.mpr (hstart e he)⟩
  exact Nat.lt_add_of_pos_right (List.count_pos_iff.mpr hmem)

theorem not_recovered_of_torn {records : List Event} (h : ∀ e ∈ records, e.Encodable) {r e : Event}
    {torn lost : Bytes} (hr : r.Encodable) (hrec : torn ++ lost = writeRecord update r)
    (htorn : torn ≠ []) (hlost : lost ≠ []) (hseq : e.seq = 1)
    (htype : e.type = .lease ∨ e.type = .ack) (hne : e.type ≠ r.type) (startSeq : Nat) :
    ¬ Recovered update (encodeLog update records ++ torn) startSeq [e] := by
  intro hrecovered
  obtain ⟨err, herr⟩ := accepts_readEvent.strict_part ⟨hr, _, rfl, hrec⟩ hlost
  have hbefore : readLog update (encodeLog update records ++ torn) = records := by
    rw [readLog_append h, readLog_error herr, List.append_nil]
  have hafter : readLog update (encodeLog update records ++ torn ++ encodeLog update [e]) =
      records ++ readLog update (torn ++ writeRecord update e) := by
    rw [List.append_assoc, readLog_append h, encodeLog, List.flatMap_singleton]
  have hlt := hrecovered e (List.mem_singleton_self e)
  have hnot := not_mem_readLog_torn hr hrec htorn hlost hseq htype hne
  rw [replayLog, replayLog, hbefore, hafter, List.filter_append, List.count_append,
    List.count_eq_zero_of_not_mem fun hmem => hnot (List.mem_of_mem_filter hmem)] at hlt
  exact Nat.lt_irrefl _ hlt

def bareEvent (type : EventType) : Event := ⟨type, [], [], [], [], [], 0, 0⟩

/-- A segment that was cut off by a crash takes up the records of the next session if and only if
the cut is between two records. -/
theorem torn_segment_recovers_iff (update : UInt32 → Bytes → UInt32) (old : List Event)
    (hold : ∀ e ∈ old, e.Encodable)
    (cut startSeq : Nat) (hstart : startSeq ≤ 1) :
    (∀ new, (∀ e ∈ stamp 0 new, e.Encodable) →
      Recovered update ((encodeLog update old).take cut) startSeq (stamp 0 new)) ↔
    ∃ n, (encodeLog update old).take cut = encodeLog update (old.take n) := by
  constructor
  · intro hall
    rcases take_encodeLog old cut with hwhole | ⟨n, r, torn, lost, hr, htorn, hlost, hrec, hcut⟩
    · exact hwhole
    · obtain ⟨type, htype, hne⟩ : ∃ type, (type = .lease ∨ type = .ack) ∧ type ≠ r.type := by
        by_cases hlease : r.type = .lease
        · exact ⟨.ack, .inr rfl, by simp [hlease]⟩
        · exact ⟨.lease, .inl rfl, fun heq => hlease heq.symm⟩
      have hencodable : ∀ e ∈ stamp 0 [bareEvent type], e.Encodable := by
        intro e he
        cases List.mem_singleton.mp he
        refine ⟨(by decide : 1 < 256 ^ 8), ?_, rfl, ?_, ?_, ?_, ?_, ?_⟩
        · rcases htype with rfl | rfl <;> rfl
        all_goals exact Nat.pow_pos (by decide)
      have hrecovered := hall [bareEvent type] hencodable
      rw [hcut] at hrecovered
      exact absurd hrecovered (not_recovered_of_torn (fun e he => hold e (List.mem_of_mem_take he))
        (hold r (List.mem_of_getElem? hr)) hrec htorn hlost rfl htype hne startSeq)
  · rintro ⟨n, hn⟩ new hnew
    rw [hn]
    refine recovered_of_whole (fun e he => hold e (List.mem_of_mem_take he)) hnew ?_
    intro e he
    have hseq := List.mem_map_of_mem (f := Event.seq) he
    rw [map_seq_stamp, List.mem_range'_1] at hseq
    omega

def sampleEvent (id : Bytes) : Event := ⟨.publish, str "n", str "q", str "g", id, str "x", 1, 0⟩

theorem sampleEvent_encodable {id : Bytes} (hid : id.length < 256 ^ 2) :
    (sampleEvent id).Encodable :=
  ⟨(by decide : 1 < 256 ^ 8), rfl, rfl, by simp [sampleEvent, str], by simp [sampleEvent, str],
    by simp [sampleEvent, str], hid, by simp [sampleEvent, str]⟩

theorem torn_segment_recovers_sample :
    Recovered castagnoli
      ((encodeLog castagnoli [sampleEvent (str "a")]).take (recordSize (sampleEvent (str "a")))) 1
      (stamp 0 [sampleEvent (str "b")]) := by
  refine (torn_segment_recovers_iff castagnoli [sampleEvent (str "a")] ?_ _ 1 (Nat.le_refl 1)).mpr
    ⟨1, ?_⟩ _ ?_
  · intro e he
    cases List.mem_singleton.mp he
    exact sampleEvent_encodable (by decide)
  · rfl
  · intro e he
    cases List.mem_singleton.mp he
    exact sampleEvent_encodable (by decide)

/-- One byte of the old record is left.  The replay reads the new record one byte off and stops. -/
theorem torn_segment_loses_record :
    let segment := (encodeLog castagnoli [sampleEvent (str "a")]).take 1
    ¬ Recovered castagnoli segment 1 (stamp 0 [sampleEvent (str "b")]) ∧
      readEvent castagnoli (segment ++ encodeLog castagnoli (stamp 0 [sampleEvent (str "b")])) =
      .error .unexpectedEOF := by
  intro segment
  have herr : readEvent castagnoli
      (segment ++ encodeLog castagnoli (stamp 0 [sampleEvent (str "b")])) =
      .error .unexpectedEOF := rfl
  refine ⟨?_, herr⟩
  intro hrecovered
  have hlt := hrecovered (sampleEvent (str "b")) List.mem_cons_self
  rw [replayLog, replayLog, readLog_error herr] at hlt
  cases hlt

end Octar
