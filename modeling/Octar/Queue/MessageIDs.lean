import Octar.Lib.Bits

namespace Octar

open Go

structure IDSource where
  initMsgIDPrefix : UInt64
  msgIDCounter : UInt64
  deriving DecidableEq, Repr

namespace IDSource

def start (initMsgIDPrefix : UInt64) : IDSource := ⟨initMsgIDPrefix, 0⟩

def text (id : UInt64) : Bytes := hexEncode (bigEndian 8 id.toNat)

def newID (s : IDSource) : IDSource × Bytes :=
  let counter := s.msgIDCounter + 1
  ({ s with msgIDCounter := counter }, text (s.initMsgIDPrefix ^^^ counter))

def newIDs : Nat → IDSource → List Bytes
  | 0, _ => []
  | n + 1, s => s.newID.2 :: newIDs n s.newID.1

theorem text_injective : Function.Injective text := by
  intro id id' h
  have hbytes := congrArg fromBigEndian (hexEncode_injective h)
  rw [fromBigEndian_bigEndian id.toNat_lt, fromBigEndian_bigEndian id'.toNat_lt] at hbytes
  exact UInt64.toNat_inj.mp hbytes

theorem length_text (id : UInt64) : (text id).length = 16 := by
  rw [text, length_hexEncode, length_bigEndian]

theorem xor_of_text_eq {p q : UInt64} {i j : Nat}
    (h : text (p ^^^ UInt64.ofNat i) = text (q ^^^ UInt64.ofNat j)) :
    p.toNat ^^^ i % 2 ^ 64 = q.toNat ^^^ j % 2 ^ 64 := by
  have hxor := congrArg UInt64.toNat (text_injective h)
  rwa [UInt64.toNat_xor, UInt64.toNat_xor, UInt64.toNat_ofNat', UInt64.toNat_ofNat'] at hxor

theorem newIDs_eq (p : UInt64) (n k : Nat) : newIDs n ⟨p, UInt64.ofNat k⟩ =
    (List.range' (k + 1) n).map fun i => text (p ^^^ UInt64.ofNat i) := by
  induction n generalizing k with
  | zero => rfl
  | succ n ih =>
    rw [newIDs, List.range'_succ, List.map_cons, ← ih (k + 1)]
    simp only [newID, UInt64.ofNat_add]
    rfl

theorem mem_newIDs {p : UInt64} {n : Nat} {id : Bytes} :
    id ∈ newIDs n (start p) ↔ ∃ i, 1 ≤ i ∧ i ≤ n ∧ text (p ^^^ UInt64.ofNat i) = id := by
  have hids : newIDs n (start p) = _ := newIDs_eq p n 0
  rw [hids, List.mem_map]
  constructor
  · rintro ⟨i, hi, rfl⟩
    rw [List.mem_range'_1] at hi
    exact ⟨i, hi.1, by omega, rfl⟩
  · rintro ⟨i, hle, hlt, rfl⟩
    exact ⟨i, List.mem_range'_1.mpr ⟨hle, by omega⟩, rfl⟩

theorem nodup_newIDs (s : IDSource) {n : Nat} (hn : n < 2 ^ 64) : (newIDs n s).Nodup := by
  obtain ⟨p, counter⟩ := s
  rw [← UInt64.ofNat_toNat (x := counter), newIDs_eq]
  refine List.Nodup.map_on ?_ List.nodup_range'
  intro i hi j hj heq
  rw [List.mem_range'_1] at hi hj
  have hcounter := Nat.xor_right_inj.mp (xor_of_text_eq heq)
  omega

theorem length_of_mem_newIDs {s : IDSource} {n : Nat} {id : Bytes} (hid : id ∈ newIDs n s) :
    id.length = 16 := by
  induction n generalizing s with
  | zero => cases hid
  | succ n ih =>
    rcases List.mem_cons.mp hid with rfl | hid
    · exact length_text _
    · exact ih hid

theorem newIDs_disjoint {p₁ p₂ : UInt64} {c₁ c₂ : Nat} (h : c₁ + c₂ < p₂.toNat - p₁.toNat)
    {id : Bytes} (h₁ : id ∈ newIDs c₁ (start p₁)) : id ∉ newIDs c₂ (start p₂) := by
  intro h₂
  obtain ⟨i, -, hi, rfl⟩ := mem_newIDs.mp h₁
  obtain ⟨j, -, hj, heq⟩ := mem_newIDs.mp h₂
  have hlt := p₂.toNat_lt
  have hxor := xor_of_text_eq heq.symm
  rw [Nat.mod_eq_of_lt (by omega), Nat.mod_eq_of_lt (by omega)] at hxor
  exact xor_ne_xor (by omega) hxor

/-- No two calls of one process return the same identifier, nor do those of two processes. -/
theorem message_ids_distinct :
    (∀ (s : IDSource) (n : Nat), n < 2 ^ 64 →
      (newIDs n s).Nodup ∧ ∀ id ∈ newIDs n s, id.length = 16) ∧
    ∀ (p₁ p₂ : UInt64) (c₁ c₂ : Nat), p₁ < p₂ → c₁ + c₂ < p₂.toNat - p₁.toNat →
      ∀ id ∈ newIDs c₁ (start p₁), id ∉ newIDs c₂ (start p₂) := by
  constructor
  · intro s n hn
    exact ⟨nodup_newIDs s hn, fun _ hid => length_of_mem_newIDs hid⟩
  · intro p₁ p₂ c₁ c₂ _ h id
    exact newIDs_disjoint h

theorem message_ids_distinct_sample : (newIDs 2 (start 5)).Nodup ∧
    newIDs 2 (start 5) = [str "0000000000000004", str "0000000000000007"] ∧
    ∀ id ∈ newIDs 2 (start 5), id ∉ newIDs 1 (start 9) :=
  ⟨(message_ids_distinct.1 (start 5) 2 (by decide)).1, by decide,
    message_ids_distinct.2 5 9 2 1 (by decide) (by decide)⟩

end IDSource

end Octar
