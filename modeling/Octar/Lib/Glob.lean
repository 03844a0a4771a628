import Mathlib.Data.List.Basic
import Mathlib.Data.List.Forall2
import Mathlib.Data.List.Infix

namespace Go

variable {α β : Type} {stands stands' : α → List β → Prop} {p : α} {pattern : List α}
  {name : List β}

def Splits (stands : α → List β → Prop) (pattern : List α) (name : List β) : Prop :=
  ∃ pieces : List (List β), List.Forall₂ stands pattern pieces ∧ pieces.flatten = name

namespace Splits

theorem nil_iff : Splits stands [] name ↔ name = [] := by
  constructor
  · rintro ⟨pieces, hpieces, rfl⟩
    cases hpieces
    rfl
  · rintro rfl
    exact ⟨[], .nil, rfl⟩

theorem cons_iff : Splits stands (p :: pattern) name ↔
    ∃ piece rest, piece ++ rest = name ∧ stands p piece ∧ Splits stands pattern rest := by
  constructor
  · rintro ⟨pieces, hpieces, rfl⟩
    cases hpieces with
    | @cons _ piece _ pieces hp hrest => exact ⟨piece, pieces.flatten, rfl, hp, pieces, hrest, rfl⟩
  · rintro ⟨piece, rest, rfl, hp, pieces, hpieces, rfl⟩
    exact ⟨piece :: pieces, .cons hp hpieces, rfl⟩

theorem cons_iff_take : Splits stands (p :: pattern) name ↔
    ∃ i < name.length + 1, stands p (name.take i) ∧ Splits stands pattern (name.drop i) := by
  rw [cons_iff]
  constructor
  · rintro ⟨piece, rest, rfl, hp, hrest⟩
    refine ⟨piece.length, ?_, ?_, ?_⟩
    · rw [List.length_append]
      omega
    · rw [List.take_left]
      exact hp
    · rw [List.drop_left]
      exact hrest
  · rintro ⟨i, -, hp, hrest⟩
    exact ⟨_, _, List.take_append_drop i name, hp, hrest⟩

instance decidable [∀ p piece, Decidable (stands p piece)] :
    ∀ pattern name, Decidable (Splits stands pattern name)
  | [], name => decidable_of_iff (name.isEmpty = true) (List.isEmpty_iff.trans nil_iff.symm)
  | _ :: pattern, _ =>
    have : DecidablePred (Splits stands pattern) := decidable pattern
    decidable_of_iff _ cons_iff_take.symm

theorem cons_any_iff (h : ∀ piece, stands p piece) :
    Splits stands (p :: pattern) name ↔ ∃ rest ∈ name.tails, Splits stands pattern rest := by
  rw [cons_iff]
  constructor
  · rintro ⟨piece, rest, rfl, -, hrest⟩
    exact ⟨rest, (List.mem_tails rest _).mpr (List.suffix_append piece rest), hrest⟩
  · rintro ⟨rest, hmem, hrest⟩
    obtain ⟨piece, rfl⟩ := (List.mem_tails rest name).mp hmem
    exact ⟨piece, rest, rfl, h piece, hrest⟩

theorem cons_any (h : ∀ piece, stands p piece) (hrest : Splits stands pattern name) :
    Splits stands (p :: pattern) name :=
  (cons_any_iff h).mpr ⟨name, (List.mem_tails name name).mpr (List.suffix_refl name), hrest⟩

theorem cons_any_any (h : ∀ piece, stands p piece) :
    Splits stands (p :: p :: pattern) name ↔ Splits stands (p :: pattern) name := by
  refine ⟨?_, cons_any h⟩
  rw [cons_any_iff h]
  rintro ⟨rest, hmem, hrest⟩
  obtain ⟨rest', hmem', hrest'⟩ := (cons_any_iff h).mp hrest
  rw [List.mem_tails] at hmem hmem'
  exact (cons_any_iff h).mpr ⟨rest', (List.mem_tails rest' name).mpr (hmem'.trans hmem), hrest'⟩

theorem cons_one_iff {q : β → Prop} (h : ∀ piece, stands p piece ↔ ∃ b, piece = [b] ∧ q b) :
    Splits stands (p :: pattern) name ↔ ∃ b rest, name = b :: rest ∧ q b ∧
      Splits stands pattern rest := by
  rw [cons_iff]
  constructor
  · rintro ⟨piece, rest, rfl, hp, hrest⟩
    obtain ⟨b, rfl, hb⟩ := (h piece).mp hp
    exact ⟨b, rest, rfl, hb, hrest⟩
  · rintro ⟨b, rest, rfl, hb, hrest⟩
    exact ⟨[b], rest, rfl, (h [b]).mpr ⟨b, rfl, hb⟩, hrest⟩

theorem congr (h : ∀ p ∈ pattern, ∀ piece, stands p piece ↔ stands' p piece) :
    Splits stands pattern name ↔ Splits stands' pattern name := by
  induction pattern generalizing name with
  | nil => rw [nil_iff, nil_iff]
  | cons p pattern ih =>
    obtain ⟨hp, hpattern⟩ := List.forall_mem_cons.mp h
    simp only [cons_iff, hp, ih hpattern]

section count

variable [DecidableEq α] {stands : α → List α → Prop} {pattern name : List α} {b : α}

theorem count_le (h : ∀ p piece, stands p piece → [p].count b ≤ piece.count b)
    (hs : Splits stands pattern name) :
    pattern.count b ≤ name.count b := by
  induction pattern generalizing name with
  | nil => exact Nat.zero_le _
  | cons p pattern ih =>
    obtain ⟨piece, rest, rfl, hp, hrest⟩ := cons_iff.mp hs
    rw [← List.singleton_append, List.count_append, List.count_append]
    exact Nat.add_le_add (h p piece hp) (ih hrest)

theorem count_eq_iff (h : ∀ p piece, stands p piece → [p].count b ≤ piece.count b) :
    Splits (fun p piece => stands p piece ∧ [p].count b = piece.count b) pattern name ↔
      Splits stands pattern name ∧ pattern.count b = name.count b := by
  induction pattern generalizing name with
  | nil =>
    rw [nil_iff, nil_iff]
    exact ⟨fun hname => ⟨hname, hname ▸ rfl⟩, And.left⟩
  | cons p pattern ih =>
    rw [cons_iff, cons_iff]
    constructor
    · rintro ⟨piece, rest, rfl, ⟨hp, hcount⟩, hrest⟩
      obtain ⟨hrest, hcounts⟩ := ih.mp hrest
      refine ⟨⟨piece, rest, rfl, hp, hrest⟩, ?_⟩
      rw [← List.singleton_append, List.count_append, List.count_append, hcount, hcounts]
    · rintro ⟨⟨piece, rest, rfl, hp, hrest⟩, hcounts⟩
      rw [← List.singleton_append, List.count_append, List.count_append] at hcounts
      have hpiece := h p piece hp
      have hle := count_le h hrest
      exact ⟨piece, rest, rfl, ⟨hp, by omega⟩, ih.mpr ⟨hrest, by omega⟩⟩

end count

end Splits

end Go
