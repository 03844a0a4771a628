import Mathlib.Data.List.GetD
import Mathlib.Data.Multiset.AddSub
import Mathlib.Data.Nat.ModEq

namespace Go

structure Carousel (α : Type) where
  slots : List (List α)
  cursor : Nat
  cursor_lt : cursor < slots.length

namespace Carousel

variable {α : Type}

def size (r : Carousel α) : Nat := r.slots.length

def ahead (r : Carousel α) (j : Nat) : List α := r.slots.getD ((r.cursor + j) % r.size) []

def put (r : Carousel α) (i : Nat) (a : α) : Carousel α where
  slots := r.slots.modify i (a :: ·)
  cursor := r.cursor
  cursor_lt := by simpa using r.cursor_lt

def turn (r : Carousel α) : Carousel α where
  slots := r.slots.set r.cursor []
  cursor := (r.cursor + 1) % r.size
  cursor_lt := by
    rw [List.length_set]
    exact Nat.mod_lt _ (Nat.zero_lt_of_lt r.cursor_lt)

def contents (r : Carousel α) : Multiset α := r.slots.flatten

theorem size_pos (r : Carousel α) : 0 < r.size := Nat.zero_lt_of_lt r.cursor_lt

@[simp] theorem size_put (r : Carousel α) (i : Nat) (a : α) : (r.put i a).size = r.size :=
  List.length_modify ..

@[simp] theorem size_turn (r : Carousel α) : r.turn.size = r.size := List.length_set ..

theorem ahead_zero (r : Carousel α) : r.ahead 0 = r.slots.get ⟨r.cursor, r.cursor_lt⟩ := by
  have hmod : (r.cursor + 0) % r.size = r.cursor := Nat.mod_eq_of_lt r.cursor_lt
  rw [ahead, hmod, List.getD_eq_getElem _ _ r.cursor_lt, List.get_eq_getElem]

theorem index_inj (r : Carousel α) {j k : Nat} :
    (r.cursor + k) % r.size = (r.cursor + j) % r.size ↔ k % r.size = j % r.size :=
  ⟨Nat.ModEq.add_left_cancel' r.cursor, Nat.ModEq.add_left r.cursor⟩

theorem ahead_put (r : Carousel α) (k j : Nat) (a : α) :
    (r.put ((r.cursor + k) % r.size) a).ahead j = if k % r.size = j % r.size then a :: r.ahead j
      else r.ahead j := by
  have hlt : (r.cursor + j) % r.size < r.slots.length := Nat.mod_lt _ r.size_pos
  rw [ahead, ahead, size_put]
  simp only [put, List.getD_eq_getElem?_getD, List.getElem?_modify, r.index_inj]
  split
  · rw [List.getElem?_eq_getElem hlt]
    rfl
  · simp

theorem ahead_turn (r : Carousel α) {j : Nat} (hj : j < r.size) :
    r.turn.ahead j = if j + 1 = r.size then [] else r.ahead (j + 1) := by
  have hcursor : r.cursor % r.size = r.cursor := Nat.mod_eq_of_lt r.cursor_lt
  have hindex : (r.turn.cursor + j) % r.turn.size = (r.cursor + (j + 1)) % r.size := by
    rw [size_turn]
    change ((r.cursor + 1) % r.size + j) % r.size = _
    rw [Nat.mod_add_mod, Nat.add_assoc, Nat.add_comm 1 j]
  rw [ahead, hindex]
  simp only [turn, List.getD_eq_getElem?_getD, List.getElem?_set]
  by_cases hlast : j + 1 = r.size
  · rw [if_pos hlast, hlast, Nat.add_mod_right, hcursor, if_pos rfl, if_pos r.cursor_lt]
    rfl
  · have hne : ¬ r.cursor = (r.cursor + (j + 1)) % r.size := by
      intro heq
      have hzero : 0 % r.size = (j + 1) % r.size :=
        r.index_inj.mp (by rw [Nat.add_zero, hcursor, ← heq])
      rw [Nat.zero_mod, Nat.mod_eq_of_lt (by omega)] at hzero
      omega
    rw [if_neg hne, if_neg hlast, ahead, List.getD_eq_getElem?_getD]

theorem mem_contents (r : Carousel α) {a : α} : a ∈ r.contents ↔ ∃ j < r.size, a ∈ r.ahead j := by
  rw [contents, Multiset.mem_coe, List.mem_flatten]
  constructor
  · rintro ⟨slot, hslot, ha⟩
    obtain ⟨i, hi, rfl⟩ := List.getElem_of_mem hslot
    have hcursor := r.cursor_lt
    refine ⟨(i + r.size - r.cursor) % r.size, Nat.mod_lt _ r.size_pos, ?_⟩
    have hindex : (r.cursor + (i + r.size - r.cursor) % r.size) % r.size = i := by
      rw [Nat.add_mod_mod, Nat.add_sub_cancel' (by rw [size]; omega), Nat.add_mod_right]
      exact Nat.mod_eq_of_lt hi
    rwa [ahead, hindex, List.getD_eq_getElem _ _ hi]
  · rintro ⟨j, -, ha⟩
    have hlt : (r.cursor + j) % r.size < r.slots.length := Nat.mod_lt _ r.size_pos
    rw [ahead, List.getD_eq_getElem _ _ hlt] at ha
    exact ⟨_, List.getElem_mem hlt, ha⟩

theorem flatten_modify_cons (l : List (List α)) {i : Nat} (hi : i < l.length) (a : α) :
    (l.modify i (a :: ·)).flatten.Perm (a :: l.flatten) := by
  induction l generalizing i with
  | nil => cases hi
  | cons slot l ih =>
    cases i with
    | zero => exact .refl _
    | succ i =>
      rw [List.modify_succ_cons, List.flatten_cons, List.flatten_cons]
      exact ((ih (Nat.lt_of_succ_lt_succ hi)).append_left slot).trans List.perm_middle

theorem flatten_set_nil (l : List (List α)) {i : Nat} (hi : i < l.length) :
    l.flatten.Perm (l.get ⟨i, hi⟩ ++ (l.set i []).flatten) := by
  induction l generalizing i with
  | nil => cases hi
  | cons slot l ih =>
    cases i with
    | zero => exact .refl _
    | succ i =>
      rw [List.set_cons_succ, List.flatten_cons, List.flatten_cons, List.get_cons_succ]
      have hmove : (slot ++ (l.get ⟨i, Nat.lt_of_succ_lt_succ hi⟩ ++ (l.set i []).flatten)).Perm
          (l.get ⟨i, Nat.lt_of_succ_lt_succ hi⟩ ++ (slot ++ (l.set i []).flatten)) := by
        rw [← List.append_assoc, ← List.append_assoc]
        exact List.perm_append_comm.append_right _
      exact ((ih (Nat.lt_of_succ_lt_succ hi)).append_left slot).trans hmove

theorem contents_put (r : Carousel α) {i : Nat} (hi : i < r.size) (a : α) :
    (r.put i a).contents = a ::ₘ r.contents :=
  Multiset.coe_eq_coe.mpr (flatten_modify_cons r.slots hi a)

theorem contents_turn (r : Carousel α) : r.contents = r.ahead 0 + r.turn.contents := by
  rw [ahead_zero]
  exact Multiset.coe_eq_coe.mpr (flatten_set_nil r.slots r.cursor_lt)

end Carousel

end Go
