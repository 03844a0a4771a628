import Mathlib.Data.List.Perm.Basic

namespace Go.Heap

variable {α : Type} (less : α → α → Bool)

def swap (h : List α) (i j : Nat) : List α :=
  match h[i]?, h[j]? with
  | some a, some b => (h.set i b).set j a
  | _, _ => h

def lessAt (h : List α) (i j : Nat) : Bool :=
  match h[i]?, h[j]? with
  | some a, some b => less a b
  | _, _ => false

def up : Nat → List α → Nat → List α
  | 0, h, _ => h
  | n + 1, h, j =>
    let i := (j - 1) / 2
    if i = j ∨ lessAt less h j i = false then h else up n (swap h i j) i

def child (h : List α) (i n : Nat) : Nat :=
  let j₁ := 2 * i + 1
  if j₁ + 1 < n ∧ lessAt less h (j₁ + 1) j₁ = true then j₁ + 1 else j₁

def down : Nat → List α → Nat → Nat → List α
  | 0, h, _, _ => h
  | fuel + 1, h, i, n =>
    if n ≤ 2 * i + 1 ∨ lessAt less h (child less h i n) i = false then h
    else down fuel (swap h i (child less h i n)) (child less h i n) n

def initFrom : Nat → List α → List α
  | 0, h => h
  | i + 1, h => initFrom i (down less h.length h i h.length)

def init (h : List α) : List α := initFrom less (h.length / 2) h

def push (h : List α) (x : α) : List α := up less h.length (h ++ [x]) h.length

def pop (h : List α) : List α :=
  let n := h.length - 1
  (down less n (swap h 0 n) 0 n).take n

theorem swap_perm (h : List α) (i j : Nat) : (swap h i j).Perm h := by
  unfold swap
  split
  · rename_i a b hi hj
    obtain ⟨hil, rfl⟩ := List.getElem?_eq_some_iff.mp hi
    obtain ⟨hjl, rfl⟩ := List.getElem?_eq_some_iff.mp hj
    exact List.set_set_perm hil hjl
  · exact .refl _

theorem up_perm (n : Nat) (h : List α) (j : Nat) : (up less n h j).Perm h := by
  induction n generalizing h j with
  | zero => exact .refl _
  | succ n ih =>
    simp only [up]
    split
    · exact .refl _
    · exact (ih _ _).trans (swap_perm h _ _)

theorem down_perm (fuel : Nat) (h : List α) (i n : Nat) : (down less fuel h i n).Perm h := by
  induction fuel generalizing h i with
  | zero => exact .refl _
  | succ fuel ih =>
    simp only [down]
    split
    · exact .refl _
    · exact (ih _ _).trans (swap_perm h _ _)

theorem initFrom_perm (i : Nat) (h : List α) : (initFrom less i h).Perm h := by
  induction i generalizing h with
  | zero => exact .refl _
  | succ i ih => exact (ih _).trans (down_perm less _ _ _ _)

theorem init_perm (h : List α) : (init less h).Perm h := initFrom_perm less _ h

theorem push_perm (h : List α) (x : α) : (push less h x).Perm (x :: h) :=
  (up_perm less _ _ _).trans (List.perm_append_singleton x h)

theorem swap_getElem? (h : List α) {i j k : Nat} (hi : k ≠ i) (hj : k ≠ j) :
    (swap h i j)[k]? = h[k]? := by
  unfold swap
  split
  · rw [List.getElem?_set_ne hj.symm, List.getElem?_set_ne hi.symm]
  · rfl

theorem child_lt (h : List α) {i n : Nat} (hn : 2 * i + 1 < n) : child less h i n < n := by
  simp only [child]
  split <;> omega

theorem down_getElem? (fuel : Nat) (h : List α) {i n k : Nat} (hi : i < n) (hk : n ≤ k) :
    (down less fuel h i n)[k]? = h[k]? := by
  induction fuel generalizing h i with
  | zero => rfl
  | succ fuel ih =>
    simp only [down]
    split
    · rfl
    · rename_i hn
      have hj : child less h i n < n := child_lt less h (by omega)
      rw [ih _ hj, swap_getElem? h (by omega) (by omega)]

theorem swap_last (a : α) (t : List α) : (swap (a :: t) 0 t.length)[t.length]? = some a := by
  have hl : t.length < (a :: t).length := by simp
  simp only [swap, List.getElem?_cons_zero, List.getElem?_eq_getElem hl]
  rw [List.getElem?_set_self (by simp)]

theorem pop_perm (a : α) (t : List α) : (a :: pop less (a :: t)).Perm (a :: t) := by
  let s := swap (a :: t) 0 t.length
  let d := down less t.length s 0 t.length
  have hs : s.Perm (a :: t) := swap_perm _ _ _
  have hd : d.Perm (a :: t) := (down_perm less _ _ _ _).trans hs
  have hlen : d.length = t.length + 1 := by simpa using hd.length_eq
  have hlast : d[t.length]? = some a := by
    cases t with
    | nil => exact swap_last a []
    | cons b t =>
      have hlt : 0 < (b :: t).length := by simp
      exact (down_getElem? less _ s hlt (Nat.le_refl _)).trans (swap_last a (b :: t))
  obtain ⟨hlt, hget⟩ := List.getElem?_eq_some_iff.mp hlast
  have htake : d.take t.length ++ [a] = d := by
    rw [← hget, List.take_append_getElem hlt, List.take_of_length_le (by omega)]
  change (a :: d.take t.length).Perm (a :: t)
  refine (List.perm_append_singleton a _).symm.trans ?_
  rw [htake]
  exact hd

end Go.Heap
