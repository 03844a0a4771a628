import Octar.Lib.GoHeap

namespace Go.Heap

variable {α : Type} (less : α → α → Bool)

structure Orders : Prop where
  asymm : ∀ {a b}, less a b = true → less b a = false
  trans : ∀ {a b c}, less b a = false → less c b = false → less c a = false

def OrderedFrom (lo n : Nat) (h : List α) : Prop :=
  ∀ j, 0 < j → j < n → lo ≤ (j - 1) / 2 → lessAt less h j ((j - 1) / 2) = false

def IsHeap (h : List α) : Prop := OrderedFrom less 0 h.length h

structure DownAt (lo i n : Nat) (h : List α) : Prop where
  pairs : ∀ j, 0 < j → j < n → lo ≤ (j - 1) / 2 → (j - 1) / 2 ≠ i →
    lessAt less h j ((j - 1) / 2) = false
  grand : 0 < i → lo ≤ (i - 1) / 2 → ∀ j, j < n → (j - 1) / 2 = i →
    lessAt less h j ((i - 1) / 2) = false

structure UpAt (j : Nat) (h : List α) : Prop where
  pairs : ∀ k, 0 < k → k < h.length → k ≠ j → lessAt less h k ((k - 1) / 2) = false
  grand : 0 < j → ∀ k, k < h.length → (k - 1) / 2 = j → lessAt less h k ((j - 1) / 2) = false

def swapped (i j k : Nat) : Nat := if k = i then j else if k = j then i else k

theorem getElem?_swap {h : List α} {i j : Nat} (hi : i < h.length) (hj : j < h.length) (k : Nat) :
    (swap h i j)[k]? = h[swapped i j k]? := by
  simp only [swap, List.getElem?_eq_getElem hi, List.getElem?_eq_getElem hj, swapped]
  by_cases hkj : k = j
  · subst hkj
    rw [List.getElem?_set_self (by simpa using hj)]
    split
    · rename_i hki
      subst hki
      rw [List.getElem?_eq_getElem hj]
    · rw [if_pos rfl, List.getElem?_eq_getElem hi]
  · rw [List.getElem?_set_ne (Ne.symm hkj), if_neg hkj]
    split
    · rename_i hki
      subst hki
      rw [List.getElem?_set_self hi, List.getElem?_eq_getElem hj]
    · rename_i hki
      rw [List.getElem?_set_ne (Ne.symm hki)]

theorem lessAt_swap {h : List α} {i j : Nat} (hi : i < h.length) (hj : j < h.length) (k l : Nat) :
    lessAt less (swap h i j) k l = lessAt less h (swapped i j k) (swapped i j l) := by
  simp only [lessAt, getElem?_swap hi hj]

theorem swapped_left (i j : Nat) : swapped i j i = j := if_pos rfl

theorem swapped_right (i j : Nat) : swapped i j j = i := by
  unfold swapped
  split
  · rename_i h
    exact h
  · exact if_pos rfl

theorem swapped_other {i j k : Nat} (hi : k ≠ i) (hj : k ≠ j) : swapped i j k = k := by
  rw [swapped, if_neg hi, if_neg hj]

@[simp] theorem length_swap (h : List α) (i j : Nat) : (swap h i j).length = h.length :=
  (swap_perm h i j).length_eq

theorem child_cases (h : List α) (i n : Nat) :
    child less h i n = 2 * i + 1 ∨ child less h i n = 2 * i + 2 := by
  simp only [child]
  split
  · exact .inr rfl
  · exact .inl rfl

variable {less} (hless : Orders less)

include hless

theorem Orders.lessAt_asymm {h : List α} {i j : Nat} (hlt : lessAt less h i j = true) :
    lessAt less h j i = false := by
  unfold lessAt at *
  cases hi : h[i]? with
  | none =>
    rw [hi] at hlt
    cases hlt
  | some a =>
    cases hj : h[j]? with
    | none => rfl
    | some b =>
      rw [hi, hj] at hlt
      exact hless.asymm hlt

theorem Orders.lessAt_trans {h : List α} {i j k : Nat} (hj : j < h.length)
    (hij : lessAt less h j i = false) (hjk : lessAt less h k j = false) :
    lessAt less h k i = false := by
  unfold lessAt at *
  rw [List.getElem?_eq_getElem hj] at hij hjk
  cases hi : h[i]? with
  | none =>
    cases h[k]? with
    | none => rfl
    | some c => rfl
  | some a =>
    cases hk : h[k]? with
    | none => rfl
    | some c =>
      rw [hi] at hij
      rw [hk] at hjk
      exact hless.trans hij hjk

theorem child_first (h : List α) {i j n : Nat} (hj : j < n) (hparent : (j - 1) / 2 = i)
    (hpos : 0 < j) :
    lessAt less h j (child less h i n) = false := by
  have hcases : j = 2 * i + 1 ∨ j = 2 * i + 2 := by omega
  have hself : ∀ k, lessAt less h k k = false := by
    intro k
    cases hk : lessAt less h k k with
    | false => rfl
    | true => rw [hless.lessAt_asymm hk] at hk; cases hk
  simp only [child]
  split
  · rename_i hright
    rcases hcases with rfl | rfl
    · exact hless.lessAt_asymm hright.2
    · exact hself _
  · rename_i hright
    rcases hcases with rfl | rfl
    · exact hself _
    · rw [not_and, Bool.not_eq_true] at hright
      exact hright hj

theorem DownAt.move {h : List α} {lo i n : Nat} (hd : DownAt less lo i n h) (hlo : lo ≤ i)
    (hn : n ≤ h.length) (hchild : 2 * i + 1 < n) (hlt : lessAt less h (child less h i n) i = true) :
    DownAt less lo (child less h i n) n (swap h i (child less h i n)) := by
  have hc := child_lt less h hchild
  have hcases := child_cases less h i n
  have hmin :=
    fun j hj hparent hpos => child_first hless h (i := i) (j := j) (n := n) hj hparent hpos
  generalize child less h i n = c at *
  have hi' : i < h.length := by omega
  have hc' : c < h.length := by omega
  constructor
  · intro j hpos hj hge hne
    rw [lessAt_swap less hi' hc']
    by_cases hjc : j = c
    · have hparent : (j - 1) / 2 = i := by omega
      rw [hparent, hjc, swapped_left, swapped_right]
      exact hless.lessAt_asymm hlt
    by_cases hji : j = i
    · rw [hji, swapped_left, swapped_other (by omega) (by omega)]
      exact hd.grand (by omega) (by omega) c hc (by omega)
    rw [swapped_other hji hjc]
    by_cases hparent : (j - 1) / 2 = i
    · rw [hparent, swapped_left]
      exact hmin j hj hparent hpos
    · rw [swapped_other hparent hne]
      exact hd.pairs j hpos hj hge hparent
  · intro _ _ j hj hparent
    have hup : (c - 1) / 2 = i := by omega
    rw [lessAt_swap less hi' hc', hup, swapped_left, swapped_other (by omega) (by omega)]
    have hpair := hd.pairs j (by omega) hj (by omega) (by omega)
    rwa [hparent] at hpair

omit hless in
theorem DownAt.finish {h : List α} {lo i n : Nat} (hd : DownAt less lo i n h)
    (hstop : ∀ j, 0 < j → j < n → (j - 1) / 2 = i → lessAt less h j i = false) :
    OrderedFrom less lo n h := by
  intro j hpos hj hge
  by_cases hparent : (j - 1) / 2 = i
  · rw [hparent]
    exact hstop j hpos hj hparent
  · exact hd.pairs j hpos hj hge hparent

theorem DownAt.down {h : List α} {lo i n fuel : Nat} (hd : DownAt less lo i n h) (hlo : lo ≤ i)
    (hn : n ≤ h.length) (hfuel : n ≤ i + fuel) :
    OrderedFrom less lo n (Heap.down less fuel h i n) := by
  induction fuel generalizing h i with
  | zero =>
    apply hd.finish
    intro j hpos hj hparent
    omega
  | succ fuel ih =>
    simp only [Heap.down]
    split
    · rename_i hstop
      apply hd.finish
      intro j hpos hj hparent
      rcases hstop with hstop | hstop
      · omega
      · have hc := child_lt less h (i := i) (n := n) (by omega)
        exact hless.lessAt_trans (by omega) hstop (child_first hless h hj hparent hpos)
    · rename_i hstop
      rw [not_or, Bool.not_eq_false, Nat.not_le] at hstop
      have hc := child_cases less h i n
      apply ih (hd.move hless hlo hn hstop.1 hstop.2)
      · omega
      · simpa using hn
      · omega

theorem UpAt.move {h : List α} {j : Nat} (hu : UpAt less j h) (hpos : 0 < j) (hj : j < h.length)
    (hlt : lessAt less h j ((j - 1) / 2) = true) :
    UpAt less ((j - 1) / 2) (swap h ((j - 1) / 2) j) := by
  have hi : (j - 1) / 2 < h.length := by omega
  have hle := hless.lessAt_asymm hlt
  -- what the parent of `j` is not after, `j` is not after either
  have hsibling : ∀ k, k < h.length → k ≠ j → 0 < k → (k - 1) / 2 = (j - 1) / 2 →
      lessAt less h k ((j - 1) / 2) = false := by
    intro k hk hkj hkpos hparent
    rw [← hparent]
    exact hu.pairs k hkpos hk hkj
  constructor
  · intro k hkpos hk hki
    rw [length_swap] at hk
    rw [lessAt_swap less hi hj]
    by_cases hkj : k = j
    · rw [hkj, swapped_left, swapped_right]
      exact hle
    rw [swapped_other hki hkj]
    by_cases hparent : (k - 1) / 2 = j
    · rw [hparent, swapped_right]
      exact hu.grand hpos k hk hparent
    by_cases hgrand : (k - 1) / 2 = (j - 1) / 2
    · rw [hgrand, swapped_left]
      exact hless.lessAt_trans hi hle (hsibling k hk hkj hkpos hgrand)
    · rw [swapped_other hgrand hparent]
      exact hu.pairs k hkpos hk hkj
  · intro hipos k hk hparent
    rw [length_swap] at hk
    have htop : lessAt less h ((j - 1) / 2) (((j - 1) / 2 - 1) / 2) = false :=
      hu.pairs _ hipos hi (by omega)
    rw [lessAt_swap less hi hj, swapped_other (k := ((j - 1) / 2 - 1) / 2) (by omega) (by omega)]
    by_cases hkj : k = j
    · rw [hkj, swapped_right]
      exact htop
    · rw [swapped_other (by omega) hkj]
      exact hless.lessAt_trans hi htop (hsibling k hk hkj (by omega) hparent)

theorem UpAt.up {h : List α} {j fuel : Nat} (hu : UpAt less j h) (hj : j < h.length)
    (hfuel : j ≤ fuel) :
    IsHeap less (Heap.up less fuel h j) := by
  have hfinish : ∀ {h : List α} {j}, UpAt less j h →
      (0 < j → lessAt less h j ((j - 1) / 2) = false) → IsHeap less h := by
    intro h j hu hstop k hpos hk _
    by_cases hkj : k = j
    · rw [hkj]
      exact hstop (by omega)
    · exact hu.pairs k hpos hk hkj
  induction fuel generalizing h j with
  | zero =>
    apply hfinish hu
    intro hpos
    omega
  | succ fuel ih =>
    simp only [Heap.up]
    split
    · rename_i hstop
      apply hfinish hu
      intro hpos
      exact hstop.resolve_left (by omega)
    · rename_i hstop
      rw [not_or, Bool.not_eq_false] at hstop
      apply ih (hu.move hless (by omega) hj hstop.2)
      · rw [length_swap]
        omega
      · omega

theorem IsHeap.push {h : List α} (hh : IsHeap less h) (x : α) :
    IsHeap less (Heap.push less h x) := by
  have hold : ∀ k, 0 < k → k < h.length → lessAt less (h ++ [x]) k ((k - 1) / 2) = false := by
    intro k hpos hk
    have hparent : (k - 1) / 2 < h.length := by omega
    have hpair := hh k hpos hk (Nat.zero_le _)
    unfold lessAt at hpair ⊢
    rwa [List.getElem?_append_left hk, List.getElem?_append_left hparent]
  apply UpAt.up hless _ (by simp) (Nat.le_refl _)
  constructor
  · intro k hpos hk hne
    rw [List.length_append, List.length_singleton] at hk
    exact hold k hpos (by omega)
  · intro hpos k hk hparent
    rw [List.length_append, List.length_singleton] at hk
    omega

theorem IsHeap.root_first {a : α} {t : List α} (hh : IsHeap less (a :: t)) :
    ∀ b ∈ a :: t, less b a = false := by
  have hall : ∀ k, k < (a :: t).length → lessAt less (a :: t) k 0 = false := by
    intro k
    induction k using Nat.strongRecOn with
    | ind k ih =>
      intro hk
      cases k with
      | zero =>
        cases hroot : lessAt less (a :: t) 0 0 with
        | false => rfl
        | true => rw [hless.lessAt_asymm hroot] at hroot; cases hroot
      | succ k =>
        have hparent : (k + 1 - 1) / 2 < (a :: t).length := by omega
        exact hless.lessAt_trans hparent (ih _ (by omega) hparent)
          (hh (k + 1) (by omega) hk (Nat.zero_le _))
  intro b hb
  obtain ⟨k, hk, rfl⟩ := List.getElem_of_mem hb
  have hroot := hall k hk
  unfold lessAt at hroot
  rw [List.getElem?_eq_getElem hk] at hroot
  exact hroot

theorem IsHeap.pop {a : α} {t : List α} (hh : IsHeap less (a :: t)) :
    IsHeap less (Heap.pop less (a :: t)) := by
  have hlast : t.length < (a :: t).length := by simp
  have hlen : (Heap.down less t.length (swap (a :: t) 0 t.length) 0 t.length).length =
      t.length + 1 := by
    rw [(down_perm less _ _ _ _).length_eq, length_swap, List.length_cons]
  have hstart : DownAt less 0 0 t.length (swap (a :: t) 0 t.length) := by
    constructor
    · intro j hpos hj _ hne
      rw [lessAt_swap less (by simp) hlast, swapped_other (by omega) (by omega),
        swapped_other hne (by omega)]
      exact hh j hpos (by simp; omega) (Nat.zero_le _)
    · intro hpos
      omega
  have hordered := hstart.down hless (Nat.le_refl _) (by simp) (Nat.le_of_eq (Nat.zero_add _).symm)
  intro j hpos hj _
  simp only [Heap.pop, List.length_cons, Nat.add_sub_cancel, List.length_take] at hj
  have hpair := hordered j hpos (by omega) (Nat.zero_le _)
  unfold lessAt at hpair ⊢
  simp only [Heap.pop, List.length_cons, Nat.add_sub_cancel]
  rwa [List.getElem?_take_of_lt (by omega), List.getElem?_take_of_lt (by omega)]

theorem isHeap_init (h : List α) : IsHeap less (init less h) := by
  have hfrom : ∀ i (h : List α), OrderedFrom less i h.length h →
      OrderedFrom less 0 h.length (initFrom less i h) := by
    intro i
    induction i with
    | zero => exact fun h hh => hh
    | succ i ih =>
      intro h hh
      have hstart : DownAt less i i h.length h := by
        constructor
        · intro j hpos hj hge hne
          exact hh j hpos hj (by omega)
        · intro hpos hge
          omega
      have hdown : OrderedFrom less i h.length (Heap.down less h.length h i h.length) :=
        hstart.down hless (Nat.le_refl _) (Nat.le_refl _) (Nat.le_add_left _ _)
      have hlen := (down_perm less h.length h i h.length).length_eq
      have hrest := ih (Heap.down less h.length h i h.length)
      rw [hlen] at hrest
      exact hrest hdown
  unfold IsHeap
  rw [(init_perm less h).length_eq]
  apply hfrom
  intro j hpos hj hge
  omega

end Go.Heap
