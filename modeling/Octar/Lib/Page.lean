import Mathlib.Data.List.Basic

namespace Go

variable {α : Type}

section search

variable {p : α → Bool} {l : List α}

theorem drop_findIdx (h : l.Pairwise fun a b => p a = true → p b = true) :
    l.drop (l.findIdx p) = l.filter p := by
  induction l with
  | nil => rfl
  | cons a l ih =>
    obtain ⟨ha, hl⟩ := List.pairwise_cons.mp h
    cases hp : p a with
    | true =>
      have hall : ∀ b ∈ a :: l, p b = true := by
        intro b hb
        rcases List.mem_cons.mp hb with rfl | hb
        · exact hp
        · exact ha b hb hp
      rw [List.findIdx_cons, hp, cond_true, List.drop_zero, List.filter_eq_self.mpr hall]
    | false =>
      rw [List.findIdx_cons, hp, cond_false, List.drop_succ_cons, ih hl,
        List.filter_cons_of_neg (by simp [hp])]

theorem take_findIdx (h : l.Pairwise fun a b => p a = true → p b = true) :
    l.take (l.findIdx p) = l.filter fun a => !p a := by
  induction l with
  | nil => rfl
  | cons a l ih =>
    obtain ⟨ha, hl⟩ := List.pairwise_cons.mp h
    cases hp : p a with
    | true =>
      have hnone : ∀ b ∈ a :: l, ¬ (!p b) = true := by
        intro b hb
        rcases List.mem_cons.mp hb with rfl | hb
        · simp [hp]
        · simp [ha b hb hp]
      rw [List.findIdx_cons, hp, cond_true, List.take_zero, List.filter_eq_nil_iff.mpr hnone]
    | false =>
      rw [List.findIdx_cons, hp, cond_false, List.take_succ_cons, ih hl,
        List.filter_cons_of_pos (by simp [hp])]

end search

section slice

variable (l : List α) (start limit : Nat)

theorem take_slice :
    (l.drop start).take (min (start + limit) l.length - start) = (l.drop start).take limit := by
  rw [List.take_eq_take_iff, List.length_drop]
  omega

theorem slice_lt : min (start + limit) l.length < l.length ↔ limit < (l.drop start).length := by
  rw [List.length_drop]
  omega

theorem getElem?_slice {limit : Nat} (h : limit < (l.drop start).length) (hlimit : 0 < limit) :
    l[min (start + limit) l.length - 1]? = (l.drop start)[limit - 1]? := by
  rw [List.length_drop] at h
  rw [List.getElem?_drop]
  congr 1
  omega

end slice

theorem page_split {r : α → α → Prop} {l : List α} {n : Nat} {c : α} (h : l.Pairwise r) (hn : 0 < n)
    (hc : l[n - 1]? = some c) : (∀ a ∈ l.take n, a = c ∨ r a c) ∧ ∀ b ∈ l.drop n, r c b := by
  obtain ⟨hlt, rfl⟩ := List.getElem?_eq_some_iff.mp hc
  have htake : l.take n = l.take (n - 1) ++ [l[n - 1]] := by
    rw [← List.take_succ_eq_append_getElem hlt, Nat.sub_add_cancel hn]
  have hsplit := h
  rw [← List.take_append_drop n l, htake] at hsplit
  obtain ⟨hpage, -, hcross⟩ := List.pairwise_append.mp hsplit
  obtain ⟨-, -, hbefore⟩ := List.pairwise_append.mp hpage
  refine ⟨?_, fun b hb => hcross _ (List.mem_append_right _ List.mem_cons_self) b hb⟩
  intro a ha
  rw [htake] at ha
  rcases List.mem_append.mp ha with ha | ha
  · exact .inr (hbefore a ha _ List.mem_cons_self)
  · exact .inl (List.mem_singleton.mp ha)

section after

variable [DecidableEq α]

def after (c : α) : List α → List α
  | [] => []
  | a :: l => if a = c then l else after c l

variable {c k : α} {l l' : List α}

theorem mem_of_mem_after (h : k ∈ after c l) : k ∈ l := by
  induction l with
  | nil => cases h
  | cons a l ih =>
    rw [after] at h
    split at h
    · exact List.mem_cons_of_mem a h
    · exact List.mem_cons_of_mem a (ih h)

theorem after_append_of_mem (h : c ∈ l) : after c (l ++ l') = after c l ++ l' := by
  induction l with
  | nil => cases h
  | cons a l ih =>
    rw [List.cons_append, after, after]
    split
    · rfl
    · rename_i hne
      exact ih ((List.mem_cons.mp h).resolve_left (Ne.symm hne))

theorem after_append_of_not_mem (h : c ∉ l) : after c (l ++ l') = after c l' := by
  induction l with
  | nil => rfl
  | cons a l ih =>
    obtain ⟨hne, hl⟩ := not_or.mp (List.mem_cons.not.mp h)
    rw [List.cons_append, after, if_neg (Ne.symm hne), ih hl]

theorem after_filter {p : α → Bool} (h : p c = true) :
    after c (l.filter p) = (after c l).filter p := by
  induction l with
  | nil => rfl
  | cons a l ih =>
    by_cases ha : a = c
    · subst ha
      rw [List.filter_cons_of_pos h, after, after, if_pos rfl, if_pos rfl]
    · rw [after, if_neg ha]
      cases hp : p a with
      | true => rw [List.filter_cons_of_pos hp, after, if_neg ha, ih]
      | false => rw [List.filter_cons_of_neg (by simp [hp]), ih]

theorem after_eq_drop (c : α) (l : List α) :
    after c l = l.drop ((l.findIdx fun a => decide (a = c)) + 1) := by
  induction l with
  | nil => rfl
  | cons a l ih =>
    rw [after, List.findIdx_cons]
    by_cases ha : a = c
    · simp [ha]
    · simp [ha, ih]

theorem after_page {m n : Nat} (h : l.Nodup) (hn : 0 < n) (hc : (l.drop m)[n - 1]? = some c) :
    after c l = (l.drop m).drop n := by
  rw [List.getElem?_drop] at hc
  obtain ⟨hlt, rfl⟩ := List.getElem?_eq_some_iff.mp hc
  have hidx : (l.findIdx fun a => decide (a = l[m + (n - 1)])) = m + (n - 1) :=
    List.Nodup.idxOf_getElem h _ hlt
  rw [after_eq_drop, List.drop_drop, hidx]
  congr 1
  omega

theorem mem_after_of_sorted {r : α → α → Prop} (hr : ∀ a b, r a b → ¬ r b a) (h : l.Pairwise r)
    (hc : c ∈ l) :
    k ∈ after c l ↔ k ∈ l ∧ r c k := by
  induction l with
  | nil => cases hc
  | cons a l ih =>
    obtain ⟨ha, hl⟩ := List.pairwise_cons.mp h
    rw [after]
    split
    · rename_i hac
      subst hac
      constructor
      · exact fun hk => ⟨List.mem_cons_of_mem a hk, ha k hk⟩
      · rintro ⟨hk, hlt⟩
        rcases List.mem_cons.mp hk with rfl | hk
        · exact absurd hlt (hr _ _ hlt)
        · exact hk
    · rename_i hac
      have hcl : c ∈ l := (List.mem_cons.mp hc).resolve_left (Ne.symm hac)
      rw [ih hl hcl]
      constructor
      · exact fun ⟨hk, hlt⟩ => ⟨List.mem_cons_of_mem a hk, hlt⟩
      · rintro ⟨hk, hlt⟩
        rcases List.mem_cons.mp hk with rfl | hk
        · exact absurd hlt (hr _ _ (ha c hcl))
        · exact ⟨hk, hlt⟩

end after

end Go
