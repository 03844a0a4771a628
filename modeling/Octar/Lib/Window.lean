import Mathlib.Algebra.Order.Group.Unbundled.Basic
import Mathlib.Algebra.Order.Monoid.Defs

namespace Window

universe u

variable {T : Type u} [LinearOrder T]

def countIn (lo hi : T) (times : List T) : Nat := times.countP fun t => lo ≤ t ∧ t ≤ hi

def countFrom (lo : T) (times : List T) : Nat := times.countP fun t => lo ≤ t

theorem countIn_le_countFrom (lo hi : T) (times : List T) :
    countIn lo hi times ≤ countFrom lo times := by
  apply List.countP_mono_left
  intro t _ ht
  simp only [decide_eq_true_eq] at ht ⊢
  exact ht.1

theorem countFrom_append (lo : T) (times times' : List T) :
    countFrom lo (times ++ times') = countFrom lo times + countFrom lo times' := List.countP_append

theorem countIn_append_later {lo hi now : T} (h : hi < now) (times : List T) :
    countIn lo hi (times ++ [now]) = countIn lo hi times := by
  rw [countIn, List.countP_append, List.countP_singleton, if_neg]
  · rfl
  · simpa using fun _ => h

variable [AddCommGroup T]

def current (window now : T) (events : List T) : List T :=
  events.dropWhile fun e => e < now - window

theorem countFrom_current {window now lo : T} (h : now - window ≤ lo) (events : List T) :
    countFrom lo (current window now events) = countFrom lo events := by
  induction events with
  | nil => rfl
  | cons e events ih =>
    rw [current, List.dropWhile_cons]
    split
    · rename_i hold
      have hlt : ¬ lo ≤ e := not_le.mpr ((of_decide_eq_true hold).trans_le h)
      rw [← current, ih, countFrom, countFrom, List.countP_cons_of_neg (by simpa using hlt)]
    · rfl

theorem length_current {window now : T} {events : List T} (h : events.Pairwise (· ≤ ·)) :
    (current window now events).length = countFrom (now - window) events := by
  induction events with
  | nil => rfl
  | cons e events ih =>
    obtain ⟨hle, hrest⟩ := List.pairwise_cons.mp h
    rw [current, List.dropWhile_cons]
    split
    · rename_i hold
      have hlt : ¬ now - window ≤ e := not_le.mpr (of_decide_eq_true hold)
      rw [← current, ih hrest, countFrom, countFrom, List.countP_cons_of_neg (by simpa using hlt)]
    · rename_i hnew
      have hge : now - window ≤ e := by simpa using hnew
      rw [countFrom, List.countP_eq_length.mpr]
      rw [List.forall_mem_cons]
      exact ⟨by simpa using hge, fun e' he' => by simpa using hge.trans (hle e' he')⟩

theorem current_append_now [IsOrderedAddMonoid T] {window : T} (now : T) (h : 0 ≤ window)
    (events : List T) :
    current window now (current window now events ++ [now]) =
      current window now events ++ [now] := by
  induction events with
  | nil =>
    have hnow : ¬ now < now - window := not_lt.mpr (sub_le_self now h)
    simp [current, hnow]
  | cons e events ih =>
    by_cases hold : e < now - window
    · have hcurrent : current window now (e :: events) = current window now events := by
        simp [current, hold]
      rw [hcurrent]
      exact ih
    · simp [current, hold]

theorem le_of_current_eq_cons {window now e : T} {events rest : List T}
    (h : current window now events = e :: rest) :
    now - window ≤ e := by
  have hne : current window now events ≠ [] := h ▸ List.cons_ne_nil e rest
  have hhead : decide ((current window now events).head hne < now - window) = false :=
    List.head_dropWhile_not _ hne
  simpa only [h, List.head_cons, decide_eq_false_iff_not, not_lt] using hhead

theorem length_current_cons_lt {window now e : T} {events : List T} :
    (current window now (e :: events)).length < (e :: events).length ↔ e < now - window := by
  rw [current, List.dropWhile_cons]
  split
  · rename_i hold
    exact iff_of_true (Nat.lt_succ_of_le (List.dropWhile_sublist _).length_le)
      (of_decide_eq_true hold)
  · rename_i hnew
    exact iff_of_false (Nat.lt_irrefl _) (by simpa using hnew)

/-- The limiter's events account for what it let through: of everything since the last window they
miss nothing, so that no window has more than `max`. -/
structure Counts (max : Nat) (window last : T) (events passed : List T) : Prop where
  length_le : events.length ≤ max
  covers : ∀ lo, last - window ≤ lo → countFrom lo passed ≤ countFrom lo events
  bound : ∀ t, countIn (t - window) t passed ≤ max

namespace Counts

variable {max : Nat} {window last now : T} {events passed : List T}

theorem new (max : Nat) (window last : T) : Counts max window last [] [] :=
  ⟨Nat.zero_le _, fun _ _ => Nat.le_refl _, fun _ => Nat.zero_le _⟩

theorem later [IsOrderedAddMonoid T] (h : Counts max window last events passed) (hle : last ≤ now) :
    Counts max window now events passed :=
  ⟨h.length_le, fun lo hlo => h.covers lo ((sub_le_sub_right hle window).trans hlo), h.bound⟩

theorem evict (h : Counts max window now events passed) :
    Counts max window now (current window now events) passed := by
  refine ⟨(List.dropWhile_sublist _).length_le.trans h.length_le, ?_, h.bound⟩
  intro lo hlo
  rw [countFrom_current hlo]
  exact h.covers lo hlo

theorem spend (h : Counts max window now events passed) (hlt : events.length < max) :
    Counts max window now (events ++ [now]) passed := by
  refine ⟨List.length_append.trans_le hlt, ?_, h.bound⟩
  intro lo hlo
  rw [countFrom_append]
  exact (h.covers lo hlo).trans (Nat.le_add_right _ _)

theorem pass [IsOrderedAddMonoid T] (h : Counts max window now events passed)
    (hlt : events.length < max) :
    Counts max window now (events ++ [now]) (passed ++ [now]) := by
  have hlength : (events ++ [now]).length ≤ max := List.length_append.trans_le hlt
  have hcovers : ∀ lo, now - window ≤ lo → countFrom lo (passed ++ [now]) ≤
      countFrom lo (events ++ [now]) := by
    intro lo hlo
    rw [countFrom_append, countFrom_append]
    exact Nat.add_le_add_right (h.covers lo hlo) _
  refine ⟨hlength, hcovers, ?_⟩
  intro t
  by_cases ht : now ≤ t
  · -- the window ends at or after the new event, so the limiter knows all of it
    calc countIn (t - window) t (passed ++ [now])
      _ ≤ countFrom (t - window) (passed ++ [now]) := countIn_le_countFrom _ _ _
      _ ≤ countFrom (t - window) (events ++ [now]) := hcovers _ (sub_le_sub_right ht window)
      _ ≤ (events ++ [now]).length := List.countP_le_length
      _ ≤ max := hlength
  · rw [countIn_append_later (not_le.mp ht)]
    exact h.bound t

end Counts

structure Accounts (last : T) (events passed : List T) : Prop where
  suffix : events <:+ passed
  ascending : passed.Pairwise (· ≤ ·)
  le_last : ∀ t ∈ passed, t ≤ last

namespace Accounts

variable {window last now : T} {events passed : List T}

omit [AddCommGroup T] in
theorem later (h : Accounts last events passed) (hle : last ≤ now) : Accounts now events passed :=
  ⟨h.suffix, h.ascending, fun t ht => (h.le_last t ht).trans hle⟩

theorem evict (h : Accounts now events passed) : Accounts now (current window now events) passed :=
  ⟨(List.dropWhile_suffix _).trans h.suffix, h.ascending, h.le_last⟩

omit [AddCommGroup T] in
theorem pass (h : Accounts now events passed) :
    Accounts now (events ++ [now]) (passed ++ [now]) := by
  refine ⟨?_, ?_, ?_⟩
  · obtain ⟨old, rfl⟩ := h.suffix
    exact ⟨old, (List.append_assoc _ _ _).symm⟩
  · rw [List.pairwise_append]
    exact ⟨h.ascending, List.pairwise_singleton _ _, fun t ht t' ht' => by
      rw [List.mem_singleton.mp ht']
      exact h.le_last t ht⟩
  · intro t ht
    rcases List.mem_append.mp ht with ht | ht
    · exact h.le_last t ht
    · rw [List.mem_singleton.mp ht]

theorem length_le (h : Accounts now events passed) :
    (current window now events).length ≤ countIn (now - window) now passed := by
  have hsublist : events.Sublist passed := h.suffix.sublist
  rw [length_current (h.ascending.sublist hsublist)]
  calc countFrom (now - window) events
    _ = countIn (now - window) now events := by
      apply List.countP_congr
      intro t ht
      simp [h.le_last t (hsublist.subset ht)]
    _ ≤ countIn (now - window) now passed := hsublist.countP_le

end Accounts

end Window
