import Mathlib.Algebra.Group.Int.Defs
import Mathlib.Algebra.Group.Nat.Defs
import Mathlib.Algebra.GroupWithZero.Nat
import Mathlib.Algebra.Ring.Int.Defs
import Mathlib.Data.List.AList
import Mathlib.Data.List.Sort
import Mathlib.Data.Multiset.AddSub
import Mathlib.Data.Multiset.MapFold

namespace Go

abbrev Bytes := List UInt8

instance : LawfulBEq Bytes := inferInstanceAs (LawfulBEq (List UInt8))

def str (s : String) : Bytes := s.toList.map fun c => UInt8.ofNat c.toNat

theorem bytes_lt_of_le {a b : Bytes} (h : a ≤ b) (hne : a ≠ b) : a < b := by
  by_contra hlt
  exact hne (List.le_antisymm h (List.not_lt.mp hlt))

theorem nodup_of_lt {l : List Bytes} (h : l.Pairwise (· < ·)) : l.Nodup := by
  refine h.imp ?_
  rintro a _ hlt rfl
  exact List.lt_irrefl a hlt

theorem pairwise_insertionSort {l : List Bytes} (h : l.Nodup) :
    (l.insertionSort (· ≤ ·)).Pairwise (· < ·) := by
  have hsorted : (l.insertionSort (· ≤ ·)).Pairwise (· ≤ ·) := List.pairwise_insertionSort _ _
  refine (hsorted.and ((List.perm_insertionSort _ _).nodup_iff.mpr h)).imp ?_
  exact fun ⟨hle, hne⟩ => bytes_lt_of_le hle hne

def int64 (n : Int) : Int := n.bmod (2 ^ 64)

def FitsInt64 (n : Int) : Prop := -2 ^ 63 ≤ n ∧ n < 2 ^ 63

instance (n : Int) : Decidable (FitsInt64 n) := inferInstanceAs (Decidable (_ ∧ _))

theorem int64_mul_int64 (m n : Int) : int64 (m * int64 n) = int64 (m * n) := Int.mul_bmod_bmod ..

theorem fitsInt64_int64 (n : Int) : FitsInt64 (int64 n) := by
  have hle : -((2 ^ 64 : Nat) / 2 : Int) ≤ n.bmod (2 ^ 64) := Int.le_bmod (by decide)
  have hlt : n.bmod (2 ^ 64) < ((2 ^ 64 : Nat) + 1) / 2 := Int.bmod_lt (by decide)
  unfold int64 FitsInt64
  omega

theorem int64_eq_self {n : Int} : int64 n = n ↔ FitsInt64 n := by
  constructor
  · intro h
    exact h ▸ fitsInt64_int64 n
  · rintro ⟨hle, hlt⟩
    apply Int.bmod_eq_of_le
    · omega
    · omega

inductive Panic
  | nilMapWrite | nilDeref | indexOutOfRange | negativeShift | makeSlice
  deriving DecidableEq, Repr

theorem bind_ok {ε α β : Type} {x : Except ε α} {f : α → Except ε β} {b : β} :
    (x >>= f) = .ok b ↔ ∃ a, x = .ok a ∧ f a = .ok b := by
  cases x with
  | error e => exact ⟨fun h => (nomatch h), fun ⟨_, h, _⟩ => (nomatch h)⟩
  | ok a => exact ⟨fun h => ⟨a, rfl, h⟩, fun ⟨_, h, h'⟩ => by cases h; exact h'⟩

/-- The order in which a `range` statement visits a map.  Go leaves it unspecified, so an
operation that ranges over a map takes one and its theorems hold for all of them. -/
structure RangeOrder where
  pick : {α : Type} → List α → List α
  perm : ∀ {α : Type} (l : List α), (pick l).Perm l

namespace RangeOrder

def inOrder : RangeOrder := ⟨id, .refl⟩

instance : Inhabited RangeOrder := ⟨inOrder⟩

@[simp] theorem mem_pick (ord : RangeOrder) {α : Type} {a : α} {l : List α} :
    a ∈ ord.pick l ↔ a ∈ l := (ord.perm l).mem_iff

@[simp] theorem pick_nil (ord : RangeOrder) {α : Type} : ord.pick ([] : List α) = [] :=
  (ord.perm []).eq_nil

end RangeOrder

section find

variable {α : Type} {p : α → Bool} {r : α → α → Prop} {l l' : List α}

theorem find?_first (hl : l.Pairwise fun a b => p a → p b → r a b) {a b : α}
    (ha : l.find? p = some a) (hb : b ∈ l) (hpb : p b) : b = a ∨ r a b := by
  induction l with
  | nil => cases hb
  | cons c l ih =>
    rw [List.pairwise_cons] at hl
    by_cases hpc : p c
    · rw [List.find?_cons_of_pos hpc] at ha
      cases ha
      rcases List.mem_cons.mp hb with rfl | hb
      · exact .inl rfl
      · exact .inr (hl.1 b hb hpc hpb)
    · rw [List.find?_cons_of_neg hpc] at ha
      rcases List.mem_cons.mp hb with rfl | hb
      · exact absurd hpb hpc
      · exact ih hl.2 ha hb

theorem find?_eq_of_ordered (hr : ∀ a b, r a b → ¬r b a)
    (hl : l.Pairwise fun a b => p a → p b → r a b) (hl' : l'.Pairwise fun a b => p a → p b → r a b)
    (hmem : ∀ a, a ∈ l ↔ a ∈ l') : l.find? p = l'.find? p := by
  cases h : l.find? p with
  | none =>
    rw [List.find?_eq_none] at h
    refine (List.find?_eq_none.mpr ?_).symm
    intro a ha
    exact h a ((hmem a).mpr ha)
  | some a =>
    have ha := (hmem a).mp (List.mem_of_find?_eq_some h)
    have hpa := List.find?_some h
    cases h' : l'.find? p with
    | none => exact absurd hpa (List.find?_eq_none.mp h' a ha)
    | some b =>
      have hb := (hmem b).mpr (List.mem_of_find?_eq_some h')
      rcases find?_first hl h hb (List.find?_some h') with hab | hab
      · rw [hab]
      · rcases find?_first hl' h' ha hpa with hba | hba
        · rw [hba]
        · exact absurd hba (hr a b hab)

end find

abbrev Map (κ α : Type) := AList fun _ : κ => α

namespace Map

variable {κ α β : Type}

def values (m : Map κ α) : Multiset α := (m.entries.map Sigma.snd : List α)

@[simp] theorem values_empty : values (∅ : Map κ α) = 0 := rfl

theorem keys_mapTo (l : List (Sigma fun _ : κ => α)) (f : κ → α → β) :
    (l.map fun e => (⟨e.1, f e.1 e.2⟩ : Sigma fun _ : κ => β)).keys = l.keys := by
  simp [List.keys, Function.comp_def]

def mapTo (m : Map κ α) (f : κ → α → β) : Map κ β where
  entries := m.entries.map fun e => ⟨e.1, f e.1 e.2⟩
  nodupKeys := by
    rw [List.NodupKeys, keys_mapTo]
    exact m.nodupKeys

variable [DecidableEq κ]

theorem lookup_mapTo (m : Map κ α) (f : κ → α → β) (k : κ) :
    (m.mapTo f).lookup k = (m.lookup k).map (f k) := by
  simp only [AList.lookup, mapTo]
  induction m.entries with
  | nil => rfl
  | cons e l ih =>
    obtain ⟨k', a⟩ := e
    by_cases h : k = k'
    · subst h
      simp
    · rw [List.map_cons, List.dlookup_cons_ne _ _ h, List.dlookup_cons_ne _ _ h, ih]

theorem mem_values {m : Map κ α} {a : α} : a ∈ m.values ↔ ∃ k, m.lookup k = some a := by
  simp only [values, Multiset.mem_coe, List.mem_map]
  constructor
  · rintro ⟨⟨k, b⟩, hk, rfl⟩
    exact ⟨k, AList.mem_lookup_iff.mpr hk⟩
  · rintro ⟨k, hk⟩
    exact ⟨⟨k, a⟩, AList.mem_lookup_iff.mp hk, rfl⟩

theorem values_insert {m : Map κ α} {k : κ} {a : α} (h : m.lookup k = none) :
    values (m.insert k a) = a ::ₘ m.values := by
  simp only [values, AList.entries_insert_of_notMem (AList.lookup_eq_none.mp h)]
  rfl

theorem entries_erase {m : Map κ α} {k : κ} {a : α} (h : m.lookup k = some a) :
    m.entries.Perm (⟨k, a⟩ :: (m.erase k).entries) := by
  have hk : k ∈ m.entries.keys := AList.mem_keys.mp (AList.lookup_isSome.mp (by simp [h]))
  obtain ⟨b, l₁, l₂, -, hl, he⟩ := List.exists_of_kerase hk
  have hb : b = a := by
    have hm : (⟨k, b⟩ : Sigma fun _ : κ => α) ∈ m.entries := by simp [hl]
    simpa [h] using (AList.mem_lookup_iff.mpr hm).symm
  subst hb
  change m.entries.Perm (⟨k, b⟩ :: List.kerase k m.entries)
  rw [he, hl]
  exact List.perm_middle

theorem values_erase {m : Map κ α} {k : κ} {a : α} (h : m.lookup k = some a) :
    m.values = a ::ₘ values (m.erase k) :=
  Multiset.coe_eq_coe.mpr ((entries_erase h).map Sigma.snd)

section total

variable (f : α → Nat) {m m' : Map κ α} {k : κ}

def total (m : Map κ α) : Nat := (m.entries.map fun e => f e.2).sum

theorem total_congr (h : ∀ k, (m'.lookup k).map f = (m.lookup k).map f) :
    m'.total f = m.total f := by
  have hperm : (m'.mapTo fun _ => f).entries.Perm (m.mapTo fun _ => f).entries := by
    refine List.lookup_ext (m'.mapTo _).nodupKeys (m.mapTo _).nodupKeys fun k n => ?_
    change n ∈ (m'.mapTo fun _ => f).lookup k ↔ n ∈ (m.mapTo fun _ => f).lookup k
    rw [lookup_mapTo, lookup_mapTo, h k]
  have hsum := (hperm.map Sigma.snd).sum_nat
  simpa [total, mapTo, Function.comp_def] using hsum

theorem total_erase (m : Map κ α) (k : κ) :
    m.total f = (m.lookup k).elim 0 f + total f (m.erase k) := by
  cases hk : m.lookup k with
  | none =>
    rw [Option.elim_none, Nat.zero_add]
    refine total_congr f fun k' => ?_
    by_cases heq : k' = k
    · rw [heq, AList.lookup_erase, hk]
    · rw [AList.lookup_erase_ne heq]
  | some a =>
    have hsum := ((entries_erase hk).map fun e => f e.2).sum_nat
    simpa [total] using hsum

theorem total_change (h : ∀ k', k' ≠ k → (m'.lookup k').map f = (m.lookup k').map f) :
    m'.total f + (m.lookup k).elim 0 f = m.total f + (m'.lookup k).elim 0 f := by
  have hrest : total f (m'.erase k) = total f (m.erase k) := by
    refine total_congr f fun k' => ?_
    by_cases heq : k' = k
    · rw [heq, AList.lookup_erase, AList.lookup_erase]
    · rw [AList.lookup_erase_ne heq, AList.lookup_erase_ne heq, h k' heq]
  rw [total_erase f m k, total_erase f m' k, hrest]
  omega

end total

section insertions

variable {f : β → κ} {v : β → α} {k : κ}

theorem lookup_foldl_insert {l : List β} {m : Map κ α} {a : α}
    (h : (l.foldl (fun m b => m.insert (f b) (v b)) m).lookup k = some a) :
    m.lookup k = some a ∨ ∃ b ∈ l, f b = k ∧ v b = a := by
  induction l generalizing m with
  | nil => exact .inl h
  | cons b l ih =>
    rcases ih h with h | ⟨b', hb', hk, ha⟩
    · by_cases hk : k = f b
      · subst hk
        rw [AList.lookup_insert] at h
        exact .inr ⟨b, List.mem_cons_self, rfl, Option.some.inj h⟩
      · rw [AList.lookup_insert_ne hk] at h
        exact .inl h
    · exact .inr ⟨b', List.mem_cons_of_mem b hb', hk, ha⟩

theorem isSome_foldl_insert {l : List β} {m : Map κ α}
    (h : (m.lookup k).isSome ∨ ∃ b ∈ l, f b = k) :
    ((l.foldl (fun m b => m.insert (f b) (v b)) m).lookup k).isSome := by
  induction l generalizing m with
  | nil =>
    rcases h with h | ⟨b, hb, -⟩
    · exact h
    · cases hb
  | cons b l ih =>
    apply ih
    by_cases hk : k = f b
    · subst hk
      rw [AList.lookup_insert]
      exact .inl rfl
    · rw [AList.lookup_insert_ne hk]
      rcases h with h | ⟨b', hb', rfl⟩
      · exact .inl h
      · rcases List.mem_cons.mp hb' with rfl | hb'
        · exact absurd rfl hk
        · exact .inr ⟨b', hb', rfl⟩

end insertions

end Map

abbrev NilMap (κ α : Type) := Option (Map κ α)

namespace NilMap

variable {κ α : Type}

def table (m : NilMap κ α) : Map κ α := m.getD ∅

def len (m : NilMap κ α) : Nat := m.table.entries.length

theorem len_eq_card (m : NilMap κ α) : m.len = m.table.values.card := by
  rw [len, Map.values, Multiset.coe_card, List.length_map]

@[simp] theorem table_some (t : Map κ α) : table (some t) = t := rfl

variable [DecidableEq κ]

def get? (m : NilMap κ α) (k : κ) : Option α := m.table.lookup k

def set (m : NilMap κ α) (k : κ) (a : α) : Except Panic (NilMap κ α) :=
  match m with
  | none => .error .nilMapWrite
  | some t => .ok (some (t.insert k a))

def delete (m : NilMap κ α) (k : κ) : NilMap κ α := m.map fun t => t.erase k

theorem table_delete (m : NilMap κ α) (k : κ) : (m.delete k).table = m.table.erase k := by
  cases m with
  | none => rfl
  | some t => rfl

theorem len_insert_le (m : NilMap κ α) (k : κ) (a : α) :
    len (some (m.table.insert k a)) ≤ m.len + 1 := by
  rw [len, table_some, AList.entries_insert, List.length_cons]
  exact Nat.succ_le_succ (List.kerase_sublist k _).length_le

theorem len_delete_le (m : NilMap κ α) (k : κ) : (m.delete k).len ≤ m.len := by
  rw [len, table_delete]
  exact (List.kerase_sublist k _).length_le

@[simp] theorem isSome_delete (m : NilMap κ α) (k : κ) : (m.delete k).isSome = m.isSome := by
  simp [delete]

theorem set_ok {m : NilMap κ α} (h : m.isSome) (k : κ) (a : α) :
    m.set k a = .ok (some (m.table.insert k a)) := by
  cases m with
  | none => cases h
  | some t => rfl

def deleteAll (m : NilMap κ α) (es : List (Sigma fun _ : κ => α)) : NilMap κ α :=
  es.foldl (fun m e => m.delete e.1) m

@[simp] theorem isSome_deleteAll (m : NilMap κ α) (es : List (Sigma fun _ : κ => α)) :
    (m.deleteAll es).isSome = m.isSome := by
  induction es generalizing m with
  | nil => rfl
  | cons e es ih => exact (ih _).trans (isSome_delete m e.1)

theorem lookup_deleteAll (m : NilMap κ α) (es : List (Sigma fun _ : κ => α)) (k : κ) :
    (m.deleteAll es).table.lookup k = if k ∈ es.keys then none else m.table.lookup k := by
  induction es generalizing m with
  | nil => simp [deleteAll]
  | cons e es ih =>
    change ((m.delete e.1).deleteAll es).table.lookup k = _
    rw [ih, table_delete]
    by_cases hk : k = e.1
    · subst hk
      simp
    · simp [hk, AList.lookup_erase_ne hk]

theorem values_deleteAll {m : NilMap κ α} {es : List (Sigma fun _ : κ => α)} (hes : es.NodupKeys)
    (h : ∀ e ∈ es, m.table.lookup e.1 = some e.2) :
    Map.values m.table = (es.map Sigma.snd : List α) + Map.values (m.deleteAll es).table := by
  induction es generalizing m with
  | nil => simp [deleteAll]
  | cons e es ih =>
    obtain ⟨hk, hes⟩ := List.nodupKeys_cons.mp hes
    have hrest : ∀ e' ∈ es, (m.delete e.1).table.lookup e'.1 = some e'.2 := by
      intro e' he'
      have hne : e'.1 ≠ e.1 := fun heq => hk (heq ▸ List.mem_keys_of_mem he')
      rw [table_delete, AList.lookup_erase_ne hne]
      exact h e' (List.mem_cons_of_mem _ he')
    have hm := Map.values_erase (h e List.mem_cons_self)
    rw [← table_delete, ih hes hrest] at hm
    rw [hm, List.map_cons, ← Multiset.cons_coe, Multiset.cons_add]
    rfl

end NilMap

end Go
