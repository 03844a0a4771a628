import Octar.Broker.Registry
import Mathlib.Data.List.Rotate

namespace Octar

open Go

structure Subscription where
  key : GroupRef
  conn : Nat
  deriving DecidableEq, Repr

def Subscription.Matches (s : Subscription) (g : GroupRef) : Prop :=
  s.key.ns = g.ns ∧ s.key.queue = g.queue ∧
    (s.key.group = g.group ∨ isGlobPattern s.key.group = true ∧
      matchGlob s.key.group g.group = true)

inductive RegistryOp
  | add (key : GroupRef) (conn : Nat)
  | remove (conn : Nat)
  | next (ord : RangeOrder) (g : GroupRef)

def subscribed (subs : List Subscription) : RegistryOp → List Subscription
  | .add key conn => subs ++ [⟨key, conn⟩]
  | .remove conn => subs.filter fun s => s.conn ≠ conn
  | .next .. => subs

def connsOf (key : GroupRef) (subs : List Subscription) : List Nat :=
  (subs.filter fun s => s.key = key).map Subscription.conn

def RegistryOp.Keeps (g : GroupRef) (subs : List Subscription) : RegistryOp → Prop
  | .add key _ => key ≠ g
  | .remove conn => ⟨g, conn⟩ ∉ subs
  | .next .. => True

theorem mem_connsOf {key : GroupRef} {conn : Nat} {subs : List Subscription} :
    conn ∈ connsOf key subs ↔ ⟨key, conn⟩ ∈ subs := by
  simp only [connsOf, List.mem_map, List.mem_filter, decide_eq_true_eq]
  constructor
  · rintro ⟨s, ⟨hs, rfl⟩, rfl⟩
    exact hs
  · intro h
    exact ⟨⟨key, conn⟩, ⟨h, rfl⟩, rfl⟩

theorem connsOf_add (key : GroupRef) (s : Subscription) (subs : List Subscription) :
    connsOf key (subs ++ [s]) = connsOf key subs ++ if s.key = key then [s.conn] else [] := by
  by_cases h : s.key = key <;> simp [connsOf, h]

theorem connsOf_erase (key : GroupRef) (s : Subscription) (subs : List Subscription) :
    connsOf key (subs.erase s) =
      if s.key = key then (connsOf key subs).erase s.conn else connsOf key subs := by
  induction subs with
  | nil => simp [connsOf]
  | cons t subs ih =>
    by_cases hts : t = s
    · subst hts
      by_cases hk : t.key = key <;> simp [connsOf, hk]
    · rw [List.erase_cons_tail (by simpa using hts)]
      by_cases ht : t.key = key
      · have hcons : ∀ l, connsOf key (t :: l) = t.conn :: connsOf key l := by
          intro l
          simp [connsOf, ht]
        rw [hcons, hcons, ih]
        by_cases hk : s.key = key
        · have hne : t.conn ≠ s.conn := by
            intro hc
            apply hts
            cases t
            cases s
            simp_all
          simp [hk, List.erase_cons_tail, hne]
        · simp [hk]
      · have hcons : ∀ l, connsOf key (t :: l) = connsOf key l := by
          intro l
          simp [connsOf, ht]
        rw [hcons, hcons, ih]

theorem diff_filter {α : Type} [DecidableEq α] (p : α → Bool) (l : List α) :
    l.diff (l.filter p) = l.filter fun a => !p a := by
  induction l with
  | nil => simp
  | cons a l ih =>
    cases hp : p a with
    | true => simp [hp, ih]
    | false =>
      have hmem : a ∉ l.filter p := by simp [hp]
      simp only [List.filter_cons, hp, Bool.false_eq_true, if_false, Bool.not_false, if_true]
      rw [List.cons_diff_of_not_mem hmem, ih]

theorem matchGlob_self (p : Bytes) : matchGlob p p = true := by
  induction p with
  | nil => rfl
  | cons b p ih =>
    rw [matchGlob]
    split
    · simp only [Bool.or_eq_true, List.any_eq_true]
      exact .inr ⟨p, by simp, ih⟩
    · simp [ih]

def listed (conns : List Nat) : Option (List Nat) := if conns = [] then none else some conns

theorem listed_getD (conns : List Nat) : (listed conns).getD [] = conns := by
  by_cases h : conns = [] <;> simp [listed, h]

theorem listed_of_ne {conns : List Nat} (h : conns ≠ []) : listed conns = some conns := if_neg h

namespace SubList

theorem next_of_hasAny {l : SubList} (h : l.hasAny = true) :
    l.next = ({ l with cursor := (l.cursor + 1) % 2 ^ 64 }, l.conns[l.cursor % l.conns.length]?) :=
  if_pos h

theorem exists_next {l : SubList} (h : l.hasAny = true) :
    ∃ conn ∈ l.conns, l.next.2 = some conn := by
  have hne : l.conns ≠ [] := by simpa [hasAny] using h
  have hlt : l.cursor % l.conns.length < l.conns.length :=
    Nat.mod_lt _ (List.length_pos_iff.mpr hne)
  exact ⟨l.conns[l.cursor % l.conns.length], List.getElem_mem hlt, by
    rw [next_of_hasAny h]
    exact List.getElem?_eq_getElem hlt⟩

end SubList

namespace Registry

def table (r : Registry) (wildcard : Bool) : Map GroupRef SubList :=
  if wildcard then r.wildcard else r.exact

def connsAt (m : Map GroupRef SubList) (key : GroupRef) : Option (List Nat) :=
  (m.lookup key).map SubList.conns

theorem connsAt_subscribe (m : Map GroupRef SubList) (key k : GroupRef) (conn : Nat) :
    connsAt (subscribe m key conn) k =
      if k = key then some ((connsAt m key).getD [] ++ [conn]) else connsAt m k := by
  by_cases h : k = key
  · subst h
    cases hm : m.lookup k <;> simp [connsAt, subscribe, hm, SubList.add]
  · simp [connsAt, subscribe, h, AList.lookup_insert_ne]

theorem connsAt_unsubscribe {m : Map GroupRef SubList} {key : GroupRef} {conns : List Nat}
    (hm : connsAt m key = listed conns) (k : GroupRef) (conn : Nat) :
    connsAt (unsubscribe m key conn) k =
      if k = key then listed (conns.erase conn) else connsAt m k := by
  unfold unsubscribe
  cases hl : m.lookup key with
  | none =>
    have hnil : conns = [] := by
      by_contra hne
      simp [connsAt, hl, listed_of_ne hne] at hm
    subst hnil
    by_cases h : k = key
    · subst h
      simp [connsAt, hl, listed]
    · simp [h]
  | some l =>
    have hl' : l.conns = conns := by
      rw [← listed_getD conns, ← hm]
      simp [connsAt, hl]
    by_cases h : k = key
    · subst h
      by_cases he : conns.erase conn = [] <;>
        simp [connsAt, SubList.hasAny, SubList.remove, hl', he, listed]
    · by_cases he : conns.erase conn = [] <;>
        simp [connsAt, SubList.hasAny, SubList.remove, hl', he, h, AList.lookup_insert_ne,
          AList.lookup_erase_ne]

theorem connsAt_insert_next {m : Map GroupRef SubList} {key : GroupRef} {l : SubList}
    (hl : m.lookup key = some l) (k : GroupRef) :
    connsAt (m.insert key l.next.1) k = connsAt m k := by
  by_cases h : k = key
  · subst h
    simp only [connsAt, AList.lookup_insert, hl, Option.map_some, SubList.next]
    split <;> rfl
  · simp [connsAt, h, AList.lookup_insert_ne]

def Holds (r : Registry) (subs : List Subscription) : Prop :=
  ∀ wildcard key, connsAt (r.table wildcard) key =
    listed (if isGlobPattern key.group = wildcard then connsOf key subs else [])

structure Refines (r : Registry) (subs : List Subscription) : Prop where
  holds : r.Holds subs
  entries : ∀ conn, (r.connSubs.lookup conn).getD [] =
    (subs.filter fun s => s.conn = conn).map fun s => (s.key, isGlobPattern s.key.group)

theorem refines_empty : empty.Refines [] := by
  constructor
  · intro wildcard key
    cases wildcard <;> simp [table, empty, connsAt, connsOf, listed]
  · intro conn
    simp [empty]

variable {r : Registry} {subs : List Subscription}

theorem Holds.lookup (h : r.Holds subs) (wildcard : Bool) {key : GroupRef} {l : SubList}
    (hl : (r.table wildcard).lookup key = some l) :
    isGlobPattern key.group = wildcard ∧ l.conns = connsOf key subs ∧ l.hasAny = true := by
  have hconns := h wildcard key
  rw [connsAt, hl, Option.map_some, listed] at hconns
  by_cases hw : isGlobPattern key.group = wildcard
  · rw [if_pos hw] at hconns
    by_cases hnil : connsOf key subs = []
    · simp [hnil] at hconns
    · rw [if_neg hnil, Option.some.injEq] at hconns
      exact ⟨hw, hconns, by simp [SubList.hasAny, hconns, hnil]⟩
  · simp [hw] at hconns

theorem Holds.exists_lookup {s : Subscription} (h : r.Holds subs) (hs : s ∈ subs) :
    ∃ l, (r.table (isGlobPattern s.key.group)).lookup s.key = some l := by
  have hne : connsOf s.key subs ≠ [] := List.ne_nil_of_mem (mem_connsOf.mpr hs)
  have hconns := h (isGlobPattern s.key.group) s.key
  rw [if_pos rfl, listed_of_ne hne] at hconns
  obtain ⟨l, hl, -⟩ := Option.map_eq_some_iff.mp hconns
  exact ⟨l, hl⟩

theorem table_add (r : Registry) (key : GroupRef) (conn : Nat) (wildcard : Bool) :
    (r.add key conn).table wildcard =
      if isGlobPattern key.group = wildcard then subscribe (r.table wildcard) key conn
      else r.table wildcard := by
  cases hw : isGlobPattern key.group <;> cases wildcard <;> simp [add, table, hw]

theorem table_removeEntry (r : Registry) (conn : Nat) (e : GroupRef × Bool) (wildcard : Bool) :
    (removeEntry conn r e).table wildcard =
      if e.2 = wildcard then unsubscribe (r.table wildcard) e.1 conn else r.table wildcard := by
  cases he : e.2 <;> cases wildcard <;> simp [removeEntry, table, he]

theorem Holds.add (h : r.Holds subs) (s : Subscription) :
    (r.add s.key s.conn).Holds (subs ++ [s]) := by
  intro wildcard key
  rw [table_add, connsOf_add]
  by_cases hkey : key = s.key
  · subst hkey
    by_cases hw : isGlobPattern s.key.group = wildcard
    · rw [if_pos hw, if_pos hw, if_pos rfl, connsAt_subscribe, if_pos rfl, h wildcard s.key,
        if_pos hw, listed_getD, listed_of_ne (by simp)]
    · rw [if_neg hw, if_neg hw, h wildcard s.key, if_neg hw]
  · rw [if_neg (Ne.symm hkey), List.append_nil, ← h wildcard key]
    by_cases hw : isGlobPattern s.key.group = wildcard
    · rw [if_pos hw, connsAt_subscribe, if_neg hkey]
    · rw [if_neg hw]

theorem Holds.removeEntry (h : r.Holds subs) (s : Subscription) :
    (removeEntry s.conn r (s.key, isGlobPattern s.key.group)).Holds (subs.erase s) := by
  intro wildcard key
  rw [table_removeEntry, connsOf_erase]
  by_cases hkey : key = s.key
  · subst hkey
    by_cases hw : isGlobPattern s.key.group = wildcard
    · have hs := h wildcard s.key
      rw [if_pos hw] at hs
      rw [if_pos hw, if_pos hw, if_pos rfl, connsAt_unsubscribe hs, if_pos rfl]
    · rw [if_neg hw, if_neg hw, h wildcard s.key, if_neg hw]
  · rw [if_neg (Ne.symm hkey), ← h wildcard key]
    by_cases hw : isGlobPattern s.key.group = wildcard
    · rw [if_pos hw, connsAt_unsubscribe (h wildcard s.key), if_neg hkey]
    · rw [if_neg hw]

theorem Holds.removeAll {conn : Nat} (gone : List Subscription) (hgone : ∀ s ∈ gone, s.conn = conn)
    (h : r.Holds subs) :
    ((gone.map fun s => (s.key, isGlobPattern s.key.group)).foldl
      (Registry.removeEntry conn) r).Holds (subs.diff gone) := by
  induction gone generalizing r subs with
  | nil => simpa using h
  | cons s gone ih =>
    rw [List.forall_mem_cons] at hgone
    rw [List.diff_cons, List.map_cons, List.foldl_cons, ← hgone.1]
    rw [← hgone.1] at ih
    exact ih (hgone.1 ▸ hgone.2) (h.removeEntry s)

theorem connSubs_removeAll (conn : Nat) (es : List (GroupRef × Bool)) (r : Registry) :
    (es.foldl (removeEntry conn) r).connSubs = r.connSubs := by
  induction es generalizing r with
  | nil => rfl
  | cons e es ih =>
    rw [List.foldl_cons, ih, Registry.removeEntry]
    split <;> rfl

theorem next_cases (r : Registry) (ord : RangeOrder) (g : GroupRef) :
    (∃ l, r.exact.lookup g = some l ∧ l.hasAny = true ∧
      r.next ord g = ({ r with exact := r.exact.insert g l.next.1 }, l.next.2)) ∨
    ((r.exact.lookup g).any SubList.hasAny = false ∧ ∃ key l, r.wildcard.lookup key = some l ∧
      Covers key g = true ∧ l.hasAny = true ∧
      r.next ord g = ({ r with wildcard := r.wildcard.insert key l.next.1 }, l.next.2)) ∨
    (r.has g = false ∧ r.next ord g = (r, none)) := by
  unfold next
  cases hl : (r.exact.lookup g).filter SubList.hasAny with
  | some l =>
    obtain ⟨hl, hany⟩ := Option.filter_eq_some_iff.mp hl
    exact .inl ⟨l, hl, hany, rfl⟩
  | none =>
    have hexact : (r.exact.lookup g).any SubList.hasAny = false := by
      cases hlookup : r.exact.lookup g with
      | none => rfl
      | some l => simpa [hlookup, Option.filter] using hl
    cases he : (ord.pick r.wildcard.entries).find? fun e => Covers e.1 g && e.2.hasAny with
    | some e =>
      have hmem := ord.mem_pick.mp (List.mem_of_find?_eq_some he)
      have hfound := List.find?_some he
      rw [Bool.and_eq_true] at hfound
      exact .inr (.inl ⟨hexact, e.1, e.2, AList.mem_lookup_iff.mpr hmem, hfound.1, hfound.2, rfl⟩)
    | none =>
      refine .inr (.inr ⟨?_, rfl⟩)
      rw [Registry.has, hexact, Bool.false_or, List.any_eq_false]
      intro e hmem
      exact List.find?_eq_none.mp he e (ord.mem_pick.mpr hmem)

theorem Holds.next (h : r.Holds subs) (ord : RangeOrder) (g : GroupRef) :
    (r.next ord g).1.Holds subs := by
  intro wildcard key
  rw [← h wildcard key]
  obtain ⟨l, hl, -, heq⟩ | ⟨-, p, l, hl, -, -, heq⟩ | ⟨-, heq⟩ := r.next_cases ord g
  · cases wildcard
    · simpa [table, heq] using connsAt_insert_next hl key
    · simp [table, heq]
  · cases wildcard
    · simp [table, heq]
    · simpa [table, heq] using connsAt_insert_next hl key
  · rw [heq]

theorem connSubs_next (r : Registry) (ord : RangeOrder) (g : GroupRef) :
    (r.next ord g).1.connSubs = r.connSubs := by
  obtain ⟨l, -, -, heq⟩ | ⟨-, p, l, -, -, -, heq⟩ | ⟨-, heq⟩ := r.next_cases ord g <;> rw [heq]

def exec (r : Registry) : RegistryOp → Registry
  | .add key conn => r.add key conn
  | .remove conn => r.remove conn
  | .next ord g => (r.next ord g).1

theorem connSubs_add (r : Registry) (key : GroupRef) (conn : Nat) :
    (r.add key conn).connSubs =
      r.connSubs.insert conn
        ((r.connSubs.lookup conn).getD [] ++ [(key, isGlobPattern key.group)]) := by
  unfold add
  dsimp only
  split <;> rfl

theorem Refines.exec (h : r.Refines subs) (op : RegistryOp) :
    (r.exec op).Refines (subscribed subs op) := by
  cases op with
  | add key conn =>
    refine ⟨h.holds.add ⟨key, conn⟩, ?_⟩
    intro c
    simp only [Registry.exec, subscribed, connSubs_add, List.filter_append, List.map_append]
    by_cases hc : c = conn
    · subst hc
      simp [h.entries c]
    · simp [hc, Ne.symm hc, h.entries c, AList.lookup_insert_ne]
  | remove conn =>
    have hgone : ∀ s ∈ subs.filter (fun s => s.conn = conn), s.conn = conn := by
      intro s hs
      simpa using (List.mem_filter.mp hs).2
    constructor
    · have hholds : Holds { r with connSubs := r.connSubs.erase conn } subs := h.holds
      have hall := hholds.removeAll _ hgone
      rw [← h.entries conn, diff_filter] at hall
      simpa [Registry.exec, subscribed, Registry.remove] using hall
    · intro c
      simp only [Registry.exec, subscribed, Registry.remove, connSubs_removeAll, List.filter_filter]
      by_cases hc : c = conn
      · subst hc
        simp
      · rw [AList.lookup_erase_ne hc, h.entries c]
        congr 1
        apply List.filter_congr
        intro s _
        by_cases hs : s.conn = c <;> simp [hs, hc]
  | next ord g =>
    refine ⟨h.holds.next ord g, ?_⟩
    intro c
    simp only [Registry.exec, connSubs_next]
    exact h.entries c

theorem Refines.execAll (h : r.Refines subs) (ops : List RegistryOp) :
    (ops.foldl Registry.exec r).Refines (ops.foldl subscribed subs) := by
  induction ops generalizing r subs with
  | nil => exact h
  | cons op ops ih => exact ih (h.exec op)

theorem Holds.matches {key g : GroupRef} {l : SubList} (h : r.Holds subs)
    (hl : r.wildcard.lookup key = some l) (hcovers : Covers key g = true) {conn : Nat}
    (hconn : conn ∈ l.conns) :
    ∃ s ∈ subs, s.conn = conn ∧ s.Matches g := by
  obtain ⟨hglob, hconns, -⟩ := h.lookup true hl
  rw [hconns, mem_connsOf] at hconn
  simp only [Covers, Bool.and_eq_true, beq_iff_eq] at hcovers
  exact ⟨⟨key, conn⟩, hconn, rfl, hcovers.1.1, hcovers.1.2, .inr ⟨hglob, hcovers.2⟩⟩

theorem Holds.exact_any (h : r.Holds subs) (g : GroupRef) :
    (r.exact.lookup g).any SubList.hasAny = true ↔
      isGlobPattern g.group = false ∧ ∃ conn, ⟨g, conn⟩ ∈ subs := by
  constructor
  · intro hany
    obtain ⟨l, hl, hany⟩ := (Option.any_eq_true _ _).mp hany
    obtain ⟨hglob, hconns, -⟩ := h.lookup false hl
    have hne : l.conns ≠ [] := by simpa [SubList.hasAny] using hany
    obtain ⟨conn, hconn⟩ := List.exists_mem_of_ne_nil _ hne
    exact ⟨hglob, conn, mem_connsOf.mp (hconns ▸ hconn)⟩
  · rintro ⟨hglob, conn, hmem⟩
    obtain ⟨l, hl⟩ := h.exists_lookup hmem
    simp only [hglob] at hl
    obtain ⟨-, -, hany⟩ := h.lookup _ hl
    simp only [table, Bool.false_eq_true, if_false] at hl
    simp [hl, hany]

theorem Holds.has_iff (h : r.Holds subs) (g : GroupRef) :
    r.has g = true ↔ ∃ s ∈ subs, s.Matches g := by
  rw [Registry.has, Bool.or_eq_true, h.exact_any, List.any_eq_true]
  constructor
  · rintro (⟨-, conn, hmem⟩ | ⟨e, he, hfound⟩)
    · exact ⟨⟨g, conn⟩, hmem, rfl, rfl, .inl rfl⟩
    · rw [Bool.and_eq_true] at hfound
      have hne : e.2.conns ≠ [] := by simpa [SubList.hasAny] using hfound.2
      obtain ⟨conn, hconn⟩ := List.exists_mem_of_ne_nil _ hne
      obtain ⟨s, hs, -, hmatches⟩ := h.matches (AList.mem_lookup_iff.mpr he) hfound.1 hconn
      exact ⟨s, hs, hmatches⟩
  · rintro ⟨⟨key, conn⟩, hs, hns, hqueue, hgroup⟩
    dsimp only at hns hqueue hgroup
    cases hglob : isGlobPattern key.group with
    | false =>
      simp only [hglob, Bool.false_eq_true, false_and, or_false] at hgroup
      have hkey : key = g := by
        cases key
        cases g
        simp_all
      exact .inl ⟨hkey ▸ hglob, conn, hkey ▸ hs⟩
    | true =>
      -- a pattern subscribed to under its own text matches that text as well
      have hmatch : matchGlob key.group g.group = true := by
        rcases hgroup with heq | hmatch
        · rw [← heq]
          exact matchGlob_self _
        · exact hmatch.2
      obtain ⟨l, hl⟩ := h.exists_lookup hs
      simp only [hglob] at hl
      obtain ⟨-, -, hany⟩ := h.lookup _ hl
      refine .inr ⟨⟨key, l⟩, AList.mem_lookup_iff.mp hl, ?_⟩
      simp [Covers, hns, hqueue, hmatch, hany]

theorem Holds.next_spec (h : r.Holds subs) (ord : RangeOrder) (g : GroupRef) :
    ((r.next ord g).2 = none ↔ r.has g = false) ∧
      ∀ conn, (r.next ord g).2 = some conn →
        (∃ s ∈ subs, s.conn = conn ∧ s.Matches g) ∧
          (isGlobPattern g.group = false → (∃ s ∈ subs, s.key = g) → ⟨g, conn⟩ ∈ subs) := by
  obtain ⟨l, hl, hany, heq⟩ | ⟨hexact, key, l, hl, hcovers, hany, heq⟩ | ⟨hhas, heq⟩ :=
    r.next_cases ord g
  · obtain ⟨c, hc, hnext⟩ := SubList.exists_next hany
    obtain ⟨-, hconns, -⟩ := h.lookup false hl
    have hmem : ⟨g, c⟩ ∈ subs := mem_connsOf.mp (hconns ▸ hc)
    have hhas : r.has g = true := (h.has_iff g).mpr ⟨⟨g, c⟩, hmem, rfl, rfl, .inl rfl⟩
    rw [heq, hnext]
    refine ⟨by simp [hhas], ?_⟩
    rintro conn ⟨⟩
    exact ⟨⟨⟨g, c⟩, hmem, rfl, rfl, rfl, .inl rfl⟩, fun _ _ => hmem⟩
  · obtain ⟨c, hc, hnext⟩ := SubList.exists_next hany
    obtain ⟨s, hs, hsconn, hmatches⟩ := h.matches hl hcovers hc
    have hhas : r.has g = true := (h.has_iff g).mpr ⟨s, hs, hmatches⟩
    rw [heq, hnext]
    refine ⟨by simp [hhas], ?_⟩
    rintro conn ⟨⟩
    refine ⟨⟨s, hs, hsconn, hmatches⟩, ?_⟩
    rintro hglob ⟨t, ht, rfl⟩
    have hexact' := (h.exact_any t.key).mpr ⟨hglob, t.conn, ht⟩
    rw [hexact] at hexact'
    cases hexact'
  · rw [heq]
    exact ⟨by simp [hhas], by rintro conn ⟨⟩⟩

def answers (g : GroupRef) : Registry → List RegistryOp → List (Option Nat)
  | _, [] => []
  | r, .next ord k :: ops =>
    if k = g then (r.next ord k).2 :: answers g (r.exec (.next ord k)) ops
    else answers g (r.exec (.next ord k)) ops
  | r, op :: ops => answers g (r.exec op) ops

def turn (r : Registry) (g : GroupRef) : Nat := ((r.exact.lookup g).map SubList.cursor).getD 0

theorem next_exact {g : GroupRef} {l : SubList} (hl : r.exact.lookup g = some l)
    (hany : l.hasAny = true) (ord : RangeOrder) :
    (r.exec (.next ord g)).exact.lookup g = some { l with cursor := (l.cursor + 1) % 2 ^ 64 } ∧
      (r.next ord g).2 = l.conns[l.cursor % l.conns.length]? := by
  have hnext : r.next ord g = ({ r with exact := r.exact.insert g l.next.1 }, l.next.2) := by
    simp [next, hl, Option.filter, hany]
  rw [exec, hnext, SubList.next_of_hasAny hany]
  exact ⟨AList.lookup_insert _, rfl⟩

theorem lookup_exact_removeAll {g : GroupRef} (conn : Nat) (es : List (GroupRef × Bool))
    (hes : ∀ e ∈ es, e.1 ≠ g) (r : Registry) :
    (es.foldl (removeEntry conn) r).exact.lookup g = r.exact.lookup g := by
  induction es generalizing r with
  | nil => rfl
  | cons e es ih =>
    rw [List.forall_mem_cons] at hes
    rw [List.foldl_cons, ih hes.2, removeEntry]
    cases e.2 with
    | true => rfl
    | false =>
      simp only [Bool.false_eq_true, if_false, unsubscribe]
      cases r.exact.lookup e.1 with
      | none => rfl
      | some l =>
        dsimp only
        split
        · exact AList.lookup_insert_ne (Ne.symm hes.1)
        · exact AList.lookup_erase_ne (Ne.symm hes.1)

theorem Refines.lookup_exec {g : GroupRef} {op : RegistryOp} (h : r.Refines subs)
    (hop : op.Keeps g subs) (hnext : ∀ ord, op ≠ .next ord g) :
    (r.exec op).exact.lookup g = r.exact.lookup g := by
  cases op with
  | add key conn =>
    simp only [Registry.exec, Registry.add]
    split
    · rfl
    · exact AList.lookup_insert_ne (Ne.symm hop)
  | remove conn =>
    apply lookup_exact_removeAll
    intro e he heq
    rw [h.entries conn, List.mem_map] at he
    obtain ⟨⟨key, c⟩, hs, rfl⟩ := he
    simp only [List.mem_filter, decide_eq_true_eq] at hs
    obtain ⟨hs, rfl⟩ := hs
    exact hop (heq ▸ hs)
  | next ord k =>
    have hk : g ≠ k := by
      rintro rfl
      exact hnext ord rfl
    simp only [Registry.exec]
    obtain ⟨l, -, -, heq⟩ | ⟨-, p, l, -, -, -, heq⟩ | ⟨-, heq⟩ := r.next_cases ord k
    · rw [heq]
      exact AList.lookup_insert_ne hk
    · rw [heq]
    · rw [heq]

end Registry

theorem RegistryOp.Keeps.subscribed {g : GroupRef} {subs : List Subscription} {op op' : RegistryOp}
    (h : op'.Keeps g subs) (hop : op.Keeps g subs) : op'.Keeps g (subscribed subs op) := by
  cases op' with
  | add key conn => exact h
  | next ord k => exact h
  | remove conn =>
    intro hmem
    cases op with
    | add key c =>
      rcases List.mem_append.mp hmem with hold | hnew
      · exact h hold
      · simp only [List.mem_singleton, Subscription.mk.injEq] at hnew
        exact hop hnew.1.symm
    | remove c => exact h (List.mem_filter.mp hmem).1
    | next ord k => exact h hmem

namespace Registry

variable {r : Registry} {subs : List Subscription} {g : GroupRef}

theorem cursor_succ {c k m n : Nat} (hk : k < m) (h : c + (m + 1) ≤ 2 ^ 64 ∨ n ∣ 2 ^ 64) :
    ((c + 1) % 2 ^ 64 + k) % n = (c + k.succ) % n := by
  rcases h with hle | hdvd
  · have hlt : c + 1 < 2 ^ 64 := by omega
    rw [Nat.mod_eq_of_lt hlt]
    congr 1
    omega
  · rw [Nat.add_mod, Nat.mod_mod_of_dvd _ hdvd, ← Nat.add_mod]
    congr 1
    omega

theorem answers_next {l : SubList} (hl : r.exact.lookup g = some l) (hany : l.hasAny = true)
    (ord : RangeOrder) (ops : List RegistryOp) :
    r.answers g (.next ord g :: ops) =
      l.conns[l.cursor % l.conns.length]? :: (r.exec (.next ord g)).answers g ops := by
  rw [answers, if_pos rfl, (next_exact hl hany ord).2]

theorem answers_eq {l : SubList} {ops : List RegistryOp} (h : r.Refines subs)
    (hl : r.exact.lookup g = some l) (hops : ∀ op ∈ ops, op.Keeps g subs)
    (hturn : l.cursor + (r.answers g ops).length ≤ 2 ^ 64 ∨ l.conns.length ∣ 2 ^ 64) :
    r.answers g ops = (List.range (r.answers g ops).length).map fun k =>
      l.conns[(l.cursor + k) % l.conns.length]? := by
  induction ops generalizing r subs l with
  | nil => rfl
  | cons op ops ih =>
    rw [List.forall_mem_cons] at hops
    have hops' : ∀ op' ∈ ops, op'.Keeps g (subscribed subs op) :=
      fun op' hop' => (hops.2 op' hop').subscribed hops.1
    by_cases hnext : ∃ ord, op = .next ord g
    · obtain ⟨ord, rfl⟩ := hnext
      obtain ⟨-, -, hany⟩ := h.holds.lookup false hl
      have hl' := (next_exact hl hany ord).1
      rw [answers_next hl hany] at hturn ⊢
      rw [List.length_cons] at hturn
      have hturn' : (l.cursor + 1) % 2 ^ 64 + ((r.exec (.next ord g)).answers g ops).length ≤
          2 ^ 64 ∨ l.conns.length ∣ 2 ^ 64 := by
        rcases hturn with hle | hdvd
        · exact .inl (by omega)
        · exact .inr hdvd
      have hrest := ih (h.exec (.next ord g)) hl' hops' hturn'
      rw [List.length_cons, List.range_succ_eq_map, List.map_cons, List.map_map, Nat.add_zero]
      congr 1
      rw [hrest, List.length_map, List.length_range]
      apply List.map_congr_left
      intro k hk
      simp only [Function.comp_apply, cursor_succ (List.mem_range.mp hk) hturn]
    · have hsame : r.answers g (op :: ops) = (r.exec op).answers g ops := by
        cases op with
        | add key conn => rfl
        | remove conn => rfl
        | next ord k =>
          rw [answers, if_neg]
          rintro rfl
          exact hnext ⟨ord, rfl⟩
      rw [hsame] at hturn ⊢
      refine ih (h.exec op) ?_ hops' hturn
      rw [h.lookup_exec hops.1 (fun ord heq => hnext ⟨ord, heq⟩), hl]

theorem Refines.answers_perm {ops : List RegistryOp} (h : r.Refines subs)
    (hglob : isGlobPattern g.group = false) (hops : ∀ op ∈ ops, op.Keeps g subs)
    (hlen : (r.answers g ops).length = (connsOf g subs).length)
    (hturn : r.turn g + (connsOf g subs).length ≤ 2 ^ 64 ∨ (connsOf g subs).length ∣ 2 ^ 64) :
    (r.answers g ops).Perm ((connsOf g subs).map some) := by
  by_cases hnil : connsOf g subs = []
  · rw [hnil, List.length_nil, List.length_eq_zero_iff] at hlen
    rw [hlen, hnil]
    exact .nil
  · obtain ⟨conn, hconn⟩ := List.exists_mem_of_ne_nil _ hnil
    obtain ⟨l, hl⟩ := h.holds.exists_lookup (mem_connsOf.mp hconn)
    simp only [hglob] at hl
    obtain ⟨-, hconns, -⟩ := h.holds.lookup _ hl
    simp only [table, Bool.false_eq_true, if_false] at hl
    have hcursor : r.turn g = l.cursor := by simp [turn, hl]
    rw [← hconns] at hlen
    rw [hcursor, ← hconns] at hturn
    rw [answers_eq h hl hops (hlen ▸ hturn), hlen, ← hconns]
    -- the answers are the list rotated by the cursor
    have hrotate : ((List.range l.conns.length).map fun k =>
        l.conns[(l.cursor + k) % l.conns.length]?) = (l.conns.rotate l.cursor).map some := by
      apply List.ext_getElem
      · simp
      · intro k hk hk'
        rw [List.length_map, List.length_range] at hk
        rw [List.getElem_map, List.getElem_map, List.getElem_range, List.getElem_rotate,
          Nat.add_comm]
        exact List.getElem?_eq_getElem (Nat.mod_lt _ (by omega))
    rw [hrotate]
    exact (List.rotate_perm _ _).map some

/-- After any calls, the registry answers for the list of current subscriptions: it has a subscriber
exactly if some subscription matches, `Next` answers with such a one, and as many calls in a row as
an exact key has connections go once to each of them. -/
theorem registry_refines_subscriptions (ops : List RegistryOp) :
    let r := ops.foldl exec empty
    let subs := ops.foldl subscribed []
    (∀ g, r.has g = true ↔ ∃ s ∈ subs, s.Matches g) ∧
    (∀ ord g, ((r.next ord g).2 = none ↔ r.has g = false) ∧
      ∀ conn, (r.next ord g).2 = some conn →
        (∃ s ∈ subs, s.conn = conn ∧ s.Matches g) ∧
          (isGlobPattern g.group = false → (∃ s ∈ subs, s.key = g) → ⟨g, conn⟩ ∈ subs)) ∧
    ∀ g ops', isGlobPattern g.group = false → (∀ op ∈ ops', op.Keeps g subs) →
      (r.answers g ops').length = (connsOf g subs).length →
      (r.turn g + (connsOf g subs).length ≤ 2 ^ 64 ∨ (connsOf g subs).length ∣ 2 ^ 64) →
      (r.answers g ops').Perm ((connsOf g subs).map some) := by
  intro r subs
  have h : r.Refines subs := refines_empty.execAll ops
  refine ⟨h.holds.has_iff, h.holds.next_spec, ?_⟩
  intro g ops' hglob hops hlen hturn
  exact h.answers_perm hglob hops hlen hturn

theorem registry_refines_subscriptions_sample :
    let g : GroupRef := ⟨str "n", str "q", str "g"⟩
    let ops : List RegistryOp :=
  [.add g 0, .add g 1, .add ⟨str "n", str "q", str "*"⟩ 2, .remove 0, .add g 3]
    (ops.foldl exec empty).has g = true ∧
      ((ops.foldl exec empty).next .inOrder g).2 = some 1 ∧ ⟨g, 1⟩ ∈ ops.foldl subscribed [] ∧
      ((ops.foldl exec empty).answers g [.next .inOrder g, .remove 2, .next .inOrder g]).Perm
        [some 1, some 3] := by
  intro g ops
  have h := registry_refines_subscriptions ops
  refine ⟨(h.1 g).mpr ⟨⟨g, 1⟩, by decide, rfl, rfl, .inl rfl⟩, by decide,
    ((h.2.1 .inOrder g).2 1 (by decide)).2 (by decide) ⟨⟨g, 1⟩, by decide, rfl⟩, ?_⟩
  refine h.2.2 g [.next .inOrder g, .remove 2, .next .inOrder g] (by decide) ?_ (by decide)
    (.inr (by decide))
  intro op hop
  simp only [List.mem_cons, List.not_mem_nil, or_false] at hop
  rcases hop with rfl | rfl | rfl
  · trivial
  · change (⟨g, 2⟩ : Subscription) ∉ ops.foldl subscribed []
    decide
  · trivial

theorem lookup_replicate_next {l : SubList} (hl : r.exact.lookup g = some l)
    (hany : l.hasAny = true) (hlt : l.cursor < 2 ^ 64) (ord : RangeOrder) (k : Nat) :
    ((List.replicate k (.next ord g)).foldl exec r).exact.lookup g =
      some { l with cursor := (l.cursor + k) % 2 ^ 64 } := by
  induction k generalizing r l with
  | zero =>
    rw [Nat.add_zero, Nat.mod_eq_of_lt hlt]
    exact hl
  | succ k ih =>
    rw [List.replicate_succ, List.foldl_cons]
    have hl' := (next_exact hl hany ord).1
    rw [ih hl' hany (Nat.mod_lt _ (by decide))]
    congr 2
    dsimp only
    omega

/-- A group that looks like a pattern has its subscribers among the patterns, where another may come
first; and three subscribers do not take turns where the cursor wraps. -/
theorem pattern_group_and_wrapped_cursor :
    (∃ (ops : List RegistryOp) (ord : RangeOrder) (g : GroupRef) (conn : Nat),
      (∃ s ∈ ops.foldl subscribed [], s.key = g) ∧
      ((ops.foldl exec empty).next ord g).2 = some conn ∧ ⟨g, conn⟩ ∉ ops.foldl subscribed []) ∧
    ∃ (ops ops' : List RegistryOp) (g : GroupRef), isGlobPattern g.group = false ∧
      (∀ op ∈ ops', op.Keeps g (ops.foldl subscribed [])) ∧
      ((ops.foldl exec empty).answers g ops').length =
        (connsOf g (ops.foldl subscribed [])).length ∧
      ¬ ((ops.foldl exec empty).answers g ops').Perm
        ((connsOf g (ops.foldl subscribed [])).map some) := by
  constructor
  · let g : GroupRef := ⟨str "n", str "q", str "a*"⟩
    -- "*" is registered first, and the range comes to it first
    exact ⟨[.add ⟨str "n", str "q", str "*"⟩ 1, .add g 0], ⟨List.reverse, List.reverse_perm⟩, g, 1,
      ⟨⟨g, 0⟩, by decide, rfl⟩, by decide, by decide⟩
  · let g : GroupRef := ⟨str "n", str "q", str "g"⟩
    let added : List RegistryOp := [.add g 0, .add g 1, .add g 2]
    let next : RegistryOp := .next .inOrder g
    have hsubs : ∀ k, (added ++ List.replicate k next).foldl subscribed [] =
        [⟨g, 0⟩, ⟨g, 1⟩, ⟨g, 2⟩] := by
      intro k
      rw [List.foldl_append]
      induction k with
      | zero => rfl
      | succ k ih => exact ih
    have hl : (added.foldl exec empty).exact.lookup g = some ⟨[0, 1, 2], 0⟩ := by decide
    have hlast := lookup_replicate_next hl rfl (by decide) .inOrder (2 ^ 64 - 2)
    rw [← List.foldl_append] at hlast
    have hanswers : ((added ++ List.replicate (2 ^ 64 - 2) next).foldl exec empty).answers g
        [next, next, next] = [some 2, some 0, some 0] := by
      have hl₁ := (next_exact hlast rfl .inOrder).1
      have hl₂ := (next_exact hl₁ rfl .inOrder).1
      rw [answers_next hlast rfl, answers_next hl₁ rfl, answers_next hl₂ rfl]
      rfl
    refine ⟨added ++ List.replicate (2 ^ 64 - 2) next, [next, next, next], g, by decide, ?_, ?_, ?_⟩
    · intro op hop
      simp only [List.mem_cons, List.not_mem_nil, or_false, or_self] at hop
      subst hop
      trivial
    · rw [hanswers, hsubs]
      rfl
    · rw [hanswers, hsubs]
      decide

end Registry

end Octar
