import Octar.Broker.Subscriptions
import Octar.Lib.Run

namespace Octar

open Go

inductive RegistryCall
  | loadOrStore (key : GroupRef)
  | append (key : GroupRef) (list : Nat)
  | index (key : GroupRef)
  | takeEntries
  | load (e : GroupRef × Bool) (es : List (GroupRef × Bool))
  | take (e : GroupRef × Bool) (list : Nat) (es : List (GroupRef × Bool))
  | delete (e : GroupRef × Bool) (es : List (GroupRef × Bool))
  deriving DecidableEq, Repr

namespace RegistryCall

def removing : RegistryCall → Bool
  | .loadOrStore _ | .append .. | .index _ => false
  | .takeEntries | .load .. | .take .. | .delete .. => true

def adds (list : Nat) : RegistryCall → Bool
  | .append _ l => l == list
  | _ => false

end RegistryCall

/-- Calls on one connection come from its own goroutine, one after the other.  `live` is a ghost:
the subscriptions whose `add` returned and whose connection has not called `remove` since. -/
structure SharedRegistry where
  exact : Map GroupRef Nat
  wildcard : Map GroupRef Nat
  lists : List SubList
  connSubs : Map Nat (List (GroupRef × Bool))
  calls : Map Nat RegistryCall
  live : List Subscription

inductive RegistryLabel
  | add (key : GroupRef) (conn : Nat)
  | remove (conn : Nat)
  | step (conn : Nat)
  deriving DecidableEq, Repr

namespace SharedRegistry

def empty : SharedRegistry := ⟨∅, ∅, [], ∅, ∅, []⟩

def find (s : SharedRegistry) (e : GroupRef × Bool) : Option Nat :=
  if e.2 then s.wildcard.lookup e.1 else s.exact.lookup e.1

def store (s : SharedRegistry) (e : GroupRef × Bool) (list : Nat) : SharedRegistry :=
  if e.2 then { s with wildcard := s.wildcard.insert e.1 list }
  else { s with exact := s.exact.insert e.1 list }

def delete (s : SharedRegistry) (e : GroupRef × Bool) : SharedRegistry :=
  if e.2 then { s with wildcard := s.wildcard.erase e.1 } else { s with exact := s.exact.erase e.1 }

def goTo (s : SharedRegistry) (conn : Nat) (call : RegistryCall) : SharedRegistry :=
  { s with calls := s.calls.insert conn call }

def finish (s : SharedRegistry) (conn : Nat) : SharedRegistry :=
  { s with calls := s.calls.erase conn }

def withLists (s : SharedRegistry) (lists : List SubList) : SharedRegistry :=
  { s with lists := lists }

def goOn (s : SharedRegistry) (conn : Nat) : List (GroupRef × Bool) → SharedRegistry
  | [] => s.finish conn
  | e :: es => s.goTo conn (.load e es)

def advance (s : SharedRegistry) (conn : Nat) : RegistryCall → SharedRegistry
  | .loadOrStore key =>
    match s.find (key, isGlobPattern key.group) with
    | some list => s.goTo conn (.append key list)
    | none =>
      ((s.withLists (s.lists ++ [⟨[], 0⟩])).store (key, isGlobPattern key.group)
        s.lists.length).goTo conn (.append key s.lists.length)
  | .append key list =>
    (s.withLists (s.lists.modify list fun l => l.add conn)).goTo conn (.index key)
  | .index key =>
    let entries := (s.connSubs.lookup conn).getD [] ++ [(key, isGlobPattern key.group)]
    { s with
      connSubs := s.connSubs.insert conn entries
      live := s.live ++ [⟨key, conn⟩]
      calls := s.calls.erase conn }
  | .takeEntries =>
    let entries := (s.connSubs.lookup conn).getD []
    goOn { s with connSubs := s.connSubs.erase conn } conn entries
  | .load e es =>
    match s.find e with
    | some list => s.goTo conn (.take e list es)
    | none => s.goOn conn es
  | .take e list es =>
    let s' := s.withLists (s.lists.modify list fun l => l.remove conn)
    if (s'.lists[list]?).any SubList.hasAny then s'.goOn conn es else s'.goTo conn (.delete e es)
  | .delete e es => (s.delete e).goOn conn es

def step (s : SharedRegistry) : RegistryLabel → Except Unit SharedRegistry
  | .add key conn => if conn ∈ s.calls then .error () else .ok (s.goTo conn (.loadOrStore key))
  | .remove conn =>
    if conn ∈ s.calls then .error ()
    else .ok (goTo { s with live := s.live.filter fun sub => sub.conn ≠ conn } conn .takeEntries)
  | .step conn =>
    match s.calls.lookup conn with
    | some call => .ok (s.advance conn call)
    | none => .error ()

def Listed (s : SharedRegistry) (sub : Subscription) : Prop :=
  ∃ list l, s.find (sub.key, isGlobPattern sub.key.group) = some list ∧ s.lists[list]? = some l ∧
    sub.conn ∈ l.conns

/-- Nothing is lost with the entry: whoever is in its list is being removed, and no `add` is about
to put another connection there. -/
def unused (s : SharedRegistry) (e : GroupRef × Bool) : Bool :=
  (s.find e).all fun list =>
    ((s.lists[list]?).all fun l => l.conns.all fun c =>
      (s.calls.lookup c).any RegistryCall.removing) &&
      s.calls.entries.all fun call => !call.2.adds list

def deletesUnused (s : SharedRegistry) : RegistryLabel → Bool
  | .step conn =>
    match s.calls.lookup conn with
    | some (.delete e _) => s.unused e
    | _ => true
  | _ => true

variable {s s' : SharedRegistry} {conn : Nat}

@[simp] theorem find_goTo (e : GroupRef × Bool) (call : RegistryCall) :
    (s.goTo conn call).find e = s.find e := rfl

@[simp] theorem find_withLists (e : GroupRef × Bool) (lists : List SubList) :
    (s.withLists lists).find e = s.find e := rfl

theorem find_store (e e' : GroupRef × Bool) (list : Nat) :
    (s.store e list).find e' = if e' = e then some list else s.find e' := by
  obtain ⟨key, wildcard⟩ := e
  obtain ⟨key', wildcard'⟩ := e'
  by_cases hkey : key' = key
  · subst hkey
    cases wildcard <;> cases wildcard' <;> simp [store, find]
  · cases wildcard <;> cases wildcard' <;> simp [store, find, hkey, AList.lookup_insert_ne]

theorem find_delete (e e' : GroupRef × Bool) :
    (s.delete e).find e' = if e' = e then none else s.find e' := by
  obtain ⟨key, wildcard⟩ := e
  obtain ⟨key', wildcard'⟩ := e'
  by_cases hkey : key' = key
  · subst hkey
    cases wildcard <;> cases wildcard' <;> simp [delete, find]
  · cases wildcard <;> cases wildcard' <;> simp [delete, find, hkey, AList.lookup_erase_ne]

@[simp] theorem store_other (e : GroupRef × Bool) (list : Nat) :
    (s.store e list).lists = s.lists ∧ (s.store e list).calls = s.calls ∧
      (s.store e list).live = s.live := by
  unfold store
  split <;> exact ⟨rfl, rfl, rfl⟩

@[simp] theorem delete_other (e : GroupRef × Bool) :
    (s.delete e).lists = s.lists ∧ (s.delete e).calls = s.calls ∧ (s.delete e).live = s.live := by
  unfold delete
  split <;> exact ⟨rfl, rfl, rfl⟩

def Owed (s : SharedRegistry) (sub : Subscription) : Prop :=
  sub ∈ s.live ∨ s.calls.lookup sub.conn = some (.index sub.key)

structure Inv (s : SharedRegistry) : Prop where
  listed : ∀ sub, s.Owed sub → s.Listed sub
  appending : ∀ c key list, s.calls.lookup c = some (.append key list) →
    s.find (key, isGlobPattern key.group) = some list
  removing : ∀ sub ∈ s.live, (s.calls.lookup sub.conn).any RegistryCall.removing = false
  allocated : ∀ e list, s.find e = some list → list < s.lists.length

theorem inv_empty : empty.Inv := by
  refine ⟨?_, ?_, ?_, ?_⟩
  · rintro sub (hlive | hcall)
    · cases hlive
    · cases hcall
  · intro c key list hcall
    cases hcall
  · intro sub hlive
    cases hlive
  · rintro ⟨key, _ | _⟩ list hfind <;> cases hfind

theorem Inv.goTo (h : s.Inv) {call : RegistryCall}
    (hindex : ∀ key, call = .index key → s.Listed ⟨key, conn⟩)
    (happend : ∀ key list, call = .append key list →
      s.find (key, isGlobPattern key.group) = some list)
    (hremoving : call.removing = true → ∀ sub ∈ s.live, sub.conn ≠ conn) :
    (s.goTo conn call).Inv := by
  refine ⟨?_, ?_, ?_, h.allocated⟩
  · rintro ⟨key, c⟩ (hlive | hcall)
    · exact h.listed _ (.inl hlive)
    · by_cases hc : c = conn
      · subst hc
        simp only [SharedRegistry.goTo, AList.lookup_insert, Option.some.injEq] at hcall
        exact hindex key hcall
      · simp only [SharedRegistry.goTo, AList.lookup_insert_ne hc] at hcall
        exact h.listed ⟨key, c⟩ (.inr hcall)
  · intro c key list hcall
    by_cases hc : c = conn
    · subst hc
      simp only [SharedRegistry.goTo, AList.lookup_insert, Option.some.injEq] at hcall
      exact happend key list hcall
    · simp only [SharedRegistry.goTo, AList.lookup_insert_ne hc] at hcall
      exact h.appending c key list hcall
  · rintro ⟨key, c⟩ hlive
    by_cases hc : c = conn
    · subst hc
      simp only [SharedRegistry.goTo, AList.lookup_insert, Option.any_some]
      by_contra hcall
      exact hremoving (by simpa using hcall) ⟨key, c⟩ hlive rfl
    · simp only [SharedRegistry.goTo, AList.lookup_insert_ne hc]
      exact h.removing ⟨key, c⟩ hlive

theorem Inv.finish (h : s.Inv) : (s.finish conn).Inv := by
  have hcalls : ∀ c call, (s.finish conn).calls.lookup c = some call →
      s.calls.lookup c = some call := by
    intro c call hcall
    by_cases hc : c = conn
    · subst hc
      simp [SharedRegistry.finish] at hcall
    · rwa [SharedRegistry.finish, AList.lookup_erase_ne hc] at hcall
  refine ⟨?_, ?_, ?_, h.allocated⟩
  · rintro sub (hlive | hcall)
    · exact h.listed sub (.inl hlive)
    · exact h.listed sub (.inr (hcalls _ _ hcall))
  · intro c key list hcall
    exact h.appending c key list (hcalls _ _ hcall)
  · intro sub hlive
    cases hcall : (s.finish conn).calls.lookup sub.conn with
    | none => rfl
    | some call =>
      have hremoving := h.removing sub hlive
      rwa [hcalls _ _ hcall] at hremoving

theorem Inv.goOn (h : s.Inv) (hconn : ∀ sub ∈ s.live, sub.conn ≠ conn)
    (es : List (GroupRef × Bool)) :
    (s.goOn conn es).Inv := by
  cases es with
  | nil => exact h.finish
  | cons e es => exact h.goTo (by simp) (by simp) (fun _ => hconn)

theorem Inv.memory (h : s.Inv) (hcalls : s'.calls = s.calls) (hlive : s'.live = s.live)
    (hlisted : ∀ sub, s.Owed sub → s.Listed sub → s'.Listed sub)
    (happending : ∀ c key list, s.calls.lookup c = some (.append key list) →
      s.find (key, isGlobPattern key.group) = some list →
      s'.find (key, isGlobPattern key.group) = some list)
    (hallocated : ∀ e list, s'.find e = some list → list < s'.lists.length) : s'.Inv := by
  have howed : ∀ sub, s'.Owed sub → s.Owed sub := by
    intro sub
    rw [Owed, Owed, hcalls, hlive]
    exact id
  refine ⟨?_, ?_, ?_, hallocated⟩
  · intro sub hsub
    exact hlisted sub (howed sub hsub) (h.listed sub (howed sub hsub))
  · intro c key list hcall
    rw [hcalls] at hcall
    exact happending c key list hcall (h.appending c key list hcall)
  · rw [hcalls, hlive]
    exact h.removing

theorem Inv.storeNew (h : s.Inv) {e : GroupRef × Bool} (he : s.find e = none) :
    ((s.withLists (s.lists ++ [⟨[], 0⟩])).store e s.lists.length).Inv := by
  have hkeep : ∀ e' list, s.find e' = some list →
      ((s.withLists (s.lists ++ [⟨[], 0⟩])).store e s.lists.length).find e' = some list := by
    intro e' list hfind
    rw [find_store, if_neg, find_withLists, hfind]
    rintro rfl
    rw [he] at hfind
    cases hfind
  refine h.memory (store_other _ _).2.1 (store_other _ _).2.2 ?_ ?_ ?_
  · rintro sub - ⟨list, l, hfind, hl, hmem⟩
    refine ⟨list, l, hkeep _ _ hfind, ?_, hmem⟩
    rw [(store_other _ _).1]
    exact (List.getElem?_append_left (h.allocated _ _ hfind)).trans hl
  · intro c key list _ hfind
    exact hkeep _ _ hfind
  · intro e' list hfind
    rw [(store_other _ _).1]
    simp only [withLists, List.length_append, List.length_singleton]
    rw [find_store, find_withLists] at hfind
    split at hfind
    · cases hfind
      exact Nat.lt_succ_self _
    · exact Nat.lt_succ_of_lt (h.allocated _ _ hfind)

theorem Inv.modify (h : s.Inv) (list : Nat) (f : SubList → SubList)
    (hf : ∀ sub l, s.Owed sub → sub.conn ∈ l.conns → sub.conn ∈ (f l).conns) :
    (s.withLists (s.lists.modify list f)).Inv := by
  refine h.memory rfl rfl ?_ (fun c key list _ hfind => hfind) ?_
  · rintro sub howed ⟨list', l, hfind, hl, hmem⟩
    refine ⟨list', if list = list' then f l else l, hfind, ?_, ?_⟩
    · simp [withLists, List.getElem?_modify, hl]
    · split
      · exact hf sub l howed hmem
      · exact hmem
  · intro e list' hfind
    simp only [withLists, List.length_modify]
    exact h.allocated e list' hfind

theorem Inv.delete (h : s.Inv) {e : GroupRef × Bool} (hunused : s.unused e = true) :
    (s.delete e).Inv := by
  have hkeep : ∀ e' list, e' ≠ e → s.find e' = some list → (s.delete e).find e' = some list := by
    intro e' list hne hfind
    rw [find_delete, if_neg hne, hfind]
  refine h.memory (delete_other _).2.1 (delete_other _).2.2 ?_ ?_ ?_
  · rintro sub howed ⟨list, l, hfind, hl, hmem⟩
    refine ⟨list, l, hkeep _ _ ?_ hfind, by rw [(delete_other _).1, hl], hmem⟩
    rintro rfl
    -- a connection in the list of the deleted entry is being removed, so nothing is owed to it
    simp only [unused, hfind, Option.all_some, hl, Bool.and_eq_true, List.all_eq_true] at hunused
    have hremoved := hunused.1 sub.conn hmem
    rcases howed with hlive | hcall
    · rw [h.removing sub hlive] at hremoved
      cases hremoved
    · rw [hcall] at hremoved
      cases hremoved
  · intro c key list hcall hfind
    apply hkeep _ _ ?_ hfind
    rintro rfl
    simp only [unused, hfind, Option.all_some, Bool.and_eq_true, List.all_eq_true] at hunused
    have hadds := hunused.2 ⟨c, .append key list⟩ (AList.mem_lookup_iff.mp hcall)
    simp [RegistryCall.adds] at hadds
  · intro e' list hfind
    rw [(delete_other _).1]
    rw [find_delete] at hfind
    split at hfind
    · cases hfind
    · exact h.allocated _ _ hfind

theorem Inv.not_owed {call : RegistryCall} (h : s.Inv) (hcall : s.calls.lookup conn = some call)
    (hremoving : call.removing = true) {sub : Subscription} (howed : s.Owed sub) :
    sub.conn ≠ conn := by
  rintro rfl
  rcases howed with hlive | hindex
  · have hnot := h.removing sub hlive
    rw [hcall, Option.any_some, hremoving] at hnot
    cases hnot
  · rw [hcall] at hindex
    cases hindex
    cases hremoving

theorem Inv.append (h : s.Inv) {key : GroupRef} {list : Nat}
    (hcall : s.calls.lookup conn = some (.append key list)) :
    (s.advance conn (.append key list)).Inv := by
  have hfind := h.appending conn key list hcall
  have hmodify := h.modify list (fun l => l.add conn) (by
    intro sub l _ hmem
    exact List.mem_append_left _ hmem)
  refine hmodify.goTo ?_ (by simp) (by simp [RegistryCall.removing])
  rintro key' ⟨⟩
  have hlt := h.allocated _ _ hfind
  refine ⟨list, s.lists[list].add conn, hfind, ?_, by simp [SubList.add]⟩
  simp [withLists, List.getElem?_eq_getElem hlt]

theorem Inv.index (h : s.Inv) {key : GroupRef} (hcall : s.calls.lookup conn = some (.index key)) :
    (s.advance conn (.index key)).Inv := by
  have hlive : ∀ connSubs,
      ({ s with connSubs := connSubs, live := s.live ++ [⟨key, conn⟩] } : SharedRegistry).Inv := by
    intro connSubs
    refine ⟨?_, h.appending, ?_, h.allocated⟩
    · rintro sub (hmem | hindex)
      · rcases List.mem_append.mp hmem with hold | hnew
        · exact h.listed sub (.inl hold)
        · rw [List.mem_singleton] at hnew
          subst hnew
          exact h.listed _ (.inr hcall)
      · exact h.listed sub (.inr hindex)
    · intro sub hmem
      rcases List.mem_append.mp hmem with hold | hnew
      · exact h.removing sub hold
      · rw [List.mem_singleton] at hnew
        subst hnew
        change (s.calls.lookup conn).any RegistryCall.removing = false
        rw [hcall]
        rfl
  exact (hlive _).finish

theorem Inv.advance (h : s.Inv) {call : RegistryCall} (hcall : s.calls.lookup conn = some call)
    (hguard : ∀ e es, call = .delete e es → s.unused e = true) : (s.advance conn call).Inv := by
  have hgone : call.removing = true → ∀ sub ∈ s.live, sub.conn ≠ conn :=
    fun hremoving sub hlive => h.not_owed hcall hremoving (.inl hlive)
  cases call with
  | loadOrStore key =>
    rw [SharedRegistry.advance]
    cases hfind : s.find (key, isGlobPattern key.group) with
    | some list =>
      refine h.goTo (by simp) ?_ (by simp [RegistryCall.removing])
      rintro key' list' ⟨⟩
      exact hfind
    | none =>
      refine (h.storeNew hfind).goTo (by simp) ?_ (by simp [RegistryCall.removing])
      rintro key' list' ⟨⟩
      rw [find_store, if_pos rfl]
  | append key list => exact h.append hcall
  | index key => exact h.index hcall
  | takeEntries =>
    have hentries : ({ s with connSubs := s.connSubs.erase conn } : SharedRegistry).Inv :=
      ⟨h.listed, h.appending, h.removing, h.allocated⟩
    exact hentries.goOn (hgone rfl) _
  | load e es =>
    rw [SharedRegistry.advance]
    cases s.find e with
    | some list => exact h.goTo (by simp) (by simp) hgone
    | none => exact h.goOn (hgone rfl) es
  | take e list es =>
    have hmodify := h.modify list (fun l => l.remove conn) (by
      intro sub l howed hmem
      exact (List.mem_erase_of_ne (h.not_owed hcall rfl howed)).mpr hmem)
    rw [SharedRegistry.advance]
    split
    · exact hmodify.goOn (hgone rfl) es
    · exact hmodify.goTo (by simp) (by simp) (fun _ => hgone rfl)
  | delete e es =>
    refine (h.delete (hguard e es rfl)).goOn ?_ es
    rw [(delete_other e).2.2]
    exact hgone rfl

theorem Inv.step (h : s.Inv) {a : RegistryLabel} (hguard : s.deletesUnused a = true)
    (hs : s.step a = .ok s') :
    s'.Inv := by
  cases a with
  | add key conn =>
    rw [SharedRegistry.step] at hs
    split at hs
    · cases hs
    · cases hs
      exact h.goTo (by simp) (by simp) (by simp [RegistryCall.removing])
  | remove conn =>
    rw [SharedRegistry.step] at hs
    split at hs
    · cases hs
    · cases hs
      have hlive : ({ s with live := s.live.filter fun sub => sub.conn ≠ conn } :
          SharedRegistry).Inv := by
        refine ⟨?_, h.appending, ?_, h.allocated⟩
        · rintro sub (hmem | hindex)
          · exact h.listed sub (.inl (List.mem_filter.mp hmem).1)
          · exact h.listed sub (.inr hindex)
        · intro sub hmem
          exact h.removing sub (List.mem_filter.mp hmem).1
      refine hlive.goTo (by simp) (by simp) ?_
      intro _ sub hmem
      simpa using (List.mem_filter.mp hmem).2
  | step conn =>
    rw [SharedRegistry.step] at hs
    rw [deletesUnused] at hguard
    cases hcall : s.calls.lookup conn with
    | none =>
      rw [hcall] at hs
      cases hs
    | some call =>
      rw [hcall] at hs hguard
      cases hs
      refine h.advance hcall ?_
      rintro e es rfl
      exact hguard

/-- As long as no `remove` deletes an entry in use, whoever subscribed is in the list under the
key. -/
theorem completed_adds_are_listed {s : SharedRegistry}
    (h : Reachable step (fun s a => s.deletesUnused a = true) empty s) :
    ∀ sub ∈ s.live, s.Listed sub := by
  have hinv : s.Inv := h.invariant inv_empty fun _ _ _ hi hguard hs => hi.step hguard hs
  intro sub hlive
  exact hinv.listed sub (.inl hlive)

def sampleKey : GroupRef := ⟨str "n", str "q", str "g"⟩

def finishAdd (conn : Nat) : List RegistryLabel :=
  [.add sampleKey conn, .step conn, .step conn, .step conn]

theorem completed_adds_are_listed_sample :
    ∃ s, Reachable step (fun s a => s.deletesUnused a = true) empty s ∧
      ⟨sampleKey, 1⟩ ∈ s.live ∧ s.Listed ⟨sampleKey, 1⟩ := by
  -- the first subscriber leaves and its key is deleted; it comes and leaves again, and now the
  -- second one comes before the list is found empty
  have htrace : (run (checked step deletesUnused ()) empty
      (finishAdd 0 ++ [.remove 0, .step 0, .step 0, .step 0, .step 0] ++
        finishAdd 0 ++ [.remove 0, .step 0, .step 0] ++ finishAdd 1 ++ [.step 0])).toOption.any
      (fun s => decide (⟨sampleKey, 1⟩ ∈ s.live)) = true := by decide
  obtain ⟨s, hreach, hlive⟩ := Reachable.ofTrace (fun _ _ hcheck => hcheck) _ _ htrace
  exact ⟨s, hreach, of_decide_eq_true hlive,
    completed_adds_are_listed hreach _ (of_decide_eq_true hlive)⟩

/-- A subscriber that comes between the emptiness test and the deletion is gone with the key. -/
theorem revived_list_is_deleted :
    ∃ s, run step empty (finishAdd 0 ++ [.remove 0, .step 0, .step 0, .step 0] ++ finishAdd 1 ++
      [.step 0]) = .ok s ∧
      s.calls.entries = [] ∧ ⟨sampleKey, 1⟩ ∈ s.live ∧ ¬ s.Listed ⟨sampleKey, 1⟩ := by
  have htrace :
      (run step empty (finishAdd 0 ++ [.remove 0, .step 0, .step 0, .step 0] ++ finishAdd 1 ++
        [.step 0])).toOption.any (fun s => s.calls.entries.isEmpty &&
          decide (⟨sampleKey, 1⟩ ∈ s.live) &&
          (s.find (sampleKey, isGlobPattern sampleKey.group)).isNone) = true := by decide
  obtain ⟨s, hrun, hs⟩ := any_toOption.mp htrace
  simp only [Bool.and_eq_true, List.isEmpty_iff, decide_eq_true_eq, Option.isNone_iff_eq_none] at hs
  refine ⟨s, hrun, hs.1.1, hs.1.2, ?_⟩
  rintro ⟨list, l, hfind, -⟩
  rw [hs.2] at hfind
  cases hfind

end SharedRegistry

end Octar
