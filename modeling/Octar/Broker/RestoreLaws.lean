import Octar.Broker.Recovery
import Octar.Queue.LiveLaws
import Mathlib.Data.List.Induction

namespace Octar

open Go

def lastGroup (groups : List GroupSnapshot) (key : Bytes) : Option GroupSnapshot :=
  groups.reverse.find? fun gs => gs.key = key

theorem lastGroup_key {groups : List GroupSnapshot} {key : Bytes} {gs : GroupSnapshot}
    (h : lastGroup groups key = some gs) : gs ∈ groups ∧ gs.key = key := by
  refine ⟨?_, by simpa using List.find?_some h⟩
  simpa using List.mem_of_find?_eq_some h

theorem lastGroup_isSome {groups : List GroupSnapshot} {gs : GroupSnapshot} (h : gs ∈ groups) :
    (lastGroup groups gs.key).isSome := by
  rw [lastGroup, List.find?_isSome]
  exact ⟨gs, by simpa using h, by simp⟩

def restoreLease (p : NilMap Bytes Message) (m : Message) : NilMap Bytes Message :=
  if m.state = .processing then some (p.table.insert m.id m) else p

theorem foldl_restoreMessage (now : Int) (msgs : List Message) (gs : GroupState) :
    msgs.foldl (restoreMessage now) gs =
      { gs with
        readyMsgs := gs.readyMsgs ++ msgs.filter fun m => m.state = .pending ∧ m.scheduledAt ≤ now
        delayedMsgs := gs.delayedMsgs ++ msgs.filter fun m => m.state = .pending ∧
          now < m.scheduledAt
        processingMsgs := msgs.foldl restoreLease gs.processingMsgs } := by
  induction msgs generalizing gs with
  | nil => simp
  | cons m msgs ih =>
    rw [List.foldl_cons, ih]
    unfold restoreMessage
    split
    · rename_i hs
      simp [restoreLease, hs]
    · rename_i hs
      by_cases hn : now < m.scheduledAt
      · simp [restoreLease, hs, hn]
      · simp [restoreLease, hs, hn, Int.not_lt.mp hn]
    · rename_i hl hp
      have hleased : m.state ≠ .processing := fun h => hl h
      have hpending : m.state ≠ .pending := fun h => hp h
      simp [restoreLease, hleased, hpending]

theorem isSome_foldl_restoreLease (msgs : List Message) (p : NilMap Bytes Message) :
    (msgs.foldl restoreLease p).isSome ↔ p.isSome ∨ ∃ m ∈ msgs, m.state = .processing := by
  induction msgs generalizing p with
  | nil => simp
  | cons m msgs ih =>
    rw [List.foldl_cons, ih, restoreLease]
    by_cases hs : m.state = .processing
    · simp [hs]
    · simp [hs]

theorem lookup_foldl_restoreLease {msgs : List Message} {p : NilMap Bytes Message} {id : Bytes}
    {m : Message}
    (h : (msgs.foldl restoreLease p).table.lookup id = some m) :
    p.table.lookup id = some m ∨ m ∈ msgs ∧ m.id = id ∧ m.state = .processing := by
  induction msgs generalizing p with
  | nil => exact .inl h
  | cons m' msgs ih =>
    rw [List.foldl_cons] at h
    rcases ih h with h | ⟨hm, hid, hs⟩
    · rw [restoreLease] at h
      split at h
      · rename_i hs
        by_cases hid : id = m'.id
        · subst hid
          rw [NilMap.table_some, AList.lookup_insert] at h
          cases h
          exact .inr ⟨List.mem_cons_self, rfl, hs⟩
        · rw [NilMap.table_some, AList.lookup_insert_ne hid] at h
          exact .inl h
      · exact .inl h
    · exact .inr ⟨List.mem_cons_of_mem _ hm, hid, hs⟩

theorem restoreGroup_key (queueName ns : Bytes) (now : Int) (gs : GroupSnapshot) :
    (restoreGroup queueName ns now gs).key = gs.key := by
  rw [restoreGroup, foldl_restoreMessage]

theorem lookup_restoreState (queueName ns : Bytes) (now : Int) (groups : List GroupSnapshot)
    (key : Bytes) :
    (restoreState queueName ns now groups).groups.lookup key =
      (lastGroup groups key).map (restoreGroup queueName ns now) := by
  induction groups using List.reverseRecOn with
  | nil => rfl
  | append_singleton groups gs ih =>
    simp only [restoreState, List.foldl_append, List.foldl_cons, List.foldl_nil, lastGroup,
      List.reverse_append, List.reverse_cons, List.reverse_nil, List.nil_append,
      List.singleton_append, List.find?_cons] at ih ⊢
    by_cases hk : gs.key = key
    · subst hk
      simp
    · simpa [hk, AList.lookup_insert_ne (Ne.symm hk)] using ih

theorem entries_restoreState {queueName ns : Bytes} {groups : List GroupSnapshot} {now : Int}
    {e : Sigma fun _ : Bytes => GroupState} :
    e ∈ (restoreState queueName ns now groups).groups.entries ↔
      ∃ gs, lastGroup groups e.1 = some gs ∧ restoreGroup queueName ns now gs = e.2 := by
  rw [← AList.mem_lookup_iff, lookup_restoreState, Option.mem_def, Option.map_eq_some_iff]

def importConfig (cfg : GroupConfig) (key : Bytes) (parallelism : Int) : GroupConfig :=
  { cfg with parallelism := parallelism, key := key }

def importedGroup (g : Group) (gs : GroupState) : Group :=
  { g.importState gs with quantum := gs.quantum }

namespace Queue

variable [PathMatch] {q q' : Queue}

structure Imports (q : Queue) (l : List GroupState) (q' : Queue) : Prop where
  name : q'.name = q.name
  ns : q'.ns = q.ns
  cfgIdx : q'.cfgIdx = q.cfgIdx
  imported : ∀ gs ∈ l, ∃ g, newGroup (importConfig (q.resolveConfig gs.key) gs.key gs.parallelism)
    = .ok g ∧
    q'.groups.lookup gs.key = some (importedGroup g gs)
  kept : ∀ key ∉ l.map GroupState.key, q'.groups.lookup key = q.groups.lookup key

theorem importGroup_ok {gs : GroupState} (h : q.importGroup gs = .ok q') :
    ∃ g, newGroup (importConfig (q.resolveConfig gs.key) gs.key gs.parallelism) = .ok g ∧
      q' = q.setGroup gs.key (importedGroup g gs) := by
  obtain ⟨g, hg, hret⟩ := bind_ok.mp h
  cases hret
  exact ⟨g, hg, rfl⟩

theorem importGroup_total (q : Queue) (gs : GroupState) :
    (∃ q', q.importGroup gs = .ok q') ↔ (q.resolveConfig gs.key).RateOk := by
  have hnew := @Group.newGroup_total (importConfig (q.resolveConfig gs.key) gs.key gs.parallelism)
  change _ ↔ (q.resolveConfig gs.key).RateOk at hnew
  rw [← hnew]
  constructor
  · rintro ⟨q', h⟩
    obtain ⟨g, hg, -⟩ := importGroup_ok h
    exact ⟨g, hg⟩
  · rintro ⟨g, hg⟩
    exact ⟨_, bind_ok.mpr ⟨g, hg, rfl⟩⟩

theorem Imports.cons {q₁ : Queue} {gs : GroupState} {l : List GroupState}
    (hgs : gs.key ∉ l.map GroupState.key)
    (h : q.importGroup gs = .ok q₁) (hl : Imports q₁ l q') : Imports q (gs :: l) q' := by
  obtain ⟨g, hg, rfl⟩ := importGroup_ok h
  refine ⟨hl.name, hl.ns, hl.cfgIdx, ?_, ?_⟩
  · intro gs' hmem
    rcases List.mem_cons.mp hmem with rfl | hmem
    · exact ⟨g, hg, (hl.kept _ hgs).trans (lookup_setGroup q _ _)⟩
    · exact hl.imported gs' hmem
  · intro key hkey
    obtain ⟨hne, hkey⟩ := not_or.mp (List.mem_cons.not.mp hkey)
    rw [hl.kept key hkey, lookup_setGroup_ne q _ hne]

theorem importGroups_ok {l : List GroupState} (hd : (l.map GroupState.key).Nodup)
    (h : run importGroup q l = .ok q') : Imports q l q' := by
  induction l generalizing q with
  | nil =>
    cases h
    exact ⟨rfl, rfl, rfl, by simp, fun _ _ => rfl⟩
  | cons gs l ih =>
    obtain ⟨q₁, hq₁, hrun⟩ := Run.run_cons_ok.mp h
    obtain ⟨hgs, hd⟩ := List.nodup_cons.mp hd
    exact (ih hd hrun).cons hgs hq₁

theorem importGroups_total (q : Queue) (l : List GroupState) :
    (∃ q', run importGroup q l = .ok q') ↔ ∀ gs ∈ l, (q.resolveConfig gs.key).RateOk := by
  induction l generalizing q with
  | nil => simp
  | cons gs l ih =>
    simp only [Run.run_cons_ok, List.forall_mem_cons, ← importGroup_total q gs]
    constructor
    · rintro ⟨q', q₁, hq₁, hrun⟩
      refine ⟨⟨q₁, hq₁⟩, ?_⟩
      obtain ⟨g, -, rfl⟩ := importGroup_ok hq₁
      exact (ih (q.setGroup gs.key (importedGroup g gs))).mp ⟨q', hrun⟩
    · rintro ⟨⟨q₁, hq₁⟩, hl⟩
      obtain ⟨g, -, rfl⟩ := importGroup_ok hq₁
      obtain ⟨q', hrun⟩ := (ih (q.setGroup gs.key (importedGroup g gs))).mpr hl
      exact ⟨q', _, hq₁, hrun⟩

structure Restores (q : Queue) (groups : List GroupSnapshot) (now : Int) (q' : Queue) : Prop where
  name : q'.name = q.name
  ns : q'.ns = q.ns
  cfgIdx : q'.cfgIdx = q.cfgIdx
  restored : ∀ key gs, lastGroup groups key = some gs →
    ∃ g, newGroup (importConfig (q.resolveConfig key) key gs.parallelism) = .ok g ∧
      q'.groups.lookup key = some (importedGroup g (restoreGroup q.name q.ns now gs))
  kept : ∀ key, lastGroup groups key = none → q'.groups.lookup key = q.groups.lookup key

theorem onSnapshot_spec (q : Queue) (snap : Snapshot) (ord : RangeOrder) (now : Int) :
    (∀ q', q.onSnapshot snap ord now = .ok q' → q.Restores snap.groups now q') ∧
      ((∃ q', q.onSnapshot snap ord now = .ok q') ↔
        ∀ gs ∈ snap.groups, (q.resolveConfig gs.key).RateOk) := by
  let entries := (restoreState q.name q.ns now snap.groups).groups.entries
  let l := (ord.pick entries).map Sigma.snd
  have hkey : ∀ e ∈ entries, e.2.key = e.1 := by
    intro e he
    obtain ⟨gs, hgs, heq⟩ := entries_restoreState.mp he
    rw [← heq, restoreGroup_key, (lastGroup_key hgs).2]
  have hkeys : l.map GroupState.key = (ord.pick entries).map Sigma.fst := by
    rw [List.map_map]
    exact List.map_congr_left fun e he => hkey e (ord.mem_pick.mp he)
  have hd : (l.map GroupState.key).Nodup := by
    rw [hkeys]
    exact (List.perm_nodupKeys (ord.perm entries)).mpr
      (restoreState q.name q.ns now snap.groups).groups.nodupKeys
  have hmem : ∀ key gs, lastGroup snap.groups key = some gs →
      restoreGroup q.name q.ns now gs ∈ l := by
    intro key gs hgs
    exact List.mem_map.mpr ⟨⟨key, _⟩, ord.mem_pick.mpr (entries_restoreState.mpr ⟨gs, hgs, rfl⟩),
      rfl⟩
  constructor
  · intro q' h
    obtain ⟨q₁, hq₁, hret⟩ := bind_ok.mp h
    cases hret
    have himp := importGroups_ok hd hq₁
    refine ⟨himp.name, himp.ns, himp.cfgIdx, ?_, ?_⟩
    · intro key gs hgs
      obtain ⟨g, hg, hl⟩ := himp.imported _ (hmem key gs hgs)
      rw [restoreGroup_key, (lastGroup_key hgs).2] at hg hl
      refine ⟨g, ?_, hl⟩
      rw [← hg, restoreGroup, foldl_restoreMessage]
    · intro key hnone
      apply himp.kept
      rw [hkeys, List.mem_map]
      rintro ⟨e, he, rfl⟩
      obtain ⟨gs, hgs, -⟩ := entries_restoreState.mp (ord.mem_pick.mp he)
      rw [hgs] at hnone
      cases hnone
  · have htotal := importGroups_total q l
    constructor
    · rintro ⟨q', h⟩ gs hgs
      obtain ⟨q₁, hq₁, -⟩ := bind_ok.mp h
      obtain ⟨gs', hlast⟩ := Option.isSome_iff_exists.mp (lastGroup_isSome hgs)
      have hrate := htotal.mp ⟨q₁, hq₁⟩ _ (hmem gs.key gs' hlast)
      rwa [restoreGroup_key, (lastGroup_key hlast).2] at hrate
    · intro hrate
      obtain ⟨q₁, hq₁⟩ := htotal.mpr (by
        intro gs hgs
        obtain ⟨e, he, rfl⟩ := List.mem_map.mp hgs
        obtain ⟨gs, hlast, heq⟩ := entries_restoreState.mp (ord.mem_pick.mp he)
        rw [← heq, restoreGroup_key]
        exact hrate gs (lastGroup_key hlast).1)
      exact ⟨_, bind_ok.mpr ⟨q₁, hq₁, rfl⟩⟩

end Queue

end Octar
