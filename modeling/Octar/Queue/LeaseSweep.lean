import Octar.Queue.Propagation

namespace Octar

open Go

namespace Group

variable {g g' : Group}

theorem returnToPending_of_lookup {id : Bytes} {m : Message} (h : g.processing.get? id = some m) :
    g.returnToPending id = { g with
      processing := g.processing.delete id
      urgent := g.urgent ++ [some { m with state := .pending }] } := by
  rw [returnToPending, h]

theorem foldl_returnToPending {es : List (Sigma fun _ : Bytes => Message)} (hkeys : es.NodupKeys)
    (hes : ∀ e ∈ es, g.processing.table.lookup e.1 = some e.2) :
    es.keys.foldl returnToPending g = { g with
      processing := g.processing.deleteAll es
      urgent := g.urgent ++ es.map fun e => some { e.2 with state := .pending } } := by
  induction es generalizing g with
  | nil => simp [NilMap.deleteAll]
  | cons e es ih =>
    obtain ⟨hkey, hkeys⟩ := List.nodupKeys_cons.mp hkeys
    obtain ⟨he, hes⟩ := List.forall_mem_cons.mp hes
    rw [List.keys_cons, List.foldl_cons, returnToPending_of_lookup he, ih hkeys]
    · simp [NilMap.deleteAll]
    · intro e' he'
      have hne : e'.1 ≠ e.1 := fun heq => hkey (heq ▸ List.mem_keys_of_mem he')
      rw [NilMap.table_delete, AList.lookup_erase_ne hne]
      exact hes e' he'

theorem expiredIDs_eq (g : Group) (ord : RangeOrder) (now : Int) :
    Queue.expiredIDs g ord now =
      (expiredEntries now (ord.pick g.processing.table.entries)).keys := by
  rw [Queue.expiredIDs, expiredEntries, List.keys]
  induction ord.pick g.processing.table.entries with
  | nil => rfl
  | cons e l ih =>
    by_cases hlt : e.2.scheduledAt < now
    · simp [hlt, ih]
    · simp [hlt, ih]

theorem mem_expiredIDs {ord : RangeOrder} {now : Int} {id : Bytes} :
    id ∈ Queue.expiredIDs g ord now ↔ ∃ m, g.processing.get? id = some m ∧ m.scheduledAt < now := by
  rw [Queue.expiredIDs, List.mem_filterMap]
  constructor
  · rintro ⟨e, he, hid⟩
    obtain ⟨hlt, hid⟩ := Option.ite_none_right_eq_some.mp hid
    cases hid
    exact ⟨e.2, AList.mem_lookup_iff.mpr ((ord.perm _).mem_iff.mp he), hlt⟩
  · rintro ⟨m, hm, hlt⟩
    refine ⟨⟨id, m⟩, (ord.perm _).mem_iff.mpr (AList.mem_lookup_iff.mp hm), ?_⟩
    rw [if_pos hlt]

theorem nodup_expiredIDs (g : Group) (ord : RangeOrder) (now : Int) :
    (Queue.expiredIDs g ord now).Nodup := by
  rw [expiredIDs_eq]
  exact nodupKeys_expiredEntries (ord.perm _)

theorem sweepGroup_expires (g : Group) (ord : RangeOrder) (now : Int) :
    ∃ expired, g.Expires now (Queue.sweepGroup ord now g) expired := by
  refine ⟨_, expires_of_perm (ord.perm g.processing.table.entries) ?_⟩
  rw [Queue.sweepGroup, expiredIDs_eq]
  exact foldl_returnToPending (nodupKeys_expiredEntries (ord.perm _))
    fun e he => lookup_expiredEntries (ord.perm _) he

end Group

def ConfigIdx.Keyed (ci : ConfigIdx) : Prop := ∀ key c, ci.exact.lookup key = some c → c.key = key

namespace ConfigIdx.Keyed

variable {ci : ConfigIdx}

theorem new : newConfigIdx.Keyed := by
  intro key c hc
  cases hc

theorem set (h : ci.Keyed) (c : GroupConfig) : (ci.set c).Keyed := by
  unfold ConfigIdx.set
  split
  · exact h
  · intro key c' hc'
    by_cases hkey : key = c.key
    · subst hkey
      rw [AList.lookup_insert] at hc'
      cases hc'
      rfl
    · rw [AList.lookup_insert_ne hkey] at hc'
      exact h key c' hc'

theorem del (h : ci.Keyed) (key : Bytes) : (ci.del key).1.Keyed := by
  unfold ConfigIdx.del
  split
  · intro key' c hc
    by_cases hkey : key' = key
    · subst hkey
      rw [AList.lookup_erase] at hc
      cases hc
    · rw [AList.lookup_erase_ne hkey] at hc
      exact h key' c hc
  · split
    · exact h
    · exact h

theorem configure (h : ci.Keyed) (op : LiveOp) : (op.configure ci).Keyed := by
  cases op with
  | setGroupConfig cfg => exact h.set _
  | deleteGroupConfig key => exact h.del key
  | _ => exact h

theorem resolve [PathMatch] (h : ci.Keyed) {key : Bytes} {c : GroupConfig}
    (hc : ci.resolve key = some c) :
    c.key = key := by
  unfold ConfigIdx.resolve at hc
  cases hexact : ci.exact.lookup key with
  | some c' =>
    rw [hexact] at hc
    cases hc
    exact h key c hexact
  | none =>
    rw [hexact] at hc
    obtain ⟨w, -, rfl⟩ := Option.map_eq_some_iff.mp hc
    rfl

end ConfigIdx.Keyed

namespace Queue

variable [PathMatch] {q q' : Queue}

structure Addressed (q : Queue) : Prop where
  configs : q.cfgIdx.Keyed
  groups : ∀ key g, q.groups.lookup key = some g → g.cfg.key = key

omit [PathMatch] in
theorem Addressed.new (name ns : Bytes) : (newQueue name ns).Addressed := by
  refine ⟨.new, ?_⟩
  intro key g hg
  cases hg

theorem Addressed.newGroup (h : q.Addressed) {key : Bytes} {g : Group}
    (hg : newGroup (q.resolveConfig key) = .ok g) :
    g.cfg.key = key := by
  rw [(Group.newGroup_ok hg).1]
  change (q.resolveConfig key).key = key
  unfold resolveConfig
  cases hc : q.cfgIdx.resolve key with
  | none => rfl
  | some c => exact h.configs.resolve hc

theorem Does.cfg {op : LiveOp} {key : Bytes} {a : GroupAct} {g g' : Group}
    {os : List (Bytes × Occurrence)} (hop : ∀ c, op ≠ .setGroupConfig c) (ha : op.Does key a)
    (hact : g.act a = .ok (g', os)) : g'.cfg = g.cfg := by
  cases a with
  | complete id =>
    cases hact
    exact (Group.complete_frees g id).cfg
  | fail id errMsg now =>
    obtain ⟨⟨g₁, dlq⟩, hfail, hret⟩ := bind_ok.mp hact
    cases hret
    exact (Group.fail_frees hfail).cfg
  | returnToPending id =>
    cases hact
    exact (Group.returnToPending_frees g id).cfg
  | promoteDelayed ord now =>
    cases hact
    exact (Group.promoteDelayed_frees g ord now).cfg
  | sweepGroup ord now =>
    cases hact
    exact (Group.sweepGroup_frees g ord now).cfg
  | nextDispatchable now =>
    obtain ⟨⟨g₁, d⟩, hnext, hret⟩ := bind_ok.mp hact
    cases hret
    exact Group.nextDispatchable_cfg hnext
  | setCounters deficit quantum =>
    cases hact
    rfl
  | applyConfig cfg key =>
    obtain ⟨c, rfl, -⟩ := ha
    exact absurd rfl (hop c)

theorem Addressed.exec {op : LiveOp} {r : Reply} (h : q.Addressed)
    (hexec : q.exec op = .ok (q', r)) :
    q'.Addressed := by
  refine ⟨exec_cfgIdx hexec ▸ h.configs.configure op, ?_⟩
  intro key g' hg'
  by_cases hop : ∀ c, op ≠ .setGroupConfig c
  · cases exec_actsOn hexec key with
    | absent before after seen => cases after.symm.trans hg'
    | created before new after seen =>
      cases after.symm.trans hg'
      exact h.newGroup new
    | @accepted g m publishes id before after seen =>
      cases after.symm.trans hg'
      change g.cfg.key = key
      rcases before with before | ⟨-, new⟩
      · exact h.groups key _ before
      · exact h.newGroup new
    | changed before after acts =>
      cases after.symm.trans hg'
      exact acts.keeps (fun g a g₁ os hg hdoes hact =>
        (congrArg GroupConfig.key (Does.cfg hop hdoes hact)).trans hg)
        (h.groups key _ before)
  · rw [not_forall_not] at hop
    obtain ⟨c, rfl⟩ := hop
    cases hexec
    rw [setGroupConfig, lookup_installConfig] at hg'
    obtain ⟨g, hg, rfl⟩ := Option.map_eq_some_iff.mp hg'
    generalize (if c.quantum ≤ 0 then { c with quantum := 1 } else c) = cfg
    split
    · rfl
    · exact h.groups key g hg

theorem importState_induct {motive : Queue → Prop} {ord : RangeOrder} {state : QueueState}
    (h : q.importState ord state = .ok q')
    (hgroup : ∀ (q : Queue) (gs : GroupState) (g : Group), motive q →
      Octar.newGroup { q.resolveConfig gs.key with parallelism := gs.parallelism, key := gs.key } =
        .ok g → motive (q.setGroup gs.key { g.importState gs with quantum := gs.quantum }))
    (hkeyIdx : ∀ (q : Queue) (keys : List Bytes), motive q → motive { q with keyIdx := keys })
    (hq : motive q) : motive q' := by
  obtain ⟨q₁, hq₁, hret⟩ := bind_ok.mp h
  cases hret
  apply hkeyIdx
  apply Run.induct (motive := fun q _ => motive q) _ hq hq₁
  intro q gs _ q' hq himport
  obtain ⟨g, hg, hret⟩ := bind_ok.mp himport
  cases hret
  exact hgroup q gs g hq hg

theorem Addressed.importState {ord : RangeOrder} {state : QueueState} (h : q.Addressed)
    (himport : q.importState ord state = .ok q') : q'.Addressed := by
  apply importState_induct himport _ (fun _ _ hq => ⟨hq.configs, hq.groups⟩) h
  intro q gs g hq hg
  refine ⟨hq.configs, ?_⟩
  intro key g' hg'
  by_cases hkey : key = gs.key
  · subst hkey
    rw [lookup_setGroup] at hg'
    cases hg'
    change g.cfg.key = gs.key
    rw [(Group.newGroup_ok hg).1]
    rfl
  · rw [lookup_setGroup_ne _ _ hkey] at hg'
    exact hq.groups key g' hg'

theorem Addressed.take {step : QueueStep} (h : q.Addressed) (htake : q.take step = .ok q') :
    q'.Addressed := by
  cases step with
  | live op =>
    obtain ⟨⟨q₁, r⟩, hexec, hret⟩ := bind_ok.mp htake
    cases hret
    exact h.exec hexec
  | importState ord state => exact h.importState htake

theorem Addressed.run {name ns : Bytes} {steps : List QueueStep}
    (h : Go.run Queue.take (newQueue name ns) steps = .ok q) : q.Addressed :=
  Run.induct (motive := fun q _ => q.Addressed)
    (fun _ _ _ _ hq htake => hq.take htake) (.new name ns) h

/-- The sweep at `now` ends the leases whose deadline is before it, names each of them once by the
key its group is stored under, and does nothing else. -/
structure Sweeps (now : Int) (q q' : Queue) (expired : List ExpiredLease) : Prop where
  once : expired.Nodup
  named : ∀ e, e ∈ expired ↔ e.ns = q.ns ∧ e.queueName = q.name ∧ ∃ g m,
    q.groups.lookup e.groupKey = some g ∧ g.processing.get? e.msgID = some m ∧ m.scheduledAt < now
  swept : ∀ key g, q.groups.lookup key = some g →
    ∃ g' back, q'.groups.lookup key = some g' ∧ g.Expires now g' back
  absent : ∀ key, q.groups.lookup key = none → q'.groups.lookup key = none
  rest : q' = { q with groups := q'.groups }

omit [PathMatch] in
theorem mem_sweepExpiredLeases {ord : RangeOrder} {now : Int} {e : ExpiredLease} :
    e ∈ (q.sweepExpiredLeases ord now).2 ↔ e.ns = q.ns ∧ e.queueName = q.name ∧ ∃ key g m,
      q.groups.lookup key = some g ∧ g.cfg.key = e.groupKey ∧ g.processing.get? e.msgID = some m ∧
        m.scheduledAt < now := by
  rw [sweepExpiredLeases, List.mem_flatMap]
  constructor
  · rintro ⟨⟨key, g⟩, hg, he⟩
    obtain ⟨id, hid, rfl⟩ := List.mem_map.mp he
    obtain ⟨m, hm, hlt⟩ := Group.mem_expiredIDs.mp hid
    exact ⟨rfl, rfl, key, g, m, AList.mem_lookup_iff.mpr ((ord.perm _).mem_iff.mp hg), rfl, hm, hlt⟩
  · rintro ⟨hns, hname, key, g, m, hg, hkey, hm, hlt⟩
    refine ⟨⟨key, g⟩, (ord.perm _).mem_iff.mpr (AList.mem_lookup_iff.mp hg), ?_⟩
    refine List.mem_map.mpr ⟨e.msgID, Group.mem_expiredIDs.mpr ⟨m, hm, hlt⟩, ?_⟩
    rw [hkey, ← hns, ← hname]

omit [PathMatch] in
theorem Addressed.nodup_sweepExpiredLeases (h : q.Addressed) (ord : RangeOrder) (now : Int) :
    (q.sweepExpiredLeases ord now).2.Nodup := by
  refine List.nodup_flatMap.mpr ⟨?_, ?_⟩
  · intro e _
    refine (Group.nodup_expiredIDs e.2 ord now).map ?_
    intro id id' heq
    exact (ExpiredLease.mk.inj heq).2.2.2
  · have hkeys : (ord.pick q.groups.entries).NodupKeys :=
      (List.perm_nodupKeys (ord.perm _)).mpr q.groups.nodupKeys
    refine (List.nodupKeys_iff_pairwise.mp hkeys).imp_of_mem ?_
    intro e e' he he' hne lease hlease hlease'
    obtain ⟨id, -, rfl⟩ := List.mem_map.mp hlease
    obtain ⟨id', -, heq⟩ := List.mem_map.mp hlease'
    have hkey : e'.2.cfg.key = e.2.cfg.key := (ExpiredLease.mk.inj heq).2.2.1
    have hstored := h.groups e.1 e.2 (AList.mem_lookup_iff.mpr ((ord.perm _).mem_iff.mp he))
    have hstored' := h.groups e'.1 e'.2 (AList.mem_lookup_iff.mpr ((ord.perm _).mem_iff.mp he'))
    exact hne (hstored.symm.trans (hkey.symm.trans hstored'))

/-- In every state a queue gets into, the sweep is exact, and what it returns can be addressed. -/
theorem sweepExpiredLeases_exact {name ns : Bytes} {steps : List QueueStep}
    (h : Go.run take (newQueue name ns) steps = .ok q) (ord : RangeOrder) (now : Int) :
    q.Sweeps now (q.sweepExpiredLeases ord now).1 (q.sweepExpiredLeases ord now).2 := by
  have haddressed := Addressed.run h
  have hgroups (key : Bytes) : (q.sweepExpiredLeases ord now).1.groups.lookup key =
      (q.groups.lookup key).map (sweepGroup ord now) := Map.lookup_mapTo ..
  refine ⟨haddressed.nodup_sweepExpiredLeases ord now, ?_, ?_, ?_, rfl⟩
  · intro e
    rw [mem_sweepExpiredLeases]
    constructor
    · rintro ⟨hns, hname, key, g, m, hg, hkey, hm⟩
      rw [haddressed.groups key g hg] at hkey
      subst hkey
      exact ⟨hns, hname, g, m, hg, hm⟩
    · rintro ⟨hns, hname, g, m, hg, hm⟩
      exact ⟨hns, hname, e.groupKey, g, m, hg, haddressed.groups _ g hg, hm⟩
  · intro key g hg
    obtain ⟨back, hback⟩ := Group.sweepGroup_expires g ord now
    refine ⟨_, back, ?_, hback⟩
    rw [hgroups, hg, Option.map_some]
  · intro key hg
    rw [hgroups, hg, Option.map_none]

@[reducible] def anyMatch : PathMatch := ⟨fun _ _ => true⟩

def importedLease : List QueueStep :=
  [.importState .inOrder ⟨[], [], (∅ : Map Bytes GroupState).insert (str "g") {
    key := str "g", parallelism := 1, quantum := 1, readyMsgs := [], urgentMsgs := [],
      delayedMsgs := [],
    processingMsgs :=
      some ((∅ : Map Bytes Message).insert (str "a") (newMessageAt [] [] (str "g") [] 5 (str "a")))
        }⟩,
    .live (.setGroupConfig (defaultGroupConfig (str "*")))]

omit [PathMatch] in
theorem sweepExpiredLeases_exact_imported : ∃ q,
    Go.run (@take anyMatch) (newQueue (str "q") (str "n")) importedLease = .ok q ∧
      (q.sweepExpiredLeases .inOrder 6).2 = [⟨str "n", str "q", str "g", str "a"⟩] ∧
      q.Sweeps 6 (q.sweepExpiredLeases .inOrder 6).1 (q.sweepExpiredLeases .inOrder 6).2 := by
  obtain ⟨q, hq, hexpired⟩ : ∃ q,
      Go.run (@take anyMatch) (newQueue (str "q") (str "n")) importedLease = .ok q ∧
        (q.sweepExpiredLeases .inOrder 6).2 = [⟨str "n", str "q", str "g", str "a"⟩] :=
    exists_ok (by decide +kernel)
  exact ⟨q, hq, hexpired, @sweepExpiredLeases_exact anyMatch q _ _ _ hq .inOrder 6⟩

end Queue

end Octar
