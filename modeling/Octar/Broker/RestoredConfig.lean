import Octar.Broker.Deployment
import Octar.Broker.Registry
import Octar.Queue.Sequential

namespace Octar

open Go

def GroupConfig.withQuantum (cfg : GroupConfig) : GroupConfig :=
  if cfg.quantum ≤ 0 then { cfg with quantum := 1 } else cfg

@[simp] theorem GroupConfig.key_withQuantum (cfg : GroupConfig) :
    cfg.withQuantum.key = cfg.key := by
  unfold GroupConfig.withQuantum
  split <;> rfl

variable [PathMatch]

def GroupConfig.Precedes (w c : GroupConfig) : Prop :=
  ∀ key, w.matchesKey key → c.matchesKey key → w.key < c.key

theorem GroupConfig.Precedes.congr {w w' c c' : GroupConfig} (h : w.Precedes c)
    (hw : w'.key = w.key) (hc : c'.key = c.key) : w'.Precedes c' := by
  intro key h₁ h₂
  rw [hw, hc]
  refine h key ?_ ?_
  · rw [GroupConfig.matchesKey, hw] at h₁
    exact h₁
  · rw [GroupConfig.matchesKey, hc] at h₂
    exact h₂

theorem GroupConfig.Precedes.key_ne {w c : GroupConfig} (h : w.Precedes c) : w.key ≠ c.key := by
  intro heq
  have hlt := h c.key (by simp [GroupConfig.matchesKey, heq]) (by simp [GroupConfig.matchesKey])
  rw [heq] at hlt
  exact List.lt_irrefl _ hlt

namespace ConfigIdx

variable {c w : GroupConfig} {ws : List GroupConfig}

omit [PathMatch] in
theorem mem_setWildcard_iff (h : ws.Pairwise fun v w => v.key ≠ w.key) :
    w ∈ setWildcard c ws ↔ w = c ∨ w ∈ ws ∧ w.key ≠ c.key := by
  induction ws with
  | nil => simp [setWildcard]
  | cons v ws ih =>
    rw [List.pairwise_cons] at h
    rw [setWildcard]
    split
    · rename_i hv
      have hne : w ∈ ws → w.key ≠ c.key := fun hw => hv ▸ (h.1 w hw).symm
      grind
    · rename_i hv
      rw [List.mem_cons, ih h.2, List.mem_cons]
      grind

omit [PathMatch] in
theorem mem_eraseP_iff {key : Bytes} (h : ws.Pairwise fun v w => v.key ≠ w.key) :
    w ∈ ws.eraseP (fun c => c.key == key) ↔ w ∈ ws ∧ w.key ≠ key := by
  induction ws with
  | nil => simp
  | cons v ws ih =>
    rw [List.pairwise_cons] at h
    rw [List.eraseP_cons]
    by_cases hv : v.key = key
    · have hne : w ∈ ws → w.key ≠ key := fun hw => hv ▸ (h.1 w hw).symm
      simp only [hv, beq_self_eq_true, cond_true]
      grind
    · rw [beq_false_of_ne hv, cond_false, List.mem_cons, ih h.2, List.mem_cons]
      grind

def Appendable (ci : ConfigIdx) (cfg : GroupConfig) : Prop :=
  isGlobPattern cfg.key → (∀ w ∈ ci.wildcards, w.key ≠ cfg.key) → ∀ w ∈ ci.wildcards, w.Precedes cfg

theorem pairwise_setWildcard (h : ws.Pairwise GroupConfig.Precedes)
    (hnew : (∀ w ∈ ws, w.key ≠ c.key) → ∀ w ∈ ws, w.Precedes c) :
    (setWildcard c ws).Pairwise GroupConfig.Precedes := by
  induction ws with
  | nil => exact List.pairwise_singleton _ _
  | cons v ws ih =>
    rw [List.pairwise_cons] at h
    rw [setWildcard]
    split
    · rename_i hv
      exact List.pairwise_cons.mpr ⟨fun w hw => (h.1 w hw).congr hv.symm rfl, h.2⟩
    · rename_i hv
      refine List.pairwise_cons.mpr ⟨?_, ih h.2 ?_⟩
      · intro w hw
        by_cases hall : ∀ w ∈ v :: ws, w.key ≠ c.key
        · rcases mem_setWildcard hw with rfl | hw
          · exact hnew hall v List.mem_cons_self
          · exact h.1 w hw
        · push Not at hall
          obtain ⟨u, hu, huc⟩ := hall
          rcases mem_setWildcard hw with rfl | hw
          · rcases List.mem_cons.mp hu with rfl | hu
            · exact absurd huc hv
            · exact (h.1 u hu).congr rfl huc.symm
          · exact h.1 w hw
      · intro hall w hw
        exact hnew (List.forall_mem_cons.mpr ⟨hv, hall⟩) w (List.mem_cons_of_mem v hw)

/-- The index of a queue holds the configs of its rows, the patterns in such an order that their
precedence is the order of the keys. -/
structure Mirrors (ci : ConfigIdx) (groups : Map Bytes GroupConfig) : Prop where
  keyed : ∀ key cfg, groups.lookup key = some cfg → cfg.key = key
  exact : ∀ key, ci.exact.lookup key =
    if isGlobPattern key then none else (groups.lookup key).map GroupConfig.withQuantum
  wildcards : ∀ c, c ∈ ci.wildcards ↔
    isGlobPattern c.key ∧ (groups.lookup c.key).map GroupConfig.withQuantum = some c
  ordered : ci.wildcards.Pairwise GroupConfig.Precedes

namespace Mirrors

variable {ci ci' : ConfigIdx} {groups groups' : Map Bytes GroupConfig}

theorem empty : Mirrors newConfigIdx ∅ := by
  refine ⟨?_, ?_, ?_, .nil⟩
  · intro key cfg h
    cases h
  · intro key
    split <;> rfl
  · intro c
    simp [newConfigIdx]

theorem keys_ne (h : Mirrors ci groups) : ci.wildcards.Pairwise fun v w => v.key ≠ w.key :=
  h.ordered.imp GroupConfig.Precedes.key_ne

theorem set (h : Mirrors ci groups) {cfg : GroupConfig} (hcfg : ci.Appendable cfg) :
    Mirrors (ci.set cfg.withQuantum) (groups.insert cfg.key cfg) := by
  have hkeyed : ∀ key c, (groups.insert cfg.key cfg).lookup key = some c → c.key = key := by
    intro key c hc
    by_cases hkey : key = cfg.key
    · subst hkey
      rw [AList.lookup_insert] at hc
      cases hc
      rfl
    · rw [AList.lookup_insert_ne hkey] at hc
      exact h.keyed key c hc
  unfold ConfigIdx.set
  rw [GroupConfig.key_withQuantum]
  split
  · rename_i hglob
    refine ⟨hkeyed, ?_, ?_, ?_⟩
    · intro key
      rw [h.exact]
      by_cases hkey : key = cfg.key
      · subst hkey
        rw [if_pos hglob, if_pos hglob]
      · rw [AList.lookup_insert_ne hkey]
    · intro c
      rw [mem_setWildcard_iff h.keys_ne, GroupConfig.key_withQuantum, h.wildcards]
      by_cases hkey : c.key = cfg.key
      · rw [hkey, AList.lookup_insert]
        simp [hglob, eq_comm]
      · have hne : c ≠ cfg.withQuantum := by
          rintro rfl
          exact hkey cfg.key_withQuantum
        rw [AList.lookup_insert_ne hkey]
        simp [hkey, hne]
    · refine pairwise_setWildcard h.ordered ?_
      intro hnew w hw
      rw [cfg.key_withQuantum] at hnew
      exact (hcfg hglob hnew w hw).congr rfl cfg.key_withQuantum
  · rename_i hglob
    refine ⟨hkeyed, ?_, ?_, h.ordered⟩
    · intro key
      by_cases hkey : key = cfg.key
      · subst hkey
        rw [AList.lookup_insert, AList.lookup_insert, if_neg hglob]
        rfl
      · rw [AList.lookup_insert_ne hkey, AList.lookup_insert_ne hkey, h.exact]
    · intro c
      rw [h.wildcards]
      by_cases hkey : c.key = cfg.key
      · simp [hkey, hglob]
      · rw [AList.lookup_insert_ne hkey]

theorem del (h : Mirrors ci groups) {key : Bytes} (hfound : (ci.del key).2 = true) :
    Mirrors (ci.del key).1 (groups.erase key) := by
  have hkeyed : ∀ k c, (groups.erase key).lookup k = some c → c.key = k := by
    intro k c hc
    by_cases hk : k = key
    · subst hk
      rw [AList.lookup_erase] at hc
      cases hc
    · rw [AList.lookup_erase_ne hk] at hc
      exact h.keyed k c hc
  unfold ConfigIdx.del at hfound ⊢
  split at hfound
  · rename_i hsome
    rw [if_pos hsome]
    have hglob : ¬isGlobPattern key := by
      intro hglob
      rw [h.exact, if_pos hglob] at hsome
      cases hsome
    refine ⟨hkeyed, ?_, ?_, h.ordered⟩
    · intro k
      by_cases hk : k = key
      · subst hk
        rw [AList.lookup_erase, AList.lookup_erase, if_neg hglob]
        rfl
      · rw [AList.lookup_erase_ne hk, AList.lookup_erase_ne hk, h.exact]
    · intro c
      rw [h.wildcards]
      by_cases hk : c.key = key
      · simp [hk, hglob]
      · rw [AList.lookup_erase_ne hk]
  · rename_i hnone
    rw [if_neg hnone]
    split at hfound
    · rename_i hany
      rw [if_pos hany]
      obtain ⟨w, hw, hwkey⟩ := List.any_eq_true.mp hany
      have hglob : isGlobPattern key := eq_of_beq hwkey ▸ ((h.wildcards w).mp hw).1
      refine ⟨hkeyed, ?_, ?_, h.ordered.sublist List.eraseP_sublist⟩
      · intro k
        rw [h.exact]
        by_cases hk : k = key
        · subst hk
          rw [if_pos hglob, if_pos hglob]
        · rw [AList.lookup_erase_ne hk]
      · intro c
        rw [mem_eraseP_iff h.keys_ne, h.wildcards]
        by_cases hk : c.key = key
        · subst hk
          simp
        · rw [AList.lookup_erase_ne hk]
          simp [hk]
    · cases hfound

theorem foldl {l : List GroupConfig} (h : Mirrors ci groups)
    (hl : l.Pairwise fun a b => a.key < b.key)
    (hbefore : ∀ key cfg, groups.lookup key = some cfg → ∀ c ∈ l, key < c.key) :
    Mirrors (l.foldl (fun ci c => ci.set c.withQuantum) ci)
      (l.foldl (fun m c => m.insert c.key c) groups) := by
  induction l generalizing ci groups with
  | nil => exact h
  | cons c l ih =>
    rw [List.pairwise_cons] at hl
    refine ih (h.set ?_) hl.2 ?_
    · intro _ _ w hw key _ _
      obtain ⟨-, hrow⟩ := (h.wildcards w).mp hw
      obtain ⟨cfg, hcfg, -⟩ := Option.map_eq_some_iff.mp hrow
      exact hbefore w.key cfg hcfg c List.mem_cons_self
    · intro key cfg hlookup c' hc'
      by_cases hkey : key = c.key
      · subst hkey
        exact hl.1 c' hc'
      · rw [AList.lookup_insert_ne hkey] at hlookup
        exact hbefore key cfg hlookup c' (List.mem_cons_of_mem c hc')

theorem resolve_eq (h : Mirrors ci groups) (h' : Mirrors ci' groups')
    (hgroups : ∀ key, groups.lookup key = groups'.lookup key) (key : Bytes) :
    ci.resolve key = ci'.resolve key := by
  have hfind : ci.wildcards.find? (fun c => c.matchesKey key) = ci'.wildcards.find? fun c =>
      c.matchesKey key := by
    refine find?_eq_of_ordered (r := fun v w => v.key < w.key)
      (fun v w hvw => List.lt_asymm hvw) ?_ ?_ ?_
    · exact h.ordered.imp fun hvw => hvw key
    · exact h'.ordered.imp fun hvw => hvw key
    · intro c
      rw [h.wildcards, h'.wildcards, hgroups]
  rw [resolve, resolve, h.exact, h'.exact, hgroups, hfind]

end Mirrors

end ConfigIdx

namespace Deployment

section restored

variable {groups : Map Bytes GroupConfig}

omit [PathMatch] in
theorem mem_listGroups (hkeyed : ∀ key cfg, groups.lookup key = some cfg → cfg.key = key)
    {c : GroupConfig} :
    c ∈ listGroups groups ↔ groups.lookup c.key = some c := by
  have hstamp : ∀ {key cfg}, groups.lookup key = some cfg → { cfg with key := key } = cfg := by
    intro key cfg h
    rw [← hkeyed key cfg h]
  simp only [listGroups, List.mem_filterMap, List.mem_insertionSort, Option.map_eq_some_iff]
  constructor
  · rintro ⟨key, -, cfg, hcfg, rfl⟩
    rw [hstamp hcfg, hkeyed key cfg hcfg]
    exact hcfg
  · intro h
    exact ⟨c.key, AList.lookup_isSome.mp (h ▸ rfl), c, h, rfl⟩

omit [PathMatch] in
theorem pairwise_listGroups : (listGroups groups).Pairwise fun a b => a.key < b.key := by
  refine List.Pairwise.filterMap _ ?_ (pairwise_insertionSort groups.keys_nodup)
  intro key key' hlt a ha b hb
  obtain ⟨cfg, -, rfl⟩ := Option.map_eq_some_iff.mp ha
  obtain ⟨cfg', -, rfl⟩ := Option.map_eq_some_iff.mp hb
  exact hlt

theorem cfgIdx_setGroupConfig (q : Queue) (cfg : GroupConfig) :
    (q.setGroupConfig cfg).cfgIdx = q.cfgIdx.set cfg.withQuantum := by
  change (q.installConfig cfg.withQuantum).cfgIdx = _
  unfold Queue.installConfig
  split
  · rfl
  · cases h : q.groups.lookup cfg.withQuantum.key with
    | none => simp only [h]
    | some g =>
      simp only [h]
      rfl

theorem cfgIdx_foldl (l : List GroupConfig) (q : Queue) :
    (l.foldl Queue.setGroupConfig q).cfgIdx =
      l.foldl (fun ci c => ci.set c.withQuantum) q.cfgIdx := by
  induction l generalizing q with
  | nil => rfl
  | cons c l ih => rw [List.foldl_cons, ih, cfgIdx_setGroupConfig, List.foldl_cons]

omit [PathMatch] in
theorem lookup_foldl_listGroups (hkeyed : ∀ key cfg, groups.lookup key = some cfg → cfg.key = key)
    (key : Bytes) :
    ((listGroups groups).foldl (fun m c => m.insert c.key c) (∅ : Map Bytes GroupConfig)).lookup
      key = groups.lookup key := by
  have hof : ∀ {c}, ((listGroups groups).foldl (fun m c => m.insert c.key c)
      (∅ : Map Bytes GroupConfig)).lookup key = some c → groups.lookup key = some c := by
    intro c hc
    rcases Map.lookup_foldl_insert hc with hc | ⟨c', hc', rfl, rfl⟩
    · cases hc
    · exact (mem_listGroups hkeyed).mp hc'
  refine Option.ext fun c => ⟨hof, fun h => ?_⟩
  have hkey := hkeyed key c h
  subst hkey
  obtain ⟨c', hc'⟩ :=
    Option.isSome_iff_exists.mp (Map.isSome_foldl_insert (m := (∅ : Map Bytes GroupConfig))
      (f := GroupConfig.key) (v := id) (.inr ⟨c, (mem_listGroups hkeyed).mpr h, rfl⟩))
  have hcfg := hof hc'
  rw [h] at hcfg
  rw [hcfg]
  exact hc'

theorem resolveConfig_restoreQueue {q : Queue} {id : Bytes × Bytes} {row : QueueRow}
    (h : q.cfgIdx.Mirrors row.groups) (key : Bytes) :
    (restoreQueue id row).resolveConfig key = q.resolveConfig key := by
  have hrestored : (restoreQueue id row).cfgIdx.Mirrors
      ((listGroups row.groups).foldl (fun m c => m.insert c.key c) ∅) := by
    rw [restoreQueue, cfgIdx_foldl]
    refine ConfigIdx.Mirrors.empty.foldl pairwise_listGroups ?_
    intro key cfg hlookup
    cases hlookup
  rw [Queue.resolveConfig, Queue.resolveConfig,
    hrestored.resolve_eq h (lookup_foldl_listGroups h.keyed)]

end restored

/-- The requests of the configuration whose effect the database keeps: the durability is the
default, a group key has the form of the store, and a new pattern comes after those that match a key
with it. -/
def Storable (d : Deployment) : DeploymentStep → Prop
  | .declareQueue _ _ durable => ∀ b ∈ durable, b = d.defaultDurable
  | .setGroupConfig ns name cfg =>
    groupKeyPattern cfg.key ∧ ∀ q ∈ d.getQueue ns name, q.cfgIdx.Appendable cfg
  | .deleteGroupConfig _ _ _ => True
  | .deleteQueue _ _ | .publish _ _ _ _ _ _ | .work _ _ _ _ | .late _ _ _ | .restart _ => False

structure Stored (d : Deployment) : Prop where
  names : ∀ {ns name}, (d.rows.lookup (ns, name)).isSome → 47 ∉ ns ∧ 47 ∉ name
  registered : ∀ ns name, (d.getQueue ns name).isSome ↔ (d.rows.lookup (ns, name)).isSome
  mirrors : ∀ {ns name q row}, d.getQueue ns name = some q → d.rows.lookup (ns, name) = some row →
    q.cfgIdx.Mirrors row.groups
  durable : ∀ {key b}, d.durable.lookup key = some b → b = d.defaultDurable

namespace Stored

variable {d d' : Deployment} {ns name : Bytes}

theorem start (defaultDurable : Bool) (namespaces : List { ns : Bytes // namePattern ns }) :
    (start defaultDurable namespaces).Stored where
  names := by
    intro ns name h
    cases h
  registered ns name := Iff.rfl
  mirrors := by
    intro ns name q row h
    cases h
  durable := by
    intro key b h
    cases h

theorem row (h : d.Stored) {q : Queue} (hq : d.getQueue ns name = some q) :
    ∃ row, d.rows.lookup (ns, name) = some row :=
  Option.isSome_iff_exists.mp ((h.registered ns name).mp (hq ▸ rfl))

theorem replace (h : d.Stored) {q : Queue} (row : QueueRow) (hns : 47 ∉ ns) (hname : 47 ∉ name)
    (hmirrors : q.cfgIdx.Mirrors row.groups)
    (hdurable : ∀ {key b}, d'.durable.lookup key = some b → b = d'.defaultDurable)
    (hqueues : d'.queues = d.queues.insert (queueKey ns name) q)
    (hrows : d'.rows = d.rows.insert (ns, name) row) : d'.Stored := by
  have hother : ∀ {ns' name'}, (ns', name') ≠ (ns, name) →
      d'.getQueue ns' name' = d.getQueue ns' name' ∧
        d'.rows.lookup (ns', name') = d.rows.lookup (ns', name') := by
    intro ns' name' hne
    have hkey : queueKey ns' name' ≠ queueKey ns name := by
      intro hkey
      obtain ⟨rfl, rfl⟩ := queueKey_inj hns hname hkey
      exact hne rfl
    rw [getQueue, hqueues, hrows, AList.lookup_insert_ne hkey, AList.lookup_insert_ne hne]
    exact ⟨rfl, rfl⟩
  have hself : d'.getQueue ns name = some q ∧ d'.rows.lookup (ns, name) = some row := by
    rw [getQueue, hqueues, hrows, AList.lookup_insert, AList.lookup_insert]
    exact ⟨rfl, rfl⟩
  refine ⟨?_, ?_, ?_, hdurable⟩
  · intro ns' name' hrow
    by_cases heq : (ns', name') = (ns, name)
    · cases heq
      exact ⟨hns, hname⟩
    · rw [(hother heq).2] at hrow
      exact h.names hrow
  · intro ns' name'
    by_cases heq : (ns', name') = (ns, name)
    · cases heq
      rw [hself.1, hself.2]
      exact Iff.rfl
    · rw [(hother heq).1, (hother heq).2]
      exact h.registered ns' name'
  · intro ns' name' q' row' hq' hrow'
    by_cases heq : (ns', name') = (ns, name)
    · cases heq
      rw [hself.1] at hq'
      rw [hself.2] at hrow'
      cases hq'
      cases hrow'
      exact hmirrors
    · rw [(hother heq).1] at hq'
      rw [(hother heq).2] at hrow'
      exact h.mirrors hq' hrow'

theorem declareQueue (h : d.Stored) {durable : Option Bool}
    (hdurable : ∀ b ∈ durable, b = d.defaultDurable)
    (hd : d.declareQueue ns name durable = .ok d') : d'.Stored := by
  obtain ⟨hns, hname, -, -, rfl⟩ := declareQueue_ok hd
  refine h.replace _ (not_slash_of_hasNamespace hns) hname ConfigIdx.Mirrors.empty ?_ rfl rfl
  intro key b hb
  by_cases hkey : key = queueKey ns name
  · subst hkey
    rw [AList.lookup_insert] at hb
    cases hb
    cases durable with
    | none => rfl
    | some b => exact hdurable b rfl
  · rw [AList.lookup_insert_ne hkey] at hb
    exact h.durable hb

theorem setGroupConfig (h : d.Stored) {cfg : GroupConfig} (hkey : groupKeyPattern cfg.key)
    (hcfg : ∀ q ∈ d.getQueue ns name, q.cfgIdx.Appendable cfg)
    (hd : d.setGroupConfig ns name cfg = .ok d') : d'.Stored := by
  obtain ⟨q, hq, rfl⟩ := setGroupConfig_ok hd
  obtain ⟨row, hrow⟩ := h.row hq
  obtain ⟨hns, hname⟩ := h.names (hrow ▸ rfl : (d.rows.lookup (ns, name)).isSome)
  have hmirrors : (q.setGroupConfig cfg).cfgIdx.Mirrors (row.groups.insert cfg.key cfg) := by
    rw [cfgIdx_setGroupConfig]
    exact (h.mirrors hq hrow).set (hcfg q hq)
  have hpersist : (d.setQueue ns name (q.setGroupConfig cfg)).persistGroupConfig ns name cfg =
      { d.setQueue ns name (q.setGroupConfig cfg) with
        rows := d.rows.insert (ns, name)
          { row with groups := row.groups.insert cfg.key cfg } } := by
    simp only [persistGroupConfig, updateRow, setQueue, hrow, hkey, if_true]
  rw [hpersist]
  exact h.replace { row with groups := row.groups.insert cfg.key cfg } hns hname hmirrors
    h.durable rfl rfl

theorem deleteGroupConfig (h : d.Stored) {key : Bytes}
    (hd : d.deleteGroupConfig ns name key = .ok d') :
    d'.Stored := by
  obtain ⟨q, hq, hfound, rfl⟩ := deleteGroupConfig_ok hd
  obtain ⟨row, hrow⟩ := h.row hq
  obtain ⟨hns, hname⟩ := h.names (hrow ▸ rfl : (d.rows.lookup (ns, name)).isSome)
  have hmirrors : (q.deleteGroupConfig key).1.cfgIdx.Mirrors (row.groups.erase key) :=
    (h.mirrors hq hrow).del hfound
  have hdelete : (d.setQueue ns name (q.deleteGroupConfig key).1).deleteGroupRow ns name key =
      { d.setQueue ns name (q.deleteGroupConfig key).1 with
        rows := d.rows.insert (ns, name) { row with groups := row.groups.erase key } } := by
    simp only [deleteGroupRow, updateRow, setQueue, hrow]
  rw [hdelete]
  exact h.replace { row with groups := row.groups.erase key } hns hname hmirrors h.durable rfl rfl

theorem step (h : d.Stored) {r : DeploymentStep} (hr : d.Storable r) (hd : d.step r = .ok d') :
    d'.Stored := by
  cases r with
  | declareQueue ns name durable => exact h.declareQueue hr hd
  | setGroupConfig ns name cfg => exact h.setGroupConfig hr.1 hr.2 hd
  | deleteGroupConfig ns name key => exact h.deleteGroupConfig hd
  | deleteQueue | publish | work | late | restart => exact hr.elim

end Stored

/-- In every run of such requests, a new process that restores from the database has the queues that
are declared and no other, each with the durability and for every group key the config it had. -/
theorem restoreFromDB_preserves_configuration {defaultDurable : Bool}
    {namespaces : List { ns : Bytes // namePattern ns }} {d : Deployment}
    (hd : Reachable Deployment.step Storable (start defaultDurable namespaces) d)
    (ns name : Bytes) :
    ((d.getQueue ns name).isSome ↔ (d.rows.lookup (ns, name)).isSome) ∧
      ((d.restoreFromDB.getQueue ns name).isSome ↔ (d.getQueue ns name).isSome) ∧
      d.restoreFromDB.queueDurable ns name = d.queueDurable ns name ∧
      ∀ q ∈ d.getQueue ns name, ∀ q' ∈ d.restoreFromDB.getQueue ns name, ∀ key,
        q'.resolveConfig key = q.resolveConfig key := by
  have h : d.Stored :=
    hd.invariant (.start defaultDurable namespaces) fun _ _ _ hs hr hstep => hs.step hr hstep
  have hrow : ∀ {q'}, d.restoreFromDB.getQueue ns name = some q' →
      ∃ row, d.rows.lookup (ns, name) = some row ∧ q' = restoreQueue (ns, name) row := by
    intro q' hq'
    obtain ⟨id, row, hrow, hkey, rfl⟩ := getQueue_restoreFromDB hq'
    obtain ⟨hns, hname⟩ := h.names (hrow ▸ rfl : (d.rows.lookup (id.1, id.2)).isSome)
    obtain ⟨rfl, rfl⟩ := queueKey_inj hns hname hkey.symm
    exact ⟨row, hrow, rfl⟩
  refine ⟨h.registered ns name, ⟨?_, ?_⟩, ?_, ?_⟩
  · intro hsome
    obtain ⟨q', hq'⟩ := Option.isSome_iff_exists.mp hsome
    obtain ⟨row, hrow', -⟩ := hrow hq'
    exact (h.registered ns name).mpr (hrow' ▸ rfl)
  · exact fun hsome => isSome_getQueue_restoreFromDB ((h.registered ns name).mp hsome)
  · change d.defaultDurable = d.queueDurable ns name
    unfold queueDurable
    cases hdur : d.durable.lookup (queueKey ns name) with
    | none => rfl
    | some b => exact (h.durable hdur).symm
  · intro q hq q' hq' key
    obtain ⟨row, hrow', rfl⟩ := hrow hq'
    exact resolveConfig_restoreQueue (h.mirrors hq hrow') key

@[reducible] def starMatch : PathMatch := ⟨matchGlob⟩

def parallel (key : Bytes) (parallelism : Int) : GroupConfig :=
  { defaultGroupConfig key with parallelism := parallelism }

def configureJobs (key : Bytes) (parallelism : Int) : DeploymentStep :=
  .setGroupConfig (str "acme") (str "jobs") (parallel key parallelism)

def storableCheck (d : Deployment) : DeploymentStep → Bool
  | .declareQueue _ _ durable => durable.all (· = d.defaultDurable)
  | .setGroupConfig ns name cfg =>
    groupKeyPattern cfg.key && (d.getQueue ns name).all fun q =>
      q.cfgIdx.wildcards.all fun w => w.key < cfg.key
  | .deleteGroupConfig _ _ _ => true
  | .deleteQueue _ _ | .publish _ _ _ _ _ _ | .work _ _ _ _ | .late _ _ _ | .restart _ => false

theorem storable_of_check (d : Deployment) (r : DeploymentStep) (h : d.storableCheck r = true) :
    d.Storable r := by
  cases r with
  | declareQueue ns name durable =>
    intro b hb
    cases hb
    exact of_decide_eq_true h
  | setGroupConfig ns name cfg =>
    obtain ⟨hkey, hq⟩ := Bool.and_eq_true_iff.mp h
    refine ⟨hkey, ?_⟩
    intro q hmem _ _ w hw key _ _
    rw [Option.mem_def.mp hmem] at hq
    exact of_decide_eq_true (List.all_eq_true.mp hq w hw)
  | deleteGroupConfig => exact trivial
  | deleteQueue | publish | work | late | restart => exact absurd h Bool.false_ne_true

def parallelismOf (d : Deployment) (key : Bytes) : Option Int × Option Int :=
  ((d.getQueue (str "acme") (str "jobs")).map fun q => (q.resolveConfig key).parallelism,
    (d.restoreFromDB.getQueue (str "acme") (str "jobs")).map fun q =>
      (q.resolveConfig key).parallelism)

omit [PathMatch] in
theorem restoreFromDB_preserves_configuration_sample :
    ∃ d, Reachable (@Deployment.step starMatch) (@Storable starMatch)
      (start true sampleNamespaces) d ∧
      (@parallelismOf starMatch d (str "eu-1") = (some 2, some 2)) ∧
      (@restoreFromDB starMatch d).queueDurable (str "acme") (str "jobs") =
        d.queueDurable (str "acme") (str "jobs") := by
  have htrace : (run (checked (@Deployment.step starMatch) storableCheck queueNotFound)
      (start true sampleNamespaces)
      [declareJobs none, configureJobs (str "*-1") 2, configureJobs (str "eu-*") 3,
        configureJobs (str "eu-1") 4,
        .deleteGroupConfig (str "acme") (str "jobs") (str "eu-1")]).toOption.any
      (fun d => decide (@parallelismOf starMatch d (str "eu-1") = (some 2, some 2))) = true := by
    decide
  obtain ⟨d, hreach, hd⟩ := Reachable.ofTrace (@storable_of_check starMatch) _ _ htrace
  exact ⟨d, hreach, of_decide_eq_true hd,
    (@restoreFromDB_preserves_configuration starMatch _ _ d hreach (str "acme") (str "jobs")).2.2.1⟩

omit [PathMatch] in
/-- The durability a queue was declared with is not restored, a config under a key that the store
refuses is lost, and patterns are restored in another order than they were declared in. -/
theorem restart_changes_configuration :
    (∃ d, run (@Deployment.step literalMatch) (start true sampleNamespaces)
      [declareJobs (some false)] = .ok d ∧ d.queueDurable (str "acme") (str "jobs") = false ∧
        (@restoreFromDB literalMatch d).queueDurable (str "acme") (str "jobs") = true) ∧
    (∃ d, run (@Deployment.step literalMatch) (start true sampleNamespaces)
        [declareJobs none, configureJobs (str "EU") 4] = .ok d ∧
      @parallelismOf literalMatch d (str "EU") = (some 4, some 1)) ∧
    (∃ d, run (@Deployment.step starMatch) (start true sampleNamespaces)
        [declareJobs none, configureJobs (str "eu-*") 3, configureJobs (str "*-1") 2] = .ok d ∧
      @parallelismOf starMatch d (str "eu-1") = (some 3, some 2)) := by
  refine ⟨exists_ok ?_, exists_ok ?_, exists_ok ?_⟩
  · decide
  · decide
  · decide

end Deployment

end Octar
