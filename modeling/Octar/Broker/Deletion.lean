import Octar.Broker.Deployment
import Octar.Broker.ReplayMoves
import Octar.Queue.Phase

namespace Octar

open Go

/-- A deployment with its history: the identifiers generated so far, the queues that are deleted and
not declared since, and for each name the identifiers that had been generated when it was last
deleted. -/
structure History where
  deployment : Deployment
  issued : List Bytes
  deleted : List (Bytes × Bytes)
  before : Bytes × Bytes → List Bytes

def DeploymentStep.msgID : DeploymentStep → Option Bytes
  | .publish _ _ _ msgID _ _ => some msgID
  | _ => none

namespace History

def start (defaultDurable : Bool) (namespaces : List { ns : Bytes // namePattern ns }) : History :=
  ⟨.start defaultDurable namespaces, [], [], fun _ => []⟩

def record (h : History) (deployment : Deployment) : DeploymentStep → History
  | .declareQueue ns name _ => { h with deployment, deleted := h.deleted.filter (· ≠ (ns, name)) }
  | .deleteQueue ns name =>
    { h with
      deployment
      deleted := (ns, name) :: h.deleted
      before := Function.update h.before (ns, name) h.issued }
  | .publish _ _ _ msgID _ _ => { h with deployment, issued := msgID :: h.issued }
  | .setGroupConfig _ _ _ | .deleteGroupConfig _ _ _ | .work _ _ _ _ | .late _ _ _ | .restart _ =>
    { h with deployment }

def step [PathMatch] (h : History) (r : DeploymentStep) : Except (Option ApiError) History :=
  if r.msgID.any fun id => id ∈ h.issued then .error none
  else
    match h.deployment.step r with
    | .error e => .error (some e)
    | .ok d => .ok (h.record d r)

theorem step_ok [PathMatch] {h h' : History} {r : DeploymentStep} (hstep : h.step r = .ok h') :
    (∀ id ∈ r.msgID, id ∉ h.issued) ∧ ∃ d, h.deployment.step r = .ok d ∧ h' = h.record d r := by
  unfold step at hstep
  split at hstep
  · cases hstep
  rename_i hnew
  split at hstep
  · cases hstep
  rename_i d hd
  cases hstep
  refine ⟨?_, d, hd, rfl⟩
  intro id hid hold
  rw [Option.mem_def.mp hid] at hnew
  exact hnew (decide_eq_true hold)

/-- A deletion finds the writer of the queue open, or no directory, and no record comes too late for
a queue that is not registered. -/
def Destroys (h : History) : DeploymentStep → Prop
  | .deleteQueue ns name =>
    queueKey ns name ∈ h.deployment.writers ∨ h.deployment.dirs.lookup (ns, name) = none
  | .late ns name _ => (h.deployment.getQueue ns name).isSome
  | _ => True

def Newer (h : History) (id : Bytes × Bytes) (x : Loc × Message) : Prop := x.2.id ∉ h.before id

theorem closed_newer (h : History) (id : Bytes × Bytes) : Closed (h.Newer id) where
  expired hx := hx
  due hx := hx
  leased _ hx := hx
  retried _ _ hx := hx

structure Clean (h : History) (id : Bytes × Bytes) : Prop where
  row : (h.deployment.rows.lookup id).isSome → h.deployment.hasNamespace id.1 ∧ 47 ∉ id.2
  dirName : (h.deployment.dirs.lookup id).isSome → 47 ∉ id.1 ∧ 47 ∉ id.2
  queueName : (h.deployment.getQueue id.1 id.2).isSome → 47 ∉ id.1 ∧ 47 ∉ id.2
  queue : ∀ q ∈ h.deployment.getQueue id.1 id.2, q.Each (h.Newer id)
  dir : ∀ records ∈ h.deployment.dirs.lookup id, ∀ e ∈ records, e.type = .publish →
    e.msgID ∉ h.before id
  deleted : id ∈ h.deleted → h.deployment.getQueue id.1 id.2 = none ∧
    h.deployment.rows.lookup id = none ∧ h.deployment.dirs.lookup id = none
  issued : ∀ msgID ∈ h.before id, msgID ∈ h.issued

structure Keeps (h h' : History) (id : Bytes × Bytes) : Prop where
  queue : h'.deployment.getQueue id.1 id.2 = h.deployment.getQueue id.1 id.2
  row : h'.deployment.rows.lookup id = h.deployment.rows.lookup id
  dir : h'.deployment.dirs.lookup id = h.deployment.dirs.lookup id
  before : h'.before id = h.before id
  deleted : id ∈ h'.deleted → id ∈ h.deleted

section steps

variable {h h' : History} {d : Deployment} {ns name : Bytes}

theorem Clean.keeps {id : Bytes × Bytes} (hc : h.Clean id) (hk : h.Keeps h' id)
    (hnamespaces : h'.deployment.namespaces = h.deployment.namespaces)
    (hissued : ∀ msgID ∈ h.issued, msgID ∈ h'.issued) : h'.Clean id := by
  have hnewer : h'.Newer id = h.Newer id := by
    funext x
    rw [Newer, Newer, hk.before]
  refine ⟨?_, ?_, ?_, ?_, ?_, ?_, ?_⟩
  · rw [hk.row, Deployment.hasNamespace, hnamespaces]
    exact hc.row
  · rw [hk.dir]
    exact hc.dirName
  · rw [hk.queue]
    exact hc.queueName
  · rw [hk.queue, hnewer]
    exact hc.queue
  · rw [hk.dir, hk.before]
    exact hc.dir
  · rw [hk.queue, hk.row, hk.dir]
    exact fun hdel => hc.deleted (hk.deleted hdel)
  · rw [hk.before]
    exact fun msgID hid => hissued msgID (hc.issued msgID hid)

theorem clean_start (defaultDurable : Bool) (namespaces : List { ns : Bytes // namePattern ns })
    (id : Bytes × Bytes) : (start defaultDurable namespaces).Clean id where
  row hrow := by cases hrow
  dirName hdir := by cases hdir
  queueName hq := by cases hq
  queue q hq := by cases hq
  dir records hdir := by cases hdir
  deleted hdel := by cases hdel
  issued msgID hid := by cases hid

theorem clean_of_keeps (n : Bytes × Bytes) (hc : ∀ id, h.Clean id)
    (hother : ∀ id, id ≠ n → h.Keeps h' id) (hself : h'.Clean n)
    (hnamespaces : h'.deployment.namespaces = h.deployment.namespaces)
    (hissued : ∀ msgID ∈ h.issued, msgID ∈ h'.issued) (id : Bytes × Bytes) : h'.Clean id := by
  by_cases hid : id = n
  · subst hid
    exact hself
  · exact (hc id).keeps (hother id hid) hnamespaces hissued

theorem queueKey_ne (hns : 47 ∉ ns) (hname : 47 ∉ name) {id : Bytes × Bytes}
    (hid : id ≠ (ns, name)) :
    queueKey id.1 id.2 ≠ queueKey ns name := by
  intro hkey
  obtain ⟨h₁, h₂⟩ := queueKey_inj hns hname hkey
  exact hid (Prod.ext h₁ h₂)

theorem clean_declareQueue (hc : ∀ id, h.Clean id) {durable : Option Bool}
    (hd : h.deployment.declareQueue ns name durable = .ok d) (id : Bytes × Bytes) :
    (h.record d (.declareQueue ns name durable)).Clean id := by
  obtain ⟨hnamespace, hname, hnone, hrow, rfl⟩ := Deployment.declareQueue_ok hd
  have hns := Deployment.not_slash_of_hasNamespace hnamespace
  refine clean_of_keeps (ns, name) hc ?_ ?_ ?_ ?_ id
  · intro id hid
    refine ⟨AList.lookup_insert_ne (queueKey_ne hns hname hid),
      AList.lookup_insert_ne hid, rfl, rfl, ?_⟩
    exact fun hdel => (List.mem_filter.mp hdel).1
  · refine ⟨fun _ => ⟨hnamespace, hname⟩, (hc _).dirName, fun _ => ⟨hns, hname⟩, ?_, (hc _).dir,
      ?_, (hc _).issued⟩
    · intro q hq
      cases (AList.lookup_insert h.deployment.queues).symm.trans hq
      exact .ofEmpty rfl
    · intro hdel
      exact absurd rfl (of_decide_eq_true (List.mem_filter.mp hdel).2)
  · rfl
  · exact fun _ hid => hid

theorem clean_onQueue (hc : ∀ id, h.Clean id) {q q' : Queue} {issued : List Bytes}
    (hq : h.deployment.getQueue ns name = some q) (hq' : q'.Each (h.Newer (ns, name)))
    (hqueues : d.queues = h.deployment.queues.insert (queueKey ns name) q')
    (hnamespaces : d.namespaces = h.deployment.namespaces)
    (hrows : ∀ id, id ≠ (ns, name) → d.rows.lookup id = h.deployment.rows.lookup id)
    (hrow : (d.rows.lookup (ns, name)).isSome → (h.deployment.rows.lookup (ns, name)).isSome)
    (hdirs : ∀ id, id ≠ (ns, name) → d.dirs.lookup id = h.deployment.dirs.lookup id)
    (hdir : ∀ records ∈ d.dirs.lookup (ns, name), ∀ e ∈ records, e.type = .publish →
      e.msgID ∉ h.before (ns, name)) (hissued : ∀ msgID ∈ h.issued, msgID ∈ issued)
    (id : Bytes × Bytes) :
    Clean { h with deployment := d, issued := issued } id := by
  have hnames := (hc (ns, name)).queueName (hq ▸ rfl : (h.deployment.getQueue ns name).isSome)
  refine clean_of_keeps (ns, name) hc ?_ ?_ hnamespaces hissued id
  · intro id hid
    refine ⟨?_, hrows id hid, hdirs id hid, rfl, fun hdel => hdel⟩
    rw [Deployment.getQueue, hqueues]
    exact AList.lookup_insert_ne (queueKey_ne hnames.1 hnames.2 hid)
  · refine ⟨?_, fun _ => hnames, fun _ => hnames, ?_, hdir, ?_,
      fun msgID hid => hissued _ ((hc _).issued msgID hid)⟩
    · rw [Deployment.hasNamespace, hnamespaces]
      exact fun h => (hc (ns, name)).row (hrow h)
    · intro q₁ hq₁
      rw [Deployment.getQueue, hqueues, AList.lookup_insert] at hq₁
      cases hq₁
      exact hq'
    · intro hdel
      rw [((hc (ns, name)).deleted hdel).1] at hq
      cases hq

theorem clean_setQueue (hc : ∀ id, h.Clean id) {q q' : Queue}
    (hq : h.deployment.getQueue ns name = some q) (hq' : q'.Each (h.Newer (ns, name)))
    (hd : Deployment.SameButRow (h.deployment.setQueue ns name q') d ns name) (id : Bytes × Bytes) :
    Clean { h with deployment := d } id := by
  refine clean_onQueue hc hq hq' hd.queues hd.namespaces hd.rows hd.row ?_ ?_ (fun _ hid => hid) id
  · intro id _
    rw [hd.dirs]
    rfl
  · rw [hd.dirs]
    exact (hc (ns, name)).dir

variable [PathMatch]

theorem clean_setGroupConfig (hc : ∀ id, h.Clean id) {cfg : GroupConfig}
    (hd : h.deployment.setGroupConfig ns name cfg = .ok d) (id : Bytes × Bytes) :
    (h.record d (.setGroupConfig ns name cfg)).Clean id := by
  obtain ⟨q, hq, rfl⟩ := Deployment.setGroupConfig_ok hd
  have hq' : (q.setGroupConfig cfg).Each (h.Newer (ns, name)) :=
    ((hc (ns, name)).queue q hq).installConfig _
  exact clean_setQueue hc hq hq' (Deployment.sameButRow_persistGroupConfig _ ns name cfg) id

omit [PathMatch] in
theorem clean_deleteGroupConfig (hc : ∀ id, h.Clean id) {key : Bytes}
    (hd : h.deployment.deleteGroupConfig ns name key = .ok d) (id : Bytes × Bytes) :
    (h.record d (.deleteGroupConfig ns name key)).Clean id := by
  obtain ⟨q, hq, -, rfl⟩ := Deployment.deleteGroupConfig_ok hd
  have hq' : (q.deleteGroupConfig key).1.Each (h.Newer (ns, name)) := (hc (ns, name)).queue q hq
  exact clean_setQueue hc hq hq' (Deployment.sameButRow_updateRow _ ns name _) id

omit [PathMatch] in
theorem clean_dir (hc : ∀ id, h.Clean id) {records : List Event}
    (hrecords : ∀ e ∈ records, e.type = .publish → e.msgID ∉ h.before (ns, name)) :
    ∀ all ∈ (h.deployment.append ns name records).dirs.lookup (ns, name), ∀ e ∈ all,
      e.type = .publish → e.msgID ∉ h.before (ns, name) := by
  intro all hall e he
  cases (AList.lookup_insert h.deployment.dirs).symm.trans hall
  rcases List.mem_append.mp he with he | he
  · cases hold : h.deployment.dirs.lookup (ns, name) with
    | none =>
      rw [hold] at he
      cases he
    | some old =>
      rw [hold] at he
      exact (hc (ns, name)).dir old hold e he
  · exact hrecords e he

omit [PathMatch] in
theorem clean_append (hc : ∀ id, h.Clean id) {q q' : Queue} {records : List Event}
    {issued : List Bytes} (hq : h.deployment.getQueue ns name = some q)
    (hq' : q'.Each (h.Newer (ns, name)))
    (hrecords : ∀ e ∈ records, e.type = .publish → e.msgID ∉ h.before (ns, name))
    (hissued : ∀ msgID ∈ h.issued, msgID ∈ issued) (id : Bytes × Bytes) :
    Clean { h with
      deployment := (h.deployment.append ns name records).setQueue ns name q',
      issued := issued } id := by
  refine clean_onQueue (d := (h.deployment.append ns name records).setQueue ns name q')
    hc hq hq' rfl rfl (fun _ _ => rfl) (fun hrow => hrow) ?_ ?_ hissued id
  · exact fun id hid => AList.lookup_insert_ne hid
  · exact clean_dir hc hrecords

theorem clean_publish (hc : ∀ id, h.Clean id) {group msgID payload : Bytes} {now : Int}
    (hnew : msgID ∉ h.issued) (hd : h.deployment.publish ns name group msgID payload now = .ok d)
    (id : Bytes × Bytes) :
    (h.record d (.publish ns name group msgID payload now)).Clean id := by
  obtain ⟨q, q', r, hq, hp, rfl⟩ := Deployment.publish_ok hd
  have hbefore : msgID ∉ h.before (ns, name) := fun hid => hnew ((hc (ns, name)).issued msgID hid)
  have hq' : q'.Each (h.Newer (ns, name)) := ((hc (ns, name)).queue q hq).publishWithID hbefore hp
  refine clean_append hc hq hq' ?_ (fun _ => List.mem_cons_of_mem msgID) id
  intro e he _
  cases List.mem_singleton.mp he
  exact hbefore

theorem clean_work (hc : ∀ id, h.Clean id) {op : { op : LiveOp // op.publishID = none }}
    {records : List { e : Event // e.type ≠ .publish }}
    (hd : h.deployment.work ns name op.1 (records.map Subtype.val) = .ok d) (id : Bytes × Bytes) :
    (h.record d (.work ns name op records)).Clean id := by
  obtain ⟨q, q', r, hq, hexec, rfl⟩ := Deployment.work_ok hd
  have hq' : q'.Each (h.Newer (ns, name)) := by
    refine (((hc (ns, name)).queue q hq).exec (h.closed_newer (ns, name)) ?_ hexec).1
    intro key payload msgID now hid
    rw [op.2] at hid
    cases hid
  split
  · exact clean_setQueue hc hq hq' (.refl _ ns name) id
  · refine clean_append hc hq hq' ?_ (fun _ hid => hid) id
    intro e he htype
    obtain ⟨e', -, rfl⟩ := List.mem_map.mp he
    exact absurd htype e'.2

omit [PathMatch] in
theorem clean_late (hc : ∀ id, h.Clean id) (hguard : (h.deployment.getQueue ns name).isSome)
    (record : { e : Event // e.type ≠ .publish }) (id : Bytes × Bytes) :
    (h.record (h.deployment.append ns name [record.1]) (.late ns name record)).Clean id := by
  have hnames := (hc (ns, name)).queueName hguard
  refine clean_of_keeps (ns, name) hc ?_ ?_ ?_ ?_ id
  · intro id hid
    exact ⟨rfl, rfl, AList.lookup_insert_ne hid, rfl, fun hdel => hdel⟩
  · refine ⟨(hc (ns, name)).row, fun _ => hnames, fun _ => hnames, (hc (ns, name)).queue,
      clean_dir hc ?_, ?_, (hc (ns, name)).issued⟩
    · intro e he htype
      cases List.mem_singleton.mp he
      exact absurd htype record.2
    · intro hdel
      rw [((hc (ns, name)).deleted hdel).1] at hguard
      cases hguard
  · rfl
  · exact fun _ hid => hid

omit [PathMatch] in
theorem clean_deleteQueue (hc : ∀ id, h.Clean id)
    (hguard : queueKey ns name ∈ h.deployment.writers ∨ h.deployment.dirs.lookup (ns, name) = none)
    (hd : h.deployment.deleteQueue ns name = .ok d) (id : Bytes × Bytes) :
    (h.record d (.deleteQueue ns name)).Clean id := by
  obtain ⟨q, hq, hd'⟩ := Deployment.deleteQueue_ok hd
  obtain ⟨hns, hname⟩ :=
    (hc (ns, name)).queueName (hq ▸ rfl : (h.deployment.getQueue ns name).isSome)
  have hqueue : d.getQueue ns name = none := by
    rw [Deployment.getQueue, hd'.queues]
    exact AList.lookup_erase _ _
  have hrow : d.rows.lookup (ns, name) = none := by
    rw [hd'.row]
    split
    · rfl
    · -- without the namespace there was no row
      rename_i hnamespace
      exact Option.not_isSome_iff_eq_none.mp fun hsome => hnamespace ((hc (ns, name)).row hsome).1
  have hdir := hd'.dir hguard
  refine clean_of_keeps (ns, name) hc ?_ ?_ hd'.namespaces ?_ id
  · intro id hid
    refine ⟨?_, hd'.rows id hid, hd'.dirs id hid, Function.update_of_ne hid _ _, ?_⟩
    · change d.getQueue id.1 id.2 = _
      rw [Deployment.getQueue, hd'.queues]
      exact AList.lookup_erase_ne (queueKey_ne hns hname hid)
    · exact fun hdel => (List.mem_cons.mp hdel).resolve_left hid
  · refine ⟨?_, fun _ => ⟨hns, hname⟩, fun _ => ⟨hns, hname⟩, ?_, ?_,
      fun _ => ⟨hqueue, hrow, hdir⟩, ?_⟩
    · intro hsome
      cases (congrArg Option.isSome hrow).symm.trans hsome
    · intro q hq
      cases hqueue.symm.trans hq
    · intro records hrecords
      cases hdir.symm.trans hrecords
    · intro msgID hid
      change msgID ∈ Function.update h.before (ns, name) h.issued (ns, name) at hid
      rw [Function.update_self] at hid
      exact hid
  · exact fun _ hid => hid

theorem each_restoreQueue (id : Bytes × Bytes) (row : QueueRow) (P : Loc × Message → Prop) :
    (Deployment.restoreQueue id row).Each P := by
  have hfold : ∀ (l : List GroupConfig) (q : Queue), q.Each P →
      (l.foldl Queue.setGroupConfig q).Each P := by
    intro l
    induction l with
    | nil => exact fun q hq => hq
    | cons cfg l ih => exact fun q hq => ih _ (hq.installConfig _)
  exact hfold _ _ (.ofEmpty rfl)

/-- What `restoreFromDB` and the replay of any of the directories give: queues of names that have a
row or a directory, with no message from before. -/
structure Recovered (h : History) (queues : Map Bytes Queue) : Prop where
  known : ∀ key q, queues.lookup key = some q → ∃ id : Bytes × Bytes, key = queueKey id.1 id.2 ∧
    ((h.deployment.rows.lookup id).isSome ∨ (h.deployment.dirs.lookup id).isSome) ∧
      q.Each (h.Newer id)

omit [PathMatch] in
theorem names_of_known (hc : ∀ id, h.Clean id) {id : Bytes × Bytes}
    (hid : (h.deployment.rows.lookup id).isSome ∨ (h.deployment.dirs.lookup id).isSome) :
    47 ∉ id.1 ∧ 47 ∉ id.2 := by
  rcases hid with hid | hid
  · obtain ⟨hns, hname⟩ := (hc id).row hid
    exact ⟨Deployment.not_slash_of_hasNamespace hns, hname⟩
  · exact (hc id).dirName hid

omit [PathMatch] in
theorem Recovered.known_of_getQueue (hc : ∀ id, h.Clean id) {queues : Map Bytes Queue}
    (hr : h.Recovered queues) {id : Bytes × Bytes} {q : Queue}
    (hq : queues.lookup (queueKey id.1 id.2) = some q) :
    ((h.deployment.rows.lookup id).isSome ∨ (h.deployment.dirs.lookup id).isSome) ∧
      q.Each (h.Newer id) := by
  obtain ⟨id', hkey, hknown, heach⟩ := hr.known _ q hq
  obtain ⟨hns, hname⟩ := names_of_known hc hknown
  obtain ⟨h₁, h₂⟩ := queueKey_inj hns hname hkey
  cases (Prod.ext h₁ h₂ : id = id')
  exact ⟨hknown, heach⟩

theorem recovered_restoreFromDB (h : History) : h.Recovered h.deployment.restoreFromDB.queues := by
  refine ⟨?_⟩
  intro key q hq
  rcases Map.lookup_foldl_insert hq with hq | ⟨e, he, hkey, rfl⟩
  · cases hq
  · have hrow : h.deployment.rows.lookup e.1 = some e.2 := AList.mem_lookup_iff.mpr he
    exact ⟨e.1, hkey.symm, .inl (hrow ▸ rfl), each_restoreQueue e.1 e.2 _⟩

theorem Recovered.replayDir (hc : ∀ id, h.Clean id) {queues queues' : Map Bytes Queue}
    (hr : h.Recovered queues) {clock : Event → Int}
    {dir : Sigma fun _ : Bytes × Bytes => List Event} (hdir : dir ∈ h.deployment.dirs.entries)
    (hreplay : Deployment.replayDir clock queues dir = .ok queues') : h.Recovered queues' := by
  have hlookup : h.deployment.dirs.lookup dir.1 = some dir.2 := AList.mem_lookup_iff.mpr hdir
  obtain ⟨q', hq', hret⟩ := bind_ok.mp hreplay
  cases hret
  have hq : ((queues.lookup (queueKey dir.1.1 dir.1.2)).getD (newQueue dir.1.2 dir.1.1)).Each
      (h.Newer dir.1) := by
    cases hl : queues.lookup (queueKey dir.1.1 dir.1.2) with
    | none => exact .ofEmpty rfl
    | some q => exact (hr.known_of_getQueue hc hl).2
  have heach : q'.Each (h.Newer dir.1) := by
    refine hq.replayEvents (h.closed_newer dir.1) ?_ hq'
    intro e he htype queue ns
    obtain ⟨e', he', rfl⟩ := List.mem_map.mp he
    exact (hc dir.1).dir dir.2 hlookup e' he' htype
  refine ⟨?_⟩
  intro key q hl
  by_cases hkey : key = queueKey dir.1.1 dir.1.2
  · subst hkey
    rw [AList.lookup_insert] at hl
    cases hl
    exact ⟨dir.1, rfl, .inr (hlookup ▸ rfl), heach⟩
  · rw [AList.lookup_insert_ne hkey] at hl
    exact hr.known key q hl

theorem clean_restart (hc : ∀ id, h.Clean id) {clock : Event → Int}
    (hd : h.deployment.restart clock = .ok d) (id : Bytes × Bytes) :
    (h.record d (.restart clock)).Clean id := by
  obtain ⟨queues, hrun, rfl⟩ := Deployment.restart_ok hd
  have hr : h.Recovered queues := by
    refine (Run.induct (motive := fun queues dirs =>
      (∀ dir ∈ dirs, dir ∈ h.deployment.dirs.entries) ∧
      h.Recovered queues) ?_ ⟨fun _ hdir => hdir, recovered_restoreFromDB h⟩ hrun).2
    intro queues dir dirs queues' hs hreplay
    rw [List.forall_mem_cons] at hs
    exact ⟨hs.1.2, hs.2.replayDir hc hs.1.1 hreplay⟩
  refine ⟨(hc id).row, (hc id).dirName, ?_, ?_, (hc id).dir, ?_, (hc id).issued⟩
  · intro hsome
    obtain ⟨q, hq⟩ := Option.isSome_iff_exists.mp hsome
    exact names_of_known hc (hr.known_of_getQueue hc hq).1
  · intro q hq
    exact (hr.known_of_getQueue hc hq).2
  · intro hdel
    obtain ⟨-, hrow, hdir⟩ := (hc id).deleted hdel
    refine ⟨?_, hrow, hdir⟩
    refine Option.eq_none_iff_forall_not_mem.mpr fun q hq => ?_
    obtain ⟨hknown, -⟩ := hr.known_of_getQueue hc hq
    rw [hrow, hdir] at hknown
    rcases hknown with hknown | hknown <;> cases hknown

theorem clean_step (hc : ∀ id, h.Clean id) {r : DeploymentStep} (hguard : h.Destroys r)
    (hstep : h.step r = .ok h') :
    ∀ id, h'.Clean id := by
  obtain ⟨hnew, d, hd, rfl⟩ := step_ok hstep
  cases r with
  | declareQueue ns name durable => exact clean_declareQueue hc hd
  | setGroupConfig ns name cfg => exact clean_setGroupConfig hc hd
  | deleteGroupConfig ns name key => exact clean_deleteGroupConfig hc hd
  | deleteQueue ns name => exact clean_deleteQueue hc hguard hd
  | publish ns name group msgID payload now => exact clean_publish hc (hnew msgID rfl) hd
  | work ns name op records => exact clean_work hc hd
  | late ns name record =>
    cases hd
    exact clean_late hc hguard record
  | restart clock => exact clean_restart hc hd

/-- In every run in which each deletion finds the writer of the queue open, or no directory, and no
late record comes while the queue is not registered: a queue that is deleted and not declared since
is not registered, and a queue holds no message from before its last deletion. -/
theorem deleted_queue_stays_deleted {defaultDurable : Bool}
    {namespaces : List { ns : Bytes // namePattern ns }} {h : History}
    (hreach : Reachable step Destroys (start defaultDurable namespaces) h) (ns name : Bytes) :
    ((ns, name) ∈ h.deleted → h.deployment.getQueue ns name = none) ∧
      ∀ q ∈ h.deployment.getQueue ns name, ∀ msgID ∈ h.before (ns, name), ∀ group,
        ¬q.Holds group msgID := by
  have hc : ∀ id, h.Clean id := hreach.invariant (clean_start defaultDurable namespaces)
    fun _ _ _ hc hguard hstep => clean_step hc hguard hstep
  refine ⟨fun hdel => ((hc (ns, name)).deleted hdel).1, ?_⟩
  rintro q hq msgID hid group ⟨g, hg, hmem⟩
  obtain ⟨x, hx, rfl⟩ := Multiset.mem_map.mp hmem
  exact ((hc (ns, name)).queue q hq group g hg).slots x hx hid

end steps

def destroysCheck (h : History) : DeploymentStep → Bool
  | .deleteQueue ns name =>
    decide (queueKey ns name ∈ h.deployment.writers) || (h.deployment.dirs.lookup (ns, name)).isNone
  | .late ns name _ => (h.deployment.getQueue ns name).isSome
  | _ => true

theorem destroys_of_check (h : History) (r : DeploymentStep) (hcheck : h.destroysCheck r = true) :
    h.Destroys r := by
  cases r with
  | deleteQueue ns name =>
    rcases Bool.or_eq_true_iff.mp hcheck with hopen | hnone
    · exact .inl (of_decide_eq_true hopen)
    · exact .inr (Option.isNone_iff_eq_none.mp hnone)
  | late ns name record => exact hcheck
  | declareQueue | setGroupConfig | deleteGroupConfig | publish | work | restart => exact trivial

open Deployment in
def publishAndRestart : List DeploymentStep :=
  [declareJobs none, .publish (str "acme") (str "jobs") (str "g") (str "m1") [1] 10,
    .restart fun _ => 20]

def lateLease : DeploymentStep :=
  .late (str "acme") (str "jobs")
    ⟨⟨.lease, str "acme", str "jobs", str "g", str "m1", [], 0, 0⟩, by decide⟩

open Deployment in
theorem deleted_queue_stays_deleted_sample :
    ∃ h, Reachable (@step literalMatch) Destroys (start true sampleNamespaces) h ∧
      (str "acme", str "jobs") ∈ h.deleted ∧
      h.deployment.getQueue (str "acme") (str "jobs") = none := by
  -- the lease of a message opens the writer in the process that deletes the queue
  have htrace : (run (checked (@step literalMatch) destroysCheck none)
      (start true sampleNamespaces) (publishAndRestart ++ [lateLease,
        .deleteQueue (str "acme") (str "jobs"), .restart fun _ => 40])).toOption.any
      (fun h => decide ((str "acme", str "jobs") ∈ h.deleted)) = true := by decide
  obtain ⟨h, hreach, hdel⟩ := Reachable.ofTrace destroys_of_check _ _ htrace
  have hdel := of_decide_eq_true hdel
  exact ⟨h, hreach, hdel, (@deleted_queue_stays_deleted literalMatch _ _ h hreach _ _).1 hdel⟩

open Deployment in
/-- A queue whose writer the process that deletes it has never opened: its directory stays, and the
next process registers the queue again, or gives the queue declared again the message from before.
And a record that comes after the deletion makes the directory anew. -/
theorem deleted_queue_returns :
    (∃ h, run (@step literalMatch) (start true sampleNamespaces)
        (publishAndRestart ++ [.deleteQueue (str "acme") (str "jobs"), .restart fun _ => 30]) =
          .ok h ∧
      (str "acme", str "jobs") ∈ h.deleted ∧
        (h.deployment.getQueue (str "acme") (str "jobs")).isSome) ∧
    (∃ h, run (@step literalMatch) (start true sampleNamespaces)
        [declareJobs none, .publish (str "acme") (str "jobs") (str "g") (str "m1") [1] 10,
          .deleteQueue (str "acme") (str "jobs"), lateLease, .restart fun _ => 30] = .ok h ∧
      (str "acme", str "jobs") ∈ h.deleted ∧
      (h.deployment.getQueue (str "acme") (str "jobs")).isSome) ∧
    ∃ h q, run (@step literalMatch) (start true sampleNamespaces)
        (publishAndRestart ++ [.deleteQueue (str "acme") (str "jobs"), declareJobs none,
          .restart fun _ => 30]) = .ok h ∧
      h.deployment.getQueue (str "acme") (str "jobs") = some q ∧
        str "m1" ∈ h.before (str "acme", str "jobs") ∧ q.Holds (str "g") (str "m1") := by
  refine ⟨exists_ok ?_, exists_ok ?_, ?_⟩
  · decide
  · decide
  · obtain ⟨h, hrun, hbefore, hphase⟩ : ∃ h, run (@step literalMatch) (start true sampleNamespaces)
        (publishAndRestart ++ [.deleteQueue (str "acme") (str "jobs"), declareJobs none,
          .restart fun _ => 30]) = .ok h ∧ str "m1" ∈ h.before (str "acme", str "jobs") ∧
        ((h.deployment.getQueue (str "acme") (str "jobs")).any fun q =>
          (q.phase (str "g") (str "m1")).isSome) = true := exists_ok (by decide)
    cases hq : h.deployment.getQueue (str "acme") (str "jobs") with
    | none =>
      rw [hq] at hphase
      cases hphase
    | some q =>
      rw [hq] at hphase
      exact ⟨h, q, hrun, hq, hbefore,
        Queue.holds_iff_phase.mpr (Option.isSome_iff_ne_none.mp hphase)⟩

end History

end Octar
