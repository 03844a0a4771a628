import Octar.Broker.Recovery
import Octar.Queue.Live

/-! The queues of a deployment over its sessions: the requests of `api/v1/queues.go`, the tables of
`db/queues.go`, the directories of the WAL, and `recoverQueues` at the start of the next process. -/

namespace Octar

open Go

def queueKey (ns name : Bytes) : Bytes := ns ++ str "/" ++ name

def keyPattern (others key : Bytes) : Bool :=
  !key.isEmpty && key.all fun b => (97 ≤ b && b ≤ 122) || (48 ≤ b && b ≤ 57) || b ∈ others

def namePattern : Bytes → Bool := keyPattern (str "_-")

def queueNamePattern : Bytes → Bool := keyPattern (str "_-")

def groupKeyPattern : Bytes → Bool := keyPattern (str "_*-")

section names

variable {ns name ns' name' : Bytes}

theorem not_slash_of_keyPattern {others key : Bytes} (hothers : 47 ∉ others)
    (h : keyPattern others key) :
    47 ∉ key := by
  intro hmem
  have hall := List.all_eq_true.mp (Bool.and_eq_true_iff.mp h).2 47 hmem
  simp [hothers] at hall

theorem queueKey_inj (hns : 47 ∉ ns) (hname : 47 ∉ name)
    (h : queueKey ns' name' = queueKey ns name) :
    ns' = ns ∧ name' = name := by
  induction ns' generalizing ns with
  | nil =>
    cases ns with
    | nil => exact ⟨rfl, (List.cons.inj h).2⟩
    | cons b ns =>
      have hb : (47 : UInt8) = b := (List.cons.inj h).1
      exact absurd (hb ▸ List.mem_cons_self) hns
  | cons b' ns' ih =>
    cases ns with
    | nil =>
      have hname' : queueKey ns' name' = name := (List.cons.inj h).2
      exact absurd (hname' ▸ by simp [queueKey, str]) hname
    | cons b ns =>
      obtain ⟨hb, hrest⟩ := List.cons.inj h
      obtain ⟨h₁, h₂⟩ := ih (fun hmem => hns (List.mem_cons_of_mem b hmem)) hrest
      exact ⟨by rw [hb, h₁], h₂⟩

end names

structure QueueRow where
  durable : Bool
  groups : Map Bytes GroupConfig

/-- The database and the directories of the WAL, and, of the process that runs, the queues of its
scheduler and the durability settings and the open writers of its WAL.  All namespaces in the
database have passed `namePattern`. -/
structure Deployment where
  defaultDurable : Bool
  namespaces : List { ns : Bytes // namePattern ns }
  rows : Map (Bytes × Bytes) QueueRow
  dirs : Map (Bytes × Bytes) (List Event)
  queues : Map Bytes Queue
  durable : Map Bytes Bool
  writers : List Bytes

inductive ApiError
  | status (code : Nat) (detail : Bytes)
  | crash (p : Panic)
  deriving DecidableEq, Repr

/-- The requests, and what else happens to the queues.  The config of `setGroupConfig` is the one
`toGroupConfig` makes of the body.  `publish` has the identifier that is generated for it.  `work`
is an operation of the consumers or the scheduler on a queue with the records it appends.  `late` is
a record of a delivery, a sweep or a reply that had begun before: it does not ask whether the queue
is still there (`dispatch` appends the LEASE of a message it took from a channel). -/
inductive DeploymentStep
  | declareQueue (ns name : Bytes) (durable : Option Bool)
  | setGroupConfig (ns name : Bytes) (cfg : GroupConfig)
  | deleteGroupConfig (ns name key : Bytes)
  | deleteQueue (ns name : Bytes)
  | publish (ns name group msgID payload : Bytes) (now : Int)
  | work (ns name : Bytes) (op : { op : LiveOp // op.publishID = none })
    (records : List { e : Event // e.type ≠ .publish })
  | late (ns name : Bytes) (record : { e : Event // e.type ≠ .publish })
  | restart (clock : Event → Int)

namespace Deployment

def start (defaultDurable : Bool) (namespaces : List { ns : Bytes // namePattern ns }) :
    Deployment :=
  ⟨defaultDurable, namespaces, ∅, ∅, ∅, ∅, []⟩

def hasNamespace (d : Deployment) (ns : Bytes) : Bool := d.namespaces.any fun n => n.1 = ns

def getQueue (d : Deployment) (ns name : Bytes) : Option Queue := d.queues.lookup (queueKey ns name)

def setQueue (d : Deployment) (ns name : Bytes) (q : Queue) : Deployment :=
  { d with queues := d.queues.insert (queueKey ns name) q }

def queueDurable (d : Deployment) (ns name : Bytes) : Bool :=
  (d.durable.lookup (queueKey ns name)).getD d.defaultDurable

def queueNotFound : ApiError := .status 404 (str "queue not found")

def withQueue (d : Deployment) (ns name : Bytes) (f : Queue → Except ApiError Deployment) :
    Except ApiError Deployment :=
  match d.getQueue ns name with
  | none => .error queueNotFound
  | some q => f q

def createQueue (d : Deployment) (ns name : Bytes) (durable : Bool) : Except ApiError Deployment :=
  if !queueNamePattern name then
    .error (.status 422 (str "validation error: queue name must match ^[a-z0-9_-]+$"))
  else if 128 < name.length then
    .error (.status 422 (str "validation error: queue name must be " ++ [226, 137, 164] ++
      str " 128 characters"))
  else if (d.rows.lookup (ns, name)).isSome then
    .error (.status 409 (str "already exists: queue \"" ++ name ++
      str "\" already exists in this namespace"))
  else .ok { d with rows := d.rows.insert (ns, name) ⟨durable, ∅⟩ }

def declareQueue (d : Deployment) (ns name : Bytes) (durable : Option Bool) :
    Except ApiError Deployment :=
  -- the limits that the input type of the request declares
  if !queueNamePattern name || 128 < name.length || ns.isEmpty || 64 < ns.length then
    .error (.status 422 (str "validation failed"))
  else if (d.getQueue ns name).isSome then .error (.status 409 (str "queue already exists"))
  else if !d.hasNamespace ns then .error (.status 404 (str "namespace not found"))
  else do
    let durable := durable.getD d.defaultDurable
    let d ← d.createQueue ns name durable
    let d := d.setQueue ns name (newQueue name ns)
    return { d with durable := d.durable.insert (queueKey ns name) durable }

def updateRow (d : Deployment) (ns name : Bytes) (f : QueueRow → QueueRow) : Deployment :=
  match d.rows.lookup (ns, name) with
  | none => d
  | some row => { d with rows := d.rows.insert (ns, name) (f row) }

def persistGroupConfig (d : Deployment) (ns name : Bytes) (cfg : GroupConfig) : Deployment :=
  if groupKeyPattern cfg.key then
    d.updateRow ns name fun row => { row with groups := row.groups.insert cfg.key cfg }
  else d

def setGroupConfig [PathMatch] (d : Deployment) (ns name : Bytes) (cfg : GroupConfig) :
    Except ApiError Deployment :=
  d.withQueue ns name fun q =>
    .ok ((d.setQueue ns name (q.setGroupConfig cfg)).persistGroupConfig ns name cfg)

def deleteGroupRow (d : Deployment) (ns name key : Bytes) : Deployment :=
  d.updateRow ns name fun row => { row with groups := row.groups.erase key }

def deleteGroupConfig (d : Deployment) (ns name key : Bytes) : Except ApiError Deployment :=
  d.withQueue ns name fun q =>
    if (q.deleteGroupConfig key).2 then
      .ok ((d.setQueue ns name (q.deleteGroupConfig key).1).deleteGroupRow ns name key)
    else .error (.status 404 (str "group config not found"))

def destroyQueue (d : Deployment) (ns name : Bytes) : Deployment :=
  if queueKey ns name ∈ d.writers then
    { d with writers := d.writers.filter (· ≠ queueKey ns name), dirs := d.dirs.erase (ns, name) }
  else d

def deleteRow (d : Deployment) (ns name : Bytes) : Deployment :=
  if d.hasNamespace ns then { d with rows := d.rows.erase (ns, name) } else d

def unregisterQueue (d : Deployment) (ns name : Bytes) : Deployment :=
  { d with queues := d.queues.erase (queueKey ns name) }

def deleteQueue (d : Deployment) (ns name : Bytes) : Except ApiError Deployment :=
  d.withQueue ns name fun _ =>
    if d.hasNamespace ns && (d.rows.lookup (ns, name)).isNone then .error queueNotFound
    else .ok (((d.deleteRow ns name).unregisterQueue ns name).destroyQueue ns name)

def append (d : Deployment) (ns name : Bytes) (records : List Event) : Deployment :=
  { d with
    writers := queueKey ns name :: d.writers
    dirs := d.dirs.insert (ns, name) ((d.dirs.lookup (ns, name)).getD [] ++ records) }

def publishRecord (ns name group msgID payload : Bytes) (now : Int) : Event :=
  ⟨.publish, ns, name, group, msgID, payload, 0, now⟩

def publish [PathMatch] (d : Deployment) (ns name group msgID payload : Bytes) (now : Int) :
    Except ApiError Deployment :=
  match d.getQueue ns name with
  | none => .error (.status 404 (str "queue not found: " ++ name))
  | some q =>
    match q.publishWithID group msgID payload now with
    | .error p => .error (.crash p)
    | .ok (q, _) =>
      .ok ((d.append ns name [publishRecord ns name group msgID payload now]).setQueue ns name q)

def work [PathMatch] (d : Deployment) (ns name : Bytes) (op : LiveOp) (records : List Event) :
    Except ApiError Deployment :=
  d.withQueue ns name fun q =>
    match q.exec op with
    | .error p => .error (.crash p)
    | .ok (q, _) =>
      .ok ((if records.isEmpty then d else d.append ns name records).setQueue ns name q)

def listGroups (groups : Map Bytes GroupConfig) : List GroupConfig :=
  (groups.keys.insertionSort (· ≤ ·)).filterMap fun key =>
    (groups.lookup key).map fun cfg => { cfg with key := key }

def restoreQueue [PathMatch] (id : Bytes × Bytes) (row : QueueRow) : Queue :=
  (listGroups row.groups).foldl Queue.setGroupConfig (newQueue id.2 id.1)

def restoreFromDB [PathMatch] (d : Deployment) : Deployment :=
  { d with
    queues :=
      d.rows.entries.foldl (fun m e => m.insert (queueKey e.1.1 e.1.2) (restoreQueue e.1 e.2)) ∅
    durable := ∅
    writers := [] }

def replayDir [PathMatch] (clock : Event → Int) (queues : Map Bytes Queue)
    (dir : Sigma fun _ : Bytes × Bytes => List Event) : Except Panic (Map Bytes Queue) := do
  let key := queueKey dir.1.1 dir.1.2
  let q := (queues.lookup key).getD (newQueue dir.1.2 dir.1.1)
  let q ← replayEvents q (dir.2.map fun e => (e, clock e))
  return queues.insert key q

def restart [PathMatch] (d : Deployment) (clock : Event → Int) : Except ApiError Deployment :=
  match run (replayDir clock) d.restoreFromDB.queues d.dirs.entries with
  | .error p => .error (.crash p)
  | .ok queues => .ok { d.restoreFromDB with queues := queues }

def step [PathMatch] (d : Deployment) : DeploymentStep → Except ApiError Deployment
  | .declareQueue ns name durable => d.declareQueue ns name durable
  | .setGroupConfig ns name cfg => d.setGroupConfig ns name cfg
  | .deleteGroupConfig ns name key => d.deleteGroupConfig ns name key
  | .deleteQueue ns name => d.deleteQueue ns name
  | .publish ns name group msgID payload now => d.publish ns name group msgID payload now
  | .work ns name op records => d.work ns name op.1 (records.map Subtype.val)
  | .late ns name record => .ok (d.append ns name [record.1])
  | .restart clock => d.restart clock

section steps

variable {d d' : Deployment} {ns name : Bytes}

theorem withQueue_ok {f : Queue → Except ApiError Deployment} (h : d.withQueue ns name f = .ok d') :
    ∃ q, d.getQueue ns name = some q ∧ f q = .ok d' := by
  unfold withQueue at h
  split at h
  · cases h
  · rename_i q hq
    exact ⟨q, hq, h⟩

structure SameButRow (d d' : Deployment) (ns name : Bytes) : Prop where
  queues : d'.queues = d.queues
  dirs : d'.dirs = d.dirs
  namespaces : d'.namespaces = d.namespaces
  rows : ∀ id, id ≠ (ns, name) → d'.rows.lookup id = d.rows.lookup id
  row : (d'.rows.lookup (ns, name)).isSome → (d.rows.lookup (ns, name)).isSome

theorem SameButRow.refl (d : Deployment) (ns name : Bytes) : SameButRow d d ns name :=
  ⟨rfl, rfl, rfl, fun _ _ => rfl, fun h => h⟩

theorem sameButRow_updateRow (d : Deployment) (ns name : Bytes) (f : QueueRow → QueueRow) :
    SameButRow d (d.updateRow ns name f) ns name := by
  unfold updateRow
  split
  · exact .refl d ns name
  · rename_i row hrow
    exact ⟨rfl, rfl, rfl, fun _ hid => AList.lookup_insert_ne hid, fun _ => hrow ▸ rfl⟩

theorem sameButRow_persistGroupConfig (d : Deployment) (ns name : Bytes) (cfg : GroupConfig) :
    SameButRow d (d.persistGroupConfig ns name cfg) ns name := by
  unfold persistGroupConfig
  split
  · exact sameButRow_updateRow d ns name _
  · exact .refl d ns name

theorem not_slash_of_hasNamespace (h : d.hasNamespace ns) : 47 ∉ ns := by
  obtain ⟨n, -, hn⟩ := List.any_eq_true.mp h
  exact not_slash_of_keyPattern (by decide) (of_decide_eq_true hn ▸ n.2 : namePattern ns)

theorem declareQueue_ok {durable : Option Bool} (h : d.declareQueue ns name durable = .ok d') :
    d.hasNamespace ns ∧ 47 ∉ name ∧ d.getQueue ns name = none ∧ d.rows.lookup (ns, name) = none ∧
      d' = { d with
        rows := d.rows.insert (ns, name) ⟨durable.getD d.defaultDurable, ∅⟩
        queues := d.queues.insert (queueKey ns name) (newQueue name ns)
        durable := d.durable.insert (queueKey ns name) (durable.getD d.defaultDurable) } := by
  unfold declareQueue at h
  split at h
  · cases h
  split at h
  · cases h
  rename_i hq
  split at h
  · cases h
  rename_i hns
  obtain ⟨d₁, hd₁, hd'⟩ := bind_ok.mp h
  unfold createQueue at hd₁
  split at hd₁
  · cases hd₁
  rename_i hname
  split at hd₁
  · cases hd₁
  split at hd₁
  · cases hd₁
  rename_i hrow
  cases hd₁
  cases hd'
  rw [Bool.not_eq_true, Bool.not_eq_false'] at hns hname
  exact ⟨hns, not_slash_of_keyPattern (by decide) hname, Option.not_isSome_iff_eq_none.mp hq,
    Option.not_isSome_iff_eq_none.mp hrow, rfl⟩

theorem setGroupConfig_ok [PathMatch] {cfg : GroupConfig}
    (h : d.setGroupConfig ns name cfg = .ok d') :
    ∃ q, d.getQueue ns name = some q ∧
      d' = (d.setQueue ns name (q.setGroupConfig cfg)).persistGroupConfig ns name cfg := by
  obtain ⟨q, hq, hd'⟩ := withQueue_ok h
  cases hd'
  exact ⟨q, hq, rfl⟩

theorem deleteGroupConfig_ok {key : Bytes} (h : d.deleteGroupConfig ns name key = .ok d') :
    ∃ q, d.getQueue ns name = some q ∧ (q.deleteGroupConfig key).2 = true ∧
      d' = (d.setQueue ns name (q.deleteGroupConfig key).1).deleteGroupRow ns name key := by
  obtain ⟨q, hq, hd'⟩ := withQueue_ok h
  split at hd'
  · rename_i hfound
    cases hd'
    exact ⟨q, hq, hfound, rfl⟩
  · cases hd'

structure Removed (d d' : Deployment) (ns name : Bytes) : Prop where
  namespaces : d'.namespaces = d.namespaces
  queues : d'.queues = d.queues.erase (queueKey ns name)
  rows : ∀ id, id ≠ (ns, name) → d'.rows.lookup id = d.rows.lookup id
  row : d'.rows.lookup (ns, name) = if d.hasNamespace ns then none else d.rows.lookup (ns, name)
  dirs : ∀ id, id ≠ (ns, name) → d'.dirs.lookup id = d.dirs.lookup id
  dir : queueKey ns name ∈ d.writers ∨ d.dirs.lookup (ns, name) = none →
    d'.dirs.lookup (ns, name) = none

theorem removed_deleteRow (d : Deployment) (ns name : Bytes) :
    Removed d (((d.deleteRow ns name).unregisterQueue ns name).destroyQueue ns name) ns name := by
  have hrow : (d.deleteRow ns name).rows.lookup (ns, name) =
      if d.hasNamespace ns then none else d.rows.lookup (ns, name) := by
    unfold deleteRow
    split
    · exact AList.lookup_erase _ _
    · rfl
  have hrows : ∀ id, id ≠ (ns, name) → (d.deleteRow ns name).rows.lookup id = d.rows.lookup id := by
    intro id hid
    unfold deleteRow
    split
    · exact AList.lookup_erase_ne hid
    · rfl
  have hrest : (d.deleteRow ns name).namespaces = d.namespaces ∧
      (d.deleteRow ns name).queues = d.queues ∧
      (d.deleteRow ns name).dirs = d.dirs ∧ (d.deleteRow ns name).writers = d.writers := by
    unfold deleteRow
    split <;> exact ⟨rfl, rfl, rfl, rfl⟩
  obtain ⟨hnamespaces, hqueues, hdirs, hwriters⟩ := hrest
  unfold destroyQueue unregisterQueue
  simp only [hqueues, hdirs, hwriters]
  split
  · exact ⟨hnamespaces, rfl, hrows, hrow, fun _ hid => AList.lookup_erase_ne hid,
      fun _ => AList.lookup_erase _ _⟩
  · rename_i hclosed
    exact ⟨hnamespaces, rfl, hrows, hrow, fun _ _ => rfl, fun h => h.resolve_left hclosed⟩

theorem deleteQueue_ok (h : d.deleteQueue ns name = .ok d') :
    ∃ q, d.getQueue ns name = some q ∧ Removed d d' ns name := by
  obtain ⟨q, hq, hd'⟩ := withQueue_ok h
  split at hd'
  · cases hd'
  · cases hd'
    exact ⟨q, hq, removed_deleteRow d ns name⟩

theorem publish_ok [PathMatch] {group msgID payload : Bytes} {now : Int}
    (h : d.publish ns name group msgID payload now = .ok d') :
    ∃ q q' r, d.getQueue ns name = some q ∧ q.publishWithID group msgID payload now = .ok (q', r) ∧
      d' = (d.append ns name [publishRecord ns name group msgID payload now]).setQueue ns name
        q' := by
  unfold publish at h
  split at h
  · cases h
  rename_i q hq
  split at h
  · cases h
  rename_i q' r hp
  cases h
  exact ⟨q, q', r, hq, hp, rfl⟩

theorem work_ok [PathMatch] {op : LiveOp} {records : List Event}
    (h : d.work ns name op records = .ok d') :
    ∃ q q' r, d.getQueue ns name = some q ∧ q.exec op = .ok (q', r) ∧
      d' = (if records.isEmpty then d else d.append ns name records).setQueue ns name q' := by
  obtain ⟨q, hq, hd'⟩ := withQueue_ok h
  split at hd'
  · cases hd'
  rename_i q' r hexec
  cases hd'
  exact ⟨q, q', r, hq, hexec, rfl⟩

theorem restart_ok [PathMatch] {clock : Event → Int} (h : d.restart clock = .ok d') :
    ∃ queues, run (replayDir clock) d.restoreFromDB.queues d.dirs.entries = .ok queues ∧
      d' = { d.restoreFromDB with queues := queues } := by
  unfold restart at h
  split at h
  · cases h
  rename_i queues hrun
  cases h
  exact ⟨queues, hrun, rfl⟩

theorem getQueue_restoreFromDB [PathMatch] {q : Queue}
    (h : d.restoreFromDB.getQueue ns name = some q) :
    ∃ id row, d.rows.lookup id = some row ∧ queueKey id.1 id.2 = queueKey ns name ∧
      q = restoreQueue id row := by
  rcases Map.lookup_foldl_insert h with h | ⟨e, he, hkey, rfl⟩
  · cases h
  · exact ⟨e.1, e.2, AList.mem_lookup_iff.mpr he, hkey, rfl⟩

theorem isSome_getQueue_restoreFromDB [PathMatch] (h : (d.rows.lookup (ns, name)).isSome) :
    (d.restoreFromDB.getQueue ns name).isSome := by
  obtain ⟨row, hrow⟩ := Option.isSome_iff_exists.mp h
  exact Map.isSome_foldl_insert (.inr ⟨⟨(ns, name), row⟩, AList.mem_lookup_iff.mp hrow, rfl⟩)

end steps

def sampleNamespaces : List { ns : Bytes // namePattern ns } := [⟨str "acme", by decide⟩]

def declareJobs (durable : Option Bool) : DeploymentStep :=
  .declareQueue (str "acme") (str "jobs") durable

end Deployment

end Octar
