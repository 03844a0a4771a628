import Octar.Broker.RecoveryLaws
import Octar.Broker.RestoreLaws
import Octar.Queue.Serviceable

namespace Octar

open Go

namespace Group

inductive Has (g : Group) (m : Message) : Prop
  | urgent (h : some m ∈ g.liveUrgent)
  | ready (h : some m ∈ g.liveReady)
  | delayed (h : m ∈ g.delayed)
  | processing (id : Bytes) (h : g.processing.table.lookup id = some m)

structure Operational (g : Group) : Prop where
  limiter : g.limiter = none
  urgentHead_le : g.urgentHead ≤ g.urgent.length
  readyHead_le : g.readyHead ≤ g.ready.length
  urgent_full : none ∉ g.liveUrgent
  allocated : g.processing.isSome
  attempts : ∀ m, g.Has m → -1 ≤ m.attempts

variable {g g' : Group}

theorem Operational.ofNewGroup {cfg : GroupConfig} (hrate : cfg.rateLimit = none)
    (h : newGroup cfg = .ok g) :
    g.Operational := by
  obtain ⟨limiter, hl, hret⟩ := bind_ok.mp h
  have hnone : cfg.withDefaults.rateLimit = none := hrate
  rw [hnone] at hl
  cases hl
  cases hret
  refine ⟨rfl, Nat.le_refl _, Nat.le_refl _, by simp [liveUrgent], rfl, ?_⟩
  intro m hm
  cases hm with
  | urgent h | ready h => simp [liveUrgent, liveReady] at h
  | delayed h => cases h
  | processing id h => cases h

theorem Operational.enqueue (h : g.Operational) {m : Message} (hm : -1 ≤ m.attempts) :
    (g.enqueue m).Operational := by
  refine ⟨h.limiter, h.urgentHead_le, ?_, h.urgent_full, h.allocated, ?_⟩
  · simpa [Group.enqueue] using Nat.le_succ_of_le h.readyHead_le
  · intro m' hm'
    cases hm' with
    | urgent h' => exact h.attempts m' (.urgent h')
    | ready h' =>
      rw [liveReady, Group.enqueue, drop_append_singleton h.readyHead_le, List.mem_append] at h'
      rcases h' with h' | h'
      · exact h.attempts m' (.ready h')
      · cases List.mem_singleton.mp h'
        exact hm
    | delayed h' => exact h.attempts m' (.delayed h')
    | processing id h' => exact h.attempts m' (.processing id h')

theorem Operational.delete (h : g.Operational) (id : Bytes) :
    { g with processing := g.processing.delete id }.Operational := by
  refine ⟨h.limiter, h.urgentHead_le, h.readyHead_le, h.urgent_full, ?_, ?_⟩
  · rw [NilMap.isSome_delete]
    exact h.allocated
  · intro m hm
    cases hm with
    | urgent h' => exact h.attempts m (.urgent h')
    | ready h' => exact h.attempts m (.ready h')
    | delayed h' => exact h.attempts m (.delayed h')
    | processing id' h' =>
      rw [NilMap.table_delete] at h'
      by_cases hid : id' = id
      · subst hid
        rw [AList.lookup_erase] at h'
        cases h'
      · rw [AList.lookup_erase_ne hid] at h'
        exact h.attempts m (.processing id' h')

theorem Operational.promoteDelayed (h : g.Operational) (ord : RangeOrder) (now : Int) :
    (g.promoteDelayed ord now).1.Operational := by
  obtain ⟨expired, due, hp⟩ := promoteDelayed_spec g ord now
  have hu : (g.promoteDelayed ord now).1.liveUrgent =
      g.liveUrgent ++ expired.map fun m => some { m with state := .pending } := by
    rw [liveUrgent, hp.urgent, hp.urgentHead, List.drop_append_of_le_length h.urgentHead_le,
      liveUrgent]
  have hr : (g.promoteDelayed ord now).1.liveReady = g.liveReady ++ due.map some := by
    rw [liveReady, hp.ready, hp.readyHead, List.drop_append_of_le_length h.readyHead_le, liveReady]
  refine ⟨hp.limiter.trans h.limiter, ?_, ?_, ?_, hp.allocated ▸ h.allocated, ?_⟩
  · rw [hp.urgentHead, hp.urgent, List.length_append]
    exact Nat.le_add_right_of_le h.urgentHead_le
  · rw [hp.readyHead, hp.ready, List.length_append]
    exact Nat.le_add_right_of_le h.readyHead_le
  · simp [hu, h.urgent_full]
  · intro m hm
    cases hm with
    | urgent h' =>
      rw [hu, List.mem_append, List.mem_map] at h'
      rcases h' with h' | ⟨m', hm', heq⟩
      · exact h.attempts m (.urgent h')
      · cases heq
        have hin : m' ∈ g.inFlight := hp.inFlight ▸ Multiset.mem_add.mpr (.inl hm')
        obtain ⟨id, hl⟩ := Map.mem_values.mp hin
        exact h.attempts m' (.processing id hl)
    | ready h' =>
      rw [hr, List.mem_append, List.mem_map] at h'
      rcases h' with h' | ⟨m', hm', heq⟩
      · exact h.attempts m (.ready h')
      · cases heq
        have hin : m ∈ (g.delayed : Multiset Message) :=
          hp.delayed ▸ Multiset.mem_add.mpr (.inl hm')
        exact h.attempts m (.delayed hin)
    | delayed h' =>
      have hin : m ∈ (g.delayed : Multiset Message) := hp.delayed ▸ Multiset.mem_add.mpr (.inr h')
      exact h.attempts m (.delayed hin)
    | processing id h' =>
      rw [hp.lookup] at h'
      exact h.attempts m (.processing id (Option.eq_some_of_filter_eq_some h'))

theorem Operational.lined (h : g.Operational) : g.Lined :=
  ⟨h.urgentHead_le, h.readyHead_le, h.urgent_full, h.allocated⟩

theorem Operational.serviceable (h : g.Operational) : g.Serviceable := by
  refine ⟨h.lined, ?_⟩
  intro l hl
  rw [h.limiter] at hl
  cases hl

theorem Operational.lease {m : Message} {now : Int} (h : g.Operational) (hm : -1 ≤ m.attempts)
    (hlimiter : g'.limiter = none) (hu : g'.urgentHead ≤ g'.urgent.length)
    (hr : g'.readyHead ≤ g'.ready.length) (hurgent : ∀ slot ∈ g'.liveUrgent, slot ∈ g.liveUrgent)
    (hready : ∀ slot ∈ g'.liveReady, slot ∈ g.liveReady) (hdelayed : g'.delayed = g.delayed)
    (hp : g'.processing = some (g.processing.table.insert m.id (g.leased m now))) :
    g'.Operational := by
  refine ⟨hlimiter, hu, hr, fun hn => h.urgent_full (hurgent none hn), by rw [hp]; rfl, ?_⟩
  intro m' hm'
  cases hm' with
  | urgent h' => exact h.attempts m' (.urgent (hurgent _ h'))
  | ready h' => exact h.attempts m' (.ready (hready _ h'))
  | delayed h' => exact h.attempts m' (.delayed (hdelayed ▸ h'))
  | processing id h' =>
    rw [hp, NilMap.table_some] at h'
    by_cases hid : id = m.id
    · subst hid
      rw [AList.lookup_insert] at h'
      cases h'
      exact hm
    · rw [AList.lookup_insert_ne hid] at h'
      exact h.attempts m' (.processing id h')

theorem Operational.nextDispatchable {d : Dispatch} {now : Int} (h : g.Operational)
    (hd : g.nextDispatchable now = .ok (g', d)) : g'.Operational := by
  have hlimiter : g'.limiter = none := by
    obtain ⟨hpoll, -, -⟩ := h.lined.poll hd
    cases hpoll with
    | capacity full same answer => rw [same, h.limiter]
    | rateLimited l wakeAt free refused same answer =>
      rw [h.limiter] at refused
      cases refused
    | taken l wakeAt free granted limiter takes stop =>
      rw [h.limiter] at granted
      cases granted
      exact limiter
  cases nextDispatchable_ok hd h.readyHead_le with
  | urgent m msg urgent ready processing allocated frame =>
    exact h.lease (h.attempts m (.urgent (urgent ▸ List.mem_cons_self))) hlimiter
      (frame.urgentHead_le h.urgentHead_le)
      (frame.readyHead_le h.readyHead_le) (fun slot hs => urgent ▸ List.mem_cons_of_mem _ hs)
      (fun slot hs => ready ▸ hs) frame.delayed processing
  | ready m k msg urgent urgent' ready processing allocated frame =>
    exact h.lease (h.attempts m (.ready (by rw [ready]; simp))) hlimiter
      (frame.urgentHead_le h.urgentHead_le)
      (frame.readyHead_le h.readyHead_le) (fun slot hs => by rw [urgent'] at hs; cases hs)
      (fun slot hs => by rw [ready]; simp [hs]) frame.delayed processing
  | refused msg urgent ready processing frame =>
    refine ⟨hlimiter, frame.urgentHead_le h.urgentHead_le, frame.readyHead_le h.readyHead_le,
      urgent ▸ h.urgent_full, processing ▸ h.allocated, ?_⟩
    intro m hm
    cases hm with
    | urgent h' => exact h.attempts m (.urgent (urgent ▸ h'))
    | ready h' =>
      rcases ready with hready | ⟨hnil, -⟩
      · exact h.attempts m (.ready (hready ▸ h'))
      · rw [hnil] at h'
        cases h'
    | delayed h' => exact h.attempts m (.delayed (frame.delayed ▸ h'))
    | processing id h' => exact h.attempts m (.processing id (processing ▸ h'))

theorem Operational.setConfig (h : g.Operational) (cfg : GroupConfig) (deficit quantum : Int) :
    { g with cfg := cfg, deficit := deficit, quantum := quantum }.Operational := by
  refine ⟨h.limiter, h.urgentHead_le, h.readyHead_le, h.urgent_full, h.allocated, fun m hm => ?_⟩
  cases hm with
  | urgent h' => exact h.attempts m (.urgent h')
  | ready h' => exact h.attempts m (.ready h')
  | delayed h' => exact h.attempts m (.delayed h')
  | processing id h' => exact h.attempts m (.processing id h')

theorem Operational.fail {id errMsg : Bytes} {now : Int} {dlq : Option Message} (h : g.Operational)
    (hf : g.fail id errMsg now = .ok (g', dlq)) : g'.Operational := by
  have hdel := h.delete id
  cases fail_cases hf with
  | absent none same letter =>
    subst same
    exact h
  | retries m delay found more delayed put letter =>
    subst put
    refine ⟨hdel.limiter, hdel.urgentHead_le, hdel.readyHead_le, hdel.urgent_full,
      hdel.allocated, ?_⟩
    intro m' hm'
    cases hm' with
    | urgent h' => exact hdel.attempts m' (.urgent h')
    | ready h' => exact hdel.attempts m' (.ready h')
    | delayed h' =>
      rcases List.mem_cons.mp ((Heap.push_perm delayedLess g.delayed _).mem_iff.mp h') with rfl | h'
      · have hm : -1 ≤ m.attempts := h.attempts m (.processing id found)
        change -1 ≤ m.attempts + 1
        omega
      · exact hdel.attempts m' (.delayed h')
    | processing id' h' => exact hdel.attempts m' (.processing id' h')
  | drops m found exhausted dropped letter =>
    subst dropped
    exact hdel

theorem Operational.complete (h : g.Operational) (id : Bytes) : (g.complete id).1.Operational := by
  unfold Group.complete
  split
  · exact h
  · exact h.delete id

theorem Operational.returnToPending (h : g.Operational) (id : Bytes) :
    (g.returnToPending id).Operational := by
  unfold Group.returnToPending
  split
  · exact h
  · rename_i m hl
    have hm := h.attempts m (.processing id hl)
    have hdel := h.delete id
    have hu : (g.urgent ++ [some { m with state := .pending }]).drop g.urgentHead =
        g.liveUrgent ++ [some { m with state := .pending }] := drop_append_singleton h.urgentHead_le
    refine ⟨h.limiter, ?_, h.readyHead_le, ?_, hdel.allocated, ?_⟩
    · simpa using Nat.le_succ_of_le h.urgentHead_le
    · rw [liveUrgent, hu]
      simp [h.urgent_full]
    · intro m' hm'
      cases hm' with
      | urgent h' =>
        rw [liveUrgent, hu, List.mem_append] at h'
        rcases h' with h' | h'
        · exact h.attempts m' (.urgent h')
        · cases List.mem_singleton.mp h'
          exact hm
      | ready h' => exact h.attempts m' (.ready h')
      | delayed h' => exact h.attempts m' (.delayed h')
      | processing id' h' => exact hdel.attempts m' (.processing id' h')

theorem lasting_operational : Lasting Operational where
  complete id h := h.complete id
  fail h hfail := h.fail hfail
  returnToPending id h := h.returnToPending id
  promoteDelayed ord now h := h.promoteDelayed ord now
  nextDispatchable h hnext := h.nextDispatchable hnext
  settings cfg deficit quantum h := h.setConfig cfg deficit quantum

theorem Operational.clearReady (h : g.Operational) (i : Nat) :
    { g with ready := g.ready.set i none }.Operational := by
  refine ⟨h.limiter, h.urgentHead_le, by simpa using h.readyHead_le, h.urgent_full, h.allocated, ?_⟩
  intro m hm
  cases hm with
  | urgent h' => exact h.attempts m (.urgent h')
  | ready h' =>
    have hmem : some m ∈ (g.ready.drop g.readyHead) := by
      rw [liveReady, List.drop_set] at h'
      split at h'
      · exact h'
      · exact (List.mem_or_eq_of_mem_set h').resolve_right (by simp)
    exact h.attempts m (.ready hmem)
  | delayed h' => exact h.attempts m (.delayed h')
  | processing id h' => exact h.attempts m (.processing id h')

end Group

inductive RestoredOp
  | replay (e : Event) (now : Int)
  | live (op : LiveOp)

def LiveOp.serves : LiveOp → Bool
  | .tryDispatchOne .. | .drainGroup .. | .completeAndNext .. | .failAndNext ..
    | .returnToPending ..
  | .sweepExpiredLeases .. => true
  | _ => false

namespace Queue

def execRestored [PathMatch] (q : Queue) : RestoredOp → Except Panic Queue
  | .replay e now => q.dispatch e now
  | .live op => do
    let (q, _) ← q.exec op
    return q

def UrgentFree (q : Queue) (key id : Bytes) : Prop :=
  ∀ g, q.groups.lookup key = some g → findSlot g.urgent g.urgentHead id = none

def Tolerates (q : Queue) : RestoredOp → Prop
  | .replay e _ =>
    match e.type with
    | .lease => q.UrgentFree e.group e.msgID
    | .ack => (q.leasedMessage e.group e.msgID).isSome ∨ q.UrgentFree e.group e.msgID
    | _ => True
  | .live op => op.serves

structure Operational [PathMatch] (q : Queue) : Prop where
  groups : ∀ key g, q.groups.lookup key = some g → g.Operational
  unlimited : ∀ key, (q.resolveConfig key).rateLimit = none

section Steps

variable [PathMatch] {q q' : Queue} {key id : Bytes}

theorem Operational.insert (h : q.Operational) {g : Group} (hcfg : q'.cfgIdx = q.cfgIdx)
    (hgroups : q'.groups = q.groups.insert key g) (hg : g.Operational) : q'.Operational := by
  refine ⟨?_, fun k => resolveConfig_congr hcfg k ▸ h.unlimited k⟩
  intro k g' hl
  rw [hgroups] at hl
  by_cases hk : k = key
  · subst hk
    rw [AList.lookup_insert] at hl
    cases hl
    exact hg
  · rw [AList.lookup_insert_ne hk] at hl
    exact h.groups k g' hl

theorem Operational.setGroup (h : q.Operational) {g : Group} (hg : g.Operational) :
    (q.setGroup key g).Operational :=
  h.insert rfl rfl hg

theorem Operational.onPublish (h : q.Operational) (e : Event) (now : Int) :
    ∃ q', q.onPublish e now = .ok q' ∧ q'.Operational := by
  obtain ⟨g, hg, ho⟩ : ∃ g, q.groupFor e.group = .ok g ∧ g.Operational := by
    unfold groupFor
    cases hl : q.groups.lookup e.group with
    | some g => exact ⟨g, rfl, h.groups _ g hl⟩
    | none =>
      have hrate : (q.resolveConfig e.group).RateOk := by
        intro r hr
        rw [h.unlimited] at hr
        cases hr
      obtain ⟨g, hg⟩ := Group.newGroup_total.mpr hrate
      exact ⟨g, hg, .ofNewGroup (h.unlimited _) hg⟩
  obtain ⟨⟨q', r⟩, hq'⟩ := publishWithID_total hg e.msgID e.payload now
  refine ⟨q', bind_ok.mpr ⟨_, hq', rfl⟩, ?_⟩
  obtain ⟨g', hg', hcases⟩ := publishWithID_ok hq'
  cases hg.symm.trans hg'
  rcases hcases with ⟨-, -, -, rfl⟩ | ⟨-, keyIdx, rfl⟩
  · exact h.setGroup ho
  · exact h.insert rfl rfl (ho.enqueue (show (-1 : Int) ≤ 0 by decide))

theorem Operational.onLease (h : q.Operational) (e : Event) (now : Int)
    (hfree : q.UrgentFree e.group e.msgID) :
    ∃ q', q.onLease e now = .ok q' ∧ q'.Operational := by
  unfold Queue.onLease replayLease
  cases hl : q.groups.lookup e.group with
  | none => exact ⟨q, rfl, h⟩
  | some g =>
    have ho := h.groups _ g hl
    simp only [hfree g hl]
    cases hs : findSlot g.ready g.readyHead e.msgID with
    | none => exact ⟨q, rfl, h⟩
    | some x =>
      obtain ⟨i, m⟩ := x
      obtain ⟨k, rfl, hk, -⟩ := findFrom_some hs
      have hm : -1 ≤ m.attempts := ho.attempts m (.ready (List.mem_of_getElem? hk))
      have hclear := ho.clearReady (g.readyHead + k)
      obtain ⟨⟨g', m'⟩, hlease⟩ := Group.lease_total
        (g := { g with ready := g.ready.set (g.readyHead + k) none })
        ho.allocated m now
      obtain ⟨-, -, rfl⟩ := Group.lease_ok hlease
      refine ⟨_, bind_ok.mpr ⟨_, bind_ok.mpr ⟨_, hlease, rfl⟩, rfl⟩, h.setGroup ?_⟩
      exact hclear.lease hm hclear.limiter hclear.urgentHead_le hclear.readyHead_le
        (fun _ hs => hs) (fun _ hs => hs)
        rfl rfl

theorem Operational.complete (h : q.Operational) (key id : Bytes) :
    (q.complete key id).1.Operational := by
  obtain ⟨-, heq⟩ | ⟨g, hl, heq⟩ := Queue.complete_eq q key id
  all_goals rw [heq]
  · exact h
  · exact h.setGroup ((h.groups _ g hl).complete id)

theorem Operational.removeMessage (h : q.Operational) (key id : Bytes)
    (hfree : q.UrgentFree key id) :
    (q.removeMessage key id).1.Operational := by
  unfold Queue.removeMessage
  cases hl : q.groups.lookup key with
  | none => exact h
  | some g =>
    have ho := h.groups _ g hl
    simp only [hfree g hl]
    cases findSlot g.ready g.readyHead id with
    | some x => exact h.setGroup (ho.clearReady x.1)
    | none =>
      simp only
      split
      · exact h.setGroup (ho.delete id)
      · exact h

theorem Operational.onACK (h : q.Operational) (e : Event)
    (hack : (q.leasedMessage e.group e.msgID).isSome ∨ q.UrgentFree e.group e.msgID) :
    (q.onACK e).Operational := by
  have hc := h.complete e.group e.msgID
  unfold Queue.onACK
  split
  · rename_i q₁ u hq₁
    rw [hq₁] at hc
    exact hc
  · rename_i q₁ err hq₁
    rw [hq₁] at hc
    refine hc.removeMessage e.group e.msgID ?_
    -- a message that was not found in `processing` leaves the group as it was
    unfold Queue.complete at hq₁
    cases hl : q.groups.lookup e.group with
    | none =>
      rw [hl] at hq₁
      cases hq₁
      intro g hg
      rw [hl] at hg
      cases hg
    | some g =>
      rw [hl] at hq₁
      simp only [Group.complete] at hq₁
      cases hp : g.processing.get? e.msgID with
      | some m =>
        rw [hp] at hq₁
        cases hq₁
      | none =>
        rw [hp] at hq₁
        cases hq₁
        have hfree := hack.resolve_left (by simp [leasedMessage, hl, hp])
        intro g' hg'
        rw [lookup_setGroup] at hg'
        cases hg'
        exact hfree g hl

theorem Operational.onNACK (h : q.Operational) (e : Event) (now : Int) :
    ∃ q', q.onNACK e now = .ok q' ∧ q'.Operational := by
  unfold Queue.onNACK Queue.fail
  cases hl : q.groups.lookup e.group with
  | none =>
    refine ⟨_, rfl, h.removeMessage e.group e.msgID ?_⟩
    intro g hg
    rw [hl] at hg
    cases hg
  | some g =>
    have hg := h.groups _ g hl
    obtain ⟨⟨g', dlq⟩, hf⟩ := g.fail_total e.msgID (str "replayed NACK") now
      fun m hm => hg.attempts m (.processing _ hm)
    exact ⟨_, bind_ok.mpr ⟨_, bind_ok.mpr ⟨_, hf, rfl⟩, rfl⟩, h.setGroup (hg.fail hf)⟩

theorem Operational.replay (h : q.Operational) (e : Event) (now : Int)
    (hg : q.Tolerates (.replay e now)) :
    ∃ q', q.dispatch e now = .ok q' ∧ q'.Operational := by
  unfold dispatch
  simp only [Tolerates] at hg
  cases ht : e.type with
  | publish => exact h.onPublish e now
  | lease =>
    rw [ht] at hg
    exact h.onLease e now hg
  | ack =>
    rw [ht] at hg
    exact ⟨_, rfl, h.onACK e hg⟩
  | nack => exact h.onNACK e now
  | expire => exact ⟨_, rfl, h.complete e.group e.msgID⟩
  | unknown => exact ⟨q, rfl, h⟩

theorem Operational.live (h : q.Operational) (op : LiveOp) (hop : op.serves = true) :
    ∃ q' r, q.exec op = .ok (q', r) ∧ q'.Operational := by
  have hrate : ∀ key, (q.resolveConfig key).RateOk := by
    intro key r hr
    rw [h.unlimited] at hr
    cases hr
  have hgroups : q.EachGroup Group.Serviceable := fun key g hl => (h.groups key g hl).serviceable
  obtain ⟨⟨q', r⟩, hexec⟩ := hgroups.exec_total hrate
    (fun key g hl id m hm => (h.groups key g hl).attempts m (.processing id hm)) op
  refine ⟨q', r, hexec, ?_, ?_⟩
  · -- nothing is published
    refine EachGroup.exec h.groups hexec (fun key g hnew => .ofNewGroup (h.unlimited key) hnew) ?_
      fun _ _ _ _ _ _ hg hact => Group.lasting_operational.act hg hact
    intro g m hid
    cases op with
    | publish | publishWithID => cases hop
    | _ => cases hid
  · intro key
    have hcfg : q'.cfgIdx = q.cfgIdx := by
      rw [exec_cfgIdx hexec]
      cases op with
      | setGroupConfig | deleteGroupConfig => cases hop
      | _ => rfl
    rw [resolveConfig_congr hcfg key]
    exact h.unlimited key

theorem Operational.step (h : q.Operational) (op : RestoredOp) (hg : q.Tolerates op) :
    ∃ q', q.execRestored op = .ok q' ∧ q'.Operational := by
  cases op with
  | replay e now => exact h.replay e now hg
  | live op =>
    obtain ⟨q', r, hq', ho⟩ := h.live op hg
    exact ⟨q', bind_ok.mpr ⟨_, hq', rfl⟩, ho⟩

end Steps

end Queue

/-- Every group has a leased message, so that its processing map is allocated, and no message that
is loaded has been attempted fewer than `-1` times. -/
def Snapshot.Allocates (snap : Snapshot) : Prop :=
  ∀ key gs, lastGroup snap.groups key = some gs →
    (∃ ms ∈ gs.messages, MessageState.ofInt8 ms.state = .processing) ∧
      ∀ ms ∈ gs.messages, MessageState.ofInt8 ms.state = .pending ∨
      MessageState.ofInt8 ms.state = .processing →
        -1 ≤ ms.attempts

theorem Group.Operational.imported {g : Group} (h : g.Operational) (queueName ns : Bytes)
    (now : Int) {gs : GroupSnapshot}
    (hleased : ∃ ms ∈ gs.messages, MessageState.ofInt8 ms.state = .processing)
    (hatt : ∀ ms ∈ gs.messages, MessageState.ofInt8 ms.state = .pending ∨
      MessageState.ofInt8 ms.state = .processing → -1 ≤ ms.attempts) :
    (importedGroup g (restoreGroup queueName ns now gs)).Operational := by
  have hmem : ∀ m ∈ gs.messages.map (messageForRecovery queueName ns gs.key),
      m.state = .pending ∨ m.state = .processing → -1 ≤ m.attempts := by
    intro m hm hs
    obtain ⟨ms, hms, rfl⟩ := List.mem_map.mp hm
    exact hatt ms hms hs
  rw [restoreGroup, foldl_restoreMessage]
  refine ⟨h.limiter, Nat.zero_le _, Nat.zero_le _, by simp [importedGroup, importState, liveUrgent],
    ?_, ?_⟩
  · refine (isSome_foldl_restoreLease _ none).mpr (.inr ?_)
    obtain ⟨ms, hms, hs⟩ := hleased
    exact ⟨_, List.mem_map_of_mem hms, hs⟩
  · intro m hm
    cases hm with
    | urgent h' => simp [importedGroup, importState, liveUrgent] at h'
    | ready h' =>
      simp only [importedGroup, importState, liveReady, List.drop_zero, List.nil_append,
        List.mem_map_of_injective (Option.some_injective _), List.mem_filter,
        decide_eq_true_eq] at h'
      exact hmem m h'.1 (.inl h'.2.1)
    | delayed h' =>
      simp only [importedGroup, importState, (Heap.init_perm _ _).mem_iff, List.nil_append,
        List.mem_filter, decide_eq_true_eq] at h'
      exact hmem m h'.1 (.inl h'.2.1)
    | processing id h' =>
      rcases lookup_foldl_restoreLease h' with h' | ⟨hm', -, hs⟩
      · cases h'
      · exact hmem m hm' (.inr hs)

theorem Queue.Operational.onSnapshot [PathMatch] (name ns : Bytes) (snap : Snapshot)
    (ord : RangeOrder) (now : Int)
    (hsnap : snap.Allocates) :
    ∃ q, (newQueue name ns).onSnapshot snap ord now = .ok q ∧ q.Operational := by
  have hunlimited : ∀ key, ((newQueue name ns).resolveConfig key).rateLimit = none := fun _ => rfl
  obtain ⟨hspec, htotal⟩ := (newQueue name ns).onSnapshot_spec snap ord now
  obtain ⟨q, hq⟩ := htotal.mpr (by
    intro gs hgs r hr
    rw [hunlimited] at hr
    cases hr)
  have hr := hspec q hq
  refine ⟨q, hq, ?_, fun k => Queue.resolveConfig_congr hr.cfgIdx k ▸ hunlimited k⟩
  intro key g hl
  cases hlast : lastGroup snap.groups key with
  | none =>
    rw [hr.kept key hlast] at hl
    cases hl
  | some gs =>
    obtain ⟨g₀, hg₀, hl'⟩ := hr.restored key gs hlast
    cases hl.symm.trans hl'
    obtain ⟨hleased, hatt⟩ := hsnap key gs hlast
    have ho : g₀.Operational := .ofNewGroup (by exact hunlimited key) hg₀
    exact ho.imported name ns now hleased hatt

/-- A queue loaded from a snapshot that leaves no processing map unallocated replays and serves
without a panic, as long as no record clears a slot of `urgent`. -/
theorem restored_queue_runs [PathMatch] (name ns : Bytes) (snap : Snapshot) (ord : RangeOrder)
    (now : Int)
    (hsnap : snap.Allocates) :
    ∃ q, (newQueue name ns).onSnapshot snap ord now = .ok q ∧
      ∀ q', Reachable Queue.execRestored Queue.Tolerates q q' → ∀ op, q'.Tolerates op →
        ∃ q'', q'.execRestored op = .ok q'' := by
  obtain ⟨q, hq, ho⟩ := Queue.Operational.onSnapshot name ns snap ord now hsnap
  refine ⟨q, hq, fun q' hreach op hop => ?_⟩
  have ho' : q'.Operational := by
    refine hreach.invariant ho ?_
    intro s op s' hs hg hstep
    obtain ⟨s'', hs'', ho''⟩ := hs.step op hg
    cases hstep.symm.trans hs''
    exact ho''
  obtain ⟨q'', hq'', -⟩ := ho'.step op hop
  exact ⟨q'', hq''⟩

def snapshotOf (messages : List MessageSnapshot) : Snapshot :=
  ⟨1, 0, 0, [⟨str "g", 1, 1, messages⟩]⟩

def leasedSnapshot : Snapshot := snapshotOf [⟨str "b", [], 1, 0, 0, 0, []⟩]

def publishAfter : RestoredOp :=
  .replay { sampleRecord with seq := 1 } 0

def dispatchAfter : RestoredOp := .live (.tryDispatchOne (str "g") .inOrder 0)

theorem restored_queue_runs_sample :
    leasedSnapshot.Allocates ∧ ∃ q q',
      @Queue.onSnapshot literalMatch (newQueue [] []) leasedSnapshot .inOrder 0 = .ok q ∧
      run (@Queue.execRestored literalMatch) q [publishAfter, dispatchAfter] = .ok q' ∧
      ∃ q'', @Queue.execRestored literalMatch q' dispatchAfter = .ok q'' := by
  have hsnap : leasedSnapshot.Allocates := by
    intro key gs hgs
    obtain ⟨hmem, -⟩ := lastGroup_key hgs
    cases List.mem_singleton.mp hmem
    exact ⟨⟨_, List.mem_singleton_self _, rfl⟩, by decide⟩
  obtain ⟨q, hq, hrun⟩ := @restored_queue_runs literalMatch [] [] leasedSnapshot .inOrder 0 hsnap
  cases hq
  refine ⟨hsnap, _, _, rfl, rfl, hrun _ ?_ dispatchAfter rfl⟩
  refine Reachable.start.run (l := [publishAfter, dispatchAfter]) ?_ rfl
  intro op hop s
  simp only [List.mem_cons, List.not_mem_nil, or_false] at hop
  rcases hop with rfl | rfl
  · trivial
  · rfl

/-- Nothing of `g` is leased in the snapshot; the first lease after a replayed publish writes to a
nil map. -/
theorem restored_queue_panics :
    ∃ q, @Queue.onSnapshot literalMatch (newQueue [] []) (snapshotOf []) .inOrder 0 = .ok q ∧
      run (@Queue.execRestored literalMatch) q [publishAfter, dispatchAfter] =
        .error .nilMapWrite :=
  ⟨_, rfl, rfl⟩

end Octar
