import Octar.Broker.LoggedRun
import Octar.Queue.Moves

namespace Octar

open Go

namespace Group

/-- A group during a replay of PUBLISH, LEASE and ACK records that has refused none.  A lease clears
its slot of `ready` in place, so `ready` has a slot for every publication. -/
structure Replaying (g : Group) (cfg : GroupConfig) : Prop where
  maxPending : g.cfg.maxPending = cfg.maxPending
  rate_ok : cfg.RateOk
  urgent : g.urgent = []
  urgentHead : g.urgentHead = 0
  readyHead : g.readyHead = 0
  delayed : g.delayed = []
  allocated : g.processing.isSome
  keyed : ∀ id m, g.processing.table.lookup id = some m → m.id = id
  depth : 0 < cfg.maxPending → g.ready.length ≤ cfg.maxPending

variable {g g' : Group} {cfg : GroupConfig} {id : Bytes}

theorem Replaying.pendingCount (h : g.Replaying cfg) : g.pendingCount = g.ready.length := by
  simp [Group.pendingCount, h.urgent, h.urgentHead, h.readyHead, h.delayed]

theorem Replaying.findSlot_urgent (h : g.Replaying cfg) (id : Bytes) :
    Queue.findSlot g.urgent g.urgentHead id = none := by
  rw [h.urgent, h.urgentHead]
  rfl

theorem Replaying.ofNewGroup (h : newGroup cfg = .ok g) : g.Replaying cfg ∧ g.ready = [] := by
  have hrate : cfg.RateOk := newGroup_total.mp ⟨g, h⟩
  obtain ⟨limiter, -, hret⟩ := bind_ok.mp h
  cases hret
  exact ⟨⟨rfl, hrate, rfl, rfl, rfl, rfl, rfl, fun id m hl => (nomatch hl), Int.le_of_lt⟩, rfl⟩

theorem Replaying.enqueue (h : g.Replaying cfg) (m : Message)
    (hroom : 0 < cfg.maxPending → g.ready.length < cfg.maxPending) :
    (g.enqueue m).Replaying cfg := by
  refine ⟨h.maxPending, h.rate_ok, h.urgent, h.urgentHead, h.readyHead, h.delayed,
    h.allocated, h.keyed, ?_⟩
  intro hpos
  rw [Group.enqueue, List.length_append]
  exact Int.add_one_le_of_lt (hroom hpos)

theorem ids_enqueue (h : g.Replaying cfg) (m : Message) : (g.enqueue m).ids = m.id ::ₘ g.ids := by
  rw [ids, Group.enqueue, slots_appendReady g m (h.readyHead ▸ Nat.zero_le _), Multiset.map_cons]
  rfl

theorem Replaying.clearReady (h : g.Replaying cfg) (i : Nat) :
    Replaying { g with ready := g.ready.set i none } cfg :=
  ⟨h.maxPending, h.rate_ok, h.urgent, h.urgentHead, h.readyHead, h.delayed, h.allocated, h.keyed,
    fun hpos => (List.length_set ..).symm ▸ h.depth hpos⟩

theorem Replaying.delete (h : g.Replaying cfg) (id : Bytes) :
    Replaying { g with processing := g.processing.delete id } cfg :=
  ⟨h.maxPending, h.rate_ok, h.urgent, h.urgentHead, h.readyHead, h.delayed,
    (NilMap.isSome_delete _ _).trans h.allocated,
    fun id' m hl => h.keyed id' m (lookup_delete hl).1, h.depth⟩

theorem Replaying.insertLease (h : g.Replaying cfg) (m : Message) :
    Replaying { g with processing := some (g.processing.table.insert m.id m) } cfg := by
  refine ⟨h.maxPending, h.rate_ok, h.urgent, h.urgentHead, h.readyHead, h.delayed, rfl, ?_, h.depth⟩
  intro id m' hl
  rcases lookup_insert hl with hl | ⟨rfl, rfl⟩
  · exact h.keyed id m' hl
  · rfl

theorem ids_clearReady {i : Nat} {m : Message}
    (h : Queue.findSlot g.ready g.readyHead id = some (i, m)) :
    m.id = id ∧ g.ids = id ::ₘ ids { g with ready := g.ready.set i none } := by
  obtain ⟨rfl, hs⟩ := slots_clearReady h
  exact ⟨rfl, by rw [ids, hs, Multiset.map_cons]; rfl⟩

theorem Replaying.ids_delete (h : g.Replaying cfg) {m : Message}
    (hl : g.processing.get? id = some m) :
    g.ids = id ::ₘ ids { g with processing := g.processing.delete id } := by
  rw [ids, slots_deleteLease g hl, Multiset.map_cons, ← h.keyed id m hl]
  rfl

theorem Replaying.mem_ids_insertLease (h : g.Replaying cfg) {m : Message}
    (hid : id = m.id ∨ id ∈ g.ids) :
    id ∈ ids { g with processing := some (g.processing.table.insert m.id m) } := by
  by_cases heq : id = m.id
  · subst heq
    exact Multiset.mem_map.mpr ⟨(.processing, m),
      mem_slots_lookup.mpr ⟨m.id, AList.lookup_insert _⟩, rfl⟩
  · obtain ⟨⟨loc, m'⟩, hx, rfl⟩ := Multiset.mem_map.mp (hid.resolve_left heq)
    refine Multiset.mem_map.mpr ⟨(loc, m'), ?_, rfl⟩
    cases loc with
    | urgent =>
      rw [mem_slots_urgent] at hx ⊢
      exact hx
    | ready =>
      rw [mem_slots_ready] at hx ⊢
      exact hx
    | delayed =>
      rw [mem_slots_delayed] at hx ⊢
      exact hx
    | processing =>
      obtain ⟨k, hk⟩ := mem_slots_lookup.mp hx
      have hne : k ≠ m.id := h.keyed k m' hk ▸ heq
      exact mem_slots_lookup.mpr ⟨k, (AList.lookup_insert_ne hne).trans hk⟩

end Group

namespace Queue

def readySlots (q : Queue) (key : Bytes) : Nat :=
  ((q.groups.lookup key).map fun g => g.ready.length).getD 0

theorem readySlots_some {q : Queue} {key : Bytes} {g : Group} (h : q.groups.lookup key = some g) :
    q.readySlots key = g.ready.length := by
  rw [readySlots, h]
  rfl

theorem readySlots_insert {q q' : Queue} {key : Bytes} {g : Group}
    (h : q'.groups = q.groups.insert key g) (k : Bytes) :
    q'.readySlots k = if k = key then g.ready.length else q.readySlots k := by
  rw [readySlots, h]
  split
  · rename_i hk
    subst hk
    rw [AList.lookup_insert]
    rfl
  · rename_i hk
    rw [AList.lookup_insert_ne hk]
    rfl

abbrev replaying (_ : Bytes) (cfg : GroupConfig) (g : Group) : Prop := g.Replaying cfg

variable {q q' : Queue} {key id : Bytes}

theorem Holds.insert {g' : Group} {k i : Bytes} (hgroups : q'.groups = q.groups.insert key g')
    (hids : ∀ g, q.groups.lookup key = some g → k = key → i ∈ g.ids → i ∈ g'.ids)
    (h : q.Holds k i) :
    q'.Holds k i := by
  obtain ⟨g, hl, hi⟩ := h
  rw [Holds, hgroups]
  by_cases hk : k = key
  · subst hk
    exact ⟨g', AList.lookup_insert _, hids g hl rfl hi⟩
  · exact ⟨g, (AList.lookup_insert_ne hk).trans hl, hi⟩

variable [PathMatch]

structure Keeps (S : Bytes → Bytes → Prop) (q q' : Queue) : Prop where
  cfgIdx : q'.cfgIdx = q.cfgIdx
  all : q'.All replaying
  readySlots : ∀ k, q'.readySlots k = q.readySlots k
  holds : ∀ k i, S k i → q.Holds k i → q'.Holds k i

theorem Keeps.same {S : Bytes → Bytes → Prop} (hr : q.All replaying) : Keeps S q q :=
  ⟨rfl, hr, fun _ => rfl, fun _ _ _ h => h⟩

theorem Keeps.trans {S : Bytes → Bytes → Prop} {q₁ : Queue} (h : Keeps S q q₁)
    (h' : Keeps S q₁ q') :
    Keeps S q q' :=
  ⟨h'.cfgIdx.trans h.cfgIdx, h'.all, fun k => (h'.readySlots k).trans (h.readySlots k),
    fun k i hS hq => h'.holds k i hS (h.holds k i hS hq)⟩

theorem Keeps.ofGroup {S : Bytes → Bytes → Prop} (hr : q.All replaying) {g g' : Group}
    (hl : q.groups.lookup key = some g) (hg' : g'.Replaying (q.resolveConfig key))
    (hlength : g'.ready.length = g.ready.length) (hids : ∀ i ∈ g.ids, S key i → i ∈ g'.ids) :
    Keeps S q (q.setGroup key g') := by
  refine ⟨rfl, hr.insert rfl rfl hg', ?_, ?_⟩
  · intro k
    rw [readySlots_insert rfl]
    split
    · rename_i hk
      rw [hk, readySlots_some hl, hlength]
    · rfl
  · intro k i hS hq
    refine hq.insert rfl ?_
    rintro g₁ hl₁ rfl hi
    rw [hl] at hl₁
    cases hl₁
    exact hids i hi hS

theorem replayLease_keeps (hr : q.All replaying) (key id : Bytes) (now : Int) :
    ∃ q' b, q.replayLease key id now = .ok (q', b) ∧ Keeps (fun _ _ => True) q q' := by
  unfold replayLease
  cases hl : q.groups.lookup key with
  | none => exact ⟨q, false, rfl, .same hr⟩
  | some g =>
    have hg := hr key g hl
    simp only [hg.findSlot_urgent]
    cases hf : findSlot g.ready g.readyHead id with
    | none => exact ⟨q, false, rfl, .same hr⟩
    | some x =>
      obtain ⟨i, m⟩ := x
      obtain ⟨rfl, hids⟩ := Group.ids_clearReady hf
      have hclear := hg.clearReady i
      have hlease := hclear.insertLease (g.leased m now)
      refine ⟨_, true, bind_ok.mpr ⟨(_, g.leased m now), ?_, rfl⟩,
        .ofGroup hr hl hlease (List.length_set ..) ?_⟩
      · rw [Group.lease, NilMap.set_ok hg.allocated]
        rfl
      · intro i' hi' _
        rw [hids, Multiset.mem_cons] at hi'
        exact hclear.mem_ids_insertLease hi'

variable (key id)

abbrev butFor (k i : Bytes) : Prop := ¬(k = key ∧ i = id)

theorem removeMessage_keeps (hr : q.All replaying) :
    Keeps (butFor key id) q (q.removeMessage key id).1 := by
  unfold removeMessage
  cases hl : q.groups.lookup key with
  | none => exact .same hr
  | some g =>
    have hg := hr key g hl
    have hbut : ∀ {ids : Multiset Bytes} {i : Bytes}, i ∈ id ::ₘ ids →
        butFor key id key i → i ∈ ids := by
      intro ids i hi hne
      exact (Multiset.mem_cons.mp hi).resolve_left fun h => hne ⟨rfl, h⟩
    simp only [hg.findSlot_urgent]
    cases hf : findSlot g.ready g.readyHead id with
    | some x =>
      exact .ofGroup hr hl (hg.clearReady x.1) (List.length_set ..) fun i hi hne =>
        hbut ((Group.ids_clearReady hf).2 ▸ hi) hne
    | none =>
      cases hp : g.processing.get? id with
      | none => exact .same hr
      | some m =>
        exact .ofGroup hr hl (hg.delete id) rfl fun i hi hne => hbut (hg.ids_delete hp ▸ hi) hne

theorem complete_keeps (hr : q.All replaying) : Keeps (butFor key id) q (q.complete key id).1 := by
  cases hl : q.groups.lookup key with
  | none =>
    rw [complete, hl]
    exact .same hr
  | some g =>
    have hg := hr key g hl
    rw [complete_some hl]
    unfold Group.complete
    cases hp : g.processing.get? id with
    | none => exact .ofGroup hr hl hg rfl fun _ hi _ => hi
    | some m =>
      refine .ofGroup hr hl (hg.delete id) rfl fun i hi hne => ?_
      rw [hg.ids_delete hp] at hi
      exact (Multiset.mem_cons.mp hi).resolve_left fun h => hne ⟨rfl, h⟩

variable {key id}

theorem onACK_keeps (hr : q.All replaying) (e : Event) :
    Keeps (butFor e.group e.msgID) q (q.onACK e) := by
  have hc := complete_keeps e.group e.msgID hr
  unfold onACK
  split
  · rename_i heq
    rw [heq] at hc
    exact hc
  · rename_i heq
    rw [heq] at hc
    exact hc.trans (removeMessage_keeps _ _ hc.all)

theorem groupFor_replaying (hr : q.All replaying) (hrate : (q.resolveConfig key).RateOk) :
    ∃ g, g.Replaying (q.resolveConfig key) ∧ q.groupFor key = .ok g ∧
      q.readySlots key = g.ready.length ∧ ∀ g₁, q.groups.lookup key = some g₁ → g₁ = g := by
  unfold groupFor
  cases hl : q.groups.lookup key with
  | some g => exact ⟨g, hr key g hl, rfl, readySlots_some hl, fun _ h => (Option.some.inj h).symm⟩
  | none =>
    obtain ⟨g, hnew⟩ := Group.newGroup_total.mpr hrate
    obtain ⟨hg, hready⟩ := Group.Replaying.ofNewGroup hnew
    refine ⟨g, hg, hnew, ?_, fun _ h => (nomatch h)⟩
    rw [readySlots, hl, hready]
    rfl

theorem publishWithID_replaying (hr : q.All replaying) (hrate : (q.resolveConfig key).RateOk)
    (id payload : Bytes) (now : Int) :
    ((∃ q' msg, q.publishWithID key id payload now = .ok (q', .ok msg)) ↔
        (0 < (q.resolveConfig key).maxPending →
          q.readySlots key < (q.resolveConfig key).maxPending)) ∧
      ∀ q' msg, q.publishWithID key id payload now = .ok (q', .ok msg) →
        q'.cfgIdx = q.cfgIdx ∧ q'.All replaying ∧
        (∀ k, q'.readySlots k = q.readySlots k + if k = key then 1 else 0) ∧
        ∀ k i, q.Holds k i ∨ k = key ∧ i = id → q'.Holds k i := by
  obtain ⟨g, hg, hfor, hslots, hids⟩ := groupFor_replaying hr hrate
  have haccepted := publishWithID_accepts_iff hfor id payload now
  rw [hg.maxPending, hg.pendingCount, ← hslots] at haccepted
  refine ⟨haccepted, ?_⟩
  intro q' msg h
  have hroom := haccepted.mp ⟨q', msg, h⟩
  rw [hslots] at hroom
  obtain ⟨g₁, hg₁, hcases⟩ := publishWithID_ok h
  cases hfor.symm.trans hg₁
  obtain ⟨-, keyIdx, rfl⟩ := hcases.resolve_left fun hfull => nomatch hfull.2.2.1
  refine ⟨rfl, hr.insert rfl rfl (hg.enqueue _ hroom), ?_, ?_⟩
  · intro k
    rw [readySlots_insert rfl]
    split
    · rename_i hk
      simp [hk, hslots, Group.enqueue]
    · rfl
  · intro k i hki
    have hmem : i = id ∨ i ∈ g.ids →
        i ∈ (g.enqueue (newMessageAt q.name q.ns key payload now id)).ids := by
      rw [Group.ids_enqueue hg, Multiset.mem_cons]
      exact fun h => h
    rcases hki with hq | ⟨rfl, rfl⟩
    · exact hq.insert rfl fun g₁ hl _ hi => hmem (.inr (hids g₁ hl ▸ hi))
    · exact ⟨_, AList.lookup_insert _, hmem (.inl rfl)⟩

end Queue

inductive AcceptedReplay [PathMatch] : Queue → List (Event × Int) → Queue → Prop
  | nil {q : Queue} : AcceptedReplay q [] q
  | cons {q q₁ q' : Queue} {e : Event × Int} {events : List (Event × Int)} :
    q.dispatch e.1 e.2 = .ok q₁ →
      (e.1.type = .publish → ∃ msg, q.publishWithID e.1.group e.1.msgID e.1.payload e.2 =
        .ok (q₁, .ok msg)) → AcceptedReplay q₁ events q' → AcceptedReplay q (e :: events) q'

def publishCount (key : Bytes) (events : List Event) : Nat :=
  events.countP fun e => e.type = .publish ∧ e.group = key

theorem publishCount_cons (key : Bytes) (e : Event) (events : List Event) :
    publishCount key (e :: events) = publishCount key [e] + publishCount key events := by
  change publishCount key ([e] ++ events) = _
  exact List.countP_append

def EventType.withoutNACK (t : EventType) : Prop := t = .publish ∨ t = .lease ∨ t = .ack

section Replay

variable [PathMatch] {q q' : Queue} {events : List (Event × Int)}

theorem Queue.dispatch_keeps (hr : q.All Queue.replaying) {e : Event}
    (ht : e.type = .lease ∨ e.type = .ack) (now : Int) :
    ∃ q', q.dispatch e now = .ok q' ∧
      Queue.Keeps (fun k i => e.type = .ack → Queue.butFor e.group e.msgID k i) q q' := by
  unfold Queue.dispatch
  rcases ht with ht | ht
  · obtain ⟨q', b, hq', hk⟩ := Queue.replayLease_keeps hr e.group e.msgID now
    rw [ht]
    exact ⟨q', bind_ok.mpr ⟨_, hq', rfl⟩, hk.cfgIdx, hk.all, hk.readySlots,
      fun k i _ => hk.holds k i trivial⟩
  · obtain ⟨hcfg, hall, hslots, hholds⟩ := Queue.onACK_keeps hr e
    rw [ht]
    exact ⟨_, rfl, hcfg, hall, hslots, fun k i hS => hholds k i (hS rfl)⟩

theorem AcceptedReplay.step {q₁ : Queue} {e : Event × Int} (hr : q.All Queue.replaying)
    (ht : e.1.type.withoutNACK) (hrate : e.1.type = .publish → (q.resolveConfig e.1.group).RateOk)
    (hd : q.dispatch e.1 e.2 = .ok q₁)
    (hp : e.1.type = .publish →
      ∃ msg, q.publishWithID e.1.group e.1.msgID e.1.payload e.2 = .ok (q₁, .ok msg)) :
    q₁.cfgIdx = q.cfgIdx ∧ q₁.All Queue.replaying ∧
      (∀ k, q₁.readySlots k = q.readySlots k + publishCount k [e.1]) ∧
      ∀ k i, q.Holds k i ∨ (e.1.type = .publish ∧ k = e.1.group ∧ i = e.1.msgID) →
        (e.1.type = .ack → Queue.butFor e.1.group e.1.msgID k i) → q₁.Holds k i := by
  rcases ht with ht | ht
  · obtain ⟨msg, hmsg⟩ := hp ht
    obtain ⟨hcfg, hall, hslots, hholds⟩ :=
      (Queue.publishWithID_replaying hr (hrate ht) e.1.msgID e.1.payload e.2).2 q₁ msg hmsg
    refine ⟨hcfg, hall, ?_, ?_⟩
    · intro k
      rw [hslots]
      by_cases hk : k = e.1.group
      · simp [publishCount, ht, hk]
      · simp [publishCount, hk, Ne.symm hk]
    · intro k i hki _
      exact hholds k i (hki.imp_right fun h => h.2)
  · obtain ⟨q₂, hq₂, hk⟩ := Queue.dispatch_keeps hr ht e.2
    rw [hd] at hq₂
    cases hq₂
    have hne : e.1.type ≠ .publish := by rcases ht with ht | ht <;> simp [ht]
    refine ⟨hk.cfgIdx, hk.all, ?_, ?_⟩
    · intro k
      rw [hk.readySlots]
      simp [publishCount, hne]
    · intro k i hki hS
      exact hk.holds k i hS (hki.resolve_right fun h => hne h.1)

theorem Queue.readySlots_le (hr : q.All Queue.replaying) {key : Bytes}
    (hpos : 0 < (q.resolveConfig key).maxPending) :
    q.readySlots key ≤ (q.resolveConfig key).maxPending := by
  cases hl : q.groups.lookup key with
  | none =>
    rw [Queue.readySlots, hl]
    exact Int.le_of_lt hpos
  | some g =>
    rw [Queue.readySlots_some hl]
    exact (hr key g hl).depth hpos

theorem acceptedReplay_iff (hr : q.All Queue.replaying) (ht : ∀ e ∈ events, e.1.type.withoutNACK)
    (hrate : ∀ e ∈ events, e.1.type = .publish → (q.resolveConfig e.1.group).RateOk) :
    (∃ q', AcceptedReplay q events q') ↔ ∀ key, 0 < (q.resolveConfig key).maxPending →
      (q.readySlots key + publishCount key (events.map Prod.fst) : Nat) ≤
        (q.resolveConfig key).maxPending := by
  induction events generalizing q with
  | nil => exact ⟨fun _ _ => Queue.readySlots_le hr, fun _ => ⟨q, .nil⟩⟩
  | cons e events ih =>
    rw [List.forall_mem_cons] at ht hrate
    -- the queue after an accepted record, to which the induction hypothesis applies
    have hrest : ∀ q₁, q.dispatch e.1 e.2 = .ok q₁ →
        (e.1.type = .publish →
          ∃ msg, q.publishWithID e.1.group e.1.msgID e.1.payload e.2 = .ok (q₁, .ok msg)) →
        ((∃ q', AcceptedReplay q₁ events q') ↔ ∀ key, 0 < (q.resolveConfig key).maxPending →
          (q.readySlots key + publishCount key ((e :: events).map Prod.fst) : Nat) ≤
            (q.resolveConfig key).maxPending) := by
      intro q₁ hd hp
      obtain ⟨hcfg, hall, hslots, -⟩ := AcceptedReplay.step hr ht.1 hrate.1 hd hp
      have hresolve := Queue.resolveConfig_congr hcfg
      rw [ih hall ht.2 fun e' he' => hresolve e'.1.group ▸ hrate.2 e' he']
      simp only [hresolve, hslots, List.map_cons, publishCount_cons _ e.1 (events.map Prod.fst),
        Nat.add_assoc]
    constructor
    · rintro ⟨q', h⟩
      cases h with
      | cons hd hp h => exact (hrest _ hd hp).mp ⟨q', h⟩
    · intro hfits
      obtain ⟨q₁, hd, hp⟩ : ∃ q₁, q.dispatch e.1 e.2 = .ok q₁ ∧ (e.1.type = .publish →
          ∃ msg, q.publishWithID e.1.group e.1.msgID e.1.payload e.2 = .ok (q₁, .ok msg)) := by
        rcases ht.1 with ht | ht
        · have hroom : 0 < (q.resolveConfig e.1.group).maxPending →
              q.readySlots e.1.group < (q.resolveConfig e.1.group).maxPending := by
            intro hpos
            have hone : publishCount e.1.group [e.1] = 1 := by simp [publishCount, ht]
            have hle := hfits e.1.group hpos
            rw [List.map_cons, publishCount_cons, hone] at hle
            omega
          obtain ⟨q₁, msg, hmsg⟩ :=
            (Queue.publishWithID_replaying hr (hrate.1 ht) e.1.msgID e.1.payload e.2).1.mpr hroom
          refine ⟨q₁, ?_, fun _ => ⟨msg, hmsg⟩⟩
          rw [Queue.dispatch, ht]
          exact bind_ok.mpr ⟨_, hmsg, rfl⟩
        · obtain ⟨q₁, hq₁, -⟩ := Queue.dispatch_keeps hr ht e.2
          refine ⟨q₁, hq₁, fun h => ?_⟩
          rw [h] at ht
          simp at ht
      obtain ⟨q', h⟩ := (hrest q₁ hd hp).mpr hfits
      exact ⟨q', .cons hd hp h⟩

theorem AcceptedReplay.holds (h : AcceptedReplay q events q') (hr : q.All Queue.replaying)
    (ht : ∀ e ∈ events, e.1.type.withoutNACK)
    (hrate : ∀ e ∈ events, e.1.type = .publish → (q.resolveConfig e.1.group).RateOk) {k i : Bytes}
    (hpub : q.Holds k i ∨ ∃ e ∈ events, e.1.type = .publish ∧ k = e.1.group ∧ i = e.1.msgID)
    (hack : ∀ e ∈ events, e.1.type = .ack → Queue.butFor e.1.group e.1.msgID k i) :
    q'.Holds k i := by
  induction h with
  | nil => exact hpub.resolve_right fun ⟨e, he, _⟩ => (nomatch he)
  | @cons q q₁ q' e events hd hp _ ih =>
    rw [List.forall_mem_cons] at ht hrate hack
    obtain ⟨hcfg, hall, -, hholds⟩ := AcceptedReplay.step hr ht.1 hrate.1 hd hp
    have hresolve := Queue.resolveConfig_congr hcfg
    refine ih hall ht.2 (fun e' he' => hresolve e'.1.group ▸ hrate.2 e' he') ?_ hack.2
    rcases hpub with hq | ⟨e', he', hpub⟩
    · exact .inl (hholds k i (.inl hq) hack.1)
    · rcases List.mem_cons.mp he' with rfl | he'
      · exact .inl (hholds k i (.inr hpub) hack.1)
      · exact .inr ⟨e', he', hpub⟩

end Replay

def LiveOp.withoutNACK : LiveOp → Prop
  | .publish .. | .publishWithID .. | .tryDispatchOne .. | .drainGroup .. | .completeAndNext .. =>
    True
  | _ => False

/-- `AckedRun q₀ ops q log`: publishes, dispatches and ACKs lead from `q₀` to `q` and log `log`.
The broker logs an ACK whether or not it finds its message in processing. -/
inductive AckedRun [PathMatch] (q₀ : Queue) : List LiveOp → Queue → List Event → Prop
  | start : AckedRun q₀ [] q₀ []
  | step {ops : List LiveOp} {q : Queue} {log : List Event} {op : LiveOp} {q' : Queue} {r : Reply} :
    AckedRun q₀ ops q log → op.withoutNACK → q.exec op = .ok (q', r) →
      AckedRun q₀ (ops ++ [op]) q' (log ++ q.logOf r op)

section Live

variable [PathMatch] {q₀ q q' : Queue}

abbrev Queue.rateOk (_ : Bytes) (cfg : GroupConfig) (_ : Group) : Prop := cfg.RateOk

theorem Queue.publishWithID_rateOk {key id payload : Bytes} {now : Int}
    {r : Except QueueError Message} (hr : q.All Queue.rateOk)
    (h : q.publishWithID key id payload now = .ok (q', r)) :
    q'.cfgIdx = q.cfgIdx ∧ q'.All Queue.rateOk ∧ (q.resolveConfig key).RateOk := by
  obtain ⟨g, hg, hcases⟩ := publishWithID_ok h
  have hrate : (q.resolveConfig key).RateOk := by
    rcases groupFor_cases hg with hl | ⟨-, hnew⟩
    · exact hr key g hl
    · exact Group.newGroup_total.mp ⟨g, hnew⟩
  rcases hcases with ⟨-, -, -, rfl⟩ | ⟨-, keyIdx, rfl⟩
  · exact ⟨rfl, hr.insert rfl rfl hrate, hrate⟩
  · exact ⟨rfl, hr.insert rfl rfl hrate, hrate⟩

theorem Queue.exec_rateOk {op : LiveOp} {r : Reply} (hr : q.All Queue.rateOk) (hop : op.withoutNACK)
    (h : q.exec op = .ok (q', r)) :
    q'.cfgIdx = q.cfgIdx ∧ q'.All Queue.rateOk ∧ ∀ e ∈ q.logOf r op, e.type.withoutNACK ∧
      (e.type = .publish → (q.resolveConfig e.group).RateOk) := by
  have hset : ∀ {key : Bytes} {g g' : Group}, q.groups.lookup key = some g →
      (q.setGroup key g').All Queue.rateOk := fun {key g _} hl =>
    hr.insert rfl rfl (show (q.resolveConfig key).RateOk from hr key g hl)
  have hlease : ∀ {msgs : List Message}, ∀ e ∈ q.leaseEvents msgs, e.type.withoutNACK ∧
      (e.type = .publish → (q.resolveConfig e.group).RateOk) := by
    intro msgs e he
    obtain ⟨m, -, rfl⟩ := List.mem_map.mp he
    exact ⟨.inr (.inl rfl), fun h => (nomatch h)⟩
  have hpublish : ∀ {key id payload : Bytes} {now : Int} {q₁ : Queue}
      {r₁ : Except QueueError Message}, q.publishWithID key id payload now = .ok (q₁, r₁) →
      q₁.cfgIdx = q.cfgIdx ∧ q₁.All Queue.rateOk ∧
        ∀ e ∈ (Reply.published r₁).accepted.map fun m => q.event .publish key m.id payload,
          e.type.withoutNACK ∧ (e.type = .publish → (q.resolveConfig e.group).RateOk) := by
    intro key id payload now q₁ r₁ hq
    obtain ⟨hcfg, hall, hrate⟩ := Queue.publishWithID_rateOk hr hq
    refine ⟨hcfg, hall, ?_⟩
    intro e he
    obtain ⟨m, -, rfl⟩ := List.mem_map.mp he
    exact ⟨.inl rfl, fun _ => hrate⟩
  cases op with
  | publish key payload id now =>
    obtain ⟨⟨q₁, r₁⟩, hq, hret⟩ := bind_ok.mp h
    cases hret
    exact hpublish hq
  | publishWithID key id payload now =>
    obtain ⟨⟨q₁, r₁⟩, hq, hret⟩ := bind_ok.mp h
    cases hret
    exact hpublish hq
  | tryDispatchOne key ord now =>
    obtain ⟨⟨q₁, r₁⟩, hq, hret⟩ := bind_ok.mp h
    cases hret
    obtain ⟨-, rfl, -⟩ | ⟨g, g', hl, -, rfl⟩ := Queue.tryDispatchOne_ok hq
    · exact ⟨rfl, hr, hlease⟩
    · exact ⟨rfl, hset hl, hlease⟩
  | drainGroup key ord now =>
    obtain ⟨⟨q₁, r₁⟩, hq, hret⟩ := bind_ok.mp h
    cases hret
    obtain ⟨-, rfl, -⟩ | ⟨g, g', hl, -, rfl⟩ := Queue.drainGroup_ok hq
    · exact ⟨rfl, hr, hlease⟩
    · exact ⟨rfl, hset hl, hlease⟩
  | completeAndNext key id ord now =>
    obtain ⟨⟨q₁, r₁⟩, hq, hret⟩ := bind_ok.mp h
    cases hret
    have hlog : ∀ e ∈ q.logOf (.handed r₁.toList) (.completeAndNext key id ord now),
        e.type.withoutNACK ∧ (e.type = .publish → (q.resolveConfig e.group).RateOk) := by
      intro e he
      rcases List.mem_cons.mp he with rfl | he
      · exact ⟨.inr (.inr rfl), fun h => (nomatch h)⟩
      · exact hlease e he
    obtain ⟨-, rfl, -⟩ | ⟨g, g', hl, -, rfl⟩ := Queue.completeAndNext_ok hq
    · exact ⟨rfl, hr, hlog⟩
    · exact ⟨rfl, hset hl, hlog⟩
  | _ => cases hop

theorem AckedRun.rateOk {ops : List LiveOp} {log : List Event} (h : AckedRun q₀ ops q log)
    (hempty : q₀.groups = ∅) :
    q.cfgIdx = q₀.cfgIdx ∧ q.All Queue.rateOk ∧ ∀ e ∈ log, e.type.withoutNACK ∧
      (e.type = .publish → (q₀.resolveConfig e.group).RateOk) := by
  induction h with
  | start => exact ⟨rfl, .ofEmpty hempty, fun e he => (nomatch he)⟩
  | step _ hop hexec ih =>
    obtain ⟨hcfg, hall, hlog⟩ := ih
    obtain ⟨hcfg', hall', hlog'⟩ := Queue.exec_rateOk hall hop hexec
    refine ⟨hcfg'.trans hcfg, hall', ?_⟩
    intro e he
    rcases List.mem_append.mp he with he | he
    · exact hlog e he
    · rw [← Queue.resolveConfig_congr hcfg]
      exact hlog' e he

end Live

/-- The replay of a run of publishes, dispatches and ACKs accepts every PUBLISH record, and holds
every published message without ACK record, exactly if no group with a depth limit has more PUBLISH
records than its limit. -/
theorem replay_accepts_publishes_iff [PathMatch] {q₀ q : Queue} {ops : List LiveOp}
    {log : List Event} (hrun : AckedRun q₀ ops q log) (hempty : q₀.groups = ∅)
    {events : List (Event × Int)} (hlog : events.map Prod.fst = log) :
    (∃ q', AcceptedReplay q₀ events q' ∧ ∀ e ∈ log, e.type = .publish →
        (∀ e' ∈ log, e'.type = .ack → ¬(e.group = e'.group ∧ e.msgID = e'.msgID)) →
          q'.Holds e.group e.msgID) ↔
      ∀ key, 0 < (q₀.resolveConfig key).maxPending →
        publishCount key log ≤ (q₀.resolveConfig key).maxPending := by
  obtain ⟨-, -, hrecords⟩ := hrun.rateOk hempty
  have hmem : ∀ {e : Event × Int}, e ∈ events → e.1 ∈ log := fun he => hlog ▸ List.mem_map_of_mem he
  have ht : ∀ e ∈ events, e.1.type.withoutNACK := fun e he => (hrecords e.1 (hmem he)).1
  have hrate : ∀ e ∈ events, e.1.type = .publish → (q₀.resolveConfig e.1.group).RateOk :=
    fun e he => (hrecords e.1 (hmem he)).2
  have hslots : ∀ key, q₀.readySlots key = 0 := by
    intro key
    rw [Queue.readySlots, hempty]
    rfl
  have haccepted := acceptedReplay_iff (.ofEmpty hempty) ht hrate
  simp only [hslots, Nat.zero_add, hlog] at haccepted
  rw [← haccepted]
  constructor
  · rintro ⟨q', h, -⟩
    exact ⟨q', h⟩
  · rintro ⟨q', h⟩
    refine ⟨q', h, ?_⟩
    intro e he hpub hack
    obtain ⟨e, hmem', rfl⟩ := List.mem_map.mp (hlog ▸ he)
    exact h.holds (.ofEmpty hempty) ht hrate (.inr ⟨e, hmem', hpub, rfl, rfl⟩) fun e' he' =>
      hack e'.1 (hmem he')

def limitedQueue : Queue :=
  @Queue.setGroupConfig literalMatch (newQueue [] [])
    { defaultGroupConfig (str "g") with maxPending := 1 }

def limitedOps : List LiveOp :=
  [.publishWithID (str "g") (str "a") [] 0, .tryDispatchOne (str "g") .inOrder 0,
    .publishWithID (str "g") (str "b") [] 0]

def limitedLog : List Event :=
  [limitedQueue.event .publish (str "g") (str "a") [],
    limitedQueue.event .lease (str "g") (str "a") [],
    limitedQueue.event .publish (str "g") (str "b") []]

theorem ackedRun_limited :
    ∃ q q', @AckedRun literalMatch limitedQueue (limitedOps.take 2) q (limitedLog.take 2) ∧
      @AckedRun literalMatch limitedQueue limitedOps q' limitedLog := by
  have h₁ :=
    @AckedRun.step literalMatch limitedQueue _ _ _ (.publishWithID (str "g") (str "a") [] 0) _ _
    (@AckedRun.start literalMatch _) trivial rfl
  have h₂ :=
    @AckedRun.step literalMatch _ _ _ _ (.tryDispatchOne (str "g") .inOrder 0) _ _ h₁ trivial rfl
  have h₃ :=
    @AckedRun.step literalMatch _ _ _ _ (.publishWithID (str "g") (str "b") [] 0) _ _ h₂ trivial rfl
  exact ⟨_, _, h₂, h₃⟩

theorem replay_accepts_publishes_sample :
    ∃ q q', @AckedRun literalMatch limitedQueue (limitedOps.take 2) q (limitedLog.take 2) ∧
      @AcceptedReplay literalMatch limitedQueue ((limitedLog.take 2).map fun e => (e, 0)) q' ∧
      q'.Holds (str "g") (str "a") := by
  obtain ⟨q, -, hrun, -⟩ := ackedRun_limited
  have hfits : ∀ key, 0 < (@Queue.resolveConfig literalMatch limitedQueue key).maxPending →
      publishCount key (limitedLog.take 2) ≤
        (@Queue.resolveConfig literalMatch limitedQueue key).maxPending := by
    intro key hpos
    have hone : publishCount key (limitedLog.take 2) ≤ 1 := by
      by_cases hk : str "g" = key
      · subst hk
        decide
      · simp [publishCount, limitedLog, Queue.event, hk]
    omega
  obtain ⟨q', haccepted, hholds⟩ :=
    (@replay_accepts_publishes_iff literalMatch limitedQueue q _ _ hrun rfl
      ((limitedLog.take 2).map fun e => (e, 0)) rfl).mpr hfits
  have hmem : limitedQueue.event .publish (str "g") (str "a") [] ∈ limitedLog.take 2 := by decide
  exact ⟨q, q', hrun, haccepted, hholds _ hmem rfl (by decide)⟩

/-- The second message is accepted by the live queue, since the first one is in processing; the
replay refuses it. -/
theorem replay_refuses_publish :
    ∃ q q', @AckedRun literalMatch limitedQueue limitedOps q limitedLog ∧
      @replayEvents literalMatch limitedQueue (limitedLog.map fun e => (e, 0)) = .ok q' ∧
      q'.Holds (str "g") (str "a") ∧ ¬ q'.Holds (str "g") (str "b") := by
  obtain ⟨-, q, -, hrun⟩ := ackedRun_limited
  refine ⟨q, _, hrun, rfl, ?_, ?_⟩
  · rw [Queue.holds_iff_phase]
    decide
  · rw [Queue.holds_iff_phase]
    decide

end Octar
