import Octar.Queue.LiveLaws

namespace Octar

open Go

namespace Group

variable {g g' : Group} {now : Int} {m : Message}

theorem mem_slots_urgent : (.urgent, m) ∈ g.slots ↔ some m ∈ g.liveUrgent := by
  simp [slots, List.reduceOption_mem_iff]

theorem mem_slots_ready : (.ready, m) ∈ g.slots ↔ some m ∈ g.liveReady := by
  simp [slots, List.reduceOption_mem_iff]

theorem mem_slots_delayed : (.delayed, m) ∈ g.slots ↔ m ∈ g.delayed := by
  simp [slots]

theorem mem_slots_lookup :
    (.processing, m) ∈ g.slots ↔ ∃ id, g.processing.table.lookup id = some m := by
  rw [← mem_inFlight, inFlight, Map.mem_values]

theorem mem_slots_of {Q : Message → Prop} (hurgent : ∀ slot ∈ g'.liveUrgent, slot ∈ g.liveUrgent)
    (hready : ∀ slot ∈ g'.liveReady, slot ∈ g.liveReady)
    (hdelayed : ∀ m ∈ g'.delayed, m ∈ g.delayed)
    (hlookup : ∀ id m, g'.processing.table.lookup id = some m →
      g.processing.table.lookup id = some m ∨ Q m) {y : Loc × Message} (hy : y ∈ g'.slots) :
    y ∈ g.slots ∨ y.1 = .processing ∧ Q y.2 := by
  obtain ⟨loc, m⟩ := y
  cases loc with
  | urgent => exact .inl (mem_slots_urgent.mpr (hurgent _ (mem_slots_urgent.mp hy)))
  | ready => exact .inl (mem_slots_ready.mpr (hready _ (mem_slots_ready.mp hy)))
  | delayed => exact .inl (mem_slots_delayed.mpr (hdelayed _ (mem_slots_delayed.mp hy)))
  | processing =>
    obtain ⟨id, hl⟩ := mem_slots_lookup.mp hy
    rcases hlookup id m hl with hl | hm
    · exact .inl (mem_slots_lookup.mpr ⟨id, hl⟩)
    · exact .inr ⟨rfl, hm⟩

theorem lookup_delete {p : NilMap Bytes Message} {id id' : Bytes}
    (h : (p.delete id).table.lookup id' = some m) : p.table.lookup id' = some m ∧ id' ≠ id := by
  rw [NilMap.table_delete] at h
  by_cases hid : id' = id
  · subst hid
    rw [AList.lookup_erase] at h
    cases h
  · rw [AList.lookup_erase_ne hid] at h
    exact ⟨h, hid⟩

theorem lookup_insert {t : Map Bytes Message} {id id' : Bytes} {m' : Message}
    (h : (t.insert id m').lookup id' = some m) : t.lookup id' = some m ∨ id' = id ∧ m = m' := by
  by_cases hid : id' = id
  · subst hid
    rw [AList.lookup_insert] at h
    exact .inr ⟨rfl, (Option.some.inj h).symm⟩
  · rw [AList.lookup_insert_ne hid] at h
    exact .inl h

theorem mem_slots_delete {id : Bytes} {y : Loc × Message}
    (hy : y ∈ slots { g with processing := g.processing.delete id }) : y ∈ g.slots := by
  have hlookup : ∀ id' m, (g.processing.delete id).table.lookup id' = some m →
      g.processing.table.lookup id' = some m ∨ False := fun _ _ hl => .inl (lookup_delete hl).1
  refine Or.resolve_right (mem_slots_of (Q := fun _ => False) ?_ ?_ ?_ hlookup hy) (fun h => h.2)
  all_goals exact fun _ h => h

inductive Promoted (now : Int) : Loc × Message → Loc × Message → Prop
  | same (x : Loc × Message) : Promoted now x x
  | expired {m : Message} (h : m.scheduledAt < now) :
    Promoted now (.processing, m) (.urgent, { m with state := .pending })
  | due {m : Message} (h : m.scheduledAt ≤ now) : Promoted now (.delayed, m) (.ready, m)

theorem Promotes.mem {expired due : List Message} (h : Promotes now g g' expired due)
    {y : Loc × Message} (hy : y ∈ g'.slots) : ∃ x ∈ g.slots, Promoted now x y := by
  obtain ⟨loc, m⟩ := y
  cases loc with
  | urgent =>
    rw [mem_slots_urgent, liveUrgent, h.urgent, h.urgentHead, List.drop_append,
      List.mem_append] at hy
    rcases hy with hy | hy
    · exact ⟨_, mem_slots_urgent.mpr hy, .same _⟩
    · obtain ⟨m', hm', heq⟩ := List.mem_map.mp (List.mem_of_mem_drop hy)
      cases heq
      have hin : m' ∈ g.inFlight := h.inFlight ▸ Multiset.mem_add.mpr (.inl hm')
      exact ⟨_, mem_inFlight.mp hin, .expired (h.expired_lt m' hm')⟩
  | ready =>
    rw [mem_slots_ready, liveReady, h.ready, h.readyHead, List.drop_append, List.mem_append] at hy
    rcases hy with hy | hy
    · exact ⟨_, mem_slots_ready.mpr hy, .same _⟩
    · obtain ⟨m', hm', heq⟩ := List.mem_map.mp (List.mem_of_mem_drop hy)
      cases heq
      have hin : m ∈ (g.delayed : Multiset Message) := h.delayed ▸ Multiset.mem_add.mpr (.inl hm')
      exact ⟨_, mem_slots_delayed.mpr hin, .due (h.due_le m hm')⟩
  | delayed =>
    have hin : m ∈ (g.delayed : Multiset Message) :=
      h.delayed ▸ Multiset.mem_add.mpr (.inr (mem_slots_delayed.mp hy))
    exact ⟨_, mem_slots_delayed.mpr hin, .same _⟩
  | processing =>
    obtain ⟨id, hl⟩ := mem_slots_lookup.mp hy
    rw [h.lookup] at hl
    exact ⟨_, mem_slots_lookup.mpr ⟨id, Option.eq_some_of_filter_eq_some hl⟩, .same _⟩

theorem Dispatches.mem {d : Dispatch} (h : Dispatches now g g' d) {y : Loc × Message}
    (hy : y ∈ g'.slots) : y ∈ g.slots ∨ y.1 = .processing ∧ d.msg = some y.2 := by
  have hinsert : ∀ {m : Message},
      g'.processing = some (g.processing.table.insert m.id (g.leased m now)) →
        d.msg = some (g.leased m now) → ∀ id m', g'.processing.table.lookup id = some m' →
        g.processing.table.lookup id = some m' ∨ d.msg = some m' := by
    intro m hp hmsg id m' hl
    rw [hp] at hl
    refine (lookup_insert hl).imp (fun h => h) ?_
    rintro ⟨-, rfl⟩
    exact hmsg
  cases h with
  | urgent m msg urgent ready processing allocated frame =>
    exact mem_slots_of (fun slot hs => urgent ▸ List.mem_cons_of_mem _ hs)
      (fun slot hs => ready ▸ hs) (fun m hm => frame.delayed ▸ hm) (hinsert processing msg) hy
  | ready m k msg urgent urgent' ready processing allocated frame =>
    refine mem_slots_of ?_ ?_ (fun m hm => frame.delayed ▸ hm) (hinsert processing msg) hy
    · intro slot hs
      rw [urgent'] at hs
      cases hs
    · intro slot hs
      rw [ready]
      exact List.mem_append_right _ (List.mem_cons_of_mem _ hs)
  | refused msg urgent ready processing frame =>
    refine mem_slots_of (Q := fun m => d.msg = some m) (fun slot hs => urgent ▸ hs) ?_
      (fun m hm => frame.delayed ▸ hm) (fun id m hl => .inl (processing ▸ hl)) hy
    intro slot hs
    rcases ready with hr | ⟨hr, -⟩
    · exact hr ▸ hs
    · rw [hr] at hs
      cases hs

theorem Dispatches.waited {d : Dispatch} (h : Dispatches now g g' d) {m' : Message}
    (hm : d.msg = some m') :
    ∃ loc m, (loc, m) ∈ g.slots ∧ (loc = .urgent ∨ loc = .ready) ∧ m' = g.leased m now := by
  cases h with
  | urgent m msg urgent ready processing allocated frame =>
    refine ⟨.urgent, m, mem_slots_urgent.mpr ?_, .inl rfl, Option.some.inj (hm.symm.trans msg)⟩
    rw [urgent]
    exact List.mem_cons_self
  | ready m k msg urgent urgent' ready processing allocated frame =>
    refine ⟨.ready, m, mem_slots_ready.mpr ?_, .inr rfl, Option.some.inj (hm.symm.trans msg)⟩
    rw [ready]
    exact List.mem_append_right _ List.mem_cons_self
  | refused msg urgent ready processing frame =>
    rw [msg] at hm
    cases hm

theorem Dispatches.keyed {d : Dispatch} (h : Dispatches now g g' d)
    (hk : ∀ id m, g.processing.table.lookup id = some m → m.id = id) :
    ∀ id m, g'.processing.table.lookup id = some m → m.id = id := by
  have hinsert : ∀ {m : Message},
      g'.processing = some (g.processing.table.insert m.id (g.leased m now)) →
      ∀ id m', g'.processing.table.lookup id = some m' → m'.id = id := by
    intro m hp id m' hl
    rw [hp] at hl
    rcases lookup_insert hl with hl | ⟨rfl, rfl⟩
    · exact hk id m' hl
    · rfl
  cases h with
  | urgent m msg urgent ready processing allocated frame => exact hinsert processing
  | ready m k msg urgent urgent' ready processing allocated frame => exact hinsert processing
  | refused msg urgent ready processing frame => exact processing ▸ hk

theorem Dispatches.readyHead_le {d : Dispatch} (h : Dispatches now g g' d)
    (hr : g.readyHead ≤ g.ready.length) : g'.readyHead ≤ g'.ready.length := by
  cases h with
  | urgent m msg urgent ready processing allocated frame => exact frame.readyHead_le hr
  | ready m k msg urgent urgent' ready processing allocated frame => exact frame.readyHead_le hr
  | refused msg urgent ready processing frame => exact frame.readyHead_le hr

end Group

structure Closed (P : Loc × Message → Prop) : Prop where
  expired : ∀ {m}, P (.processing, m) → P (.urgent, { m with state := .pending })
  due : ∀ {m}, P (.delayed, m) → P (.ready, m)
  leased : ∀ {loc m} (at_), P (loc, m) →
    P (.processing, { m with state := .processing, scheduledAt := at_ })
  retried : ∀ {m} (errMsg at_), P (.processing, m) → P (.delayed, Group.retried m errMsg at_)

namespace Group

structure Each (P : Loc × Message → Prop) (g : Group) : Prop where
  readyHead_le : g.readyHead ≤ g.ready.length
  keyed : ∀ id m, g.processing.table.lookup id = some m → m.id = id
  slots : ∀ x ∈ g.slots, P x

variable {P : Loc × Message → Prop} {g g' : Group} {now : Int}

theorem Each.urgent (h : g.Each P) (m : Message) (hm : some m ∈ g.liveUrgent) : P (.urgent, m) :=
  h.slots _ (mem_slots_urgent.mpr hm)

theorem Each.ready (h : g.Each P) (m : Message) (hm : some m ∈ g.liveReady) : P (.ready, m) :=
  h.slots _ (mem_slots_ready.mpr hm)

theorem Each.delayed (h : g.Each P) (m : Message) (hm : m ∈ g.delayed) : P (.delayed, m) :=
  h.slots _ (mem_slots_delayed.mpr hm)

theorem Each.leases (h : g.Each P) (id : Bytes) (m : Message)
    (hm : g.processing.table.lookup id = some m) :
    m.id = id ∧ P (.processing, m) := ⟨h.keyed id m hm, h.slots _ (mem_slots_lookup.mpr ⟨id, hm⟩)⟩

theorem Each.imp {Q : Loc × Message → Prop} (h : g.Each P) (hPQ : ∀ x, P x → Q x) : g.Each Q :=
  ⟨h.readyHead_le, h.keyed, fun x hx => hPQ x (h.slots x hx)⟩

theorem Each.ofContainers (readyHead_le : g.readyHead ≤ g.ready.length)
    (urgent : ∀ m, some m ∈ g.liveUrgent → P (.urgent, m))
    (ready : ∀ m, some m ∈ g.liveReady → P (.ready, m)) (delayed : ∀ m ∈ g.delayed, P (.delayed, m))
    (leases : ∀ id m, g.processing.table.lookup id = some m → m.id = id ∧ P (.processing, m)) :
    g.Each P := by
  refine ⟨readyHead_le, fun id m hl => (leases id m hl).1, ?_⟩
  rintro ⟨loc, m⟩ hx
  cases loc with
  | urgent => exact urgent m (mem_slots_urgent.mp hx)
  | ready => exact ready m (mem_slots_ready.mp hx)
  | delayed => exact delayed m (mem_slots_delayed.mp hx)
  | processing =>
    obtain ⟨id, hl⟩ := mem_slots_lookup.mp hx
    exact (leases id m hl).2

theorem Each.ofNewGroup {cfg : GroupConfig} (h : newGroup cfg = .ok g) : g.Each P := by
  obtain ⟨-, hslots, -, hw⟩ := newGroup_ok h
  exact ⟨hw.readyHead_le, hw.keyed, by simp [hslots]⟩

theorem Each.enqueue (h : g.Each P) {m : Message} (hm : P (.ready, m)) : (g.enqueue m).Each P := by
  refine ⟨Nat.le_trans h.readyHead_le (by simp [Group.enqueue]), h.keyed, ?_⟩
  intro x hx
  rw [Group.enqueue, slots_appendReady g m h.readyHead_le, Multiset.mem_cons] at hx
  rcases hx with rfl | hx
  · exact hm
  · exact h.slots x hx

theorem Each.setCounters (h : g.Each P) (deficit quantum : Int) :
    { g with deficit := deficit, quantum := quantum }.Each P := ⟨h.readyHead_le, h.keyed, h.slots⟩

theorem Each.applyConfig (h : g.Each P) (cfg : GroupConfig) (key : Bytes) :
    (Queue.applyConfig cfg key g).Each P := ⟨h.readyHead_le, h.keyed, h.slots⟩

theorem Each.delete (h : g.Each P) (id : Bytes) :
    { g with processing := g.processing.delete id }.Each P :=
  ⟨h.readyHead_le, fun id' m hl => h.keyed id' m (lookup_delete hl).1,
    fun x hx => h.slots x (mem_slots_delete hx)⟩

theorem Each.complete (h : g.Each P) (id : Bytes) : (g.complete id).1.Each P := by
  unfold Group.complete
  split
  · exact h
  · exact h.delete id

variable (hP : Closed P)

include hP

theorem Closed.promoted {x y : Loc × Message} (h : Promoted now x y) (hx : P x) : P y := by
  cases h with
  | same => exact hx
  | expired => exact hP.expired hx
  | due => exact hP.due hx

theorem Each.promoteDelayed (h : g.Each P) (ord : RangeOrder) (now : Int) :
    (g.promoteDelayed ord now).1.Each P := by
  obtain ⟨expired, due, hp⟩ := promoteDelayed_spec g ord now
  refine ⟨?_, ?_, ?_⟩
  · rw [hp.readyHead, hp.ready, List.length_append]
    exact Nat.le_add_right_of_le h.readyHead_le
  · intro id m hl
    rw [hp.lookup] at hl
    exact h.keyed id m (Option.eq_some_of_filter_eq_some hl)
  · intro y hy
    obtain ⟨x, hx, hxy⟩ := hp.mem hy
    exact Closed.promoted hP hxy (h.slots x hx)

theorem Each.nextDispatchable (h : g.Each P) {d : Dispatch}
    (hd : g.nextDispatchable now = .ok (g', d)) :
    g'.Each P ∧ ∀ m ∈ d.msg, P (.processing, m) := by
  have hdisp := nextDispatchable_ok hd h.readyHead_le
  have hmsg : ∀ m ∈ d.msg, P (.processing, m) := by
    intro m hm
    obtain ⟨loc, m, hslot, -, rfl⟩ := hdisp.waited hm
    exact hP.leased _ (h.slots _ hslot)
  refine ⟨⟨hdisp.readyHead_le h.readyHead_le, hdisp.keyed h.keyed, ?_⟩, hmsg⟩
  rintro ⟨loc, m⟩ hy
  rcases hdisp.mem hy with hy | ⟨rfl, hm⟩
  · exact h.slots _ hy
  · exact hmsg m hm

theorem Each.next (h : g.Each P) {msg : Option Message} (hn : g.next now = .ok (g', msg)) :
    g'.Each P ∧ ∀ m ∈ msg.toList, P (.processing, m) := by
  obtain ⟨⟨g₁, d⟩, hd, hret⟩ := bind_ok.mp hn
  cases hret
  simpa using h.nextDispatchable hP hd

theorem Each.promoteNext (h : g.Each P) {ord : RangeOrder} {msg : Option Message}
    (hn : (g.promoteDelayed ord now).1.next now = .ok (g', msg)) :
    g'.Each P ∧ ∀ m ∈ msg.toList, P (.processing, m) := (h.promoteDelayed hP ord now).next hP hn

theorem Each.drainRound (h : g.Each P) {ord : RangeOrder} {r : DrainResult}
    (hd : g.drainRound ord now = .ok (g', r)) :
    g'.Each P ∧ ∀ m ∈ r.ready.getD [], P (.processing, m) := by
  refine drainRound_induct (motive := fun g batch => g.Each P ∧ ∀ m ∈ batch,
    P (.processing, m)) ?_ ?_ ⟨h.promoteDelayed hP ord now, by simp⟩ hd
  · intro g₁ g₂ d batch ⟨h₁, hbatch⟩ hd
    obtain ⟨h₂, hmsg⟩ := h₁.nextDispatchable hP hd
    refine ⟨h₂, ?_⟩
    intro m hm
    rcases List.mem_append.mp hm with hm | hm
    · exact hbatch m hm
    · exact hmsg m (Option.mem_toList.mp hm)
  · intro g₁ batch deficit quantum ⟨h₁, hbatch⟩
    exact ⟨h₁.setCounters deficit quantum, hbatch⟩

theorem Each.fail (h : g.Each P) {id errMsg : Bytes} {dlq : Option Message}
    (hf : g.fail id errMsg now = .ok (g', dlq)) : g'.Each P := by
  have hdel := h.delete id
  cases fail_cases hf with
  | absent none same letter =>
    subst same
    exact h
  | retries m delay found more delayed put letter =>
    subst put
    refine ⟨hdel.readyHead_le, hdel.keyed, ?_⟩
    intro x hx
    rw [slots_pushDelayed { g with processing := g.processing.delete id }, Multiset.mem_cons] at hx
    rcases hx with rfl | hx
    · exact hP.retried errMsg (now + delay) (h.slots _ (mem_slots_lookup.mpr ⟨id, found⟩))
    · exact hdel.slots x hx
  | drops m found exhausted dropped letter =>
    subst dropped
    exact hdel

theorem Each.returnToPending (h : g.Each P) (id : Bytes) : (g.returnToPending id).Each P := by
  unfold Group.returnToPending
  cases hl : g.processing.get? id with
  | none => exact h
  | some m =>
    have hdel := h.delete id
    have hm := hP.expired (h.slots _ (mem_slots_lookup.mpr ⟨id, hl⟩))
    refine .ofContainers hdel.readyHead_le ?_ h.ready h.delayed hdel.leases
    intro m' hm'
    rw [liveUrgent, List.drop_append, List.mem_append] at hm'
    rcases hm' with hm' | hm'
    · exact h.urgent m' hm'
    · cases List.mem_singleton.mp (List.mem_of_mem_drop hm')
      exact hm

theorem Each.sweepGroup (h : g.Each P) (ord : RangeOrder) (now : Int) :
    (Queue.sweepGroup ord now g).Each P := by
  unfold Queue.sweepGroup
  induction Queue.expiredIDs g ord now generalizing g with
  | nil => exact h
  | cons id l ih => exact ih (h.returnToPending hP id)

end Group

namespace Queue

def Each (P : Loc × Message → Prop) (q : Queue) : Prop :=
  ∀ key g, q.groups.lookup key = some g → g.Each P

variable {P : Loc × Message → Prop} {q q' : Queue}

theorem Each.insert (h : q.Each P) {key : Bytes} {g : Group} (hg : g.Each P)
    (hgroups : q'.groups = q.groups.insert key g) : q'.Each P := by
  intro key' g' hl
  rw [hgroups] at hl
  by_cases hk : key' = key
  · subst hk
    rw [AList.lookup_insert] at hl
    cases hl
    exact hg
  · rw [AList.lookup_insert_ne hk] at hl
    exact h key' g' hl

theorem Each.setGroup (h : q.Each P) (key : Bytes) {g : Group} (hg : g.Each P) :
    (q.setGroup key g).Each P := h.insert hg rfl

theorem Each.mapTo (h : q.Each P) (f : Bytes → Group → Group)
    (hf : ∀ key g, g.Each P → (f key g).Each P) (hgroups : q'.groups = Map.mapTo q.groups f) :
    q'.Each P := by
  intro key g' hl
  rw [hgroups, Map.lookup_mapTo] at hl
  obtain ⟨g, hg, rfl⟩ := Option.map_eq_some_iff.mp hl
  exact hf key g (h key g hg)

theorem Each.ofEmpty (h : q.groups = ∅) : q.Each P := by
  intro key g hl
  rw [h] at hl
  cases hl

theorem Each.complete (h : q.Each P) (key id : Bytes) : (q.complete key id).1.Each P := by
  obtain ⟨-, heq⟩ | ⟨g, hl, heq⟩ := complete_eq q key id
  all_goals rw [heq]
  · exact h
  · exact h.setGroup key ((h key g hl).complete id)

section

variable (hP : Closed P)

include hP

theorem Each.returnToPending (h : q.Each P) (key id : Bytes) :
    (q.returnToPending key id).Each P := by
  obtain ⟨-, heq⟩ | ⟨g, hl, heq⟩ := returnToPending_eq q key id
  all_goals rw [heq]
  · exact h
  · exact h.setGroup key ((h key g hl).returnToPending hP id)

theorem Each.fail (h : q.Each P) {key id errMsg : Bytes} {now : Int}
    {r : Except QueueError (Option (Bytes × Message))}
    (hq : q.fail key id errMsg now = .ok (q', r)) :
    q'.Each P := by
  obtain ⟨-, rfl, -⟩ | ⟨g, g', dlq, hl, hf, -, rfl⟩ := fail_ok hq
  · exact h
  · exact h.setGroup key ((h key g hl).fail hP hf)

theorem Each.tryDispatchOne (h : q.Each P) {key : Bytes} {ord : RangeOrder} {now : Int}
    {msg : Option Message} (hq : q.tryDispatchOne key ord now = .ok (q', msg)) :
    q'.Each P ∧ ∀ m ∈ msg.toList, P (.processing, m) := by
  obtain ⟨-, rfl, rfl⟩ | ⟨g, g', hl, hn, rfl⟩ := tryDispatchOne_ok hq
  · exact ⟨h, by simp⟩
  · obtain ⟨hg', hmsg⟩ := (h key g hl).promoteNext hP hn
    exact ⟨h.setGroup key hg', hmsg⟩

theorem Each.drainGroup (h : q.Each P) {key : Bytes} {ord : RangeOrder} {now : Int}
    {r : DrainResult} (hq : q.drainGroup key ord now = .ok (q', r)) :
    q'.Each P ∧ ∀ m ∈ r.ready.getD [], P (.processing, m) := by
  obtain ⟨-, rfl, rfl⟩ | ⟨g, g', hl, hd, rfl⟩ := drainGroup_ok hq
  · exact ⟨h, by simp⟩
  · obtain ⟨hg', hmsg⟩ := (h key g hl).drainRound hP hd
    exact ⟨h.setGroup key hg', hmsg⟩

theorem Each.completeAndNext (h : q.Each P) {key id : Bytes} {ord : RangeOrder} {now : Int}
    {msg : Option Message} (hq : q.completeAndNext key id ord now = .ok (q', msg)) :
    q'.Each P ∧ ∀ m ∈ msg.toList, P (.processing, m) := by
  obtain ⟨-, rfl, rfl⟩ | ⟨g, g', hl, hn, rfl⟩ := completeAndNext_ok hq
  · exact ⟨h, by simp⟩
  · obtain ⟨hg', hmsg⟩ := ((h key g hl).complete id).promoteNext hP hn
    exact ⟨h.setGroup key hg', hmsg⟩

theorem Each.failAndNext (h : q.Each P) {key id errMsg : Bytes} {ord : RangeOrder} {now : Int}
    {r : Option (Bytes × Message) × Option Message}
    (hq : q.failAndNext key id errMsg ord now = .ok (q', r)) :
    q'.Each P ∧ ∀ m ∈ r.2.toList, P (.processing, m) := by
  obtain ⟨-, rfl, rfl⟩ | ⟨g, g₁, g', dlq, hl, hf, -, hn, rfl⟩ := failAndNext_ok hq
  · exact ⟨h, by simp⟩
  · obtain ⟨hg', hmsg⟩ := ((h key g hl).fail hP hf).promoteNext hP hn
    exact ⟨h.setGroup key hg', hmsg⟩

end

variable [PathMatch]

theorem Each.publishWithID (h : q.Each P) {key id payload : Bytes} {now : Int}
    {r : Except QueueError Message} (hm : P (.ready, newMessageAt q.name q.ns key payload now id))
    (hq : q.publishWithID key id payload now = .ok (q', r)) : q'.Each P := by
  obtain ⟨g, hg, hcases⟩ := publishWithID_ok hq
  have hgroup : g.Each P := by
    rcases groupFor_cases hg with hl | ⟨-, hnew⟩
    · exact h key g hl
    · exact .ofNewGroup hnew
  rcases hcases with ⟨-, -, -, rfl⟩ | ⟨-, keyIdx, rfl⟩
  · exact h.setGroup key hgroup
  · exact h.insert (hgroup.enqueue hm) rfl

theorem Each.installConfig (h : q.Each P) (cfg : GroupConfig) : (q.installConfig cfg).Each P := by
  unfold Queue.installConfig
  simp only
  split
  · refine h.mapTo (fun key g => if cfg.matchesKey key then applyConfig cfg key g else g) ?_ rfl
    intro key g hg
    split
    · exact hg.applyConfig cfg key
    · exact hg
  · split
    · rename_i g hl
      exact h.insert ((h _ g hl).applyConfig cfg _) rfl
    · exact h

theorem Each.exec (hP : Closed P) (h : q.Each P) {op : LiveOp} {r : Reply}
    (hpub : ∀ key payload id now, op.publishID = some id →
      P (.ready, newMessageAt q.name q.ns key payload now id))
    (hexec : q.exec op = .ok (q', r)) : q'.Each P ∧ ∀ m ∈ r.handedOut, P (.processing, m) := by
  have hpublish : ∀ {q₁ : Queue} {key id payload : Bytes} {now : Int}
      {r₁ : Except QueueError Message},
      op.publishID = some id → q.publishWithID key id payload now = .ok (q₁, r₁) →
        q₁.Each P ∧ ∀ m ∈ (Reply.published r₁).handedOut, P (.processing, m) := by
    intro q₁ key id payload now r₁ hid hq
    refine ⟨h.publishWithID (hpub key payload id now hid) hq, ?_⟩
    cases r₁ <;> simp [Reply.published, Reply.nothing]
  cases op with
  | publish key payload id now =>
    obtain ⟨⟨q₁, r₁⟩, hq, hret⟩ := bind_ok.mp hexec
    cases hret
    exact hpublish rfl hq
  | publishWithID key id payload now =>
    obtain ⟨⟨q₁, r₁⟩, hq, hret⟩ := bind_ok.mp hexec
    cases hret
    exact hpublish rfl hq
  | tryDispatchOne key ord now =>
    obtain ⟨⟨q₁, r₁⟩, hq, hret⟩ := bind_ok.mp hexec
    cases hret
    exact h.tryDispatchOne hP hq
  | drainGroup key ord now =>
    obtain ⟨⟨q₁, r₁⟩, hq, hret⟩ := bind_ok.mp hexec
    cases hret
    exact h.drainGroup hP hq
  | complete key id =>
    cases hexec
    exact ⟨h.complete key id, by simp [Reply.nothing]⟩
  | completeAndNext key id ord now =>
    obtain ⟨⟨q₁, r₁⟩, hq, hret⟩ := bind_ok.mp hexec
    cases hret
    exact h.completeAndNext hP hq
  | fail key id err now =>
    obtain ⟨⟨q₁, r₁⟩, hq, hret⟩ := bind_ok.mp hexec
    cases hret
    exact ⟨h.fail hP hq, by simp [Reply.nothing]⟩
  | failAndNext key id err ord now =>
    obtain ⟨⟨q₁, dlq, msg⟩, hq, hret⟩ := bind_ok.mp hexec
    cases hret
    exact h.failAndNext hP hq
  | returnToPending key id =>
    cases hexec
    exact ⟨h.returnToPending hP key id, by simp [Reply.nothing]⟩
  | sweepExpiredLeases ord now =>
    cases hexec
    exact ⟨h.mapTo (fun _ => sweepGroup ord now) (fun _ g hg => hg.sweepGroup hP ord now) rfl,
      by simp [Reply.nothing]⟩
  | setGroupConfig cfg =>
    cases hexec
    exact ⟨h.installConfig _, by simp [Reply.nothing]⟩
  | deleteGroupConfig key =>
    cases hexec
    exact ⟨h, by simp [Reply.nothing]⟩

end Queue

theorem runLive_each [PathMatch] {P : Loc × Message → Prop} {name ns : Bytes} {ops : List LiveOp}
    {s : LiveRun} (hP : Closed P)
    (hnew : ∀ queue ns key payload now id, P (.ready, newMessageAt queue ns key payload now id))
    (h : runLive name ns ops = .ok s) : s.queue.Each P := by
  apply Run.induct (motive := fun s _ => s.queue.Each P) _ (Queue.Each.ofEmpty rfl) h
  intro s op _ s' hs hstep
  obtain ⟨⟨q, r⟩, hexec, hret⟩ := bind_ok.mp hstep
  cases hret
  exact (Queue.Each.exec hP hs (fun key payload id now _ => hnew _ _ key payload now id) hexec).1

end Octar
