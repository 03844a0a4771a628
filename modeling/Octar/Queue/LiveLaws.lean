import Octar.Queue.GroupLaws
import Octar.Queue.Live

namespace Octar

open Go

namespace Group

structure Sound (g : Group) : Prop extends Wf g where
  ready_full : none ∉ g.liveReady

theorem Sound.serve {g g' : Group} {batch : List Message} (h : g.Sound) (hs : Serves g g' batch) :
    g'.Sound :=
  ⟨hs.wf, hs.ready_full h.ready_full⟩

theorem Sound.release {g g' : Group} {m : Message} {kept : Option (Loc × Message)} (h : g.Sound)
    (hr : Releases g g' m kept) : g'.Sound :=
  ⟨hr.wf, hr.ready ▸ h.ready_full⟩

theorem Sound.enqueue {g : Group} (h : g.Sound) {m : Message} (hm : m.id ∉ g.ids) :
    (g.enqueue m).Sound := by
  refine ⟨enqueue_wf h.toWf hm, ?_⟩
  rw [liveReady, Group.enqueue, drop_append_singleton h.readyHead_le]
  simpa [liveReady] using h.ready_full

theorem Sound.ofNewGroup {cfg : GroupConfig} {g : Group} (h : newGroup cfg = .ok g) : g.Sound := by
  obtain ⟨-, -, hr, hw⟩ := newGroup_ok h
  exact ⟨hw, by simp [hr]⟩

theorem Wf.applyConfig {g : Group} (h : g.Wf) (cfg : GroupConfig) (key : Bytes) :
    (Queue.applyConfig cfg key g).Wf :=
  ⟨h.urgentHead_le, h.readyHead_le, h.urgent_full, h.allocated, h.keyed, h.distinct⟩

theorem Sound.applyConfig {g : Group} (h : g.Sound) (cfg : GroupConfig) (key : Bytes) :
    (Queue.applyConfig cfg key g).Sound := ⟨h.toWf.applyConfig cfg key, h.ready_full⟩

theorem Wf.setCounters {g : Group} (h : g.Wf) (deficit quantum : Int) :
    { g with deficit := deficit, quantum := quantum }.Wf :=
  ⟨h.urgentHead_le, h.readyHead_le, h.urgent_full, h.allocated, h.keyed, h.distinct⟩

theorem Sound.setCounters {g : Group} (h : g.Sound) (deficit quantum : Int) :
    { g with deficit := deficit, quantum := quantum }.Sound :=
  ⟨h.toWf.setCounters deficit quantum, h.ready_full⟩

theorem length_reduceOption_of_full {l : List (Option Message)} (h : none ∉ l) :
    l.reduceOption.length = l.length := by
  apply List.reduceOption_length_eq_iff.mpr
  intro slot hs
  cases slot with
  | none => exact absurd hs h
  | some m => rfl

def waiting (g : Group) : Multiset (Loc × Message) := g.slots.filter fun s => s.1 ≠ .processing

theorem filter_held (loc : Loc) (ms : Multiset Message) :
    (held loc ms).filter (fun s => s.1 ≠ .processing) =
      if loc = .processing then 0 else held loc ms := by
  split
  · rename_i h
    subst h
    apply Multiset.filter_eq_nil.mpr
    intro s hs
    obtain ⟨m, -, rfl⟩ := Multiset.mem_map.mp hs
    simp
  · rename_i h
    apply Multiset.filter_eq_self.mpr
    intro s hs
    obtain ⟨m, -, rfl⟩ := Multiset.mem_map.mp hs
    exact h

theorem Sound.pendingCount_eq {g : Group} (h : g.Sound) : g.pendingCount = g.waiting.card := by
  have hu := length_reduceOption_of_full h.urgent_full
  have hr := length_reduceOption_of_full h.ready_full
  have hul := h.urgentHead_le
  have hrl := h.readyHead_le
  have hcard : g.waiting.card = g.liveUrgent.length + g.liveReady.length + g.delayed.length := by
    rw [waiting, slots, Multiset.filter_add, Multiset.filter_add, Multiset.filter_add]
    simp only [filter_held]
    simp [held, hu, hr, Nat.add_assoc]
  simp only [liveUrgent, liveReady, List.length_drop] at hcard
  rw [hcard, pendingCount]
  omega

theorem Sound.complete {g : Group} (h : g.Sound) (id : Bytes) :
    (g.complete id).1.Sound ∧
      (g.complete id).1.origins +
        ((g.processing.get? id).toList.map Message.origin : List Message) =
        g.origins := by
  rcases complete_spec h.toWf id with ⟨hnone, heq⟩ | ⟨m, rfl, hr, -⟩
  · rw [heq, hnone]
    exact ⟨h, Multiset.add_zero _⟩
  · obtain ⟨rest, hg, hg'⟩ := hr.origins
    refine ⟨h.release hr, ?_⟩
    have hl := hr.lookup h.toWf
    rw [hl, hg, hg']
    simpa using Multiset.add_comm rest {m.origin}

theorem Sound.fail {g g' : Group} {id errMsg : Bytes} {now : Int} {dlq : Option Message}
    (h : g.Sound) (hf : g.fail id errMsg now = .ok (g', dlq)) :
    g'.Sound ∧
      g'.origins + (((g.processing.get? id).toList.filter fun m =>
        g.cfg.retry.maxAttempts ≤ m.attempts + 1).map Message.origin : List Message) =
          g.origins := by
  rcases fail_spec h.toWf hf with ⟨hnone, rfl⟩ | ⟨m, rfl, ⟨hlt, delay, -, hr⟩ | ⟨hge, hr⟩⟩
  · rw [hnone]
    exact ⟨h, Multiset.add_zero _⟩
  · obtain ⟨rest, hg, hg'⟩ := hr.origins
    refine ⟨h.release hr, ?_⟩
    have hl := hr.lookup h.toWf
    rw [hl, hg, hg']
    have horigin : (retried m errMsg (now + delay)).origin = m.origin := rfl
    simp [Int.not_le.mpr hlt, horigin]
  · obtain ⟨rest, hg, hg'⟩ := hr.origins
    refine ⟨h.release hr, ?_⟩
    have hl := hr.lookup h.toWf
    rw [hl, hg, hg']
    simpa [hge] using Multiset.add_comm rest {m.origin}

end Group

namespace Queue

def Sound (q : Queue) : Prop := ∀ key g, q.groups.lookup key = some g → g.Sound

def originsAt (q : Queue) (key : Bytes) : Multiset Message :=
  ((q.groups.lookup key).map Group.origins).getD 0

theorem originsAt_some {q : Queue} {key : Bytes} {g : Group} (h : q.groups.lookup key = some g) :
    q.originsAt key = g.origins := by
  simp [originsAt, h]

theorem originsAt_none {q : Queue} {key : Bytes} (h : q.groups.lookup key = none) :
    q.originsAt key = 0 := by
  simp [originsAt, h]

@[simp] theorem lookup_setGroup (q : Queue) (key : Bytes) (g : Group) :
    (q.setGroup key g).groups.lookup key = some g := AList.lookup_insert _

theorem lookup_setGroup_ne (q : Queue) {key key' : Bytes} (g : Group) (h : key' ≠ key) :
    (q.setGroup key g).groups.lookup key' = q.groups.lookup key' := AList.lookup_insert_ne h

def inGroup (key : Bytes) (l : List Message) : Multiset Message :=
  l.filter fun m => m.groupKey = key

theorem inGroup_append (key : Bytes) (l l' : List Message) :
    inGroup key (l ++ l') = inGroup key l + inGroup key l' := by
  simp [inGroup]

theorem inGroup_eq {key : Bytes} {l : List Message} (h : ∀ m ∈ l, m.groupKey = key) :
    inGroup key l = l := by
  rw [inGroup, List.filter_eq_self.mpr]
  simpa using h

theorem inGroup_eq_zero {key key' : Bytes} {l : List Message} (h : ∀ m ∈ l, m.groupKey = key)
    (hne : key' ≠ key) : inGroup key' l = 0 := by
  rw [inGroup, List.filter_eq_nil_iff.mpr]
  · rfl
  · intro m hm heq
    exact hne ((of_decide_eq_true heq).symm.trans (h m hm))

structure Accounts (q q' : Queue) (new gone : List Message) : Prop where
  origins : ∀ key, q'.originsAt key + inGroup key gone = q.originsAt key + inGroup key new
  sound : q'.Sound

theorem Accounts.ofGroup {q q' : Queue} {key : Bytes} {g' : Group} {new gone : List Message}
    (hs : q.Sound) (hat : q'.groups.lookup key = some g')
    (hother : ∀ key' ≠ key, q'.groups.lookup key' = q.groups.lookup key')
    (hg' : g'.Sound) (horigins : g'.origins + gone = q.originsAt key + new)
    (hnew : ∀ m ∈ new, m.groupKey = key) (hgone : ∀ m ∈ gone, m.groupKey = key) :
    Accounts q q' new gone := by
  constructor
  · intro key'
    by_cases h : key' = key
    · subst h
      rw [originsAt_some hat, inGroup_eq hnew, inGroup_eq hgone, horigins]
    · rw [inGroup_eq_zero hnew h, inGroup_eq_zero hgone h, originsAt, hother key' h]
      rfl
  · intro key' g hg
    by_cases h : key' = key
    · subst h
      rw [hat] at hg
      cases hg
      exact hg'
    · exact hs key' g (hother key' h ▸ hg)

theorem Accounts.ofSame {q q' : Queue} (hs : q.Sound) (h : q'.groups = q.groups) :
    Accounts q q' [] [] := by
  constructor
  · intro key
    rw [originsAt, originsAt, h]
  · intro key g hg
    exact hs key g (h ▸ hg)

theorem Accounts.ofMap {q q' : Queue} (hs : q.Sound) (f : Bytes → Group → Group)
    (h : q'.groups = Map.mapTo q.groups f) (hf : ∀ key g, g.Sound → (f key g).Sound)
    (horigins : ∀ key g, g.Sound → (f key g).origins = g.origins) : Accounts q q' [] [] := by
  constructor
  · intro key
    rw [originsAt, originsAt, h, Map.lookup_mapTo]
    cases hg : q.groups.lookup key with
    | none => rfl
    | some g => simp [horigins key g (hs key g hg)]
  · intro key g' hg'
    rw [h, Map.lookup_mapTo] at hg'
    obtain ⟨g, hg, rfl⟩ := Option.map_eq_some_iff.mp hg'
    exact hf key g (hs key g hg)

theorem publishWithID_ok [PathMatch] {q q' : Queue} {key id payload : Bytes} {now : Int}
    {r : Except QueueError Message} (h : q.publishWithID key id payload now = .ok (q', r)) :
    ∃ g, q.groupFor key = .ok g ∧
      ((0 < g.cfg.maxPending ∧ g.cfg.maxPending ≤ g.pendingCount ∧
          r = .error (.depthLimitExceeded key g.cfg.maxPending) ∧ q' = q.setGroup key g) ∨
        r = .ok (newMessageAt q.name q.ns key payload now id) ∧
          ∃ keyIdx, q' =
            { q with
              groups :=
                q.groups.insert key (g.enqueue (newMessageAt q.name q.ns key payload now id))
              keyIdx := keyIdx }) := by
  obtain ⟨g, hg, h⟩ := bind_ok.mp h
  refine ⟨g, hg, ?_⟩
  split at h
  · rename_i hfull
    cases h
    exact .inl ⟨hfull.1, hfull.2, rfl, rfl⟩
  · simp only at h
    split at h
    · cases h
      exact .inr ⟨rfl, q.keyIdx, rfl⟩
    · cases h
      exact .inr ⟨rfl, _, rfl⟩

theorem publishWithID_total [PathMatch] {q : Queue} {key : Bytes} {g : Group}
    (hg : q.groupFor key = .ok g)
    (id payload : Bytes) (now : Int) : ∃ r, q.publishWithID key id payload now = .ok r := by
  unfold publishWithID
  rw [hg]
  simp only [bind, Except.bind]
  split
  · exact ⟨_, rfl⟩
  · split <;> exact ⟨_, rfl⟩

theorem publishWithID_accepts_iff [PathMatch] {q : Queue} {key : Bytes} {g : Group}
    (hg : q.groupFor key = .ok g) (id payload : Bytes) (now : Int) :
    (∃ q' msg, q.publishWithID key id payload now = .ok (q', .ok msg)) ↔
      (0 < g.cfg.maxPending → g.pendingCount < g.cfg.maxPending) := by
  constructor
  · rintro ⟨q', msg, h⟩ hpos
    unfold publishWithID at h
    simp only [hg, bind, Except.bind] at h
    by_contra hfull
    rw [if_pos ⟨hpos, Int.not_lt.mp hfull⟩] at h
    cases h
  · intro hroom
    unfold publishWithID
    simp only [hg, bind, Except.bind]
    rw [if_neg fun hfull => Int.not_lt.mpr hfull.2 (hroom hfull.1)]
    split
    · exact ⟨_, _, rfl⟩
    · exact ⟨_, _, rfl⟩

theorem groupFor_cases [PathMatch] {q : Queue} {key : Bytes} {g : Group}
    (h : q.groupFor key = .ok g) :
    q.groups.lookup key = some g ∨
      q.groups.lookup key = none ∧ newGroup (q.resolveConfig key) = .ok g := by
  unfold groupFor at h
  cases hl : q.groups.lookup key with
  | some g' =>
    rw [hl] at h
    cases h
    exact .inl rfl
  | none =>
    rw [hl] at h
    exact .inr ⟨rfl, h⟩

theorem groupFor_ok [PathMatch] {q : Queue} {key : Bytes} {g : Group} (hs : q.Sound)
    (h : q.groupFor key = .ok g) : g.Sound ∧ g.origins = q.originsAt key := by
  rcases groupFor_cases h with hl | ⟨hl, hnew⟩
  · exact ⟨hs key g hl, (originsAt_some hl).symm⟩
  · obtain ⟨-, hslots, -, -⟩ := Group.newGroup_ok hnew
    refine ⟨.ofNewGroup hnew, ?_⟩
    rw [originsAt_none hl, Group.origins, Group.bodies, hslots]
    rfl

theorem publishWithID_accounts [PathMatch] {q q' : Queue} {key id payload : Bytes} {now : Int}
    {r : Except QueueError Message} (hs : q.Sound) (hfresh : ∀ m ∈ q.originsAt key, m.id ≠ id)
    (h : q.publishWithID key id payload now = .ok (q', r)) :
    Accounts q q' ((Reply.published r).accepted.map Message.origin) [] := by
  obtain ⟨g, hg, ⟨-, -, rfl, rfl⟩ | ⟨rfl, keyIdx, rfl⟩⟩ := publishWithID_ok h
  · obtain ⟨hgs, hgo⟩ := groupFor_ok hs hg
    apply Accounts.ofGroup hs (lookup_setGroup q key g)
      (fun _ hne => lookup_setGroup_ne q g hne) hgs
    · simp [hgo, Reply.published, Reply.nothing]
    · simp [Reply.published, Reply.nothing]
    · simp
  · obtain ⟨hgs, hgo⟩ := groupFor_ok hs hg
    have hid : (newMessageAt q.name q.ns key payload now id).id ∉ g.ids := by
      rw [Group.ids_eq_origins, hgo, Multiset.mem_map]
      rintro ⟨m, hm, heq⟩
      exact hfresh m hm heq
    apply Accounts.ofGroup hs (AList.lookup_insert _) (fun _ hne => AList.lookup_insert_ne hne)
      (hgs.enqueue hid)
    · rw [Group.origins_eq_slots, Group.enqueue, Group.slots_appendReady g _ hgs.readyHead_le,
        Multiset.map_cons, ← Group.origins_eq_slots, hgo]
      simpa [Reply.published] using Multiset.add_comm {Message.origin _} (q.originsAt key)
    · simp [Reply.published, newMessageAt, Message.origin, Message.body]
    · simp

theorem Accounts.ofServes {q : Queue} {key : Bytes} {g g' : Group} {batch : List Message}
    (hs : q.Sound) (hl : q.groups.lookup key = some g) (h : Group.Serves g g' batch) :
    Accounts q (q.setGroup key g') [] [] := by
  apply Accounts.ofGroup hs (lookup_setGroup q key g') (fun _ hne => lookup_setGroup_ne q g' hne)
    ((hs key g hl).serve h)
  · rw [h.origins, originsAt_some hl]
  · simp
  · simp

def Keyed (q : Queue) : Prop := ∀ key, ∀ m ∈ q.originsAt key, m.groupKey = key

theorem Accounts.ofGone {q : Queue} {key : Bytes} {g g' : Group} {gone : List Message}
    (hs : q.Sound) (hk : q.Keyed) (hl : q.groups.lookup key = some g) (hg' : g'.Sound)
    (horigins : g'.origins + gone = g.origins) : Accounts q (q.setGroup key g') [] gone := by
  apply Accounts.ofGroup hs (lookup_setGroup q key g')
    (fun _ hne => lookup_setGroup_ne q g' hne) hg'
  · rw [horigins, originsAt_some hl, Multiset.coe_nil, Multiset.add_zero]
  · simp
  · intro m hm
    apply hk key m
    rw [originsAt_some hl, ← horigins]
    exact Multiset.mem_add.mpr (.inr hm)

theorem completedBy_group {q : Queue} {key : Bytes} {g : Group} (hl : q.groups.lookup key = some g)
    (id : Bytes) :
    (q.leasedMessage key id).toList.map (fun s => s.2.origin) =
      (g.processing.get? id).toList.map Message.origin := by
  rw [leasedMessage, hl, Option.bind_some]
  cases g.processing.get? id <;> rfl

theorem exhaustedBy_group {q : Queue} {key : Bytes} {g : Group} (hl : q.groups.lookup key = some g)
    (id : Bytes) :
    ((q.leasedMessage key id).toList.filter fun s =>
        s.1.cfg.retry.maxAttempts ≤ s.2.attempts + 1).map (fun s => s.2.origin) =
      ((g.processing.get? id).toList.filter fun m =>
        g.cfg.retry.maxAttempts ≤ m.attempts + 1).map Message.origin := by
  rw [leasedMessage, hl, Option.bind_some]
  cases g.processing.get? id with
  | none => rfl
  | some m => by_cases h : g.cfg.retry.maxAttempts ≤ m.attempts + 1 <;> simp [h]

theorem leasedMessage_none {q : Queue} {key : Bytes} (hl : q.groups.lookup key = none)
    (id : Bytes) :
    q.leasedMessage key id = none := by
  rw [leasedMessage, hl, Option.bind_none]

section Ok

variable {q q' : Queue} {key id err : Bytes} {ord : RangeOrder} {now : Int} {msg : Option Message}

theorem tryDispatchOne_ok (h : q.tryDispatchOne key ord now = .ok (q', msg)) :
    q.groups.lookup key = none ∧ q' = q ∧ msg = none ∨
      ∃ g g', q.groups.lookup key = some g ∧ (g.promoteDelayed ord now).1.next now = .ok (g', msg) ∧
        q' = q.setGroup key g' := by
  unfold tryDispatchOne at h
  split at h
  · rename_i hl
    cases h
    exact .inl ⟨hl, rfl, rfl⟩
  · rename_i g hl
    obtain ⟨⟨g', next⟩, hn, hr⟩ := bind_ok.mp h
    cases hr
    exact .inr ⟨g, g', hl, hn, rfl⟩

theorem drainGroup_ok {r : DrainResult} (h : q.drainGroup key ord now = .ok (q', r)) :
    q.groups.lookup key = none ∧ q' = q ∧ r = ⟨none, zeroTime, false, false⟩ ∨
      ∃ g g', q.groups.lookup key = some g ∧ g.drainRound ord now = .ok (g', r) ∧
        q' = q.setGroup key g' := by
  unfold drainGroup at h
  split at h
  · rename_i hl
    cases h
    exact .inl ⟨hl, rfl, rfl⟩
  · rename_i g hl
    obtain ⟨⟨g', r'⟩, hd, hr⟩ := bind_ok.mp h
    cases hr
    exact .inr ⟨g, g', hl, hd, rfl⟩

theorem complete_some {g : Group} (hl : q.groups.lookup key = some g) (id : Bytes) :
    (q.complete key id).1 = q.setGroup key (g.complete id).1 := by
  simp only [complete, hl]
  split
  all_goals
    rename_i heq
    rw [heq]

theorem complete_eq (q : Queue) (key id : Bytes) :
    q.groups.lookup key = none ∧ (q.complete key id).1 = q ∨
      ∃ g, q.groups.lookup key = some g ∧
        (q.complete key id).1 = q.setGroup key (g.complete id).1 := by
  cases hl : q.groups.lookup key with
  | none =>
    refine .inl ⟨rfl, ?_⟩
    rw [complete, hl]
  | some g => exact .inr ⟨g, rfl, complete_some hl id⟩

theorem completeAndNext_ok (h : q.completeAndNext key id ord now = .ok (q', msg)) :
    q.groups.lookup key = none ∧ q' = q ∧ msg = none ∨
      ∃ g g', q.groups.lookup key = some g ∧
        ((g.complete id).1.promoteDelayed ord now).1.next now = .ok (g', msg) ∧
          q' = q.setGroup key g' := by
  unfold completeAndNext at h
  split at h
  · rename_i hl
    cases h
    exact .inl ⟨hl, rfl, rfl⟩
  · rename_i g hl
    obtain ⟨⟨g', next⟩, hn, hr⟩ := bind_ok.mp h
    cases hr
    exact .inr ⟨g, g', hl, hn, rfl⟩

theorem fail_ok {r : Except QueueError (Option (Bytes × Message))}
    (h : q.fail key id err now = .ok (q', r)) :
    q.groups.lookup key = none ∧ q' = q ∧ r = .error (.groupNotFound key) ∨
      ∃ g g' dlq, q.groups.lookup key = some g ∧ g.fail id err now = .ok (g', dlq) ∧
        r = .ok (dlqTarget g' dlq) ∧ q' = q.setGroup key g' := by
  unfold fail at h
  split at h
  · rename_i hl
    cases h
    exact .inl ⟨hl, rfl, rfl⟩
  · rename_i g hl
    obtain ⟨⟨g', dlq⟩, hf, hr⟩ := bind_ok.mp h
    cases hr
    exact .inr ⟨g, g', dlq, hl, hf, rfl, rfl⟩

theorem failAndNext_ok {r : Option (Bytes × Message) × Option Message}
    (h : q.failAndNext key id err ord now = .ok (q', r)) :
    q.groups.lookup key = none ∧ q' = q ∧ r = (none, none) ∨
      ∃ g g₁ g' dlq, q.groups.lookup key = some g ∧ g.fail id err now = .ok (g₁, dlq) ∧
        r.1 = dlqTarget g₁ dlq ∧ (g₁.promoteDelayed ord now).1.next now = .ok (g', r.2) ∧
        q' = q.setGroup key g' := by
  unfold failAndNext at h
  split at h
  · rename_i hl
    cases h
    exact .inl ⟨hl, rfl, rfl⟩
  · rename_i g hl
    obtain ⟨⟨g₁, dlq⟩, hf, h⟩ := bind_ok.mp h
    obtain ⟨⟨g', next⟩, hn, hr⟩ := bind_ok.mp h
    cases hr
    exact .inr ⟨g, g₁, g', dlq, hl, hf, rfl, hn, rfl⟩

theorem returnToPending_eq (q : Queue) (key id : Bytes) :
    q.groups.lookup key = none ∧ q.returnToPending key id = q ∨
      ∃ g, q.groups.lookup key = some g ∧
        q.returnToPending key id = q.setGroup key (g.returnToPending id) := by
  unfold returnToPending
  cases hl : q.groups.lookup key with
  | none => exact .inl ⟨rfl, rfl⟩
  | some g => exact .inr ⟨g, rfl, rfl⟩

end Ok

theorem tryDispatchOne_accounts {q q' : Queue} {key : Bytes} {ord : RangeOrder} {now : Int}
    {msg : Option Message} (hs : q.Sound) (h : q.tryDispatchOne key ord now = .ok (q', msg)) :
    Accounts q q' [] [] := by
  obtain ⟨-, rfl, -⟩ | ⟨g, g', hl, hn, rfl⟩ := tryDispatchOne_ok h
  · exact .ofSame hs rfl
  · exact .ofServes hs hl (Group.promote_next_serves (hs key g hl).toWf hn)

theorem drainGroup_accounts {q q' : Queue} {key : Bytes} {ord : RangeOrder} {now : Int}
    {r : DrainResult}
    (hs : q.Sound) (h : q.drainGroup key ord now = .ok (q', r)) : Accounts q q' [] [] := by
  obtain ⟨-, rfl, -⟩ | ⟨g, g', hl, hd, rfl⟩ := drainGroup_ok h
  · exact .ofSame hs rfl
  · exact .ofServes hs hl (Group.drainRound_serves (hs key g hl).toWf hd)

theorem complete_accounts {q : Queue} (hs : q.Sound) (hk : q.Keyed) (key id : Bytes) :
    Accounts q (q.complete key id).1 [] ((q.leasedMessage key id).toList.map fun s =>
      s.2.origin) := by
  obtain ⟨hl, heq⟩ | ⟨g, hl, heq⟩ := complete_eq q key id
  · rw [heq, leasedMessage_none hl]
    exact .ofSame hs rfl
  · obtain ⟨hc, ho⟩ := (hs key g hl).complete id
    rw [heq, completedBy_group hl]
    exact .ofGone hs hk hl hc ho

theorem completeAndNext_accounts {q q' : Queue} {key id : Bytes} {ord : RangeOrder} {now : Int}
    {msg : Option Message} (hs : q.Sound) (hk : q.Keyed)
    (h : q.completeAndNext key id ord now = .ok (q', msg)) :
    Accounts q q' [] ((q.leasedMessage key id).toList.map fun s => s.2.origin) := by
  obtain ⟨hl, rfl, -⟩ | ⟨g, g', hl, hn, rfl⟩ := completeAndNext_ok h
  · rw [leasedMessage_none hl]
    exact .ofSame hs rfl
  · obtain ⟨hc, ho⟩ := (hs key g hl).complete id
    have hserve := Group.promote_next_serves hc.toWf hn
    rw [completedBy_group hl]
    exact .ofGone hs hk hl (hc.serve hserve) (hserve.origins ▸ ho)

theorem fail_accounts {q q' : Queue} {key id err : Bytes} {now : Int}
    {r : Except QueueError (Option (Bytes × Message))} (hs : q.Sound) (hk : q.Keyed)
    (h : q.fail key id err now = .ok (q', r)) :
    Accounts q q' [] (((q.leasedMessage key id).toList.filter fun s =>
      s.1.cfg.retry.maxAttempts ≤ s.2.attempts + 1).map fun s => s.2.origin) := by
  obtain ⟨hl, rfl, -⟩ | ⟨g, g', dlq, hl, hf, -, rfl⟩ := fail_ok h
  · rw [leasedMessage_none hl]
    exact .ofSame hs rfl
  · obtain ⟨hg', ho⟩ := (hs key g hl).fail hf
    rw [exhaustedBy_group hl]
    exact .ofGone hs hk hl hg' ho

theorem failAndNext_accounts {q q' : Queue} {key id err : Bytes} {ord : RangeOrder} {now : Int}
    {r : Option (Bytes × Message) × Option Message} (hs : q.Sound) (hk : q.Keyed)
    (h : q.failAndNext key id err ord now = .ok (q', r)) :
    Accounts q q' [] (((q.leasedMessage key id).toList.filter fun s =>
      s.1.cfg.retry.maxAttempts ≤ s.2.attempts + 1).map fun s => s.2.origin) := by
  obtain ⟨hl, rfl, -⟩ | ⟨g, g₁, g', dlq, hl, hf, -, hn, rfl⟩ := failAndNext_ok h
  · rw [leasedMessage_none hl]
    exact .ofSame hs rfl
  · obtain ⟨hg₁, ho⟩ := (hs key g hl).fail hf
    have hserve := Group.promote_next_serves hg₁.toWf hn
    rw [exhaustedBy_group hl]
    exact .ofGone hs hk hl (hg₁.serve hserve) (hserve.origins ▸ ho)

theorem returnToPending_accounts {q : Queue} (hs : q.Sound) (key id : Bytes) :
    Accounts q (q.returnToPending key id) [] [] := by
  obtain ⟨-, heq⟩ | ⟨g, hl, heq⟩ := returnToPending_eq q key id
  all_goals rw [heq]
  · exact .ofSame hs rfl
  · exact .ofServes hs hl (Group.returnToPending_serves (hs key g hl).toWf id)

theorem sweepExpiredLeases_accounts {q : Queue} (hs : q.Sound) (ord : RangeOrder) (now : Int) :
    Accounts q (q.sweepExpiredLeases ord now).1 [] [] := by
  have hsweep : ∀ g : Group, g.Sound → Group.Serves g (sweepGroup ord now g) [] :=
    fun g hg => Group.foldl_returnToPending_serves hg.toWf _
  apply Accounts.ofMap hs (fun _ => sweepGroup ord now) rfl
  · intro key g hg
    exact hg.serve (hsweep g hg)
  · intro key g hg
    exact (hsweep g hg).origins

theorem installConfig_accounts [PathMatch] {q : Queue} (hs : q.Sound) (cfg : GroupConfig) :
    Accounts q (q.installConfig cfg) [] [] := by
  unfold installConfig
  simp only
  split
  · apply Accounts.ofMap hs (fun key g => if cfg.matchesKey key then applyConfig cfg key g
      else g) rfl
    · intro key g hg
      split
      · exact hg.applyConfig _ _
      · exact hg
    · intro key g hg
      split <;> rfl
  · split
    · rename_i g hl
      apply Accounts.ofGroup hs (AList.lookup_insert _) (fun _ hne => AList.lookup_insert_ne hne)
        ((hs _ g hl).applyConfig _ _)
      · exact congrArg (· + 0) (originsAt_some hl).symm
      · simp
      · simp
    · exact .ofSame hs rfl

theorem exec_accounts [PathMatch] {q q' : Queue} {op : LiveOp} {r : Reply} (hs : q.Sound)
    (hk : q.Keyed) (hfresh : ∀ id, op.publishID = some id → ∀ key, ∀ m ∈ q.originsAt key, m.id ≠ id)
    (h : q.exec op = .ok (q', r)) :
    Accounts q q' (r.accepted.map Message.origin) (q.completedBy op ++ q.exhaustedBy op) := by
  cases op with
  | publish key payload id now =>
    obtain ⟨⟨q₁, r₁⟩, hq, hr⟩ := bind_ok.mp h
    cases hr
    exact publishWithID_accounts hs (hfresh id rfl key) hq
  | publishWithID key id payload now =>
    obtain ⟨⟨q₁, r₁⟩, hq, hr⟩ := bind_ok.mp h
    cases hr
    exact publishWithID_accounts hs (hfresh id rfl key) hq
  | tryDispatchOne key ord now =>
    obtain ⟨⟨q₁, r₁⟩, hq, hr⟩ := bind_ok.mp h
    cases hr
    exact tryDispatchOne_accounts hs hq
  | drainGroup key ord now =>
    obtain ⟨⟨q₁, r₁⟩, hq, hr⟩ := bind_ok.mp h
    cases hr
    exact drainGroup_accounts hs hq
  | complete key id =>
    cases h
    exact (List.append_nil _).symm ▸ complete_accounts hs hk key id
  | completeAndNext key id ord now =>
    obtain ⟨⟨q₁, r₁⟩, hq, hr⟩ := bind_ok.mp h
    cases hr
    exact (List.append_nil _).symm ▸ completeAndNext_accounts hs hk hq
  | fail key id err now =>
    obtain ⟨⟨q₁, r₁⟩, hq, hr⟩ := bind_ok.mp h
    cases hr
    exact fail_accounts hs hk hq
  | failAndNext key id err ord now =>
    obtain ⟨⟨q₁, r₁⟩, hq, hr⟩ := bind_ok.mp h
    cases hr
    exact failAndNext_accounts hs hk hq
  | returnToPending key id =>
    cases h
    exact returnToPending_accounts hs key id
  | sweepExpiredLeases ord now =>
    cases h
    exact sweepExpiredLeases_accounts hs ord now
  | setGroupConfig cfg =>
    cases h
    exact installConfig_accounts hs _
  | deleteGroupConfig key =>
    cases h
    exact .ofSame hs rfl

end Queue

end Octar
