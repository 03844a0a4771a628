import Octar.Queue.Conservation
import Octar.Queue.Lifecycle

namespace Octar

open Go

structure Happening where
  key : Bytes
  id : Bytes
  what : Occurrence
  deriving DecidableEq, Repr

def happeningsOf (key : Bytes) (l : List Happening) : List (Bytes × Occurrence) :=
  (l.filter fun h => h.key = key).map fun h => (h.id, h.what)

def LiveOp.clock : LiveOp → Option Int
  | .publish _ _ _ now | .publishWithID _ _ _ now | .tryDispatchOne _ _ now | .drainGroup _ _ now
  | .completeAndNext _ _ _ now | .fail _ _ _ now | .failAndNext _ _ _ _ now
  | .sweepExpiredLeases _ now => some now
  | .complete .. | .returnToPending .. | .setGroupConfig _ | .deleteGroupConfig _ => none

def happened (key : Bytes) (os : List (Bytes × Occurrence)) : List Happening :=
  os.map fun o => ⟨key, o.1, o.2⟩

namespace Queue

def inGroupOf (q : Queue) (key : Bytes) (f : Group → List (Bytes × Occurrence)) : List Happening :=
  match q.groups.lookup key with
  | some g => happened key (f g)
  | none => []

/-- What is seen of an operation on `q` with the reply `r`: what it does to the message it names,
and then what it hands out.  A call of `ReturnToPending` is always seen, expired leases never
are. -/
def happenings (q : Queue) (r : Reply) : LiveOp → List Happening
  | .publish groupKey .. | .publishWithID groupKey .. =>
    happened groupKey (r.accepted.map fun m => (m.id, .published))
  | .tryDispatchOne groupKey _ now | .drainGroup groupKey _ now =>
    q.inGroupOf groupKey fun g => g.hands now r.handedOut
  | .complete groupKey msgID => q.inGroupOf groupKey fun g => g.completes msgID
  | .completeAndNext groupKey msgID _ now =>
    q.inGroupOf groupKey fun g => g.completes msgID ++ g.hands now r.handedOut
  | .fail groupKey msgID _ now => q.inGroupOf groupKey fun g => g.fails msgID now
  | .failAndNext groupKey msgID _ _ now =>
    q.inGroupOf groupKey fun g => g.fails msgID now ++ g.hands now r.handedOut
  | .returnToPending groupKey msgID => [⟨groupKey, msgID, .returned⟩]
  | .sweepExpiredLeases .. | .setGroupConfig _ | .deleteGroupConfig _ => []

def place (q : Queue) (key id : Bytes) : Option (Lease.Place Int) :=
  (q.groups.lookup key).bind fun g => g.place id

end Queue

structure WatchedRun where
  queue : Queue
  history : List Happening

namespace WatchedRun

def start (name ns : Bytes) : WatchedRun := ⟨newQueue name ns, []⟩

def step [PathMatch] (s : WatchedRun) (op : LiveOp) : Except Panic WatchedRun := do
  let (q, r) ← s.queue.exec op
  return ⟨q, s.history ++ s.queue.happenings r op⟩

end WatchedRun

def runWatched [PathMatch] (name ns : Bytes) (ops : List LiveOp) : Except Panic WatchedRun :=
  run WatchedRun.step (.start name ns) ops

@[simp] theorem happeningsOf_nil (key : Bytes) : happeningsOf key [] = [] := rfl

theorem happeningsOf_append (key : Bytes) (l l' : List Happening) :
    happeningsOf key (l ++ l') = happeningsOf key l ++ happeningsOf key l' := by
  rw [happeningsOf, List.filter_append, List.map_append]
  rfl

theorem happeningsOf_happened (key key' : Bytes) (os : List (Bytes × Occurrence)) :
    happeningsOf key' (happened key os) = if key' = key then os else [] := by
  rw [happeningsOf, happened, List.filter_map, List.map_map]
  split
  · rename_i h
    subst h
    simp [Function.comp_def]
  · rename_i h
    simp [Function.comp_def, Ne.symm h]

theorem happeningsOf_cons (key id : Bytes) (o : Occurrence) (l : List Happening) :
    happeningsOf key (⟨key, id, o⟩ :: l) = (id, o) :: happeningsOf key l := by
  simp [happeningsOf]

theorem mem_happeningsOf {key id : Bytes} {o : Occurrence} {l : List Happening} :
    (id, o) ∈ happeningsOf key l ↔ ⟨key, id, o⟩ ∈ l := by
  simp only [happeningsOf, List.mem_map, List.mem_filter, decide_eq_true_eq]
  constructor
  · rintro ⟨⟨k, i, o⟩, ⟨hmem, rfl⟩, heq⟩
    cases heq
    exact hmem
  · intro hmem
    exact ⟨⟨key, id, o⟩, ⟨hmem, rfl⟩, rfl⟩

theorem seen_happened (key key' id : Bytes) (os : List (Bytes × Occurrence)) :
    seen id (happeningsOf key' (happened key os)) = if key' = key then seen id os else [] := by
  rw [happeningsOf_happened, apply_ite (seen id)]
  rfl

theorem mem_seen {key id : Bytes} {e : Lease.Event Int} {l : List Happening} :
    e ∈ seen id (happeningsOf key l) ↔ ∃ o, ⟨key, id, o⟩ ∈ l ∧ o.event = e := by
  simp only [seen, List.mem_map, List.mem_filter, decide_eq_true_eq]
  constructor
  · rintro ⟨⟨i, o⟩, ⟨hmem, rfl⟩, he⟩
    exact ⟨o, mem_happeningsOf.mp hmem, he⟩
  · rintro ⟨o, hmem, he⟩
    exact ⟨(id, o), ⟨mem_happeningsOf.mpr hmem, rfl⟩, he⟩

namespace Queue

def Carries (now : Int) (q q' : Queue) (l : List Happening) : Prop :=
  ∀ key id history, Lease.Life now (q.place key id) history →
    Lease.Life now (q'.place key id) (history ++ seen id (happeningsOf key l))

variable {q q' : Queue} {now : Int} {key : Bytes}

theorem place_some {g : Group} (h : q.groups.lookup key = some g) (id : Bytes) :
    q.place key id = g.place id := by
  rw [place, h, Option.bind_some]

theorem place_insert {g : Group} (hgroups : q'.groups = q.groups.insert key g) (key' id : Bytes) :
    q'.place key' id = if key' = key then g.place id else q.place key' id := by
  split
  · rename_i h
    subst h
    exact place_some (by rw [hgroups, AList.lookup_insert]) id
  · rename_i h
    rw [place, hgroups, AList.lookup_insert_ne h, place]

theorem Carries.ofSame (h : q'.groups = q.groups) : Carries now q q' [] := by
  intro key id history hl
  rwa [place, h, happeningsOf_nil, seen_nil, List.append_nil]

theorem Carries.ofGroup {g g' : Group} {os : List (Bytes × Occurrence)}
    (hl : q.groups.lookup key = some g) (h : Group.Carries now g g' os) :
    Carries now q (q.setGroup key g') (happened key os) := by
  intro key' id history hlife
  rw [place_insert rfl, seen_happened]
  split
  · rename_i hk
    subst hk
    rw [place_some hl] at hlife
    exact h.life id history hlife
  · rw [List.append_nil]
    exact hlife

theorem Carries.ofMap {f : Bytes → Group → Group} (hgroups : q'.groups = Map.mapTo q.groups f)
    (h : ∀ key g, q.groups.lookup key = some g → ∀ id history, Lease.Life now (g.place id) history →
      Lease.Life now ((f key g).place id) history) : Carries now q q' [] := by
  intro key id history hlife
  rw [happeningsOf_nil, seen_nil, List.append_nil, place, hgroups, Map.lookup_mapTo]
  cases hl : q.groups.lookup key with
  | none =>
    rw [place, hl] at hlife
    exact hlife
  | some g =>
    rw [place_some hl] at hlife
    exact h key g hl id history hlife

theorem returnToPending_carries (hs : q.Sound) (key id : Bytes) :
    Carries now q (q.returnToPending key id) [⟨key, id, .returned⟩] := by
  unfold returnToPending
  split
  · rename_i hl
    -- the call finds no group, and the message has no place
    intro key' id' history hlife
    have hseen := seen_happened key key' id' [(id, .returned)]
    rw [happened, List.map_singleton] at hseen
    rw [hseen]
    split
    · rename_i hk
      subst hk
      have hcall := seen_map id id' [.returned]
      rw [List.map_singleton] at hcall
      rw [hcall]
      split
      · exact hlife.step .giveBackNothing
      · rwa [List.append_nil]
    · rwa [List.append_nil]
  · rename_i g hl
    exact .ofGroup hl (Group.returnToPending_carries (hs key g hl).toWf id)

theorem inGroupOf_some {g : Group} (h : q.groups.lookup key = some g)
    (f : Group → List (Bytes × Occurrence)) : q.inGroupOf key f = happened key (f g) := by
  rw [inGroupOf, h]

theorem inGroupOf_none (h : q.groups.lookup key = none) (f : Group → List (Bytes × Occurrence)) :
    q.inGroupOf key f = [] := by
  rw [inGroupOf, h]

theorem mem_inGroupOf {f : Group → List (Bytes × Occurrence)} {x : Happening}
    (h : x ∈ q.inGroupOf key f) :
    ∃ g, (x.id, x.what) ∈ f g := by
  unfold inGroupOf at h
  split at h
  · rename_i g hl
    obtain ⟨o, ho, rfl⟩ := List.mem_map.mp h
    exact ⟨g, ho⟩
  · cases h

theorem complete_carries (hs : q.Sound) (key id : Bytes) :
    Carries now q (q.complete key id).1 (q.inGroupOf key fun g => g.completes id) := by
  obtain ⟨hl, heq⟩ | ⟨g, hl, heq⟩ := complete_eq q key id
  · rw [heq, inGroupOf_none hl]
    exact .ofSame rfl
  · rw [heq, inGroupOf_some hl]
    exact .ofGroup hl (Group.complete_carries (hs key g hl).toWf id)

theorem completeAndNext_carries {id : Bytes} {ord : RangeOrder} {msg : Option Message}
    (hs : q.Sound) (h : q.completeAndNext key id ord now = .ok (q', msg)) :
    Carries now q q' (q.inGroupOf key fun g => g.completes id ++ g.hands now msg.toList) := by
  obtain ⟨hl, rfl, -⟩ | ⟨g, g', hl, hn, rfl⟩ := completeAndNext_ok h
  · rw [inGroupOf_none hl]
    exact .ofSame rfl
  · have hc : Group.Carries now g (g.complete id).1 (g.completes id) :=
      Group.complete_carries (hs key g hl).toWf id
    have hnext := Group.promoteNext_carries hc.wf hn
    rw [Group.hands_congr hc.cfg] at hnext
    rw [inGroupOf_some hl]
    exact .ofGroup hl (hc.trans hnext)

theorem tryDispatchOne_carries {ord : RangeOrder} {msg : Option Message} (hs : q.Sound)
    (h : q.tryDispatchOne key ord now = .ok (q', msg)) :
    Carries now q q' (q.inGroupOf key fun g => g.hands now msg.toList) := by
  obtain ⟨hl, rfl, -⟩ | ⟨g, g', hl, hn, rfl⟩ := tryDispatchOne_ok h
  · rw [inGroupOf_none hl]
    exact .ofSame rfl
  · rw [inGroupOf_some hl]
    exact .ofGroup hl (Group.promoteNext_carries (hs key g hl).toWf hn)

theorem drainGroup_carries {ord : RangeOrder} {r : DrainResult} (hs : q.Sound)
    (h : q.drainGroup key ord now = .ok (q', r)) :
    Carries now q q' (q.inGroupOf key fun g => g.hands now (r.ready.getD [])) := by
  obtain ⟨hl, rfl, -⟩ | ⟨g, g', hl, hd, rfl⟩ := drainGroup_ok h
  · rw [inGroupOf_none hl]
    exact .ofSame rfl
  · rw [inGroupOf_some hl]
    exact .ofGroup hl (Group.drainRound_carries (hs key g hl).toWf hd)

theorem fail_carries {id errMsg : Bytes} {r : Except QueueError (Option (Bytes × Message))}
    (hs : q.Sound) (h : q.fail key id errMsg now = .ok (q', r)) :
    Carries now q q' (q.inGroupOf key fun g => g.fails id now) := by
  obtain ⟨hl, rfl, -⟩ | ⟨g, g', dlq, hl, hf, -, rfl⟩ := fail_ok h
  · rw [inGroupOf_none hl]
    exact .ofSame rfl
  · rw [inGroupOf_some hl]
    exact .ofGroup hl (Group.fail_carries (hs key g hl).toWf hf)

theorem failAndNext_carries {id errMsg : Bytes} {ord : RangeOrder}
    {r : Option (Bytes × Message) × Option Message} (hs : q.Sound)
    (h : q.failAndNext key id errMsg ord now = .ok (q', r)) :
    Carries now q q' (q.inGroupOf key fun g => g.fails id now ++ g.hands now r.2.toList) := by
  obtain ⟨hl, rfl, -⟩ | ⟨g, g₁, g', dlq, hl, hf, -, hn, rfl⟩ := failAndNext_ok h
  · rw [inGroupOf_none hl]
    exact .ofSame rfl
  · have hc := Group.fail_carries (hs key g hl).toWf hf
    have hnext := Group.promoteNext_carries hc.wf hn
    rw [Group.hands_congr hc.cfg] at hnext
    rw [inGroupOf_some hl]
    exact .ofGroup hl (hc.trans hnext)

theorem sweepExpiredLeases_carries (hs : q.Sound) (ord : RangeOrder) (now : Int) :
    Carries now q (q.sweepExpiredLeases ord now).1 [] := by
  refine .ofMap (f := fun _ => sweepGroup ord now) rfl ?_
  intro key g hl id history hlife
  have hsweep := (Group.sweepGroup_carries (hs key g hl).toWf ord now).life id history hlife
  rwa [seen, List.filter_nil, List.map_nil, List.append_nil] at hsweep

variable [PathMatch]

theorem installConfig_carries (cfg : GroupConfig) : Carries now q (q.installConfig cfg) [] := by
  unfold installConfig
  simp only
  split
  · refine .ofMap (f := fun key g => if cfg.matchesKey key then applyConfig cfg key g else g) rfl ?_
    intro key g hl id history hlife
    split
    · exact hlife
    · exact hlife
  · split
    · rename_i g hl
      intro key id history hlife
      rw [place_insert rfl, happeningsOf_nil, seen_nil, List.append_nil]
      split
      · rename_i hk
        subst hk
        rw [place_some hl] at hlife
        exact hlife
      · exact hlife
    · exact .ofSame rfl

theorem groupFor_place {g : Group} (h : q.groupFor key = .ok g) (id : Bytes) :
    g.place id = q.place key id := by
  rcases groupFor_cases h with hl | ⟨hl, hnew⟩
  · rw [place_some hl]
  · obtain ⟨-, hslots, -, -⟩ := Group.newGroup_ok hnew
    have hnone : g.slotOf id = none := Group.slotOf_eq_none.mpr (by simp [Group.ids, hslots])
    rw [Group.place, hnone, place, hl]
    rfl

theorem publishWithID_life {id payload : Bytes} {r : Except QueueError Message} (hs : q.Sound)
    (hfresh : ∀ m ∈ q.originsAt key, m.id ≠ id)
    (h : q.publishWithID key id payload now = .ok (q', r)) (key' id' : Bytes)
    {history : List (Lease.Event Int)} (hnew : id' = id → .published ∉ history)
    (hlife : Lease.Life now (q.place key' id') history) :
    Lease.Life now (q'.place key' id')
      (history ++ seen id' (happeningsOf key'
        (happened key ((Reply.published r).accepted.map fun m => (m.id, .published))))) := by
  obtain ⟨g, hg, hcases⟩ := publishWithID_ok h
  have hplace := groupFor_place hg
  rcases hcases with ⟨-, -, rfl, rfl⟩ | ⟨rfl, keyIdx, rfl⟩
  · rw [place_insert rfl]
    split
    · rename_i hk
      subst hk
      rw [hplace]
      simpa [Reply.published, Reply.nothing, happened] using hlife
    · simpa [Reply.published, Reply.nothing, happened] using hlife
  · obtain ⟨hgs, hgo⟩ := groupFor_ok hs hg
    have hid : (newMessageAt q.name q.ns key payload now id).id ∉ g.ids := by
      rw [Group.ids_eq_origins, hgo, Multiset.mem_map]
      rintro ⟨m, hm, heq⟩
      exact hfresh m hm heq
    rw [place_insert rfl, seen_happened]
    split
    · rename_i hk
      subst hk
      rw [← hplace] at hlife
      exact Group.enqueue_life hgs.toWf hid id' hnew hlife
    · rwa [List.append_nil]

theorem exec_life {op : LiveOp} {r : Reply} (hs : q.Sound)
    (hfresh : ∀ id, op.publishID = some id → ∀ key, ∀ m ∈ q.originsAt key, m.id ≠ id)
    (hclock : ∀ t ∈ op.clock, t = now) (h : q.exec op = .ok (q', r)) (key id : Bytes)
    {history : List (Lease.Event Int)} (hnew : op.publishID = some id → .published ∉ history)
    (hlife : Lease.Life now (q.place key id) history) :
    Lease.Life now (q'.place key id)
      (history ++ seen id (happeningsOf key (q.happenings r op))) := by
  cases op with
  | publish key₀ payload id₀ now =>
    obtain ⟨⟨q₁, r₁⟩, hq, hret⟩ := bind_ok.mp h
    cases hret
    cases hclock _ rfl
    exact publishWithID_life hs (hfresh id₀ rfl key₀) hq key id (fun heq => hnew (heq ▸ rfl)) hlife
  | publishWithID key₀ id₀ payload now =>
    obtain ⟨⟨q₁, r₁⟩, hq, hret⟩ := bind_ok.mp h
    cases hret
    cases hclock _ rfl
    exact publishWithID_life hs (hfresh id₀ rfl key₀) hq key id (fun heq => hnew (heq ▸ rfl)) hlife
  | tryDispatchOne key₀ ord now =>
    obtain ⟨⟨q₁, r₁⟩, hq, hret⟩ := bind_ok.mp h
    cases hret
    cases hclock _ rfl
    exact tryDispatchOne_carries hs hq key id history hlife
  | drainGroup key₀ ord now =>
    obtain ⟨⟨q₁, r₁⟩, hq, hret⟩ := bind_ok.mp h
    cases hret
    cases hclock _ rfl
    exact drainGroup_carries hs hq key id history hlife
  | complete key₀ id₀ =>
    cases h
    exact complete_carries hs key₀ id₀ key id history hlife
  | completeAndNext key₀ id₀ ord now =>
    obtain ⟨⟨q₁, r₁⟩, hq, hret⟩ := bind_ok.mp h
    cases hret
    cases hclock _ rfl
    exact completeAndNext_carries hs hq key id history hlife
  | fail key₀ id₀ err now =>
    obtain ⟨⟨q₁, r₁⟩, hq, hret⟩ := bind_ok.mp h
    cases hret
    cases hclock _ rfl
    exact fail_carries hs hq key id history hlife
  | failAndNext key₀ id₀ err ord now =>
    obtain ⟨⟨q₁, r₁⟩, hq, hret⟩ := bind_ok.mp h
    cases hret
    cases hclock _ rfl
    exact failAndNext_carries hs hq key id history hlife
  | returnToPending key₀ id₀ =>
    cases h
    exact returnToPending_carries hs key₀ id₀ key id history hlife
  | sweepExpiredLeases ord now =>
    cases h
    cases hclock _ rfl
    exact sweepExpiredLeases_carries hs ord now key id history hlife
  | setGroupConfig cfg =>
    cases h
    exact installConfig_carries _ key id history hlife
  | deleteGroupConfig key₀ =>
    cases h
    exact Carries.ofSame rfl key id history hlife

theorem mem_happenings_published {op : LiveOp} {r : Reply} {key id : Bytes}
    (h : q.exec op = .ok (q', r)) (hmem : ⟨key, id, .published⟩ ∈ q.happenings r op) :
    ∃ m ∈ r.accepted, m.groupKey = key ∧ m.id = id := by
  have hpublish : ∀ {key₀ id₀ payload : Bytes} {now : Int} {q₁ : Queue}
      {r₁ : Except QueueError Message}, q.publishWithID key₀ id₀ payload now = .ok (q₁, r₁) →
      ⟨key, id, .published⟩ ∈ happened key₀ ((Reply.published r₁).accepted.map fun m =>
        (m.id, .published)) →
      ∃ m ∈ (Reply.published r₁).accepted, m.groupKey = key ∧ m.id = id := by
    intro key₀ id₀ payload now q₁ r₁ hq hmem
    obtain ⟨g, -, ⟨-, -, rfl, -⟩ | ⟨rfl, -⟩⟩ := publishWithID_ok hq
    · cases hmem
    · cases List.mem_singleton.mp hmem
      exact ⟨_, List.mem_singleton_self _, rfl, rfl⟩
  cases op with
  | publish =>
    obtain ⟨⟨q₁, r₁⟩, hq, hret⟩ := bind_ok.mp h
    cases hret
    exact hpublish hq hmem
  | publishWithID =>
    obtain ⟨⟨q₁, r₁⟩, hq, hret⟩ := bind_ok.mp h
    cases hret
    exact hpublish hq hmem
  | tryDispatchOne | drainGroup =>
    obtain ⟨g, hg⟩ := mem_inGroupOf hmem
    exact absurd hg (g.published_notMem_hands _ _ id)
  | complete =>
    obtain ⟨g, hg⟩ := mem_inGroupOf hmem
    exact absurd hg (g.published_notMem_completes _ id)
  | fail =>
    obtain ⟨g, hg⟩ := mem_inGroupOf hmem
    exact absurd hg (g.published_notMem_fails _ _ id)
  | completeAndNext =>
    obtain ⟨g, hg⟩ := mem_inGroupOf hmem
    rcases List.mem_append.mp hg with hg | hg
    · exact absurd hg (g.published_notMem_completes _ id)
    · exact absurd hg (g.published_notMem_hands _ _ id)
  | failAndNext =>
    obtain ⟨g, hg⟩ := mem_inGroupOf hmem
    rcases List.mem_append.mp hg with hg | hg
    · exact absurd hg (g.published_notMem_fails _ _ id)
    · exact absurd hg (g.published_notMem_hands _ _ id)
  | returnToPending => cases List.mem_singleton.mp hmem
  | sweepExpiredLeases | setGroupConfig | deleteGroupConfig => cases hmem

end Queue

theorem Occurrence.event_eq_published {o : Occurrence} (h : o.event = .published) :
    o = .published := by
  cases o <;> first | rfl | cases h

namespace WatchedRun

/-- What holds along a run, with the operations `l` still to come: every message has lived up to
what was seen of it, and what was seen to be published has been accepted. -/
structure Lives (s : WatchedRun) (live : LiveRun) (now : Int) (l : List LiveOp) : Prop where
  queue : live.queue = s.queue
  balanced : live.Balanced
  fresh : (live.accepted.map Message.id ++ l.filterMap LiveOp.publishID).Nodup
  clock : (now :: l.filterMap LiveOp.clock).Pairwise (· ≤ ·)
  published : ∀ key id, ⟨key, id, .published⟩ ∈ s.history → ∃ m ∈ live.accepted,
    m.groupKey = key ∧ m.id = id
  life : ∀ key id, Lease.Life now (s.queue.place key id) (seen id (happeningsOf key s.history))

theorem Lives.accepted {s : WatchedRun} {live : LiveRun} {now : Int} {l : List LiveOp}
    (h : s.Lives live now l) {key id : Bytes}
    (hseen : .published ∈ seen id (happeningsOf key s.history)) :
    ∃ m ∈ live.accepted, m.groupKey = key ∧ m.id = id := by
  obtain ⟨o, hmem, ho⟩ := mem_seen.mp hseen
  cases Occurrence.event_eq_published ho
  exact h.published key id hmem

theorem Lives.key_eq {s : WatchedRun} {live : LiveRun} {now : Int} {l : List LiveOp}
    (h : s.Lives live now l) {key key' id : Bytes}
    (hseen : .published ∈ seen id (happeningsOf key s.history))
    (hseen' : .published ∈ seen id (happeningsOf key' s.history)) : key = key' := by
  obtain ⟨m, hm, rfl, rfl⟩ := h.accepted hseen
  obtain ⟨m', hm', rfl, hid⟩ := h.accepted hseen'
  rw [List.inj_on_of_nodup_map h.balanced.distinct hm' hm hid]

theorem Lives.start (name ns : Bytes) {ops : List LiveOp}
    (hids : (ops.filterMap LiveOp.publishID).Nodup)
    (hclock : (ops.filterMap LiveOp.clock).Pairwise (· ≤ ·)) :
    ∃ now, (WatchedRun.start name ns).Lives (.start name ns) now ops := by
  have hfirst : ∃ now, (now :: ops.filterMap LiveOp.clock).Pairwise (· ≤ ·) := by
    cases ht : ops.filterMap LiveOp.clock with
    | nil => exact ⟨0, List.pairwise_singleton _ _⟩
    | cons t rest =>
      refine ⟨t, List.pairwise_cons.mpr ⟨?_, ht ▸ hclock⟩⟩
      intro t' ht'
      rcases List.mem_cons.mp ht' with rfl | ht'
      · exact Int.le_refl _
      · exact (List.pairwise_cons.mp (ht ▸ hclock)).1 t' ht'
  obtain ⟨now, hnow⟩ := hfirst
  exact ⟨now, rfl, LiveRun.balanced_start name ns, hids, hnow, fun _ _ h => (nomatch h),
    fun _ _ => .start now⟩

variable [PathMatch]

theorem Lives.step {s s' : WatchedRun} {live : LiveRun} {now : Int} {op : LiveOp} {l : List LiveOp}
    (h : s.Lives live now (op :: l)) (hstep : s.step op = .ok s') :
    ∃ live' now', s'.Lives live' now' l := by
  obtain ⟨⟨q, r⟩, hexec, hret⟩ := bind_ok.mp hstep
  cases hret
  have hlive : live.step op = .ok
      ⟨q, live.accepted ++ r.accepted.map Message.origin,
        live.completed ++ live.queue.completedBy op,
        live.exhausted ++ live.queue.exhaustedBy op⟩ := by
    rw [LiveRun.step, h.queue, hexec]
    rfl
  obtain ⟨hbalanced, hfresh⟩ := h.balanced.step_fresh h.fresh hlive
  obtain ⟨now', hle, hclock, hrest⟩ : ∃ now', now ≤ now' ∧ (∀ t ∈ op.clock, t = now') ∧
      (now' :: l.filterMap LiveOp.clock).Pairwise (· ≤ ·) := by
    have hpairs := h.clock
    cases hop : op.clock with
    | none =>
      rw [List.filterMap_cons_none hop] at hpairs
      exact ⟨now, Int.le_refl _, by simp, hpairs⟩
    | some t =>
      rw [List.filterMap_cons_some hop] at hpairs
      obtain ⟨hfirst, hrest⟩ := List.pairwise_cons.mp hpairs
      exact ⟨t, hfirst t List.mem_cons_self, by simp, hrest⟩
  have hids : (live.accepted.map Message.id ++ op.publishID.toList).Nodup := by
    refine h.fresh.sublist (List.Sublist.append_left ?_ _)
    cases hp : op.publishID with
    | none => exact List.nil_sublist _
    | some id =>
      rw [List.filterMap_cons_some hp]
      exact (List.nil_sublist _).cons_cons id
  refine ⟨_, now', rfl, hbalanced, hfresh, hrest, ?_, ?_⟩
  · intro key id hmem
    rcases List.mem_append.mp hmem with hmem | hmem
    · obtain ⟨m, hm, hkey⟩ := h.published key id hmem
      exact ⟨m, List.mem_append_left _ hm, hkey⟩
    · obtain ⟨m, hm, hkey⟩ := Queue.mem_happenings_published hexec hmem
      exact ⟨m.origin, List.mem_append_right _ (List.mem_map_of_mem hm), hkey⟩
  · intro key id
    rw [happeningsOf_append, seen_append]
    refine Queue.exec_life (h.queue ▸ h.balanced.sound) (h.queue ▸ h.balanced.fresh hids)
      hclock hexec key id ?_ ((h.life key id).tick hle)
    intro hid hseen
    obtain ⟨m, hm, -, rfl⟩ := h.accepted hseen
    exact List.disjoint_of_nodup_append hids (List.mem_map_of_mem hm) (by simp [hid])

end WatchedRun

theorem runWatched_lives [PathMatch] {name ns : Bytes} {ops : List LiveOp} {s : WatchedRun}
    (hids : (ops.filterMap LiveOp.publishID).Nodup)
    (hclock : (ops.filterMap LiveOp.clock).Pairwise (· ≤ ·)) (h : runWatched name ns ops = .ok s) :
    ∃ live now, s.Lives live now [] := by
  obtain ⟨now, hstart⟩ := WatchedRun.Lives.start name ns hids hclock
  apply Run.induct (motive := fun s l => ∃ live now, s.Lives live now l) _ ⟨_, now, hstart⟩ h
  rintro s op l s' ⟨live, now, hlives⟩ hstep
  exact hlives.step hstep

/-- In every run with distinct identifiers and a clock that does not go back, a message that is
handed out twice was given back between, or failed and its retry delay has passed, or its lease has
expired; and a message that was completed or has failed for the last time is not handed out any
more. -/
theorem redelivery_is_justified [PathMatch] {name ns : Bytes} {ops : List LiveOp} {s : WatchedRun}
    (hids : (ops.filterMap LiveOp.publishID).Nodup)
    (hclock : (ops.filterMap LiveOp.clock).Pairwise (· ≤ ·))
    (h : runWatched name ns ops = .ok s) :
    (∀ before key key' id t lease since t' lease' after,
      s.history = before ++ ⟨key, id, .handed t lease⟩ ::
        (since ++ ⟨key', id, .handed t' lease'⟩ :: after) →
      key' = key ∧ (⟨key, id, .returned⟩ ∈ since ∨
        (∃ failedAt attempt delay, ⟨key, id, .failed failedAt attempt delay⟩ ∈ since ∧
          failedAt + delay ≤ t') ∨
        t + lease < t')) ∧
    ∀ before key id after, s.history = before ++ ⟨key, id, .settled⟩ :: after →
      ∀ key' t lease, ⟨key', id, .handed t lease⟩ ∉ after := by
  obtain ⟨live, now, hlives⟩ := runWatched_lives hids hclock h
  -- what is seen of a message besides calls of `ReturnToPending` is seen after its publication
  have hpublished : ∀ key id o, ⟨key, id, o⟩ ∈ s.history → o.event ≠ .returned →
      .published ∈ seen id (happeningsOf key s.history) := by
    intro key id o hmem hne
    exact (hlives.life key id).lawful.published (.inr ⟨_, mem_seen.mpr ⟨o, hmem, rfl⟩, hne⟩)
  constructor
  · intro before key key' id t lease since t' lease' after hsplit
    have hkey : key' = key := by
      refine hlives.key_eq (hpublished key' id (.handed t' lease') ?_ (by simp [Occurrence.event]))
        (hpublished key id (.handed t lease) ?_ (by simp [Occurrence.event]))
      · simp [hsplit]
      · simp [hsplit]
    subst hkey
    have hseen : seen id (happeningsOf key' s.history) =
        seen id (happeningsOf key' before) ++ .handed t lease ::
          (seen id (happeningsOf key' since) ++ .handed t' lease' :: seen id
            (happeningsOf key' after)) := by
      simp only [hsplit, happeningsOf_append, happeningsOf_cons, seen_append, seen_cons,
        Occurrence.event]
    refine ⟨rfl, ?_⟩
    rcases (hlives.life key' id).lawful.justified _ _ _ _ _ _ _ hseen with hret
      | ⟨f, d, hfail, hle⟩ | hexpired
    · obtain ⟨o, hmem, ho⟩ := mem_seen.mp hret
      cases o <;> cases ho
      exact .inl hmem
    · obtain ⟨o, hmem, ho⟩ := mem_seen.mp hfail
      cases o <;> cases ho
      exact .inr (.inl ⟨f, _, d, hmem, hle⟩)
    · exact .inr (.inr hexpired)
  · intro before key id after hsplit key' t lease hmem
    have hkey : key' = key := by
      refine hlives.key_eq (hpublished key' id (.handed t lease) ?_ (by simp [Occurrence.event]))
        (hpublished key id .settled ?_ (by simp [Occurrence.event]))
      · simp [hsplit, hmem]
      · simp [hsplit]
    subst hkey
    have hseen : seen id (happeningsOf key' s.history) =
        seen id (happeningsOf key' before) ++ .settled :: seen id (happeningsOf key' after) := by
      simp only [hsplit, happeningsOf_append, happeningsOf_cons, seen_append, seen_cons,
        Occurrence.event]
    obtain ⟨-, hafter⟩ := (hlives.life key' id).lawful.settled _ _ hseen
    exact hafter t lease (mem_seen.mpr ⟨_, hmem, rfl⟩)

def redeliveredOps : List LiveOp :=
  [.publishWithID (str "g") (str "a") (str "x") 0, .tryDispatchOne (str "g") .inOrder 1,
    .failAndNext (str "g") (str "a") [] .inOrder 2, .tryDispatchOne (str "g") .inOrder 100000000000,
    .complete (str "g") (str "a")]

theorem redelivery_is_justified_sample :
    ∃ s, @runWatched literalMatch [] [] redeliveredOps = .ok s ∧
      s.history = [⟨str "g", str "a", .published⟩, ⟨str "g", str "a", .handed 1 300000000000⟩,
        ⟨str "g", str "a", .failed 2 1 2000000000⟩,
          ⟨str "g", str "a", .handed 100000000000 300000000000⟩,
        ⟨str "g", str "a", .settled⟩] ∧
      (⟨str "g", str "a", .returned⟩ ∈ [(⟨str "g", str "a", .failed 2 1 2000000000⟩ : Happening)] ∨
        (∃ failedAt attempt delay, ⟨str "g", str "a", .failed failedAt attempt delay⟩ ∈
          [(⟨str "g", str "a", .failed 2 1 2000000000⟩ : Happening)] ∧
            failedAt + delay ≤ 100000000000) ∨
        1 + 300000000000 < (100000000000 : Int)) := by
  obtain ⟨s, hs, hhistory⟩ : ∃ s, @runWatched literalMatch [] [] redeliveredOps = .ok s ∧
      s.history = [⟨str "g", str "a", .published⟩, ⟨str "g", str "a", .handed 1 300000000000⟩,
        ⟨str "g", str "a", .failed 2 1 2000000000⟩,
          ⟨str "g", str "a", .handed 100000000000 300000000000⟩,
        ⟨str "g", str "a", .settled⟩] := ⟨_, rfl, by decide +kernel⟩
  obtain ⟨hjustified, -⟩ :=
    @redelivery_is_justified literalMatch [] [] redeliveredOps s (by decide) (by decide) hs
  exact ⟨s, hs, hhistory, (hjustified [⟨str "g", str "a", .published⟩] _ _ _ _ _
    [⟨str "g", str "a", .failed 2 1 2000000000⟩] _ _ _ hhistory).2⟩

end Octar
