import Octar.Broker.Replay
import Octar.Queue.Live

namespace Octar

open Go

/-- A record of the broker.  Its sequence number and timestamp are set by the flush; no handler of
the replay reads them. -/
def Queue.event (q : Queue) (type : EventType) (group msgID payload : Bytes) : Event where
  type := type
  ns := q.ns
  queue := q.name
  group := group
  msgID := msgID
  payload := payload
  seq := 0
  timestamp := 0

def Queue.leaseEvents (q : Queue) (msgs : List Message) : List Event :=
  msgs.map fun m => q.event .lease m.groupKey m.id []

def Queue.logOf (q : Queue) (r : Reply) : LiveOp → List Event
  | .publish groupKey payload _ _ | .publishWithID groupKey _ payload _ =>
    r.accepted.map fun m => q.event .publish groupKey m.id payload
  | .completeAndNext groupKey msgID _ _ =>
    q.event .ack groupKey msgID [] :: q.leaseEvents r.handedOut
  | .failAndNext groupKey msgID _ _ _ =>
    q.event .nack groupKey msgID [] :: q.leaseEvents r.handedOut
  | _ => q.leaseEvents r.handedOut

def Queue.Admits (q : Queue) : LiveOp → Prop
  | .publish .. | .publishWithID .. | .tryDispatchOne .. | .drainGroup .. => True
  | .completeAndNext groupKey msgID _ _ | .failAndNext groupKey msgID _ _ _ =>
    (q.leasedMessage groupKey msgID).isSome
  | _ => False

inductive LoggedRun [PathMatch] (q₀ : Queue) : List LiveOp → Queue → List Event → Prop
  | start : LoggedRun q₀ [] q₀ []
  | step {ops : List LiveOp} {q : Queue} {log : List Event} {op : LiveOp} {q' : Queue} {r : Reply} :
    LoggedRun q₀ ops q log → q.Admits op → q.exec op = .ok (q', r) →
      LoggedRun q₀ (ops ++ [op]) q' (log ++ q.logOf r op)

namespace Group

structure Running (g : Group) (key : Bytes) (cfg : GroupConfig) : Prop extends Wf g where
  cfg_eq : g.cfg = cfg.withDefaults
  rate_ok : cfg.RateOk
  groupKeys : ∀ x ∈ g.slots, x.2.groupKey = key

variable {g g' : Group} {key : Bytes} {cfg : GroupConfig}

theorem Serves.body_mem {batch : List Message} (h : Serves g g' batch) {x : Loc × Message}
    (hx : x ∈ g'.slots) : ∃ y ∈ g.slots, y.2.body = x.2.body := by
  have hb : x.2.body ∈ g'.bodies := Multiset.mem_map_of_mem (fun x => x.2.body) hx
  rw [h.bodies] at hb
  exact Multiset.mem_map.mp hb

theorem groupKey_of_body {m m' : Message} (h : m'.body = m.body) : m'.groupKey = m.groupKey := by
  simpa using congrArg Message.groupKey h

theorem Running.serve {batch : List Message} (hr : g.Running key cfg) (h : Serves g g' batch) :
    g'.Running key cfg ∧ ∀ m ∈ batch, m.groupKey = key := by
  refine ⟨⟨h.wf, h.cfg.trans hr.cfg_eq, hr.rate_ok, ?_⟩, ?_⟩
  · intro x hx
    obtain ⟨y, hy, hb⟩ := h.body_mem hx
    rw [← groupKey_of_body hb]
    exact hr.groupKeys y hy
  · intro m hm
    obtain ⟨y, hy, hb⟩ := Multiset.mem_map.mp (h.batch_mem m hm)
    rw [← groupKey_of_body hb]
    exact hr.groupKeys y hy

theorem Running.release {m : Message} {kept : Option (Loc × Message)} (hr : g.Running key cfg)
    (h : Releases g g' m kept) (hk : ∀ x ∈ kept, x.2.groupKey = m.groupKey) :
    g'.Running key cfg := by
  obtain ⟨rest, hg, hg'⟩ := h.slots
  refine ⟨h.wf, h.cfg.trans hr.cfg_eq, hr.rate_ok, ?_⟩
  intro x hx
  rw [hg', Multiset.mem_add] at hx
  rcases hx with hx | hx
  · rw [hk x (by simpa using hx)]
    exact hr.groupKeys (.processing, m) (hg ▸ Multiset.mem_cons_self _ _)
  · exact hr.groupKeys x (hg ▸ Multiset.mem_cons_of_mem hx)

theorem Serves.attempts {batch : List Message} (h : Serves g g' batch) (hw : g.Wf) (id : Bytes) :
    (g'.phase id).map Prod.snd = (g.phase id).map Prod.snd := by
  apply Option.ext
  intro a
  simp only [Option.map_eq_some_iff, Prod.exists, exists_eq_right, phase_eq_some hw.distinct,
    phase_eq_some h.wf.distinct]
  have hmem : ∀ {g₁ g₂ : Group}, g₁.bodies = g₂.bodies → (∃ loc m, (loc, m) ∈ g₁.slots ∧ m.id = id ∧
      m.attempts = a) → ∃ loc m, (loc, m) ∈ g₂.slots ∧ m.id = id ∧ m.attempts = a := by
    rintro g₁ g₂ heq ⟨loc, m, hm, rfl, rfl⟩
    have hb : m.body ∈ g₁.bodies := Multiset.mem_map_of_mem (fun x => x.2.body) hm
    rw [heq] at hb
    obtain ⟨⟨loc', m'⟩, hm', hb⟩ := Multiset.mem_map.mp hb
    refine ⟨loc', m', hm', ?_, ?_⟩
    · simpa using congrArg Message.id hb
    · simpa using congrArg Message.attempts hb
  exact ⟨hmem h.bodies, hmem h.bodies.symm⟩

theorem Serves.processing {batch : List Message} (h : Serves g g' batch) (hw : g.Wf) {id : Bytes}
    {a : Int}
    (hp : g'.phase id = some (.processing, a)) :
    id ∈ batch.map Message.id ∨ g.phase id = some (.processing, a) := by
  obtain ⟨m, hm, rfl, rfl⟩ := (phase_eq_some h.wf.distinct).mp hp
  rcases h.leased m (mem_inFlight.mpr hm) with hb | hf
  · exact .inl hb
  · obtain ⟨m', hm', hid⟩ := Multiset.mem_map.mp hf
    have hp' := phase_of_mem hw.distinct (mem_inFlight.mp hm')
    have hattempts := h.attempts hw m.id
    rw [hid] at hp'
    rw [hp, hp'] at hattempts
    exact .inr (hp'.trans (by simpa using hattempts.symm))

end Group

namespace Queue

abbrev running (key : Bytes) (cfg : GroupConfig) (g : Group) : Prop := g.Running key cfg

theorem running_publishes : Publishes running where
  wf h := h.toWf
  cfg_eq h := h.cfg_eq
  rate_ok h := h.rate_ok
  new h := by
    obtain ⟨hcfg, hslots, -, hw⟩ := Group.newGroup_ok h
    exact ⟨hw, hcfg, Group.newGroup_total.mp ⟨_, h⟩, by simp [hslots]⟩
  enqueue := by
    intro key cfg g m h hid _ hkey
    refine ⟨Group.enqueue_wf h.toWf hid, h.cfg_eq, h.rate_ok, ?_⟩
    intro x hx
    rw [Group.enqueue, Group.slots_appendReady g m h.readyHead_le, Multiset.mem_cons] at hx
    rcases hx with rfl | hx
    · exact hkey
    · exact h.groupKeys x hx

theorem leasedMessage_isSome {q : Queue} {key id : Bytes} (h : (q.leasedMessage key id).isSome) :
    ∃ g m, q.groups.lookup key = some g ∧ g.processing.get? id = some m := by
  rw [leasedMessage] at h
  cases hl : q.groups.lookup key with
  | none => simp [hl] at h
  | some g =>
    cases hp : g.processing.get? id with
    | none => simp [hl, hp] at h
    | some m => exact ⟨g, m, rfl, hp⟩

variable [PathMatch] {q q' : Queue} {key id : Bytes} {ord : RangeOrder} {now : Int}

structure Served (q q' : Queue) (key : Bytes) (batch : List Message) : Prop where
  cfgIdx : q'.cfgIdx = q.cfgIdx
  all : q'.All running
  groupKeys : ∀ m ∈ batch, m.groupKey = key
  attempts : ∀ k i, (q'.phase k i).map Prod.snd = (q.phase k i).map Prod.snd
  processing : ∀ k i a, q'.phase k i = some (.processing, a) →
    k = key ∧ i ∈ batch.map Message.id ∨ q.phase k i = some (.processing, a)

theorem Served.phase_none {batch : List Message} (h : Served q q' key batch) {k i : Bytes}
    (hp : q.phase k i = none) : q'.phase k i = none := by
  have ha := h.attempts k i
  rw [hp] at ha
  exact Option.map_eq_none_iff.mp ha

theorem Served.same (hr : q.All running) : Served q q key [] :=
  ⟨rfl, hr, by simp, fun _ _ => rfl, fun _ _ _ h => .inr h⟩

theorem Served.ofGroup (hr : q.All running) {g g' : Group} {batch : List Message}
    (hl : q.groups.lookup key = some g) (h : Group.Serves g g' batch) :
    Served q (q.setGroup key g') key batch := by
  have hg := hr key g hl
  obtain ⟨hg', hkeys⟩ := hg.serve h
  refine ⟨rfl, hr.insert rfl rfl hg', hkeys, ?_, ?_⟩
  · intro k i
    rw [phase_setGroup]
    split
    · rename_i hk
      rw [hk, phase_some hl]
      exact h.attempts hg.toWf i
    · rfl
  · intro k i a
    rw [phase_setGroup]
    split
    · rename_i hk
      intro hp
      rw [hk, phase_some hl]
      exact (h.processing hg.toWf hp).imp (fun hi => ⟨rfl, hi⟩) id
    · exact .inr

theorem tryDispatchOne_served {msg : Option Message} (hr : q.All running)
    (h : q.tryDispatchOne key ord now = .ok (q', msg)) : Served q q' key msg.toList := by
  obtain ⟨-, rfl, rfl⟩ | ⟨g, g', hl, hn, rfl⟩ := tryDispatchOne_ok h
  · exact .same hr
  · exact .ofGroup hr hl (Group.promote_next_serves (hr key g hl).toWf hn)

theorem drainGroup_served {r : DrainResult} (hr : q.All running)
    (h : q.drainGroup key ord now = .ok (q', r)) : Served q q' key (r.ready.getD []) := by
  obtain ⟨-, rfl, rfl⟩ | ⟨g, g', hl, hd, rfl⟩ := drainGroup_ok h
  · exact .same hr
  · exact .ofGroup hr hl (Group.drainRound_serves (hr key g hl).toWf hd)

theorem completeAndNext_settles {msg : Option Message} (hr : q.All running)
    (hm : (q.leasedMessage key id).isSome) (h : q.completeAndNext key id ord now = .ok (q', msg)) :
    ∃ q₁ a, q.phase key id = some (.processing, a) ∧ Effect running q q₁ key id none ∧
      Served q₁ q' key msg.toList := by
  obtain ⟨g, m, hl, hp⟩ := leasedMessage_isSome hm
  have hg := hr key g hl
  simp only [completeAndNext, hl] at h
  obtain ⟨⟨g', next⟩, hn, hret⟩ := bind_ok.mp h
  cases hret
  rcases Group.complete_spec hg.toWf id with ⟨hnone, -⟩ | ⟨m, rfl, hrel, -⟩
  · rw [hp] at hnone
    cases hnone
  · have hg₁ := hg.release hrel (by simp)
    have heff : Effect running q (q.setGroup key (g.complete m.id).1) key m.id none := by
      refine .ofGroup hr rfl rfl hg₁ ?_
      intro i
      rw [phase_some hl]
      exact hrel.phase hg.toWf (by simp) i
    refine ⟨_, m.attempts, (phase_some hl _).trans (hrel.phase_old hg.toWf), heff, ?_⟩
    have hserved :=
      Served.ofGroup heff.all (lookup_setGroup q key _) (Group.promote_next_serves hg₁.toWf hn)
    rw [setGroup, setGroup, AList.insert_insert] at hserved
    exact hserved

theorem failAndNext_settles {err : Bytes} {r : Option (Bytes × Message) × Option Message}
    (hr : q.All running)
    (hm : (q.leasedMessage key id).isSome) (h : q.failAndNext key id err ord now = .ok (q', r)) :
    ∃ q₁ a, q.phase key id = some (.processing, a) ∧
      Effect running q q₁ key id (if a + 1 < q.maxAttempts key then some (.delayed, a + 1)
        else none) ∧ Served q₁ q' key r.2.toList := by
  obtain ⟨g, m, hl, hp⟩ := leasedMessage_isSome hm
  have hg := hr key g hl
  have hmax : q.maxAttempts key = g.cfg.retry.maxAttempts := by rw [maxAttempts, hg.cfg_eq]
  simp only [failAndNext, hl] at h
  obtain ⟨⟨g₁, dlq⟩, hf, h⟩ := bind_ok.mp h
  obtain ⟨⟨g', next⟩, hn, hret⟩ := bind_ok.mp h
  cases hret
  rw [hmax]
  rcases Group.fail_releases hg.toWf hf with ⟨hnone, -⟩ | ⟨m, kept, rfl, hrel, hkept, hphase⟩
  · rw [hp] at hnone
    cases hnone
  · have hg₁ := hg.release hrel fun x hx => (hkept x hx).2.2.1
    have heff : Effect running q (q.setGroup key g₁) key m.id
        (if m.attempts + 1 < g.cfg.retry.maxAttempts then some (.delayed, m.attempts + 1)
          else none) := by
      refine .ofGroup hr rfl rfl hg₁ ?_
      intro i
      rw [phase_some hl, ← hphase]
      exact hrel.phase hg.toWf (fun x hx => (hkept x hx).2.1) i
    refine ⟨_, m.attempts, (phase_some hl _).trans (hrel.phase_old hg.toWf), heff, ?_⟩
    have hserved :=
      Served.ofGroup heff.all (lookup_setGroup q key _) (Group.promote_next_serves hg₁.toWf hn)
    rw [setGroup, setGroup, AList.insert_insert] at hserved
    exact hserved

end Queue

end Octar
