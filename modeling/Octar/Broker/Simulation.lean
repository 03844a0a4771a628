import Octar.Broker.LoggedRun
import Octar.Broker.Unacked
import Mathlib.Data.List.Induction

namespace Octar

open Go

def LiveOp.settles : LiveOp → Option (Bytes × Bytes × EventType)
  | .completeAndNext groupKey msgID _ _ => some (groupKey, msgID, .ack)
  | .failAndNext groupKey msgID _ _ _ => some (groupKey, msgID, .nack)
  | _ => none

def SettledOnce (ops : List LiveOp) : Prop :=
  ops.Pairwise fun a b => ∀ key id t, a.settles = some (key, id, .nack) →
    b.settles ≠ some (key, id, t)

inductive Status
  | fresh | failed | diverged
  deriving DecidableEq

def Status.settle : Status → EventType → Status
  | .fresh, .nack => .failed
  | .fresh, _ => .fresh
  | .failed, _ => .diverged
  | .diverged, _ => .diverged

theorem Status.settle_ne_diverged {s : Status} {t : EventType} :
    s.settle t ≠ .diverged ↔ s = .fresh := by
  cases s with
  | fresh => cases t <;> simp [Status.settle]
  | failed | diverged => simp [Status.settle]

def statusAfter (key id : Bytes) (s : Status) (op : LiveOp) : Status :=
  match op.settles with
  | some (k, i, t) => if k = key ∧ i = id then s.settle t else s
  | none => s

def statusOf (key id : Bytes) (ops : List LiveOp) : Status := ops.foldl (statusAfter key id) .fresh

theorem statusAfter_some {key id k i : Bytes} {t : EventType} {s : Status} {op : LiveOp}
    (h : op.settles = some (k, i, t)) :
    statusAfter key id s op = if k = key ∧ i = id then s.settle t else s := by
  rw [statusAfter, h]

theorem statusAfter_none {key id : Bytes} {s : Status} {op : LiveOp} (h : op.settles = none) :
    statusAfter key id s op = s := by
  rw [statusAfter, h]

theorem statusOf_append (key id : Bytes) (ops : List LiveOp) (op : LiveOp) :
    statusOf key id (ops ++ [op]) = statusAfter key id (statusOf key id ops) op := by
  simp [statusOf]

theorem statusOf_eq_fresh {key id : Bytes} {ops : List LiveOp} :
    statusOf key id ops = .fresh ↔ ∀ op ∈ ops, op.settles ≠ some (key, id, .nack) := by
  induction ops using List.reverseRecOn with
  | nil => simp [statusOf]
  | append_singleton ops op ih =>
    simp only [statusOf_append, List.mem_append, List.mem_singleton, or_imp, forall_and, forall_eq,
      ← ih]
    cases hs : op.settles with
    | none => simp [statusAfter_none hs]
    | some x =>
      obtain ⟨k, i, t⟩ := x
      rw [statusAfter_some hs]
      by_cases hk : k = key ∧ i = id
      · obtain ⟨rfl, rfl⟩ := hk
        cases statusOf k i ops <;> cases t <;> simp [Status.settle]
      · simp only [hk, if_false, ne_eq, Option.some.injEq, Prod.mk.injEq, not_and]
        tauto

theorem settledOnce_iff {ops : List LiveOp} :
    SettledOnce ops ↔ ∀ key id, statusOf key id ops ≠ .diverged := by
  induction ops using List.reverseRecOn with
  | nil => simp [SettledOnce, statusOf]
  | append_singleton ops op ih =>
    rw [SettledOnce, List.pairwise_append, ← SettledOnce, ih]
    simp only [List.pairwise_singleton, List.mem_singleton, forall_eq, true_and, statusOf_append]
    cases hs : op.settles with
    | none => simp [statusAfter_none hs]
    | some x =>
      obtain ⟨k, i, t⟩ := x
      simp only [statusAfter_some hs]
      have hfresh : (∀ a ∈ ops, ∀ key id t', a.settles = some (key, id, .nack) →
          some (k, i, t) ≠ some (key, id, t')) ↔ statusOf k i ops = .fresh := by
        rw [statusOf_eq_fresh]
        constructor
        · intro h a ha hn
          exact h a ha k i t hn rfl
        · intro h a ha key id t' hn heq
          cases heq
          exact h a ha hn
      rw [hfresh]
      constructor
      · rintro ⟨hnd, hf⟩ key id
        split
        · rename_i hk
          obtain ⟨rfl, rfl⟩ := hk
          exact Status.settle_ne_diverged.mpr hf
        · exact hnd key id
      · intro h
        have hki := h k i
        rw [if_pos ⟨rfl, rfl⟩, Status.settle_ne_diverged] at hki
        refine ⟨?_, hki⟩
        intro key id
        by_cases hk : k = key ∧ i = id
        · obtain ⟨rfl, rfl⟩ := hk
          simp [hki]
        · have hother := h key id
          rwa [if_neg hk] at hother

inductive Joint : Status → Option (Loc × Int) → Option (Loc × Int) → Prop
  | absent {s : Status} (h : s ≠ .diverged) : Joint s none none
  | fresh {loc loc' : Loc} (h : loc = .processing → loc' = .processing)
    (h' : loc' = .ready ∨ loc' = .processing) : Joint .fresh (some (loc, 0)) (some (loc', 0))
  | failed {loc : Loc} : Joint .failed (some (loc, 1)) (some (.delayed, 1))
  | resurrected : Joint .diverged none (some (.delayed, 1))
  | behind {loc : Loc} {a : Int} (h : 2 ≤ a) : Joint .diverged (some (loc, a)) (some (.delayed, 1))

theorem replayPhases_leases {n : Int} {c : Nat} {loc : Loc} {a : Int}
    (h : loc = .ready ∨ loc = .processing) :
    replayPhases n (some (loc, a)) (List.replicate c .lease) =
      some (if 0 < c then .processing else loc, a) := by
  induction c generalizing loc with
  | zero => rfl
  | succ c ih =>
    rw [List.replicate_succ, replayPhases_cons]
    rcases h with rfl | rfl
    · simpa [replayPhase] using ih (.inr rfl)
    · simpa [replayPhase] using ih (.inr rfl)

theorem attempts_eq {p : Option (Loc × Int)} {loc : Loc} {a : Int}
    (h : p.map Prod.snd = (some (loc, a)).map Prod.snd) : ∃ loc', p = some (loc', a) := by
  obtain ⟨⟨loc', a'⟩, rfl, rfl⟩ := Option.map_eq_some_iff.mp h
  exact ⟨loc', rfl⟩

namespace Joint

theorem of_fresh_none {p' : Option (Loc × Int)} (h : Joint .fresh none p') : p' = none := by
  cases h
  rfl

theorem agree_iff {s : Status} {p p' : Option (Loc × Int)} (h : Joint s p p') :
    p'.map Prod.snd = p.map Prod.snd ↔ s ≠ .diverged := by
  cases h with
  | absent h => simp [h]
  | fresh => simp
  | failed => simp
  | resurrected => simp
  | behind h => simpa using (by omega : ¬ (1 : Int) = _)

theorem lease {s : Status} {p p₁ p' : Option (Loc × Int)} {n : Int} {c : Nat} (h : Joint s p p')
    (hattempts : p₁.map Prod.snd = p.map Prod.snd)
    (hproc : ∀ a, p₁ = some (.processing, a) → 0 < c ∨ p = some (.processing, a)) :
    Joint s p₁ (replayPhases n p' (List.replicate c .lease)) := by
  cases h with
  | absent h =>
    rw [replayPhases_none (by simp)]
    cases p₁ with
    | none => exact .absent h
    | some x => simp at hattempts
  | @fresh loc loc' h h' =>
    obtain ⟨loc₁, rfl⟩ := attempts_eq hattempts
    rw [replayPhases_leases h']
    split
    · exact .fresh (fun _ => rfl) (.inr rfl)
    · rename_i hc
      refine .fresh ?_ h'
      rintro rfl
      rcases hproc 0 rfl with hc' | hp
      · exact absurd hc' hc
      · cases hp
        exact h rfl
  | failed =>
    obtain ⟨loc₁, rfl⟩ := attempts_eq hattempts
    rw [replayPhases_delayed (by simp)]
    exact .failed
  | resurrected =>
    rw [replayPhases_delayed (by simp)]
    cases p₁ with
    | none => exact .resurrected
    | some x => simp at hattempts
  | behind h =>
    obtain ⟨loc₁, rfl⟩ := attempts_eq hattempts
    rw [replayPhases_delayed (by simp)]
    exact .behind h

theorem ack {s : Status} {a n : Int} {p' : Option (Loc × Int)}
    (h : Joint s (some (.processing, a)) p') :
    Joint (s.settle .ack) none (replayPhase n .ack p') := by
  cases h with
  | fresh h h' =>
    rw [h rfl]
    exact .absent (by decide)
  | failed => exact .resurrected
  | behind h => exact .resurrected

theorem nack {s : Status} {a n : Int} {p' : Option (Loc × Int)}
    (h : Joint s (some (.processing, a)) p') :
    Joint (s.settle .nack) (if a + 1 < n then some (.delayed, a + 1)
      else none) (replayPhase n .nack p') := by
  cases h with
  | fresh h h' =>
    rw [h rfl, replayPhase]
    split
    · exact .failed
    · exact .absent (by decide)
  | failed =>
    split
    · exact .behind (by decide)
    · exact .resurrected
  | behind h =>
    split
    · exact .behind (by omega)
    · exact .resurrected

end Joint

theorem recordsOf_leases {q : Queue} {key : Bytes} {events : List (Event × Int)}
    {msgs : List Message} (h : events.map Prod.fst = q.leaseEvents msgs)
    (hkeys : ∀ m ∈ msgs, m.groupKey = key) (k i : Bytes) :
    ∃ c, recordsOf k i events = List.replicate c .lease ∧
    (k = key ∧ i ∈ msgs.map Message.id → 0 < c) := by
  have hmem : ∀ e ∈ events, ∃ m ∈ msgs, e.1 = q.event .lease m.groupKey m.id [] := by
    intro e he
    have he' := List.mem_map_of_mem (f := Prod.fst) he
    rw [h] at he'
    obtain ⟨m, hm, heq⟩ := List.mem_map.mp he'
    exact ⟨m, hm, heq.symm⟩
  refine ⟨(recordsOf k i events).length, ?_, ?_⟩
  · apply List.eq_replicate_iff.mpr ⟨rfl, ?_⟩
    intro t ht
    obtain ⟨e, he, hsome⟩ := List.mem_filterMap.mp ht
    obtain ⟨m, -, heq⟩ := hmem e he
    split at hsome
    · rw [heq] at hsome
      exact (Option.some.inj hsome).symm
    · cases hsome
  · rintro ⟨rfl, hi⟩
    obtain ⟨m, hm, rfl⟩ := List.mem_map.mp hi
    have he : q.event .lease m.groupKey m.id [] ∈ events.map Prod.fst := h ▸ List.mem_map_of_mem hm
    obtain ⟨e, he, heq⟩ := List.mem_map.mp he
    apply List.length_pos_of_mem (a := EventType.lease)
    apply List.mem_filterMap.mpr
    refine ⟨e, he, ?_⟩
    rw [heq]
    simp [Queue.event, hkeys m hm]

section Steps

variable [PathMatch] {q q₁ q' : Queue} {key id : Bytes} {st : Bytes → Bytes → Status}

structure Simulates (st : Bytes → Bytes → Status) (q q' : Queue) : Prop where
  cfgIdx : q'.cfgIdx = q.cfgIdx
  live : q.All Queue.running
  replay : q'.Restoring
  joint : ∀ key id, Joint (st key id) (q.phase key id) (q'.phase key id)

theorem replay_nonpublish {events : List (Event × Int)} (hr : q.Restoring)
    (h : ∀ e ∈ events, e.1.type ≠ .publish) :
    ∃ q', replayEvents q events = .ok q' ∧ q'.cfgIdx = q.cfgIdx ∧ q'.Restoring ∧
      ∀ key id, q'.phase key id =
        replayPhases (q.maxAttempts key) (q.phase key id) (recordsOf key id events) := by
  have honce : PublishedOnce events :=
    List.Pairwise.imp_of_mem (fun _ hb _ ht => absurd ht (h _ hb))
      (List.pairwise_of_forall fun _ _ => trivial)
  obtain ⟨hspec, htotal⟩ := replay_spec hr (fun e he ht => absurd ht (h e he)) honce
    (fun e he ht => absurd ht (h e he))
  obtain ⟨q', hq'⟩ := htotal.mpr fun e he ht => absurd ht (h e he)
  exact ⟨q', hq', hspec q' hq'⟩

theorem Simulates.serve {batch : List Message} {events : List (Event × Int)} {lq : Queue}
    (h : Simulates st q q') (hs : Queue.Served q q₁ key batch)
    (hlog : events.map Prod.fst = lq.leaseEvents batch) :
    ∃ q₁', replayEvents q' events = .ok q₁' ∧ Simulates st q₁ q₁' := by
  have htypes : ∀ e ∈ events, e.1.type ≠ .publish := by
    intro e he
    have he' := List.mem_map_of_mem (f := Prod.fst) he
    rw [hlog] at he'
    obtain ⟨m, -, heq⟩ := List.mem_map.mp he'
    simp [← heq, Queue.event]
  obtain ⟨q₁', hq₁', hcfg, hrest, hphase⟩ := replay_nonpublish h.replay htypes
  refine ⟨q₁', hq₁', hcfg.trans (h.cfgIdx.trans hs.cfgIdx.symm), hs.all, hrest, ?_⟩
  intro k i
  obtain ⟨c, hc, hpos⟩ := recordsOf_leases hlog hs.groupKeys k i
  rw [hphase, hc]
  exact (h.joint k i).lease (hs.attempts k i) fun a hp => (hs.processing k i a hp).imp hpos id

theorem Simulates.effect {st' : Bytes → Bytes → Status} {q₁' : Queue} {p p' : Option (Loc × Int)}
    (h : Simulates st q q') (hl : Queue.Effect Queue.running q q₁ key id p)
    (hr : Queue.Effect Queue.restored q' q₁' key id p') (hj : Joint (st' key id) p p')
    (hst : ∀ k i, ¬ (k = key ∧ i = id) → st' k i = st k i) : Simulates st' q₁ q₁' := by
  refine ⟨hr.cfgIdx.trans (h.cfgIdx.trans hl.cfgIdx.symm), hl.all, hr.all, ?_⟩
  intro k i
  rw [hl.phase, hr.phase]
  by_cases hk : k = key ∧ i = id
  · rw [if_pos hk, if_pos hk, hk.1, hk.2]
    exact hj
  · rw [if_neg hk, if_neg hk, hst k i hk]
    exact h.joint k i

theorem Simulates.settle {ops : List LiveOp} {op : LiveOp} {t : EventType} {a : Int}
    {p : Option (Loc × Int)}
    {q₂ lq : Queue} {batch : List Message} {e : Event × Int} {events : List (Event × Int)}
    (h : Simulates (fun key id => statusOf key id ops) q q') (hop : op.settles = some (key, id, t))
    (he : e.1 = lq.event t key id []) (hlog : events.map Prod.fst = lq.leaseEvents batch)
    (ht : t ≠ .publish) (hp : q.phase key id = some (.processing, a))
    (hl : Queue.Effect Queue.running q q₁ key id p) (hs : Queue.Served q₁ q₂ key batch)
    (hjoint : ∀ {s p'}, Joint s (some (.processing, a)) p' →
      Joint (s.settle t) p (replayPhase (q.maxAttempts key) t p')) :
    ∃ q₂', replayEvents q' (e :: events) = .ok q₂' ∧
      Simulates (fun key id => statusOf key id (ops ++ [op])) q₂ q₂' := by
  have htype : e.1.type = t := by rw [he]; rfl
  have hgroup : e.1.group = key := by rw [he]; rfl
  have hid : e.1.msgID = id := by rw [he]; rfl
  obtain ⟨heff, htotal⟩ := Queue.dispatch_effect h.replay e.1 e.2 (fun h => absurd (htype ▸ h) ht)
    (fun h => absurd (htype ▸ h) ht)
  obtain ⟨q₁', hq₁'⟩ := htotal.mpr fun h => absurd (htype ▸ h) ht
  have hr := heff q₁' hq₁'
  rw [htype, hgroup, hid] at hr
  have hmax : q'.maxAttempts key = q.maxAttempts key := by
    rw [Queue.maxAttempts, Queue.resolveConfig_congr h.cfgIdx]
    rfl
  have hmid : Simulates (fun key id => statusOf key id (ops ++ [op])) q₁ q₁' := by
    apply h.effect hl hr
    · rw [statusOf_append, statusAfter_some hop, if_pos ⟨rfl, rfl⟩, hmax]
      exact hjoint (hp ▸ h.joint key id)
    · intro k i hk
      rw [statusOf_append, statusAfter_some hop, if_neg fun h => hk ⟨h.1.symm, h.2.symm⟩]
  obtain ⟨q₂', hq₂', hsim⟩ := hmid.serve hs hlog
  exact ⟨q₂', Run.run_cons_ok.mpr ⟨q₁', hq₁', hq₂'⟩, hsim⟩

theorem Simulates.publish {ops : List LiveOp} {op : LiveOp} {payload : Bytes} {now : Int}
    {lq : Queue} {r : Except QueueError Message} {events : List (Event × Int)}
    (h : Simulates (fun key id => statusOf key id ops) q q') (hop : op.settles = none)
    (hfresh : q.phase key id = none) (hstatus : statusOf key id ops = .fresh)
    (hdepth : (q.resolveConfig key).maxPending ≤ 0)
    (hq₁ : q.publishWithID key id payload now = .ok (q₁, r))
    (hlog : events.map Prod.fst = (Reply.published r).accepted.map fun m =>
      lq.event .publish key m.id payload) :
    ∃ q₁', replayEvents q' events = .ok q₁' ∧
      Simulates (fun key id => statusOf key id (ops ++ [op])) q₁ q₁' := by
  obtain ⟨hspec, htotal⟩ :=
    Queue.publishWithID_effect Queue.running_publishes h.live payload now hdepth hfresh
  obtain ⟨rfl, hl⟩ := hspec q₁ r hq₁
  have hresolve := Queue.resolveConfig_congr h.cfgIdx key
  have hfresh' : q'.phase key id = none := by
    have hj := h.joint key id
    rw [hfresh, hstatus] at hj
    exact hj.of_fresh_none
  obtain ⟨e, rfl, he⟩ := List.map_eq_singleton_iff.mp hlog
  obtain ⟨heff, htot⟩ := Queue.dispatch_effect h.replay e.1 e.2
    (fun _ => by rw [he]; exact hresolve ▸ hdepth) (fun _ => by rw [he]; exact hfresh')
  obtain ⟨q₁', hq₁'⟩ := htot.mpr fun _ => by
    rw [he]
    exact hresolve ▸ htotal.mp ⟨_, hq₁⟩
  have hr := heff q₁' hq₁'
  rw [he] at hr
  refine ⟨q₁', Run.run_cons_ok.mpr ⟨q₁', hq₁', rfl⟩, ?_⟩
  apply h.effect hl hr
  · rw [statusOf_append, statusAfter_none hop, hstatus]
    exact .fresh (fun h => nomatch h) (.inl rfl)
  · intro k i _
    rw [statusOf_append, statusAfter_none hop]

end Steps

section Run

variable [PathMatch] {q₀ q q₁ q' : Queue} {ops : List LiveOp} {op : LiveOp}

structure Follows (q₀ : Queue) (ops : List LiveOp) (q q' : Queue) : Prop where
  cfgIdx : q.cfgIdx = q₀.cfgIdx
  sim : Simulates (fun key id => statusOf key id ops) q q'
  unborn : ∀ id ∉ ops.filterMap LiveOp.publishID, ∀ key, q.phase key id = none ∧
    statusOf key id ops = .fresh

theorem Follows.start (hempty : q₀.groups = ∅) : Follows q₀ [] q₀ q₀ := by
  refine ⟨rfl, ⟨rfl, .ofEmpty hempty, .ofEmpty hempty, ?_⟩, ?_⟩
  · intro key id
    rw [phase_of_empty hempty]
    exact .absent (fun h => nomatch h)
  · intro id _ key
    exact ⟨phase_of_empty hempty key id, rfl⟩

theorem Follows.published (h : Follows q₀ ops q q') {key id : Bytes} {p : Loc × Int}
    (hp : q.phase key id = some p) : id ∈ ops.filterMap LiveOp.publishID := by
  by_contra hid
  rw [(h.unborn id hid key).1] at hp
  cases hp

theorem Follows.serve {events : List (Event × Int)} {key : Bytes} {batch : List Message}
    (h : Follows q₀ ops q q') (hop : op.settles = none) (hid : op.publishID = none)
    (hs : Queue.Served q q₁ key batch) (hlog : events.map Prod.fst = q.leaseEvents batch) :
    ∃ q₁', replayEvents q' events = .ok q₁' ∧ Follows q₀ (ops ++ [op]) q₁ q₁' := by
  have hstatus : ∀ key id, statusOf key id (ops ++ [op]) = statusOf key id ops := by
    intro key id
    rw [statusOf_append, statusAfter_none hop]
  obtain ⟨q₁', hq₁', hsim⟩ := h.sim.serve hs hlog
  refine ⟨q₁', hq₁', hs.cfgIdx.trans h.cfgIdx, ?_, ?_⟩
  · simpa only [hstatus] using hsim
  · intro i hi k
    have hold := h.unborn i (by simpa [hid] using hi) k
    exact ⟨hs.phase_none hold.1, (hstatus k i).trans hold.2⟩

theorem Follows.settle {events : List (Event × Int)} {key id : Bytes} {t : EventType} {a : Int}
    {p : Option (Loc × Int)} {batch : List Message} {q₂ : Queue} (h : Follows q₀ ops q q')
    (hop : op.settles = some (key, id, t)) (hid : op.publishID = none) (ht : t ≠ .publish)
    (hlog : events.map Prod.fst = q.event t key id [] :: q.leaseEvents batch)
    (hp : q.phase key id = some (.processing, a))
    (hl : Queue.Effect Queue.running q q₁ key id p) (hs : Queue.Served q₁ q₂ key batch)
    (hjoint : ∀ {s p'}, Joint s (some (.processing, a)) p' →
      Joint (s.settle t) p (replayPhase (q.maxAttempts key) t p')) :
    ∃ q₂', replayEvents q' events = .ok q₂' ∧ Follows q₀ (ops ++ [op]) q₂ q₂' := by
  obtain ⟨e, events, rfl, he, htail⟩ := List.map_eq_cons_iff.mp hlog
  obtain ⟨q₂', hq₂', hsim⟩ := h.sim.settle hop he htail ht hp hl hs hjoint
  refine ⟨q₂', hq₂', hs.cfgIdx.trans (hl.cfgIdx.trans h.cfgIdx), hsim, ?_⟩
  intro i hi k
  have hold : i ∉ ops.filterMap LiveOp.publishID := by simpa [hid] using hi
  have hne : ¬ (k = key ∧ i = id) := fun hk => hold (hk.2 ▸ h.published hp)
  refine ⟨hs.phase_none ?_, ?_⟩
  · rw [hl.phase, if_neg hne]
    exact (h.unborn i hold k).1
  · rw [statusOf_append, statusAfter_some hop, if_neg fun hk => hne ⟨hk.1.symm, hk.2.symm⟩]
    exact (h.unborn i hold k).2

theorem Follows.publish {events : List (Event × Int)} {key id payload : Bytes} {now : Int}
    {r : Except QueueError Message} (h : Follows q₀ ops q q') (hop : op.settles = none)
    (hid : op.publishID = some id) (hnew : id ∉ ops.filterMap LiveOp.publishID)
    (hdepth : (q.resolveConfig key).maxPending ≤ 0)
    (hq₁ : q.publishWithID key id payload now = .ok (q₁, r))
    (hlog : events.map Prod.fst =
      (Reply.published r).accepted.map fun m => q.event .publish key m.id payload) :
    ∃ q₁', replayEvents q' events = .ok q₁' ∧ Follows q₀ (ops ++ [op]) q₁ q₁' := by
  obtain ⟨hfresh, hstatus⟩ := h.unborn id hnew key
  obtain ⟨q₁', hq₁', hsim⟩ := h.sim.publish hop hfresh hstatus hdepth hq₁ hlog
  obtain ⟨-, hl⟩ := (Queue.publishWithID_effect Queue.running_publishes h.sim.live payload now
    hdepth hfresh).1 q₁ r hq₁
  refine ⟨q₁', hq₁', hl.cfgIdx.trans h.cfgIdx, hsim, ?_⟩
  intro i hi k
  rw [List.filterMap_append, List.mem_append, not_or] at hi
  have hne : i ≠ id := fun hk => hi.2 (by simp [hid, hk])
  rw [hl.phase, if_neg fun hk => hne hk.2, statusOf_append, statusAfter_none hop]
  exact h.unborn i hi.1 k

theorem Follows.step {events : List (Event × Int)} {r : Reply} (h : Follows q₀ ops q q')
    (hadm : q.Admits op)
    (hexec : q.exec op = .ok (q₁, r))
    (hdepth : ∀ key, op.publishKey = some key → (q.resolveConfig key).maxPending ≤ 0)
    (hnew : ∀ id, op.publishID = some id → id ∉ ops.filterMap LiveOp.publishID)
    (hlog : events.map Prod.fst = q.logOf r op) :
    ∃ q₁', replayEvents q' events = .ok q₁' ∧ Follows q₀ (ops ++ [op]) q₁ q₁' := by
  cases op with
  | publish key payload newID now =>
    obtain ⟨⟨q₁, r⟩, hq₁, hret⟩ := bind_ok.mp hexec
    cases hret
    exact h.publish rfl rfl (hnew _ rfl) (hdepth _ rfl) hq₁ hlog
  | publishWithID key id payload now =>
    obtain ⟨⟨q₁, r⟩, hq₁, hret⟩ := bind_ok.mp hexec
    cases hret
    exact h.publish rfl rfl (hnew _ rfl) (hdepth _ rfl) hq₁ hlog
  | tryDispatchOne key ord now =>
    obtain ⟨⟨q₁, msg⟩, hq₁, hret⟩ := bind_ok.mp hexec
    cases hret
    exact h.serve rfl rfl (Queue.tryDispatchOne_served h.sim.live hq₁) hlog
  | drainGroup key ord now =>
    obtain ⟨⟨q₁, r⟩, hq₁, hret⟩ := bind_ok.mp hexec
    cases hret
    exact h.serve rfl rfl (Queue.drainGroup_served h.sim.live hq₁) hlog
  | completeAndNext key id ord now =>
    obtain ⟨⟨q₂, msg⟩, hq₂, hret⟩ := bind_ok.mp hexec
    cases hret
    obtain ⟨q₁, a, hp, hl, hs⟩ := Queue.completeAndNext_settles h.sim.live hadm hq₂
    exact h.settle rfl rfl (fun h => nomatch h) hlog hp hl hs Joint.ack
  | failAndNext key id err ord now =>
    obtain ⟨⟨q₂, dlq, msg⟩, hq₂, hret⟩ := bind_ok.mp hexec
    cases hret
    obtain ⟨q₁, a, hp, hl, hs⟩ := Queue.failAndNext_settles h.sim.live hadm hq₂
    exact h.settle rfl rfl (fun h => nomatch h) hlog hp hl hs Joint.nack
  | complete | fail | returnToPending | sweepExpiredLeases | setGroupConfig | deleteGroupConfig =>
    exact hadm.elim

theorem LoggedRun.follows {log : List Event} (hrun : LoggedRun q₀ ops q log)
    (hempty : q₀.groups = ∅)
    (hdepth : ∀ op ∈ ops, ∀ key, op.publishKey = some key → (q₀.resolveConfig key).maxPending ≤ 0)
    (hids : (ops.filterMap LiveOp.publishID).Nodup) {events : List (Event × Int)}
    (hlog : events.map Prod.fst = log) :
    ∃ q', replayEvents q₀ events = .ok q' ∧ Follows q₀ ops q q' := by
  induction hrun generalizing events with
  | start =>
    rw [List.map_eq_nil_iff.mp hlog]
    exact ⟨q₀, rfl, .start hempty⟩
  | @step ops q log op q₁ r _ hadm hexec ih =>
    obtain ⟨events, new, rfl, hold, hnew⟩ := List.map_eq_append_iff.mp hlog
    rw [List.filterMap_append, List.nodup_append'] at hids
    obtain ⟨q', hq', hf⟩ := ih (fun op ho => hdepth op (List.mem_append_left _ ho)) hids.1 hold
    have hdepth' : ∀ key, op.publishKey = some key → (q.resolveConfig key).maxPending ≤ 0 := by
      intro key hkey
      rw [Queue.resolveConfig_congr hf.cfgIdx]
      exact hdepth op (by simp) key hkey
    have hfresh : ∀ id, op.publishID = some id → id ∉ ops.filterMap LiveOp.publishID :=
      fun id hid hmem => hids.2.2 hmem (by simp [hid])
    obtain ⟨q₁', hq₁', hf₁⟩ := hf.step hadm hexec hdepth' hfresh hnew
    exact ⟨q₁', Run.run_append_ok.mpr ⟨q', hq', hq₁'⟩, hf₁⟩

end Run

/-- The replay of a live run's log ends in a queue with the same messages and the same numbers of
attempts as the live one exactly if no message was settled again after a NACK. -/
theorem replay_simulates_live_iff [PathMatch] {q₀ q : Queue} {ops : List LiveOp} {log : List Event}
    {events : List (Event × Int)} (hempty : q₀.groups = ∅)
    (hdepth : ∀ op ∈ ops, ∀ key, op.publishKey = some key → (q₀.resolveConfig key).maxPending ≤ 0)
    (hids : (ops.filterMap LiveOp.publishID).Nodup) (hrun : LoggedRun q₀ ops q log)
    (hlog : events.map Prod.fst = log) :
    ∃ q', replayEvents q₀ events = .ok q' ∧
      ((∀ key id, (q'.phase key id).map Prod.snd = (q.phase key id).map Prod.snd) ↔
        SettledOnce ops) := by
  obtain ⟨q', hq', hf⟩ := hrun.follows hempty hdepth hids hlog
  refine ⟨q', hq', ?_⟩
  rw [settledOnce_iff]
  exact forall₂_congr fun key id => (hf.sim.joint key id).agree_iff

def retriedOps : List LiveOp :=
  [.publishWithID (str "g") (str "a") [] 0, .tryDispatchOne (str "g") .inOrder 0,
    .failAndNext (str "g") (str "a") [] .inOrder 0,
      .tryDispatchOne (str "g") .inOrder 1000000000000,
    .completeAndNext (str "g") (str "a") .inOrder 1000000000000]

def retriedLog : List Event :=
  [EventType.publish, .lease, .nack, .lease, .ack].map fun type => (record type).1

theorem loggedRun_retried :
    ∃ q q', @LoggedRun literalMatch unlimitedQueue (retriedOps.take 3) q (retriedLog.take 3) ∧
      @LoggedRun literalMatch unlimitedQueue retriedOps q' retriedLog ∧
      q.phase (str "g") (str "a") = some (.delayed, 1) ∧ q'.phase (str "g") (str "a") = none := by
  have h₁ :=
    @LoggedRun.step literalMatch unlimitedQueue _ _ _ (.publishWithID (str "g") (str "a") [] 0) _ _
    (@LoggedRun.start literalMatch _) trivial rfl
  have h₂ :=
    @LoggedRun.step literalMatch _ _ _ _ (.tryDispatchOne (str "g") .inOrder 0) _ _ h₁ trivial rfl
  have h₃ :=
    @LoggedRun.step literalMatch _ _ _ _
      (.failAndNext (str "g") (str "a") [] .inOrder 0) _ _ h₂ rfl rfl
  have h₄ :=
    @LoggedRun.step literalMatch _ _ _ _ (.tryDispatchOne (str "g") .inOrder 1000000000000) _ _ h₃
    trivial rfl
  have h₅ := @LoggedRun.step literalMatch _ _ _ _
    (.completeAndNext (str "g") (str "a") .inOrder 1000000000000) _ _ h₄ rfl rfl
  exact ⟨_, _, h₃, h₅, rfl, rfl⟩

theorem replay_simulates_live_sample :
    ∃ q q', @LoggedRun literalMatch unlimitedQueue (retriedOps.take 3) q (retriedLog.take 3) ∧
      q.phase (str "g") (str "a") = some (.delayed, 1) ∧
      @replayEvents literalMatch unlimitedQueue ((retriedLog.take 3).map fun e => (e, 0)) = .ok q' ∧
      ∀ key id, (q'.phase key id).map Prod.snd = (q.phase key id).map Prod.snd := by
  obtain ⟨q, -, hrun, -, hphase, -⟩ := loggedRun_retried
  have hdepth : ∀ op ∈ retriedOps.take 3, ∀ key, op.publishKey = some key →
      (@Queue.resolveConfig literalMatch unlimitedQueue key).maxPending ≤ 0 := by
    intro op hop key hkey
    simp only [retriedOps, List.take_succ_cons, List.take_zero, List.mem_cons, List.not_mem_nil,
      or_false] at hop
    rcases hop with rfl | rfl | rfl <;> cases hkey
    decide
  obtain ⟨q', hq', hiff⟩ := @replay_simulates_live_iff literalMatch unlimitedQueue q _ _
    ((retriedLog.take 3).map fun e => (e, 0)) rfl hdepth (by decide) hrun rfl
  exact ⟨q, q', hrun, hphase, hq', hiff.mpr (by simp [SettledOnce, retriedOps, LiveOp.settles])⟩

/-- A message that is completed on its second attempt comes back with the replay. -/
theorem replay_revives_completed :
    ∃ q q', @LoggedRun literalMatch unlimitedQueue retriedOps q retriedLog ∧
      @replayEvents literalMatch unlimitedQueue (retriedLog.map fun e => (e, 0)) = .ok q' ∧
      q.phase (str "g") (str "a") = none ∧ q'.phase (str "g") (str "a") = some (.delayed, 1) := by
  obtain ⟨-, q, -, hrun, -, hphase⟩ := loggedRun_retried
  exact ⟨q, _, hrun, rfl, hphase, rfl⟩

end Octar
