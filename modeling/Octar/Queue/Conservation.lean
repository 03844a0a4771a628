import Octar.Queue.LiveLaws

namespace Octar

open Go

namespace Queue

theorem exec_accepted [PathMatch] {q q' : Queue} {op : LiveOp} {r : Reply}
    (h : q.exec op = .ok (q', r)) :
    (r.accepted.map Message.id).Sublist op.publishID.toList := by
  have hpub : ∀ {q₁ : Queue} {key id payload : Bytes} {now : Int} {r₁ : Except QueueError Message},
      q.publishWithID key id payload now = .ok (q₁, r₁) →
        ((Reply.published r₁).accepted.map Message.id).Sublist [id] := by
    intro q₁ key id payload now r₁ hq
    obtain ⟨g, -, ⟨-, -, rfl, -⟩ | ⟨rfl, -⟩⟩ := publishWithID_ok hq
    · exact List.nil_sublist _
    · exact List.Sublist.refl _
  cases op with
  | publish key payload id now =>
    obtain ⟨⟨q₁, r₁⟩, hq, hr⟩ := bind_ok.mp h
    cases hr
    exact hpub hq
  | publishWithID key id payload now =>
    obtain ⟨⟨q₁, r₁⟩, hq, hr⟩ := bind_ok.mp h
    cases hr
    exact hpub hq
  | tryDispatchOne | drainGroup | completeAndNext | fail | failAndNext =>
    obtain ⟨⟨q₁, r₁⟩, hq, hr⟩ := bind_ok.mp h
    cases hr
    exact List.nil_sublist _
  | complete | returnToPending | sweepExpiredLeases | setGroupConfig | deleteGroupConfig =>
    cases h
    exact List.nil_sublist _

end Queue

namespace LiveRun

open Queue (inGroup inGroup_append)

structure Balanced (s : LiveRun) : Prop where
  sound : s.queue.Sound
  balance : ∀ key, s.queue.originsAt key + inGroup key (s.completed ++ s.exhausted) =
    inGroup key s.accepted
  distinct : (s.accepted.map Message.id).Nodup

theorem mem_inGroup {key : Bytes} {l : List Message} {m : Message} :
    m ∈ inGroup key l ↔ m ∈ l ∧ m.groupKey = key := by
  simp [inGroup]

theorem Balanced.mem_accepted {s : LiveRun} (h : s.Balanced) {key : Bytes} {m : Message}
    (hm : m ∈ s.queue.originsAt key) : m ∈ s.accepted ∧ m.groupKey = key := by
  apply mem_inGroup.mp
  rw [← h.balance key]
  exact Multiset.mem_add.mpr (.inl hm)

theorem Balanced.fresh {s : LiveRun} {op : LiveOp} (h : s.Balanced)
    (hids : (s.accepted.map Message.id ++ op.publishID.toList).Nodup) :
    ∀ id, op.publishID = some id → ∀ key, ∀ m ∈ s.queue.originsAt key, m.id ≠ id := by
  intro id hid key m hm heq
  refine List.disjoint_of_nodup_append hids (a := id) ?_ (by simp [hid])
  exact heq ▸ List.mem_map_of_mem (h.mem_accepted hm).1

theorem balanced_start (name ns : Bytes) : (start name ns).Balanced := by
  refine ⟨?_, fun _ => rfl, List.nodup_nil⟩
  intro key g hg
  cases hg

theorem Balanced.step [PathMatch] {s s' : LiveRun} {op : LiveOp} (h : s.Balanced)
    (hids : (s.accepted.map Message.id ++ op.publishID.toList).Nodup) (hstep : s.step op = .ok s') :
    s'.Balanced := by
  obtain ⟨⟨q, r⟩, hq, hr⟩ := bind_ok.mp hstep
  cases hr
  have hfresh := h.fresh hids
  have hacc := Queue.exec_accounts h.sound (fun key m hm => (h.mem_accepted hm).2) hfresh hq
  refine ⟨hacc.sound, ?_, ?_⟩
  · intro key
    have hk := hacc.origins key
    have hb := h.balance key
    simp only [inGroup_append] at hk hb ⊢
    rw [← hb]
    calc
      _ = q.originsAt key + (inGroup key (s.queue.completedBy op) + inGroup key
          (s.queue.exhaustedBy op)) + (inGroup key s.completed + inGroup key s.exhausted) := by abel
      _ = _ := by rw [hk]; abel
  · simp only [List.map_append, List.map_map]
    have hsub : (r.accepted.map Message.id).Sublist op.publishID.toList := Queue.exec_accepted hq
    exact hids.sublist (hsub.append_left _)

theorem Balanced.step_fresh [PathMatch] {s s' : LiveRun} {op : LiveOp} {l : List LiveOp}
    (h : s.Balanced)
    (hids : (s.accepted.map Message.id ++ (op :: l).filterMap LiveOp.publishID).Nodup)
    (hstep : s.step op = .ok s') :
    s'.Balanced ∧ (s'.accepted.map Message.id ++ l.filterMap LiveOp.publishID).Nodup := by
  have hsplit : (op :: l).filterMap LiveOp.publishID =
      op.publishID.toList ++ l.filterMap LiveOp.publishID := by
    cases hp : op.publishID <;> simp [hp]
  rw [hsplit, ← List.append_assoc] at hids
  refine ⟨h.step (hids.sublist (List.sublist_append_left _ _)) hstep, ?_⟩
  obtain ⟨⟨q, r⟩, hq, hr⟩ := bind_ok.mp hstep
  cases hr
  simp only [List.map_append, List.map_map]
  exact hids.sublist (((Queue.exec_accepted hq).append_left _).append_right _)

theorem runLive_balanced [PathMatch] {name ns : Bytes} {ops : List LiveOp} {s : LiveRun}
    (hids : (ops.filterMap LiveOp.publishID).Nodup) (h : runLive name ns ops = .ok s) :
    s.Balanced := by
  have hrun := Run.induct
    (motive := fun s l => s.Balanced ∧
      (s.accepted.map Message.id ++ l.filterMap LiveOp.publishID).Nodup)
    ?_ ⟨balanced_start name ns, hids⟩ h
  · exact hrun.1
  · intro s op l s' ⟨hb, hn⟩ hs
    exact hb.step_fresh hn hs

end LiveRun

theorem Group.Wf.origins_nodup {g : Group} (h : g.Wf) : g.origins.Nodup := by
  apply Multiset.Nodup.of_map Message.id
  rw [← Group.ids_eq_origins]
  exact h.distinct

/-- In every state a live queue reaches, a message that was accepted and neither completed nor
failed for good sits in exactly one container of its group, nothing else does, and the containers
keep the shape the operations rely on. -/
theorem live_run_conserves_messages [PathMatch] {name ns : Bytes} {ops : List LiveOp} {s : LiveRun}
    (hids : (ops.filterMap LiveOp.publishID).Nodup) (h : runLive name ns ops = .ok s) :
    (∀ m ∈ s.accepted, m ∉ s.completed → m ∉ s.exhausted →
      ∃ g, s.queue.groups.lookup m.groupKey = some g ∧
        (g.slots.filter fun x => m = x.2.origin).card = 1) ∧
    ∀ key g, s.queue.groups.lookup key = some g →
      (∀ x ∈ g.slots, x.2.groupKey = key ∧ x.2.origin ∈ s.accepted ∧ x.2.origin ∉ s.completed ∧
        x.2.origin ∉ s.exhausted) ∧
      g.ids.Nodup ∧ none ∉ g.liveUrgent ∧ none ∉ g.liveReady ∧
      (∀ id m, g.processing.get? id = some m → m.id = id) ∧
      g.pendingCount = g.waiting.card := by
  have hb := LiveRun.runLive_balanced hids h
  constructor
  · intro m hm hc he
    have hmem : m ∈ s.queue.originsAt m.groupKey := by
      have hacc : m ∈ Queue.inGroup m.groupKey s.accepted := LiveRun.mem_inGroup.mpr ⟨hm, rfl⟩
      rw [← hb.balance, Multiset.mem_add] at hacc
      rcases hacc with hacc | hgone
      · exact hacc
      · rcases List.mem_append.mp (LiveRun.mem_inGroup.mp hgone).1 with h | h
        · exact absurd h hc
        · exact absurd h he
    cases hl : s.queue.groups.lookup m.groupKey with
    | none => simp [Queue.originsAt_none hl] at hmem
    | some g =>
      rw [Queue.originsAt_some hl] at hmem
      refine ⟨g, rfl, ?_⟩
      rw [← Multiset.count_map, ← Group.origins_eq_slots]
      exact Multiset.count_eq_one_of_mem (hb.sound _ g hl).origins_nodup hmem
  · intro key g hl
    have hs := hb.sound key g hl
    refine ⟨?_, hs.distinct, hs.urgent_full, hs.ready_full, hs.keyed, hs.pendingCount_eq⟩
    intro x hx
    have hmem : x.2.origin ∈ s.queue.originsAt key := by
      rw [Queue.originsAt_some hl, Group.origins_eq_slots]
      exact Multiset.mem_map_of_mem _ hx
    obtain ⟨hacc, hkey⟩ := hb.mem_accepted hmem
    -- held and settled messages are disjoint parts of the accepted ones, which are distinct
    have hnodup : (Queue.inGroup key s.accepted).Nodup := (hb.distinct.of_map _).filter _
    rw [← hb.balance, Multiset.nodup_add] at hnodup
    have hgone : x.2.origin ∉ s.completed ++ s.exhausted := fun hg =>
      Multiset.disjoint_left.mp hnodup.2.2 hmem (LiveRun.mem_inGroup.mpr ⟨hg, hkey⟩)
    rw [List.mem_append, not_or] at hgone
    exact ⟨hkey, hacc, hgone⟩

def sampleOps : List LiveOp :=
  [.publishWithID (str "g") (str "a") (str "x") 0, .publish (str "g") (str "y") (str "b") 1,
    .drainGroup (str "g") .inOrder 2, .complete (str "g") (str "a"),
      .tryDispatchOne (str "g") .inOrder 3, .failAndNext (str "g") (str "b") [] .inOrder 4]

theorem live_run_conserves_messages_sample :
    ∃ s, @runLive literalMatch [] [] sampleOps = .ok s ∧
      s.accepted.length = 2 ∧ s.completed.length = 1 ∧
      ∀ m ∈ s.accepted, m ∉ s.completed → m ∉ s.exhausted →
        ∃ g, s.queue.groups.lookup m.groupKey = some g ∧
          (g.slots.filter fun x => m = x.2.origin).card = 1 :=
  ⟨_, rfl, rfl, rfl, (@live_run_conserves_messages literalMatch [] [] sampleOps _
    (by decide) rfl).1⟩

end Octar
