import Octar.Queue.Acts

namespace Octar

open Go

def publishedIDs (os : List (Bytes × Occurrence)) : List Bytes :=
  idsOfKind Occurrence.isPublished os

def handedIDs (os : List (Bytes × Occurrence)) : List Bytes := idsOfKind Occurrence.isHanded os

def settledIDs (os : List (Bytes × Occurrence)) : List Bytes := idsOfKind Occurrence.isSettled os

theorem eraseDups_append_singleton (l : List Bytes) (a : Bytes) :
    (l ++ [a]).eraseDups = if a ∈ l then l.eraseDups else l.eraseDups ++ [a] := by
  rw [List.eraseDups_append]
  by_cases h : a ∈ l <;> simp [List.removeAll, h, List.eraseDups_cons]

theorem eraseDups_eq_self {l : List Bytes} (h : l.Nodup) : l.eraseDups = l := by
  induction l with
  | nil => rfl
  | cons a l ih =>
    obtain ⟨ha, hl⟩ := List.nodup_cons.mp h
    have hfilter : l.filter (fun b => !b == a) = l := by
      apply List.filter_eq_self.mpr
      intro b hb
      have hne : b ≠ a := fun heq => ha (heq ▸ hb)
      simpa using hne
    rw [List.eraseDups_cons, hfilter, ih hl]

def firstOrder (handed ready : List Bytes) : List Bytes :=
  handed.eraseDups ++ ready.filter fun id => id ∉ handed

theorem firstOrder_again {handed : List Bytes} {id : Bytes} (h : id ∈ handed) (ready : List Bytes) :
    firstOrder (handed ++ [id]) ready = firstOrder handed ready := by
  rw [firstOrder, firstOrder, eraseDups_append_singleton, if_pos h]
  congr 1
  apply List.filter_congr
  intro id' _
  by_cases heq : id' = id
  · simp [heq, h]
  · simp [heq]

theorem firstOrder_next {handed ready : List Bytes} {id : Bytes} (h : id ∉ handed)
    (hrest : id ∉ ready) :
    firstOrder (handed ++ [id]) ready = firstOrder handed (id :: ready) := by
  have hfilter : (ready.filter fun id' => id' ∉ handed ++ [id]) = ready.filter fun id' =>
      id' ∉ handed := by
    apply List.filter_congr
    intro id' hid'
    have hne : id' ≠ id := fun heq => hrest (heq ▸ hid')
    simp [hne]
  rw [firstOrder, firstOrder, eraseDups_append_singleton, if_neg h, hfilter, List.append_assoc,
    List.filter_cons_of_pos (by simpa using h)]
  rfl

namespace Group

def readyIDs (g : Group) : List Bytes := g.liveReady.reduceOption.map Message.id

theorem mem_readyIDs {g : Group} {id : Bytes} :
    id ∈ g.readyIDs ↔ ∃ m, (.ready, m) ∈ g.slots ∧ m.id = id := by
  simp only [readyIDs, List.mem_map, List.reduceOption_mem_iff, mem_slots_ready]

theorem readyIDs_enqueue {g : Group} (h : g.readyHead ≤ g.ready.length) (m : Message) :
    (g.enqueue m).readyIDs = g.readyIDs ++ [m.id] := by
  rw [readyIDs, liveReady, enqueue, drop_append_singleton h, List.reduceOption_append,
    List.map_append]
  rfl

theorem Promotes.readyIDs {now : Int} {g g' : Group} {expired due : List Message}
    (h : Promotes now g g' expired due) (hr : g.readyHead ≤ g.ready.length) :
    g'.readyIDs = g.readyIDs ++ due.map Message.id := by
  rw [Group.readyIDs, liveReady, h.ready, h.readyHead, List.drop_append_of_le_length hr,
    List.reduceOption_append, reduceOption_map_some, List.map_append]
  rfl

theorem readyIDs_served {g g' : Group} {m : Message} {k : Nat}
    (h : g.liveReady = List.replicate k none ++ some m :: g'.liveReady) :
    g.readyIDs = m.id :: g'.readyIDs := by
  rw [readyIDs, h, reduceOption_replicate_none, List.reduceOption_cons_of_some, List.map_cons]
  rfl

theorem readyIDs_refused {g g' : Group}
    (h : g'.liveReady = g.liveReady ∨ g'.liveReady = [] ∧ ∀ slot ∈ g.liveReady, slot = none) :
    g'.readyIDs = g.readyIDs := by
  rcases h with hr | ⟨hr, hn⟩
  · rw [readyIDs, hr, readyIDs]
  · rw [readyIDs, hr, readyIDs, reduceOption_eq_nil hn]
    rfl

/-- Behind what was handed out once, in the order of publishing, come the messages of `ready` that
were not; a message anywhere else was. -/
structure InOrder (g : Group) (os : List (Bytes × Occurrence)) : Prop where
  wf : g.Wf
  seen : ∀ x ∈ g.slots, x.1 ≠ .ready → x.2.id ∈ handedIDs os
  order : publishedIDs os = firstOrder (handedIDs os) g.readyIDs

variable {g g' : Group} {os os' : List (Bytes × Occurrence)}

theorem InOrder.handed_subset (h : g.InOrder os) {id : Bytes} (hid : id ∈ handedIDs os) :
    id ∈ publishedIDs os := by
  rw [h.order, firstOrder]
  exact List.mem_append_left _ (List.mem_eraseDups.mpr hid)

theorem InOrder.ids_subset (h : g.InOrder os) {id : Bytes} (hid : id ∈ g.ids) :
    id ∈ publishedIDs os := by
  obtain ⟨⟨loc, m⟩, hm, rfl⟩ := Multiset.mem_map.mp hid
  by_cases hloc : loc = .ready
  · subst hloc
    by_cases hseen : m.id ∈ handedIDs os
    · exact h.handed_subset hseen
    · rw [h.order, firstOrder]
      apply List.mem_append_right
      rw [List.mem_filter]
      exact ⟨mem_readyIDs.mpr ⟨m, hm, rfl⟩, by simpa using hseen⟩
  · exact h.handed_subset (h.seen _ hm hloc)

theorem InOrder.enqueue (h : g.InOrder os) {m : Message} (hm : m.id ∉ publishedIDs os) :
    (g.enqueue m).InOrder (os ++ [(m.id, .published)]) := by
  have hhanded : handedIDs (os ++ [(m.id, .published)]) = handedIDs os :=
    idsOfKind_append_none rfl os
  have hpublished : publishedIDs (os ++ [(m.id, .published)]) = publishedIDs os ++ [m.id] :=
    idsOfKind_append _ _ _
  have hnew : m.id ∉ handedIDs os := fun hid => hm (h.handed_subset hid)
  refine ⟨enqueue_wf h.wf fun hid => hm (h.ids_subset hid), ?_, ?_⟩
  · intro x hx hloc
    rw [Group.enqueue, slots_appendReady g m h.wf.readyHead_le, Multiset.mem_cons] at hx
    rw [hhanded]
    rcases hx with rfl | hx
    · exact absurd rfl hloc
    · exact h.seen x hx hloc
  · rw [hpublished, hhanded, readyIDs_enqueue h.wf.readyHead_le, h.order, firstOrder, firstOrder,
      List.filter_append]
    simp [hnew]

theorem InOrder.quiet (h : g.InOrder os) (hwf : g'.Wf) (hpublished : publishedIDs os' = [])
    (hhanded : handedIDs os' = []) (back : List Bytes) (hready : g'.readyIDs = g.readyIDs ++ back)
    (hback : ∀ id ∈ back, id ∈ handedIDs os)
    (hslots : ∀ y ∈ g'.slots, y.1 ≠ .ready → ∃ x ∈ g.slots, x.1 ≠ .ready ∧ x.2.id = y.2.id) :
    g'.InOrder (os ++ os') := by
  have hhanded' : handedIDs (os ++ os') = handedIDs os := idsOfKind_append_none hhanded os
  have hpublished' : publishedIDs (os ++ os') = publishedIDs os :=
    idsOfKind_append_none hpublished os
  have hnone : back.filter (fun id => id ∉ handedIDs os) = [] := by
    apply List.filter_eq_nil_iff.mpr
    intro id hid
    simpa using hback id hid
  refine ⟨hwf, ?_, ?_⟩
  · intro y hy hloc
    obtain ⟨x, hx, hxloc, hid⟩ := hslots y hy hloc
    rw [hhanded', ← hid]
    exact h.seen x hx hxloc
  · rw [hpublished', hhanded', hready, h.order, firstOrder, firstOrder, List.filter_append, hnone,
      List.append_nil]

theorem InOrder.release (h : g.InOrder os) {m : Message} {kept : Option (Loc × Message)}
    (hr : Releases g g' m kept) (hkept : ∀ x ∈ kept, x.2.id = m.id)
    (hpublished : publishedIDs os' = []) (hhanded : handedIDs os' = []) :
    g'.InOrder (os ++ os') := by
  refine h.quiet hr.wf hpublished hhanded [] ?_ (by simp) ?_
  · rw [readyIDs, hr.ready, List.append_nil, readyIDs]
  · obtain ⟨rest, hg, hg'⟩ := hr.slots
    intro y hy hloc
    rw [hg', Multiset.mem_add] at hy
    rcases hy with hy | hy
    · refine ⟨(.processing, m), hg ▸ Multiset.mem_cons_self _ _, by simp, ?_⟩
      exact (hkept y (Option.mem_toList.mp hy)).symm
    · exact ⟨y, hg ▸ Multiset.mem_cons_of_mem hy, hloc, rfl⟩

theorem InOrder.same (h : g.InOrder os) (hpublished : publishedIDs os' = [])
    (hhanded : handedIDs os' = []) :
    g.InOrder (os ++ os') :=
  h.quiet h.wf hpublished hhanded [] (List.append_nil _).symm (by simp) fun y hy hloc =>
    ⟨y, hy, hloc, rfl⟩

theorem InOrder.returnToPending (h : g.InOrder os) (id : Bytes) (hpublished : publishedIDs os' = [])
    (hhanded : handedIDs os' = []) : (g.returnToPending id).InOrder (os ++ os') := by
  rcases returnToPending_spec h.wf id with ⟨-, heq⟩ | ⟨m, -, hr⟩
  · rw [heq]
    exact h.same hpublished hhanded
  · exact h.release hr (by simp) hpublished hhanded

theorem InOrder.sweepGroup (h : g.InOrder os) (ord : RangeOrder) (now : Int) :
    (Queue.sweepGroup ord now g).InOrder os := by
  unfold Queue.sweepGroup
  induction Queue.expiredIDs g ord now generalizing g with
  | nil => exact h
  | cons id l ih =>
    have hret : (g.returnToPending id).InOrder (os ++ []) := h.returnToPending id rfl rfl
    rw [List.append_nil] at hret
    exact ih hret

theorem InOrder.promoteDelayed (h : g.InOrder os) (ord : RangeOrder) (now : Int) :
    (g.promoteDelayed ord now).1.InOrder os := by
  obtain ⟨expired, due, hp⟩ := promoteDelayed_spec g ord now
  rw [← List.append_nil os]
  refine h.quiet (hp.serves h.wf).wf rfl rfl (due.map Message.id)
    (hp.readyIDs h.wf.readyHead_le) ?_ ?_
  · intro id hid
    obtain ⟨m, hm, rfl⟩ := List.mem_map.mp hid
    have hdelayed : m ∈ (g.delayed : Multiset Message) :=
      hp.delayed ▸ Multiset.mem_add.mpr (.inl hm)
    exact h.seen (.delayed, m) (mem_slots_delayed.mpr hdelayed) (by simp)
  · intro y hy hloc
    obtain ⟨x, hx, hxy⟩ := hp.mem hy
    refine ⟨x, hx, ?_, hxy.id_eq.symm⟩
    cases hxy with
    | same => exact hloc
    | expired => simp
    | due => exact absurd rfl hloc

theorem InOrder.setCounters (h : g.InOrder os) (deficit quantum : Int) :
    { g with deficit := deficit, quantum := quantum }.InOrder os :=
  ⟨h.wf.setCounters deficit quantum, h.seen, h.order⟩

theorem InOrder.applyConfig (h : g.InOrder os) (cfg : GroupConfig) (key : Bytes) :
    (Queue.applyConfig cfg key g).InOrder os := ⟨h.wf.applyConfig cfg key, h.seen, h.order⟩

theorem InOrder.nextDispatchable (h : g.InOrder os) {now : Int} {d : Dispatch}
    (hd : g.nextDispatchable now = .ok (g', d)) : g'.InOrder (os ++ g.hands now d.msg.toList) := by
  have hdisp := nextDispatchable_ok hd h.wf.readyHead_le
  have hwf : g'.Wf := (hdisp.serves h.wf).wf
  have hslots := hdisp.slots h.wf
  have hpublished : publishedIDs (os ++ g.hands now d.msg.toList) = publishedIDs os :=
    idsOfKind_append_none (idsOfKind_hands (fun _ _ => rfl) _ _ _) os
  have hhanded : handedIDs (os ++ g.hands now d.msg.toList) = handedIDs os ++
      d.msg.toList.map Message.id := by
    rw [handedIDs, idsOfKind_append, handed_hands]
    rfl
  -- what is not in `ready` afterwards was not before, or is the message handed out
  have hseen : ∀ y ∈ g'.slots, y.1 ≠ .ready →
      y.2.id ∈ handedIDs (os ++ g.hands now d.msg.toList) := by
    intro y hy hloc
    rw [hhanded]
    rcases hdisp.mem hy with hy | ⟨-, hmsg⟩
    · exact List.mem_append_left _ (h.seen y hy hloc)
    · exact List.mem_append_right _ (by simp [hmsg])
  refine ⟨hwf, hseen, ?_⟩
  rw [hpublished, hhanded, h.order]
  cases hdisp with
  | urgent m msg urgent ready processing allocated frame =>
    have hm : m.id ∈ handedIDs os :=
      h.seen (.urgent, m) (mem_slots_urgent.mpr (urgent ▸ List.mem_cons_self)) (by simp)
    have hready : g'.readyIDs = g.readyIDs := by rw [readyIDs, ready, readyIDs]
    rw [msg, hready]
    exact (firstOrder_again hm _).symm
  | ready m k msg urgent urgent' ready processing allocated frame =>
    rw [msg, readyIDs_served ready]
    by_cases hm : m.id ∈ handedIDs os
    · have hskip : firstOrder (handedIDs os) (m.id :: g'.readyIDs) =
          firstOrder (handedIDs os) g'.readyIDs := by
        rw [firstOrder, List.filter_cons_of_neg (by simpa using hm), firstOrder]
      rw [hskip]
      exact (firstOrder_again hm _).symm
    · -- the identifier is not behind in `ready` a second time
      have hrest : m.id ∉ g'.readyIDs := by
        have hnodup := hwf.distinct
        obtain ⟨hnone, -⟩ | ⟨loc, m', rest, hmsg, -, -, hg'⟩ := hslots
        · rw [msg] at hnone
          cases hnone
        · intro hmem
          obtain ⟨m₂, hm₂, hid⟩ := mem_readyIDs.mp hmem
          have hleased : g.leased m' now = g.leased m now := Option.some.inj (hmsg.symm.trans msg)
          have hid' : m'.id = m.id := by rw [← leased_id g m' now, hleased, leased_id]
          rw [ids, hg', Multiset.map_cons, Multiset.nodup_cons] at hnodup
          rw [hg', Multiset.mem_cons] at hm₂
          refine hnodup.1 (Multiset.mem_map.mpr ⟨(.ready, m₂), hm₂.resolve_left (by simp), ?_⟩)
          rw [leased_id, hid', ← hid]
      exact (firstOrder_next hm hrest).symm
  | refused msg urgent ready processing frame =>
    rw [msg, readyIDs_refused ready]
    simp

theorem InOrder.act (h : g.InOrder os) {a : GroupAct} (hact : g.act a = .ok (g', os')) :
    g'.InOrder (os ++ os') := by
  have hw := h.wf
  cases a with
  | complete id =>
    cases hact
    have hpublished : publishedIDs (g.completes id) = [] := idsOfKind_completes rfl g id
    have hhanded : handedIDs (g.completes id) = [] := idsOfKind_completes rfl g id
    rcases complete_spec hw id with ⟨-, heq⟩ | ⟨m, -, hr, -⟩
    · rw [heq]
      exact h.same hpublished hhanded
    · exact h.release hr (by simp) hpublished hhanded
  | fail id errMsg now =>
    obtain ⟨⟨g₁, dlq⟩, hf, hret⟩ := bind_ok.mp hact
    cases hret
    have hpublished : publishedIDs (g.fails id now) = [] :=
      idsOfKind_fails rfl (fun _ _ _ => rfl) g id now
    have hhanded : handedIDs (g.fails id now) = [] :=
      idsOfKind_fails rfl (fun _ _ _ => rfl) g id now
    rcases fail_spec hw hf with ⟨-, rfl⟩ | ⟨m, -, ⟨-, delay, -, hr⟩ | ⟨-, hr⟩⟩
    · exact h.same hpublished hhanded
    · exact h.release hr (by simp [retried]) hpublished hhanded
    · exact h.release hr (by simp) hpublished hhanded
  | returnToPending id =>
    cases hact
    exact h.returnToPending id rfl rfl
  | promoteDelayed ord now =>
    cases hact
    rw [List.append_nil]
    exact h.promoteDelayed ord now
  | sweepGroup ord now =>
    cases hact
    rw [List.append_nil]
    exact h.sweepGroup ord now
  | nextDispatchable now =>
    obtain ⟨⟨g₁, d⟩, hd, hret⟩ := bind_ok.mp hact
    cases hret
    exact h.nextDispatchable hd
  | setCounters deficit quantum =>
    cases hact
    rw [List.append_nil]
    exact h.setCounters deficit quantum
  | applyConfig cfg key =>
    cases hact
    rw [List.append_nil]
    exact h.applyConfig cfg key

theorem InOrder.ofNewGroup {cfg : GroupConfig} (hnew : newGroup cfg = .ok g)
    (hos : ∀ o ∈ os, o.2 = .returned) : g.InOrder os := by
  obtain ⟨-, hslots, hready, hw⟩ := newGroup_ok hnew
  refine ⟨hw, by simp [hslots], ?_⟩
  rw [publishedIDs, handedIDs, idsOfKind_returned rfl hos, idsOfKind_returned rfl hos, readyIDs,
    hready]
  rfl

end Group

theorem inOrder_invariant [PathMatch] (ops : List LiveOp) (key : Bytes) :
    GroupInvariant ops key (fun _ => True) Group.InOrder := by
  refine ⟨fun _ _ _ _ => trivial, ?_, ?_, ?_⟩
  · intro q _ g os hnew hos
    exact .ofNewGroup hnew hos
  · intro g os m hg hm
    exact hg.enqueue hm
  · intro op _ a _ g os g' os' hg hact
    exact hg.act hact

/-- In every run with distinct identifiers, the messages of a group in the order of their first
hand-out are the messages that were accepted first, in the order of their publishing. -/
theorem first_deliveries_follow_publish_order [PathMatch] {name ns : Bytes} {ops : List LiveOp}
    {s : WatchedRun} (hids : (ops.filterMap LiveOp.publishID).Nodup)
    (h : runWatched name ns ops = .ok s) (key : Bytes) :
    (handedIDs (happeningsOf key s.history)).eraseDups <+:
      publishedIDs (happeningsOf key s.history) := by
  have hfollows := runWatched_follows (inOrder_invariant ops key) trivial hids h
  cases hl : s.queue.groups.lookup key with
  | none =>
    have hnone : handedIDs (happeningsOf key s.history) = [] :=
      idsOfKind_returned rfl (hfollows.absent hl)
    rw [hnone]
    exact List.nil_prefix
  | some g => exact ⟨_, (hfollows.present g hl).order.symm⟩

def interleavedOps : List LiveOp :=
  [.publishWithID (str "g") (str "a") [] 0, .publishWithID (str "g") (str "b") [] 1,
    .publish (str "g") [] (str "c") 2, .tryDispatchOne (str "g") .inOrder 3,
    .failAndNext (str "g") (str "a") [] .inOrder 4, .returnToPending (str "g") (str "b"),
    .setGroupConfig { defaultGroupConfig (str "g") with parallelism := 3 },
    .drainGroup (str "g") .inOrder 5000000000, .drainGroup (str "g") .inOrder 5000000001,
    .drainGroup (str "g") .inOrder 5000000002]

theorem first_deliveries_follow_publish_order_sample :
    ∃ s, @runWatched literalMatch [] [] interleavedOps = .ok s ∧
      handedIDs (happeningsOf (str "g") s.history) = [str "a", str "b", str "b", str "c", str "a"] ∧
      (handedIDs (happeningsOf (str "g") s.history)).eraseDups <+:
        publishedIDs (happeningsOf (str "g") s.history) := by
  obtain ⟨s, hs, hhanded⟩ : ∃ s, @runWatched literalMatch [] [] interleavedOps = .ok s ∧
      handedIDs (happeningsOf (str "g") s.history) =
        [str "a", str "b", str "b", str "c", str "a"] :=
    ⟨_, rfl, by decide +kernel⟩
  exact ⟨s, hs, hhanded, @first_deliveries_follow_publish_order literalMatch [] [] interleavedOps s
    (by decide) hs _⟩

end Octar
