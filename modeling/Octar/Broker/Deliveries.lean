import Octar.Broker.PhantomLeases
import Mathlib.Algebra.Order.BigOperators.Group.List

namespace Octar

open Go Threads

namespace Group

variable {g g' g'' : Group} {now : Int} {batch batch' : List Message}

def Retains (P : Bytes → Message → Prop) (g g' : Group) : Prop :=
  ∀ id m, g.processing.get? id = some m → P id m → g'.processing.get? id = some m

theorem Retains.refl (P : Bytes → Message → Prop) (g : Group) : g.Retains P g := fun _ _ h _ => h

theorem Retains.trans {P P' Q : Bytes → Message → Prop} (h : g.Retains P g')
    (h' : g'.Retains P' g'') (hP : ∀ id m, Q id m → P id m ∧ P' id m) : g.Retains Q g'' := by
  intro id m hm hQ
  obtain ⟨hp, hp'⟩ := hP id m hQ
  exact h' id m (h id m hm hp) hp'

theorem retains_delete {id : Bytes} (hg : g'.processing = g.processing.delete id) :
    g.Retains (fun id' _ => id' ≠ id) g' := by
  intro id' m hm hne
  change g'.processing.table.lookup id' = some m
  rw [hg, NilMap.table_delete, AList.lookup_erase_ne hne]
  exact hm

theorem complete_retains (g : Group) (id : Bytes) :
    g.Retains (fun id' _ => id' ≠ id) (g.complete id).1 := by
  unfold complete
  split
  · exact .refl _ g
  · exact retains_delete rfl

theorem returnToPending_retains (g : Group) (id : Bytes) :
    g.Retains (fun id' _ => id' ≠ id) (g.returnToPending id) := by
  unfold returnToPending
  split
  · exact .refl _ g
  · exact retains_delete rfl

theorem fail_retains {id errMsg : Bytes} {dlq : Option Message}
    (h : g.fail id errMsg now = .ok (g', dlq)) :
    g.Retains (fun id' _ => id' ≠ id) g' := by
  cases fail_cases h with
  | absent none same letter =>
    subst same
    exact .refl _ _
  | retries m delay found more delayed put letter =>
    subst put
    exact retains_delete rfl
  | drops m found exhausted dropped letter =>
    subst dropped
    exact retains_delete rfl

theorem promoteDelayed_retains (g : Group) (ord : RangeOrder) (now : Int) :
    g.Retains (fun _ m => ¬ m.scheduledAt < now) (g.promoteDelayed ord now).1 := by
  obtain ⟨expired, due, h⟩ := promoteDelayed_spec g ord now
  intro id m hm hlate
  refine (h.lookup id).trans ?_
  have hm : g.processing.table.lookup id = some m := hm
  rw [hm, Option.filter_some, if_pos (decide_eq_true hlate)]

theorem foldl_returnToPending_retains (g : Group) (l : List Bytes) :
    g.Retains (fun id _ => id ∉ l) (l.foldl returnToPending g) := by
  induction l generalizing g with
  | nil => exact .refl _ g
  | cons id l ih =>
    refine (returnToPending_retains g id).trans (ih _) fun id' _ hnot => ?_
    exact ⟨List.ne_of_not_mem_cons hnot, List.not_mem_of_not_mem_cons hnot⟩

theorem sweepGroup_retains (g : Group) (ord : RangeOrder) (now : Int) :
    g.Retains (fun _ m => ¬ m.scheduledAt < now) (Queue.sweepGroup ord now g) := by
  intro id m hm hlate
  refine foldl_returnToPending_retains g _ id m hm fun hid => ?_
  obtain ⟨e, he, hexpired⟩ := List.mem_filterMap.mp hid
  split at hexpired
  · rename_i hlt
    cases hexpired
    have hlookup := AList.mem_lookup_iff.mpr ((RangeOrder.mem_pick ord).mp he)
    cases hm.symm.trans hlookup
    exact hlate hlt
  · cases hexpired

theorem complete_wf (hw : g.Wf) (id : Bytes) : (g.complete id).1.Wf := by
  rcases complete_spec hw id with ⟨-, h⟩ | ⟨m, -, h, -⟩
  · rw [h]
    exact hw
  · exact h.wf

theorem fail_wf (hw : g.Wf) {id errMsg : Bytes} {dlq : Option Message}
    (h : g.fail id errMsg now = .ok (g', dlq)) : g'.Wf := by
  obtain ⟨-, rfl⟩ | ⟨m, -, ⟨-, d, -, hr⟩ | ⟨-, hr⟩⟩ := fail_spec hw h
  · exact hw
  · exact hr.wf
  · exact hr.wf

structure HandsOut (g g' : Group) (batch : List Message) : Prop where
  wf : g'.Wf
  retains : g.Retains (fun _ _ => True) g'
  new : ∀ m ∈ batch, g.processing.get? m.id = none ∧ (g'.processing.get? m.id).isSome
  distinct : (batch.map Message.id).Nodup

theorem HandsOut.none (hw : g.Wf) : g.HandsOut g [] :=
  ⟨hw, .refl _ g, fun _ hm => (nomatch hm), List.nodup_nil⟩

theorem HandsOut.trans (h : g.HandsOut g' batch) (h' : g'.HandsOut g'' batch') :
    g.HandsOut g'' (batch ++ batch') where
  wf := h'.wf
  retains := h.retains.trans h'.retains fun _ _ _ => ⟨trivial, trivial⟩
  new := by
    intro m hm
    rcases List.mem_append.mp hm with hm | hm
    · obtain ⟨hnone, hsome⟩ := h.new m hm
      obtain ⟨m', hm'⟩ := Option.isSome_iff_exists.mp hsome
      exact ⟨hnone, Option.isSome_iff_exists.mpr ⟨m', h'.retains _ m' hm' trivial⟩⟩
    · obtain ⟨hnone, hsome⟩ := h'.new m hm
      refine ⟨?_, hsome⟩
      cases hg : g.processing.get? m.id with
      | none => rfl
      | some m' => cases hnone.symm.trans (h.retains _ m' hg trivial)
  distinct := by
    rw [List.map_append]
    refine List.Nodup.append h.distinct h'.distinct ?_
    intro id hid hid'
    obtain ⟨m, hm, rfl⟩ := List.mem_map.mp hid
    obtain ⟨m', hm', heq⟩ := List.mem_map.mp hid'
    have hnone := (h'.new m' hm').1
    have hsome := (h.new m hm).2
    rw [heq] at hnone
    rw [hnone] at hsome
    cases hsome

theorem HandsOut.setCounters (h : g.HandsOut g' batch) (deficit quantum : Int) :
    g.HandsOut { g' with deficit := deficit, quantum := quantum } batch :=
  ⟨⟨h.wf.urgentHead_le, h.wf.readyHead_le, h.wf.urgent_full, h.wf.allocated,
    h.wf.keyed, h.wf.distinct⟩, h.retains, h.new, h.distinct⟩

theorem nextDispatchable_handsOut (hw : g.Wf) {d : Dispatch}
    (h : g.nextDispatchable now = .ok (g', d)) :
    g.HandsOut g' d.msg.toList := by
  have hwf := (nextDispatchable_serves hw h).wf
  -- a waiting message has no lease
  have hinsert : ∀ (loc : Loc) {m : Message}, (loc, m) ∈ g.slots → loc ≠ .processing →
      g'.processing = some (g.processing.table.insert m.id (g.leased m now)) →
        d.msg = some (g.leased m now) → g.HandsOut g' d.msg.toList := by
    intro loc m hslot hloc hp hmsg
    have hnone := hw.lookup_none hslot hloc
    rw [hmsg]
    refine ⟨hwf, ?_, ?_, List.nodup_singleton _⟩
    · intro id m' hm' _
      change g'.processing.table.lookup id = some m'
      have hne : id ≠ m.id := by
        rintro rfl
        cases hnone.symm.trans hm'
      rw [hp, NilMap.table_some, AList.lookup_insert_ne hne]
      exact hm'
    · intro m' hm'
      cases List.mem_singleton.mp hm'
      refine ⟨hnone, ?_⟩
      change (g'.processing.table.lookup m.id).isSome
      rw [hp, NilMap.table_some, AList.lookup_insert]
      rfl
  cases nextDispatchable_ok h hw.readyHead_le with
  | urgent m msg urgent ready processing allocated frame =>
    refine hinsert .urgent ?_ (by decide) processing msg
    exact mem_slots_urgent.mpr (urgent ▸ List.mem_cons_self)
  | ready m k msg urgent urgent' ready processing allocated frame =>
    refine hinsert .ready ?_ (by decide) processing msg
    exact mem_slots_ready.mpr (ready ▸ List.mem_append_right _ List.mem_cons_self)
  | refused msg urgent ready processing frame =>
    rw [msg]
    refine ⟨hwf, ?_, fun _ hm => (nomatch hm), List.nodup_nil⟩
    intro id m hm _
    rw [processing]
    exact hm

theorem next_handsOut (hw : g.Wf) {msg : Option Message} (h : g.next now = .ok (g', msg)) :
    g.HandsOut g' msg.toList := by
  obtain ⟨⟨g₁, d⟩, hd, hret⟩ := bind_ok.mp h
  cases hret
  exact nextDispatchable_handsOut hw hd

theorem drainRound_handsOut (hw : g.Wf) {ord : RangeOrder} {r : DrainResult}
    (h : g.drainRound ord now = .ok (g', r)) :
    (g.promoteDelayed ord now).1.HandsOut g' (r.ready.getD []) := by
  refine drainRound_induct (motive := HandsOut (g.promoteDelayed ord now).1) ?_ ?_
    (.none (promoteDelayed_serves hw ord now).wf) h
  · intro g₁ g₂ d batch h₁ hd
    exact h₁.trans (nextDispatchable_handsOut h₁.wf hd)
  · intro g₁ batch deficit quantum h₁
    exact h₁.setCounters deficit quantum

end Group

/-- The command ends the lease `m` on the message `d`, as it acknowledges the message in either way
or finds the lease expired. -/
def Cmd.ends (now : Int) (d : GroupRef × Bytes) (m : Message) : Cmd → Bool
  | .tryDispatchOne g | .drainGroup g => g = d.1 && m.scheduledAt < now
  | .completeAndNext g msgID | .failAndNext g msgID _ =>
    g = d.1 && (msgID = d.2 || m.scheduledAt < now)
  | .sweepShard ns name shard =>
    (ns, name, shard) = (d.1.ns, d.1.queue, shardOf d.1.group) && m.scheduledAt < now
  | _ => false

def Cmd.fresh (ch : Choice) (s : Runtime) : Cmd → Bool
  | .publishLocked g msgID _ => (s.group g).all fun G => msgID.getD ch.newID ∉ G.ids
  | _ => true

theorem Cmd.Changes.handsOut {ch : Choice} {g : GroupRef} {c : Cmd} {r : c.Answer} {G G' : Group}
    (h : c.Changes ch g r G G') (hw : G.Wf)
    (hfresh : ∀ msgID payload, c = .publishLocked g msgID payload → msgID.getD ch.newID ∉ G.ids)
    (hshard : ∀ ns name shard, c = .sweepShard ns name shard → shard = shardOf g.group) :
    ∃ G₁ batch, G.Retains (fun id m => c.ends ch.now (g, id) m = false ∧
      c ≠ .returnToPending g id) G₁ ∧
      G₁.HandsOut G' batch ∧ c.handedOut r = batch.map (Prod.mk g) := by
  cases h with
  | refused => exact ⟨G, [], .refl _ G, .none hw, rfl⟩
  | accepted msgID payload m new G ref id =>
    refine ⟨G.enqueue m, [], fun _ _ hm _ => hm, .none (Group.enqueue_wf hw ?_), rfl⟩
    rw [id]
    exact hfresh msgID payload rfl
  | @dispatched G G' msg next =>
    have hpromoted := (Group.promoteDelayed_serves hw ch.ord ch.now).wf
    refine ⟨_, msg.toList, ?_, Group.next_handsOut hpromoted next, rfl⟩
    intro id m hm hkeep
    refine Group.promoteDelayed_retains G ch.ord ch.now id m hm ?_
    simpa [ends] using hkeep.1
  | @completed msgID G G' msg next =>
    have hcompleted := Group.complete_wf hw msgID
    have hpromoted := (Group.promoteDelayed_serves hcompleted ch.ord ch.now).wf
    refine ⟨_, msg.toList, ?_, Group.next_handsOut hpromoted next, rfl⟩
    refine (Group.complete_retains G msgID).trans (Group.promoteDelayed_retains _ ch.ord ch.now)
      fun id m hkeep => ?_
    have hends := hkeep.1
    simp only [ends, decide_true, Bool.true_and, Bool.or_eq_false_iff,
      decide_eq_false_iff_not] at hends
    exact ⟨Ne.symm hends.1, hends.2⟩
  | @failed msgID reason G G₁ G' dlq r fail target next =>
    have hfailed := Group.fail_wf hw fail
    have hpromoted := (Group.promoteDelayed_serves hfailed ch.ord ch.now).wf
    refine ⟨_, r.2.toList, ?_, Group.next_handsOut hpromoted next, rfl⟩
    refine (Group.fail_retains fail).trans (Group.promoteDelayed_retains _ ch.ord ch.now)
      fun id m hkeep => ?_
    have hends := hkeep.1
    simp only [ends, decide_true, Bool.true_and, Bool.or_eq_false_iff,
      decide_eq_false_iff_not] at hends
    exact ⟨Ne.symm hends.1, hends.2⟩
  | @drained G G' r drain =>
    refine ⟨_, r.ready.getD [], ?_, Group.drainRound_handsOut hw drain, rfl⟩
    intro id m hm hkeep
    refine Group.promoteDelayed_retains G ch.ord ch.now id m hm ?_
    simpa [ends] using hkeep.1
  | returned msgID G =>
    refine ⟨G.returnToPending msgID, [], ?_, .none (Group.returnToPending_serves hw msgID).wf, rfl⟩
    intro id m hm hkeep
    refine Group.returnToPending_retains G msgID id m hm ?_
    rintro rfl
    exact hkeep.2 rfl
  | @swept shard r G listed =>
    refine ⟨Queue.sweepGroup ch.ord ch.now G, [], ?_,
      .none (Group.foldl_returnToPending_serves hw _).wf, rfl⟩
    intro id m hm hkeep
    refine Group.sweepGroup_retains G ch.ord ch.now id m hm ?_
    simpa [ends, hshard _ _ _ rfl] using hkeep.1

theorem Cmd.handedOut_subset (c : Cmd) (r : c.Answer) : c.handedOut r ⊆ c.messages r := by
  cases c with
  | failAndNext g msgID reason => exact List.subset_append_left _ _
  | _ => exact fun _ h => h

def Runtime.WellFormed (s : Runtime) : Prop := ∀ g G, s.group g = some G → G.Wf

section Handle

variable [PathMatch] {ch : Choice} {c : Cmd} {s s' : Runtime} {r : c.Answer} {d : GroupRef × Bytes}

theorem Cmd.sweepShard_other {ns name : Bytes} {shard : Nat} {r : List ExpiredLease}
    (h : (Cmd.sweepShard ns name shard).handle ch s = .ok (s', r)) {g : GroupRef}
    (hg : shard ≠ shardOf g.group) :
    s'.group g = s.group g := by
  simp only [Cmd.handle] at h
  obtain ⟨q, q', hq, hret, rfl⟩ := Runtime.atQueue_ok h
  cases hret
  by_cases hk : (g.ns, g.queue) = (ns, name)
  · cases hk
    rw [Runtime.group, AList.lookup_insert, Runtime.group, hq, Option.bind_some, Option.bind_some,
      Map.lookup_mapTo]
    cases q.groups.lookup g.group with
    | none => rfl
    | some G => rw [Option.map_some, if_neg (Ne.symm hg)]
  · rw [Runtime.group, Runtime.group, AList.lookup_insert_ne hk]

theorem Cmd.handle_handsOut (hs : s.Placed) (hw : s.WellFormed) (hfresh : c.fresh ch s = true)
    (h : c.handle ch s = .ok (s', r)) (g : GroupRef) :
    s'.group g = s.group g ∧ (∀ x ∈ c.handedOut r, x.1 ≠ g) ∨
      ∃ G G₁ G' batch, s.Finds g c G ∧ s'.group g = some G' ∧
        G.Retains (fun id m => c.ends ch.now (g, id) m = false ∧ c ≠ .returnToPending g id) G₁ ∧
        G₁.HandsOut G' batch ∧ c.handedOut r = batch.map (Prod.mk g) := by
  by_cases hother : ∃ ns name shard, c = .sweepShard ns name shard ∧ shard ≠ shardOf g.group
  · obtain ⟨ns, name, shard, rfl, hne⟩ := hother
    exact .inl ⟨sweepShard_other h hne, fun _ hx => (nomatch hx)⟩
  rcases handle_group hs.named h g with ⟨hsame, hnone⟩ | ⟨G, G', hG, hG', hchanges⟩
  · exact .inl ⟨hsame, fun x hx => hnone x (handedOut_subset c r hx)⟩
  · have hGw : G.Wf := by
      cases hG with
      | old hG => exact hw g G hG
      | new _ _ made _ => exact (Group.newGroup_ok made).2.2.2
    have hid : ∀ msgID payload, c = .publishLocked g msgID payload →
        msgID.getD ch.newID ∉ G.ids := by
      rintro msgID payload rfl
      cases hG with
      | old hG =>
        rw [fresh, hG] at hfresh
        exact of_decide_eq_true hfresh
      | new _ _ made _ =>
        rw [Group.ids, (Group.newGroup_ok made).2.1]
        exact Multiset.notMem_zero _
    have hshard : ∀ ns name shard, c = .sweepShard ns name shard → shard = shardOf g.group := by
      rintro ns name shard rfl
      by_contra hne
      exact hother ⟨ns, name, shard, rfl, hne⟩
    obtain ⟨G₁, batch, hretains, hhands, hout⟩ := hchanges.handsOut hGw hid hshard
    exact .inr ⟨G, G₁, G', batch, hG, hG', hretains, hhands, hout⟩

theorem Cmd.handle_wellFormed (hs : s.Placed) (hw : s.WellFormed) (hfresh : c.fresh ch s = true)
    (h : c.handle ch s = .ok (s', r)) : s'.WellFormed := by
  intro g G hG
  rcases handle_handsOut hs hw hfresh h g with ⟨hsame, -⟩ | ⟨_, _, G', _, -, hG', -, hhands, -⟩
  · exact hw g G (hsame ▸ hG)
  · cases hG'.symm.trans hG
    exact hhands.wf

theorem Cmd.handle_keeps (hs : s.Placed) (hw : s.WellFormed) (hfresh : c.fresh ch s = true)
    (h : c.handle ch s = .ok (s', r)) (hd : s.Leased d)
    (hends : ∀ G m, s.group d.1 = some G → G.processing.get? d.2 = some m →
      c.ends ch.now d m = false) (hreturn : c ≠ .returnToPending d.1 d.2) :
    s'.Leased d ∧ ∀ x ∈ c.handedOut r, (x.1, x.2.id) ≠ d := by
  obtain ⟨G, hG, hid⟩ := hd
  obtain ⟨m, hm⟩ := Option.isSome_iff_exists.mp hid
  rcases handle_handsOut hs hw hfresh h d.1 with
    ⟨hsame, hnone⟩ | ⟨G₀, G₁, G', batch, hG₀, hG', hretains, hhands, hout⟩
  · refine ⟨⟨G, hsame.trans hG, hid⟩, ?_⟩
    rintro x hx rfl
    exact hnone x hx rfl
  · cases hG₀ with
    | new hnone => cases hnone.symm.trans hG
    | old hG₀ =>
      cases hG.symm.trans hG₀
      have hm₁ := hretains d.2 m hm ⟨hends G m hG hm, hreturn⟩
      refine ⟨⟨G', hG', Option.isSome_iff_exists.mpr ⟨m, hhands.retains d.2 m hm₁ trivial⟩⟩, ?_⟩
      intro x hx heq
      rw [hout] at hx
      obtain ⟨m', hm', rfl⟩ := List.mem_map.mp hx
      have hid' : m'.id = d.2 := congrArg Prod.snd heq
      rw [← hid'] at hm₁
      cases hm₁.symm.trans (hhands.new m' hm').1

theorem Cmd.handle_handedOut (hs : s.Placed) (hw : s.WellFormed) (hfresh : c.fresh ch s = true)
    (h : c.handle ch s = .ok (s', r)) :
    ((c.handedOut r).map fun x => (x.1, x.2.id)).Nodup ∧ ∀ x ∈ c.handedOut r,
      s'.Leased (x.1, x.2.id) := by
  cases hout : c.handedOut r with
  | nil => exact ⟨List.nodup_nil, fun _ hx => (nomatch hx)⟩
  | cons x₀ out =>
    rw [← hout]
    rcases handle_handsOut hs hw hfresh h x₀.1 with ⟨-, hnone⟩
      | ⟨_, _, G', batch, -, hG', -, hhands, hbatch⟩
    · exact absurd rfl (hnone x₀ (hout ▸ List.mem_cons_self))
    · rw [hbatch]
      refine ⟨?_, ?_⟩
      · rw [List.map_map]
        have hnodup := hhands.distinct.map (Prod.mk_right_injective x₀.1)
        rwa [List.map_map] at hnodup
      · intro x hx
        obtain ⟨m, hm, rfl⟩ := List.mem_map.mp hx
        exact ⟨G', hG', (hhands.new m hm).2⟩

end Handle

def Cmd.copyOf (d : GroupRef × Bytes) : Cmd → Int
  | .enqueueDispatch msg | .writeMessage _ msg => if (msg.ref, msg.id) = d then 1 else 0
  | .returnToPending g msgID => if (g, msgID) = d then 1 else 0
  | _ => 0

/-- The answers with which a goroutine that has a copy gets to use it; no goroutine with a copy does
one of the other commands before. -/
def Cmd.usual : (c : Cmd) → Option c.Answer
  | .enqueueDispatch _ | .writeMessage .. | .getQueue .. => some true
  | .tryAcquire | .acquireCredit _ => some false
  | .registryNext _ => some none
  | .returnToPending .. | .writeOrDrop .. | .release | .releaseCredit _ | .decGlobalMsgs => some ()
  | _ => none

def inHand (d : GroupRef × Bytes) : Program Unit → Int
  | .ret _ => 0
  | .call c k => c.copyOf d + c.usual.elim 0 fun r => inHand d (k r)

def copyGain (d : GroupRef × Bytes) : (c : Cmd) → c.Answer → Int
  | .enqueueDispatch msg, sent => if sent = true ∧ (msg.ref, msg.id) = d then -1 else 0
  | .writeMessage _ msg, sent => if sent = true ∧ (msg.ref, msg.id) = d then -1 else 0
  | .returnToPending g msgID, _ => if (g, msgID) = d then -1 else 0
  | c, r => (c.handedOut r).countP fun x => (x.1, x.2.id) = d

theorem Cmd.copyOf_nonneg (d : GroupRef × Bytes) (c : Cmd) : 0 ≤ c.copyOf d := by
  unfold copyOf
  split <;> first | split <;> decide | decide

theorem inHand_nonneg (d : GroupRef × Bytes) (p : Program Unit) : 0 ≤ inHand d p := by
  induction p with
  | ret a => exact Int.le_refl 0
  | call c k ih =>
    refine Int.add_nonneg (c.copyOf_nonneg d) ?_
    cases c.usual with
    | none => exact Int.le_refl 0
    | some r => exact ih r

theorem Cmd.usual_possible {c : Cmd} {r : c.Answer} (h : c.usual = some r) : c.Possible r := by
  intro x hx
  cases c <;> first | cases hx | cases h

section Carries

variable {d : GroupRef × Bytes} {α β : Type}

def copyLedger (d : GroupRef × Bytes) : Ledger Cmd Cmd.Answer where
  possible := Cmd.Possible
  due := Cmd.copyOf d
  usual := Cmd.usual
  gain := copyGain d
  rel := (· ≤ ·)
  load := inHand d
  load_call _ _ := rfl
  usual_possible _ _ := Cmd.usual_possible
  rel_refl := Int.le_refl

theorem neutral_copies {c : Cmd} (h : c.Idle) : (copyLedger d).Neutral c := by
  refine ⟨?_, fun r => ?_⟩
  · change c.copyOf d = 0
    cases c <;> first | rfl | exact h.elim
  · change copyGain d c r = 0
    cases c <;> first | rfl | exact h.elim

def copiesIn (d : GroupRef × Bytes) (g : GroupRef) (msgs : List Message) : Int :=
  msgs.countP fun m => (g, m.id) = d

theorem copiesIn_cons (g : GroupRef) (msg : Message) (msgs : List Message) :
    copiesIn d g (msg :: msgs) = copiesIn d g msgs + if (g, msg.id) = d then 1 else 0 := by
  unfold copiesIn
  rw [List.countP_cons]
  split <;> simp_all

theorem copiesIn_map (g : GroupRef) (msgs : List Message) :
    (((msgs.map (Prod.mk g)).countP fun x => (x.1, x.2.id) = d : Nat) : Int) =
      copiesIn d g msgs := by
  rw [List.countP_map]
  rfl

theorem ordinary_copies {c : Cmd} (h : c.Idle) :
    Prog.Ordinary Cmd.Possible (fun p => inHand d p = 0)
      (fun c k => ∀ r, c.Possible r →
        inHand d (k r) ≤ inHand d (.call c k) + copyGain d c r) c := by
  intro k hk
  obtain ⟨hcopy, hgain⟩ := neutral_copies (d := d) h
  have hload : inHand d (.call c k) = 0 := by
    change c.copyOf d + (c.usual.elim 0 fun r => inHand d (k r)) = 0
    rw [show c.copyOf d = 0 from hcopy, Int.zero_add]
    cases hu : c.usual with
    | none => rfl
    | some r => exact hk r (Cmd.usual_possible hu)
  refine ⟨hload, ?_⟩
  intro r hr
  rw [hk r hr, hload, show copyGain d c r = 0 from hgain r]
  exact Int.le_refl 0

theorem returnAll_carries (g : GroupRef) (msgs : List Message) :
    (copyLedger d).Carries (copiesIn d g msgs) (returnAll g msgs) := by
  induction msgs with
  | nil => exact .ret ()
  | cons msg msgs ih =>
    rw [copiesIn_cons, Int.add_comm]
    refine Ledger.Carries.seq (c := Cmd.returnToPending g msg.id) (fun _ => copiesIn d g msgs) rfl
      (fun _ _ => ih) fun _ _ => ?_
    change copiesIn d g msgs ≤ (if (g, msg.id) = d then 1 else 0) + copiesIn d g msgs +
      if (g, msg.id) = d then -1 else 0
    split <;> omega

theorem enqueue_carries {n n' : Int} {msg : Message} {f : Bool → Program α}
    (hsent : (copyLedger d).Carries n (f true)) (hrefused : (copyLedger d).Carries n' (f false))
    (hle : n' ≤ n + if (msg.ref, msg.id) = d then 1 else 0) :
    (copyLedger d).Carries (n + if (msg.ref, msg.id) = d then 1
      else 0) (command (.enqueueDispatch msg) >>= f) := by
  rw [Int.add_comm]
  refine Ledger.Carries.seq (c := Cmd.enqueueDispatch msg) (fun sent => if sent then n
    else n') rfl ?_ ?_
  · intro sent _
    cases sent with
    | true => exact hsent
    | false => exact hrefused
  · intro sent _
    cases sent with
    | true =>
      change n ≤ (if (msg.ref, msg.id) = d then 1 else 0) + n + if true = true ∧
        (msg.ref, msg.id) = d then -1 else 0
      by_cases heq : (msg.ref, msg.id) = d <;> simp [heq]
    | false =>
      change n' ≤ (if (msg.ref, msg.id) = d then 1 else 0) + n + 0
      omega

theorem offerAll_carries (g : GroupRef) {msgs : List Message} (hmsgs : ∀ m ∈ msgs, m.ref = g) :
    (copyLedger d).Carries (copiesIn d g msgs) (offerAll g msgs) := by
  induction msgs with
  | nil => exact .ret true
  | cons msg msgs ih =>
    rw [List.forall_mem_cons] at hmsgs
    obtain ⟨rfl, hmsgs⟩ := hmsgs
    have hback := (returnAll_carries (d := d) msg.ref (msg :: msgs)).bind fun _ => .ret false
    have hle := Int.le_of_eq (copiesIn_cons (d := d) msg.ref msg msgs)
    rw [copiesIn_cons]
    exact enqueue_carries (ih hmsgs) hback hle

theorem lease_carries {c : Cmd} {f : c.Answer → Program α} (m : c.Answer → Int)
    (hcopy : c.copyOf d = 0) (hu : c.usual = none) (hgain : ∀ r, copyGain d c r = m r)
    (hf : ∀ r, c.Possible r → (copyLedger d).Carries (m r) (f r)) :
    (copyLedger d).Carries 0 (command c >>= f) := by
  refine .seq m ?_ hf fun r _ => ?_
  · change c.copyOf d + c.usual.elim 0 m = 0
    rw [hcopy, hu]
    rfl
  · change m r ≤ 0 + copyGain d c r
    rw [hgain r, Int.zero_add]

theorem offerDrained_carries (g : GroupRef) : (copyLedger d).Carries 0 (offerDrained g) := by
  refine lease_carries (c := .drainGroup g) (fun r => copiesIn d g (r.ready.getD [])) rfl rfl
    (fun r => copiesIn_map g _) fun r hr => ?_
  refine (offerAll_carries g ?_).bind fun _ => .ret _
  intro m hm
  exact hr (g, m) (List.mem_map_of_mem hm)

theorem dispatchNext_carries (g : GroupRef) {next : Option Message}
    (hnext : ∀ m ∈ next, m.ref = g) :
    (copyLedger d).Carries (copiesIn d g next.toList) (dispatchNext next) := by
  cases next with
  | none => exact .ret ()
  | some next =>
    obtain rfl := hnext next rfl
    rw [Option.toList_some, copiesIn_cons]
    refine enqueue_carries (.ret ()) (.ret ()) ?_
    change 0 ≤ 0 + if (next.ref, next.id) = d then 1 else 0
    split <;> decide

theorem handOn_carries (g : GroupRef) (msgID : Bytes) :
    (copyLedger d).Carries 0 (handOn g msgID) := by
  refine lease_carries (c := .completeAndNext g msgID)
    (fun next => copiesIn d g next.toList) rfl rfl
    (fun next => copiesIn_map g _) fun next hr => dispatchNext_carries g ?_
  intro m hm
  exact hr (g, m) (List.mem_map_of_mem (Option.mem_toList.mpr hm))

theorem handOnFailed_carries (g : GroupRef) (msgID reason : Bytes) :
    (copyLedger d).Carries 0 (handOnFailed g msgID reason) := by
  refine lease_carries (c := .failAndNext g msgID reason)
    (fun failed => copiesIn d g failed.2.toList) rfl rfl
    (fun failed => copiesIn_map g _) fun failed hr => ?_
  have hnext : ∀ m ∈ failed.2, m.ref = g := by
    intro m hm
    exact hr (g, m) (List.mem_append_left _ (List.mem_map_of_mem (Option.mem_toList.mpr hm)))
  have hrest := (dispatchNext_carries (d := d) g hnext).bind fun _ => .ret failed.1
  exact .ite (fun _ => .wait (neutral_copies trivial) rfl fun _ _ => hrest) fun _ => hrest

theorem dispatchOne_carries (g : GroupRef) : (copyLedger d).Carries 0 (dispatchOne g) := by
  refine lease_carries (c := .tryDispatchOne g) (fun next => copiesIn d g next.toList) rfl rfl
    (fun next => copiesIn_map g _) fun next hr => ?_
  cases next with
  | none => exact .ret ()
  | some next =>
    obtain rfl : next.ref = g := hr (g, next) (List.mem_map_of_mem List.mem_cons_self)
    have hback := returnAll_carries (d := d) next.ref [next]
    rw [copiesIn_cons] at hback
    rw [Option.toList_some, copiesIn_cons]
    exact enqueue_carries (.ret ()) hback (Int.le_refl _)

theorem handBack_carries (msg : Message) :
    (copyLedger d).Carries (if (msg.ref, msg.id) = d then 1 else 0) (handBack msg) := by
  have hback := returnAll_carries (d := d) msg.ref [msg]
  rw [copiesIn_cons, copiesIn, List.countP_nil, Int.natCast_zero, Int.zero_add] at hback
  refine Ledger.Carries.seq (c := Cmd.getQueue msg.ns msg.queueName)
    (fun found => if found = true then if (msg.ref, msg.id) = d then 1 else 0
      else 0) (Int.zero_add _) ?_ ?_
  · intro found _
    cases found with
    | true => exact hback
    | false => exact .ret ()
  · intro found _
    cases found with
    | true => exact Int.le_of_eq (Int.add_zero _).symm
    | false =>
      change 0 ≤ (if (msg.ref, msg.id) = d then 1 else 0) + 0
      split <;> decide

theorem dispatch_carries (msg : Message) :
    (copyLedger d).Carries (if (msg.ref, msg.id) = d then 1 else 0) (dispatch msg) := by
  have hback := (handBack_carries (d := d) msg).bind fun _ => .ret ()
  refine .wait (neutral_copies trivial) rfl fun conn _ => ?_
  cases conn with
  | none => exact handBack_carries msg
  | some conn =>
    refine .wait (neutral_copies trivial) rfl fun _ _ =>
      .ite (fun _ => .wait (neutral_copies trivial) rfl fun _ _ => hback) fun _ => ?_
    refine .wait (neutral_copies trivial) rfl fun _ _ => .ite (fun _ => ?_) fun _ => ?_
    · exact .wait (neutral_copies trivial) rfl fun _ _ =>
        .wait (neutral_copies trivial) rfl fun _ _ => hback
    · refine Ledger.Carries.seq (c := Cmd.writeMessage conn msg)
        (fun sent => if sent = true then 0 else if (msg.ref, msg.id) = d then 1
          else 0) (Int.add_zero _) ?_ ?_
      · intro sent _
        cases sent with
        | false =>
          exact .wait (neutral_copies trivial) rfl fun _ _ =>
            .wait (neutral_copies trivial) rfl fun _ _ => hback
        | true => exact .still (neutral_copies trivial) fun _ _ => .ret ()
      · intro sent _
        cases sent with
        | false => exact Int.le_of_eq (Int.add_zero _).symm
        | true =>
          change 0 ≤ (if (msg.ref, msg.id) = d then 1 else 0) + if true = true ∧
            (msg.ref, msg.id) = d then -1 else 0
          by_cases heq : (msg.ref, msg.id) = d <;> simp [heq]

end Carries

theorem task_calm_copies (d : GroupRef × Bytes) {t : Task} (ht : ∀ msg, t ≠ .dispatch msg) :
    inHand d t.program = 0 ∧ t.program.Bounded Cmd.Possible (inHand d) (copyGain d) :=
  calm_task_of_leases (E := fun p => inHand d p = 0) (fun _ => ordinary_copies) rfl t ht
    dispatchOne_carries
    (fun _ => handOn_carries) (fun _ => handOnFailed_carries) offerDrained_carries

theorem dispatch_copies (d : GroupRef × Bytes) (msg : Message) :
    (inHand d (dispatch msg) = if (msg.ref, msg.id) = d then 1 else 0) ∧
      (dispatch msg).Bounded Cmd.Possible (inHand d) (copyGain d) := by
  exact (dispatch_carries msg).whole rfl

theorem bounded_task (d : GroupRef × Bytes) (t : Task) :
    t.program.Bounded Cmd.Possible (inHand d) (copyGain d) := by
  by_cases hdispatch : ∃ msg, t = .dispatch msg
  · obtain ⟨msg, rfl⟩ := hdispatch
    exact (dispatch_copies d msg).2
  · exact (task_calm_copies d fun msg h => hdispatch ⟨msg, h⟩).2

def queuedIn (d : GroupRef × Bytes) (chs : List DispatchCh) : Int :=
  (chs.map fun c => (c.buf.countP fun m => (m.ref, m.id) = d : Int)).sum

def queueGain (d : GroupRef × Bytes) : (c : Cmd) → c.Answer → Int
  | .enqueueDispatch msg, sent => if sent = true ∧ (msg.ref, msg.id) = d then 1 else 0
  | _, _ => 0

theorem queuedIn_nonneg (d : GroupRef × Bytes) (chs : List DispatchCh) : 0 ≤ queuedIn d chs := by
  refine List.sum_nonneg fun x hx => ?_
  obtain ⟨c, -, rfl⟩ := List.mem_map.mp hx
  exact Int.natCast_nonneg _

theorem gain_le_count (d : GroupRef × Bytes) (c : Cmd) (r : c.Answer) :
    copyGain d c r + queueGain d c r ≤ (c.handedOut r).countP fun x => (x.1, x.2.id) = d := by
  cases c with
  | enqueueDispatch msg =>
    change (if _ then (-1 : Int) else 0) + (if _ then 1 else 0) ≤ 0
    split <;> decide
  | writeMessage conn msg =>
    change (if _ then (-1 : Int) else 0) + 0 ≤ 0
    split <;> decide
  | returnToPending g msgID =>
    change (if _ then (-1 : Int) else 0) + 0 ≤ 0
    split <;> decide
  | _ => exact Int.le_of_eq (Int.add_zero _)

section Handle

variable [PathMatch] {ch : Choice} {c : Cmd} {s s' : Runtime} {r : c.Answer} {d : GroupRef × Bytes}

theorem Cmd.handle_queuedIn (h : c.handle ch s = .ok (s', r)) (d : GroupRef × Bytes) :
    queuedIn d s'.dispatchChs = queuedIn d s.dispatchChs + queueGain d c r := by
  by_cases hc : c.part = .channels
  case neg =>
    have hgain : queueGain d c r = 0 := by
      cases c <;> first | rfl | exact absurd rfl hc
    rw [(handle_frame h).dispatchChs hc, hgain, Int.add_zero]
  cases c with
  | enqueueDispatch msg =>
    obtain ⟨_, ch₀, -, hch, ⟨-, rfl, rfl⟩ | ⟨rfl, rfl⟩⟩ := Cmd.handle_enqueueDispatch h
    · exact (Int.add_zero _).symm
    · rw [queuedIn, sum_map_set _ hch, queuedIn, List.countP_append, queueGain]
      by_cases heq : (msg.ref, msg.id) = d
      · simp [heq]
        omega
      · simp [heq]
  | _ => cases hc

theorem Cmd.written_of_handle (h : c.handle ch s = .ok (s', r)) (hd : d ∈ s'.written) :
    (d ∈ s.written ∨ copyGain d c r + queueGain d c r = -1) ∧ ∀ x ∈ c.handedOut r,
      (x.1, x.2.id) ≠ d := by
  have hleased : ∀ {s₁ : Runtime} {g : GroupRef} {msgs : List Message}, s₁.written = s.written →
      c.handedOut r = msgs.map (Prod.mk g) → d ∈ (s₁.leased g msgs).written →
      (d ∈ s.written ∨ copyGain d c r + queueGain d c r = -1) ∧ ∀ x ∈ c.handedOut r,
        (x.1, x.2.id) ≠ d := by
    intro s₁ g msgs hs₁ hout hd
    obtain ⟨hmem, hnot⟩ := List.mem_filter.mp hd
    refine ⟨.inl (hs₁ ▸ hmem), ?_⟩
    rintro x hx rfl
    rw [hout] at hx
    obtain ⟨m, hm, rfl⟩ := List.mem_map.mp hx
    exact of_decide_eq_true hnot (List.mem_map_of_mem hm)
  by_cases hc : c.part = .queues ∨ c.part = .conns
  case neg =>
    rw [not_or] at hc
    rw [(handle_frame h).written hc.1 hc.2] at hd
    refine ⟨.inl hd, ?_⟩
    have hout : c.handedOut r = [] := by
      cases c <;> first | rfl | exact absurd rfl hc.1
    rw [hout]
    exact List.forall_mem_nil _
  cases c with
  | publishLocked | indexKey | returnToPending | sweepShard =>
    simp only [Cmd.handle] at h
    obtain ⟨q, q', -, -, rfl⟩ := Runtime.atQueue_ok h
    exact ⟨.inl hd, List.forall_mem_nil _⟩
  | tryDispatchOne | completeAndNext | failAndNext | drainGroup =>
    obtain ⟨⟨s₁, r₁⟩, h₁, hret⟩ := bind_ok.mp h
    cases hret
    obtain ⟨q, q', -, -, rfl⟩ := Runtime.atQueue_ok h₁
    exact hleased rfl rfl hd
  | acquireCredit | releaseCredit | inflight | writeOrDrop | writeOrWait | close =>
    obtain ⟨c, c', -, -, rfl⟩ := Runtime.atConn_ok h
    exact ⟨.inl hd, List.forall_mem_nil _⟩
  | writeMessage conn msg =>
    obtain ⟨⟨s₁, sent⟩, h₁, hret⟩ := bind_ok.mp h
    obtain ⟨c, c', -, -, rfl⟩ := Runtime.atConn_ok h₁
    cases hret
    refine ⟨?_, List.forall_mem_nil _⟩
    split at hd
    · rename_i hsent
      refine (List.mem_append.mp hd).imp_right fun hmem => ?_
      exact (Int.add_zero _).trans (if_pos ⟨hsent, (List.mem_singleton.mp hmem).symm⟩)
    · exact .inl hd
  | _ => rcases hc with hc | hc <;> cases hc

end Handle

def Runtime.leases (s : Runtime) : List ((GroupRef × Bytes) × Message) :=
  s.queues.entries.flatMap fun q => q.2.groups.entries.flatMap fun G =>
    G.2.processing.table.entries.map fun e => ((⟨q.1.1, q.1.2, G.1⟩, e.1), e.2)

theorem Runtime.mem_leases {s : Runtime} {d : GroupRef × Bytes} {G : Group} {m : Message}
    (hG : s.group d.1 = some G) (hm : G.processing.get? d.2 = some m) : (d, m) ∈ s.leases := by
  obtain ⟨q, hq, hl⟩ := Option.bind_eq_some_iff.mp hG
  refine List.mem_flatMap.mpr ⟨⟨_, q⟩, AList.mem_lookup_iff.mp hq, ?_⟩
  refine List.mem_flatMap.mpr ⟨⟨_, G⟩, AList.mem_lookup_iff.mp hl, ?_⟩
  exact List.mem_map.mpr ⟨⟨_, m⟩, AList.mem_lookup_iff.mp hm, rfl⟩

namespace System

def copies (sys : System) (d : GroupRef × Bytes) : Int :=
  queuedIn d sys.state.dispatchChs + total (inHand d) sys.threads

/-- No lease is ended by an acknowledgement or for its time while there is a copy of its message,
and `newID` gives no identifier that is in use. -/
def undisturbed (sys : System) : Label → Bool
  | .run thread ch =>
    (sys.threads[thread]?.bind Thread.next?).all fun c =>
      c.fresh ch sys.state && sys.state.leases.all fun x => !c.ends ch.now x.1 x.2 ||
        sys.copies x.1 = 0
  | _ => true

structure Single (sys : System) : Prop where
  regular : sys.Regular
  wellFormed : sys.state.WellFormed
  bounded : ∀ t ∈ sys.threads, ∀ d, t.prog.Bounded Cmd.Possible (inHand d) (copyGain d)
  one : ∀ d, sys.copies d ≤ 1
  backed : ∀ d, 0 < sys.copies d → sys.state.Leased d ∧ d ∉ sys.state.written

theorem single_start (cfg : RuntimeConfig) (depths : List Nat) :
    (start cfg (depths.map fun n => ⟨n, []⟩)).Single := by
  have hcopies : ∀ d, (start cfg (depths.map fun n => ⟨n, []⟩)).copies d = 0 := by
    intro d
    have hchannels : queuedIn d (depths.map fun n => ⟨n, []⟩) = 0 := by
      simp [queuedIn, Function.comp_def]
    exact congrArg (· + 0) hchannels
  refine ⟨regular_start cfg _, ?_, ?_, ?_, ?_⟩
  · intro g G hG
    cases hG
  · intro t ht
    cases ht
  · intro d
    rw [hcopies]
    decide
  · intro d hd
    rw [hcopies] at hd
    cases hd

theorem copies_spawn (sys : System) {t : Task} (ht : ∀ msg, t ≠ .dispatch msg)
    (d : GroupRef × Bytes) :
    (sys.spawn t).copies d = sys.copies d := by
  have htotal : total (inHand d) (sys.spawn t).threads = total (inHand d) sys.threads +
      inHand d t.program := total_append _ _ _
  rw [copies, htotal, (task_calm_copies d ht).1, Int.add_zero]
  rfl

variable {sys sys' : System} {l : Label}

theorem copies_deliver {channel depth : Nat} {msg : Message} {buf : List Message}
    (first : sys.state.dispatchChs[channel]? = some ⟨depth, msg :: buf⟩) (d : GroupRef × Bytes) :
    ({ sys with state.dispatchChs := sys.state.dispatchChs.set channel ⟨depth, buf⟩ }.spawn
      (.dispatch msg)).copies d = sys.copies d := by
  have htotal : total (inHand d) (sys.threads ++ [(Task.dispatch msg).start]) =
      total (inHand d) sys.threads + inHand d (dispatch msg) := total_append _ _ _
  have hchannels : queuedIn d (sys.state.dispatchChs.set channel ⟨depth, buf⟩) =
      queuedIn d sys.state.dispatchChs - if (msg.ref, msg.id) = d then 1 else 0 := by
    rw [queuedIn, sum_map_set _ first, queuedIn, List.countP_cons]
    dsimp only
    by_cases heq : (msg.ref, msg.id) = d
    · rw [if_pos (decide_eq_true heq), if_pos heq]
      omega
    · rw [if_neg fun h => heq (of_decide_eq_true h), if_neg heq]
      omega
  change queuedIn d (sys.state.dispatchChs.set channel ⟨depth, buf⟩) +
    total (inHand d) (sys.threads ++ [_]) = sys.copies d
  rw [htotal, hchannels, (dispatch_copies d msg).1, copies]
  omega

theorem undisturbed_run {thread : Nat} {ch : Choice} {task : Task} {c : Cmd}
    {k : c.Answer → Program Unit} (next : sys.threads[thread]? = some ⟨task, .call c k⟩)
    (h : sys.undisturbed (.run thread ch) = true) :
    c.fresh ch sys.state = true ∧
      ∀ d G m, sys.state.group d.1 = some G → G.processing.get? d.2 = some m → 0 < sys.copies d →
        c.ends ch.now d m = false := by
  simp only [undisturbed, next, Option.bind_some, Thread.next?, Option.all_some, Bool.and_eq_true,
    List.all_eq_true] at h
  refine ⟨h.1, ?_⟩
  intro d G m hG hm hcopies
  have hlease := h.2 (d, m) (Runtime.mem_leases hG hm)
  rw [Bool.or_eq_true, decide_eq_true_eq, Bool.not_eq_true'] at hlease
  exact hlease.resolve_right fun hzero => Int.ne_of_gt hcopies hzero

variable [PathMatch]

theorem copies_run {thread : Nat} {ch : Choice} {task : Task} {c : Cmd}
    {k : c.Answer → Program Unit} {s : Runtime} {r : c.Answer} (hsys : sys.Single)
    (next : sys.threads[thread]? = some ⟨task, .call c k⟩)
    (handled : c.handle ch sys.state = .ok (s, r)) (d : GroupRef × Bytes) :
    copies ⟨s, sys.threads.set thread ⟨task, k r⟩⟩ d ≤ sys.copies d +
      (copyGain d c r + queueGain d c r) := by
  have hpossible := Cmd.handle_possible hsys.regular.placed handled
  have htotal := total_advance_le next (hsys.bounded _ (List.mem_of_getElem? next) d) hpossible
  have hchannels := Cmd.handle_queuedIn handled d
  unfold copies
  dsimp only
  omega

theorem Single.run (hsys : sys.Single) {thread : Nat} {ch : Choice} {task : Task} {c : Cmd}
    {k : c.Answer → Program Unit} {s : Runtime} {r : c.Answer}
    (next : sys.threads[thread]? = some ⟨task, .call c k⟩)
    (handled : c.handle ch sys.state = .ok (s, r)) (h : sys.undisturbed (.run thread ch) = true)
    (d : GroupRef × Bytes) :
    copies ⟨s, sys.threads.set thread ⟨task, k r⟩⟩ d ≤ 1 ∧
      (0 < copies ⟨s, sys.threads.set thread ⟨task, k r⟩⟩ d → s.Leased d ∧ d ∉ s.written) := by
  obtain ⟨hfresh, hends⟩ := undisturbed_run next h
  have hplaced := hsys.regular.placed
  have hcopies := copies_run hsys next handled d
  have hgain := gain_le_count d c r
  have hone := hsys.one d
  have hkeeps : 0 < sys.copies d → c ≠ .returnToPending d.1 d.2 →
      s.Leased d ∧ ∀ x ∈ c.handedOut r, (x.1, x.2.id) ≠ d := fun hpos hreturn =>
    Cmd.handle_keeps hplaced hsys.wellFormed hfresh handled (hsys.backed d hpos).1
      (fun G m hG hm => hends d G m hG hm hpos) hreturn
  by_cases hout : ∃ x ∈ c.handedOut r, (x.1, x.2.id) = d
  · -- the message is leased, and so there was no copy
    obtain ⟨x, hx, rfl⟩ := hout
    have hnone : ¬ 0 < sys.copies (x.1, x.2.id) := by
      intro hpos
      refine (hkeeps hpos ?_).2 x hx rfl
      rintro rfl
      cases hx
    obtain ⟨hdistinct, hleased⟩ := Cmd.handle_handedOut hplaced hsys.wellFormed hfresh handled
    have hcount := List.nodup_iff_count_le_one.mp hdistinct (x.1, x.2.id)
    rw [List.count, List.countP_map] at hcount
    have hle : ((c.handedOut r).countP fun y => (y.1, y.2.id) = (x.1, x.2.id)) ≤ 1 := by
      refine Nat.le_trans (Nat.le_of_eq (List.countP_congr fun y _ => ?_)) hcount
      simp
    refine ⟨by omega, fun _ =>
      ⟨hleased x hx, fun hwritten => (Cmd.written_of_handle handled hwritten).2 x hx rfl⟩⟩
  · -- the copies there are were there before
    push Not at hout
    have hzero : ((c.handedOut r).countP fun x => (x.1, x.2.id) = d) = 0 := by
      rw [List.countP_eq_zero]
      intro x hx
      simpa using hout x hx
    rw [hzero] at hgain
    refine ⟨by omega, fun hpos => ?_⟩
    have hold : 0 < sys.copies d := by omega
    refine ⟨(hkeeps hold ?_).1, ?_⟩
    · rintro rfl
      have hreturned : copyGain d (.returnToPending d.1 d.2) r = -1 := if_pos rfl
      have hqueued : queueGain d (.returnToPending d.1 d.2) r = 0 := rfl
      omega
    · intro hwritten
      rcases (Cmd.written_of_handle handled hwritten).1 with hbefore | hgone
      · exact (hsys.backed d hold).2 hbefore
      · omega

theorem Single.step (hsys : sys.Single) (hundisturbed : sys.undisturbed l = true)
    (h : sys.Step l sys') :
    sys'.Single := by
  have hregular := hsys.regular.step h
  have hbounded : ∀ t ∈ sys'.threads, ∀ d, t.prog.Bounded Cmd.Possible (inHand d) (copyGain d) := by
    refine h.threads hsys.bounded (fun t _ d => bounded_task d t) ?_
    intro ch task c k s r handled hall d
    exact (hall d).2 r (Cmd.handle_possible hsys.regular.placed handled)
  -- a step that changes no group and no copy
  have hsame : sys'.state.queues = sys.state.queues → sys'.state.written = sys.state.written →
      (∀ d, sys'.copies d = sys.copies d) → sys'.Single := by
    intro hqueues hwritten hcopies
    refine ⟨hregular, ?_, hbounded, fun d => hcopies d ▸ hsys.one d, ?_⟩
    · intro g G hG
      exact hsys.wellFormed g G ((Runtime.group_of_same hqueues g).symm.trans hG)
    · intro d hd
      obtain ⟨⟨G, hG, hid⟩, hnot⟩ := hsys.backed d (hcopies d ▸ hd)
      exact ⟨⟨G, (Runtime.group_of_same hqueues d.1).trans hG, hid⟩, hwritten ▸ hnot⟩
  cases h with
  | declare new =>
    refine ⟨hregular, ?_, hbounded, hsys.one, ?_⟩
    · intro g G hG
      exact hsys.wellFormed g G ((Runtime.group_of_declare new rfl g).symm.trans hG)
    · intro d hd
      obtain ⟨⟨G, hG, hid⟩, hnot⟩ := hsys.backed d hd
      exact ⟨⟨G, (Runtime.group_of_declare new rfl d.1).trans hG, hid⟩, hnot⟩
  | connect | flush => exact hsame rfl rfl fun _ => rfl
  | receive | disconnect | process | fire | activate | sweep =>
    refine hsame rfl rfl fun d => copies_spawn _ ?_ d
    intro msg h
    cases h
  | deliver first => exact hsame rfl rfl (copies_deliver first)
  | run next handled =>
    have hrun := hsys.run next handled hundisturbed
    refine ⟨hregular, ?_, hbounded, fun d => (hrun d).1, fun d => (hrun d).2⟩
    exact Cmd.handle_wellFormed hsys.regular.placed hsys.wellFormed
      (undisturbed_run next hundisturbed).1 handled

def delivered (sys : System) : Label → Option (GroupRef × Bytes)
  | .run thread ch =>
    match sys.threads[thread]? with
    | some ⟨_, .call (.writeMessage conn msg) _⟩ =>
      match (Cmd.writeMessage conn msg).handle ch sys.state with
      | .ok (_, true) => some (msg.ref, msg.id)
      | _ => none
    | _ => none
  | _ => none

theorem delivered_some {d : GroupRef × Bytes} (h : sys.delivered l = some d) :
    ∃ (thread : Nat) (task : Task) (conn : Nat) (msg : Message) (k : Bool → Program Unit),
      sys.threads[thread]? = some ⟨task, .call (.writeMessage conn msg) k⟩ ∧
        (msg.ref, msg.id) = d := by
  cases l with
  | run thread ch =>
    simp only [delivered] at h
    split at h
    · rename_i task conn msg k hnext
      split at h
      · cases h
        exact ⟨thread, task, conn, msg, k, hnext, rfl⟩
      · cases h
    · cases h
  | _ => cases h

/-- If no lease ends by an acknowledgement or for its time while a copy of its message is in a
dispatch channel or with a goroutine, then what is written to a connection is leased, and was not
written since. -/
theorem writes_only_leased {cfg : RuntimeConfig} {depths : List Nat} {d : GroupRef × Bytes}
    (h : Reachable System.step (fun sys l => sys.undisturbed l = true)
      (start cfg (depths.map fun n => ⟨n, []⟩)) sys) (hdelivered : sys.delivered l = some d) :
    sys.state.Leased d ∧ d ∉ sys.state.written := by
  have hsys : sys.Single :=
    h.invariant (single_start cfg depths) fun sys l sys' hsys hund hstep =>
      hsys.step hund (step_ok hstep)
  obtain ⟨thread, task, conn, msg, k, hnext, rfl⟩ := delivered_some hdelivered
  refine hsys.backed _ ?_
  have hhand : 1 ≤ inHand (msg.ref, msg.id) (.call (.writeMessage conn msg) k) := by
    change 1 ≤ (if (msg.ref, msg.id) = (msg.ref, msg.id) then 1 else 0) +
      inHand (msg.ref, msg.id) (k true)
    have hrest := inHand_nonneg (msg.ref, msg.id) (k true)
    rw [if_pos rfl]
    omega
  have htotal := load_le_total (inHand_nonneg (msg.ref, msg.id)) (List.mem_of_getElem? hnext)
  have hchannels := queuedIn_nonneg (msg.ref, msg.id) sys.state.dispatchChs
  unfold copies
  dsimp only at htotal
  omega

end System

def queuedLabels : List Label :=
  [.declare (str "n") (str "q") [], .connect (str "n"),
    .receive 0 (.subscribe (str "q") (str "*")) 1] ++
  runTimes 0 3 [] ++ [.receive 0 (.publish (str "q") (str "g") (str "p")) 0] ++
    runTimes 1 13 (str "m1")

def writingLabels : List Label := queuedLabels ++ [.deliver 0] ++ runTimes 2 3 []

theorem writes_only_leased_sample :
    ∃ sys, Reachable (@System.step literalMatch) (fun sys l => sys.undisturbed l = true)
        (.start ⟨1, 0, 0⟩ ([2].map fun n => ⟨n, []⟩)) sys ∧
      @System.delivered literalMatch sys (.run 2 sampleChoice) = some (sampleGroup, str "m1") ∧
      sys.state.Leased (sampleGroup, str "m1") ∧ (sampleGroup, str "m1") ∉ sys.state.written := by
  have htrace : (run (checked (@System.step literalMatch) System.undisturbed .blocked)
      (.start ⟨1, 0, 0⟩ ([2].map fun n => ⟨n, []⟩)) writingLabels).toOption.any (fun sys =>
        @System.delivered literalMatch sys (.run 2 sampleChoice) = some (sampleGroup, str "m1")) =
          true := by
    decide +kernel
  obtain ⟨sys, hreach, hdelivered⟩ := Reachable.ofTrace (fun _ _ h => h) writingLabels _ htrace
  have hdelivered := of_decide_eq_true hdelivered
  exact ⟨sys, hreach, hdelivered,
    @System.writes_only_leased sys _ literalMatch _ _ _ hreach hdelivered⟩

/-- The activation of the group is only processed when the lease is over: the message is leased
again and there are two copies of it.  The client receives one and acknowledges it. -/
def twiceQueuedLabels : List Label :=
  queuedLabels ++ [.process] ++ List.replicate 3 (.run 2 ⟨1000000000000, .inOrder, [], true⟩) ++
  [.deliver 0] ++ runTimes 3 5 [] ++ [.receive 0 (.ack (str "m1") (str "q") (str "g")) 0] ++
    runTimes 4 6 [] ++ [.deliver 0] ++ runTimes 5 3 []

/-- The other copy is written to the client as well, although the message is acknowledged. -/
theorem acknowledged_message_written :
    ∃ sys, Reachable (@System.step literalMatch) (fun _ _ => True)
      (.start ⟨1, 0, 0⟩ ([2].map fun n => ⟨n, []⟩)) sys ∧
      @System.delivered literalMatch sys (.run 5 sampleChoice) = some (sampleGroup, str "m1") ∧
      ¬ sys.state.Leased (sampleGroup, str "m1") := by
  have htrace : (run (checked (@System.step literalMatch) (fun _ _ => true) .blocked)
      (.start ⟨1, 0, 0⟩ ([2].map fun n => ⟨n, []⟩)) twiceQueuedLabels).toOption.any (fun sys =>
        @System.delivered literalMatch sys (.run 5 sampleChoice) = some (sampleGroup, str "m1") &&
          (sys.state.group sampleGroup).all fun G => (G.processing.get? (str "m1")).isNone) =
            true := by
    decide +kernel
  obtain ⟨sys, hreach, hend⟩ := Reachable.ofTrace (fun _ _ _ => trivial) twiceQueuedLabels _ htrace
  obtain ⟨hdelivered, hnone⟩ := Bool.and_eq_true_iff.mp hend
  refine ⟨sys, hreach, of_decide_eq_true hdelivered, ?_⟩
  rintro ⟨G, hG, hid⟩
  rw [hG, Option.all_some] at hnone
  rw [Option.isNone_iff_eq_none.mp hnone] at hid
  cases hid

end Octar
