import Octar.Queue.Ordering

namespace Octar

open Go

namespace ConfigIdx

theorem mem_setWildcard {c w : GroupConfig} {ws : List GroupConfig} (h : w ∈ setWildcard c ws) :
    w = c ∨ w ∈ ws := by
  induction ws with
  | nil => exact .inl (List.mem_singleton.mp h)
  | cons w' ws ih =>
    rw [setWildcard] at h
    split at h
    · exact (List.mem_cons.mp h).imp_right (List.mem_cons_of_mem _)
    · rcases List.mem_cons.mp h with rfl | h
      · exact .inr List.mem_cons_self
      · exact (ih h).imp_right (List.mem_cons_of_mem _)

variable [PathMatch] {key : Bytes} {ci : ConfigIdx}

structure OneAtATime (key : Bytes) (ci : ConfigIdx) : Prop where
  exact : ∀ c, ci.exact.lookup key = some c → c.parallelism = 1
  wildcards : ∀ c ∈ ci.wildcards, c.matchesKey key = true → c.parallelism = 1

theorem OneAtATime.set (h : ci.OneAtATime key) {c : GroupConfig}
    (hc : c.AppliesTo key → c.parallelism = 1) :
    (ci.set c).OneAtATime key := by
  unfold ConfigIdx.set
  split
  · rename_i hglob
    refine ⟨h.exact, ?_⟩
    intro w hw hm
    rcases mem_setWildcard hw with rfl | hw
    · exact hc (by rwa [GroupConfig.AppliesTo, if_pos hglob])
    · exact h.wildcards w hw hm
  · rename_i hglob
    refine ⟨?_, h.wildcards⟩
    intro c' hl
    by_cases hk : key = c.key
    · subst hk
      rw [AList.lookup_insert] at hl
      cases hl
      exact hc (by rw [GroupConfig.AppliesTo, if_neg hglob])
    · rw [AList.lookup_insert_ne hk] at hl
      exact h.exact c' hl

theorem OneAtATime.del (h : ci.OneAtATime key) (k : Bytes) : (ci.del k).1.OneAtATime key := by
  unfold ConfigIdx.del
  split
  · refine ⟨?_, h.wildcards⟩
    intro c hl
    by_cases hk : key = k
    · subst hk
      rw [AList.lookup_erase] at hl
      cases hl
    · rw [AList.lookup_erase_ne hk] at hl
      exact h.exact c hl
  · split
    · exact ⟨h.exact, fun c hc => h.wildcards c (List.mem_of_mem_eraseP hc)⟩
    · exact h

theorem OneAtATime.resolveConfig {q : Queue} (h : q.cfgIdx.OneAtATime key) :
    (q.resolveConfig key).parallelism = 1 := by
  unfold Queue.resolveConfig ConfigIdx.resolve
  cases hl : q.cfgIdx.exact.lookup key with
  | some c => exact h.exact c hl
  | none =>
    cases hf : q.cfgIdx.wildcards.find? fun c => c.matchesKey key with
    | none => rfl
    | some c =>
      have hm := List.find?_some hf
      exact h.wildcards c (List.mem_of_find?_eq_some hf) hm

end ConfigIdx

namespace Group

def outIDs (g : Group) : Multiset Bytes :=
  (g.slots.filter fun x => x.1 ≠ .ready).map fun x => x.2.id

theorem mem_outIDs {g : Group} {loc : Loc} {m : Message} (h : (loc, m) ∈ g.slots)
    (hloc : loc ≠ .ready) :
    m.id ∈ g.outIDs := Multiset.mem_map.mpr ⟨(loc, m), Multiset.mem_filter.mpr ⟨h, hloc⟩, rfl⟩

theorem outIDs_cons {g : Group} {loc : Loc} {m : Message} {rest : Multiset (Loc × Message)}
    (h : g.slots = (loc, m) ::ₘ rest) (hloc : loc ≠ .ready) :
    g.outIDs = m.id ::ₘ (rest.filter fun x => x.1 ≠ .ready).map fun x => x.2.id := by
  rw [outIDs, h, Multiset.filter_cons_of_pos (p := fun x : Loc × Message => x.1 ≠ .ready) _ hloc,
    Multiset.map_cons]

/-- What was accepted is what was settled, then at most one message that has left `ready`, then
those in `ready`; and whatever was handed out was at that time the first that was not settled. -/
structure Sequential (g : Group) (os : List (Bytes × Occurrence)) : Prop where
  sound : g.Sound
  parallelism : g.cfg.parallelism = 1
  noDelayed : ∀ x ∈ g.slots, x.1 ≠ .delayed
  order : ∃ out : List Bytes, g.outIDs = out ∧ out.length ≤ 1 ∧
    publishedIDs os = settledIDs os ++ out ++ g.readyIDs
  served : ∀ before id t lease after, os = before ++ (id, .handed t lease) :: after →
    ∃ rest, publishedIDs os = settledIDs before ++ id :: rest

variable {g g' : Group} {os os' : List (Bytes × Occurrence)}

theorem Sequential.order_of_out (h : g.Sequential os) {id : Bytes} {rest : Multiset Bytes}
    (hout : g.outIDs = id ::ₘ rest) :
    rest = 0 ∧ publishedIDs os = settledIDs os ++ id :: g.readyIDs := by
  obtain ⟨out, hout', hlen, horder⟩ := h.order
  have hcard : rest.card + 1 = out.length := by
    rw [← Multiset.card_cons id, ← hout, hout', Multiset.coe_card]
  have hrest : rest = 0 := Multiset.card_eq_zero.mp (by omega)
  have hsingle : out = [id] := by
    rw [hrest, hout'] at hout
    exact List.perm_singleton.mp (Multiset.coe_eq_coe.mp hout)
  rw [hsingle, List.append_assoc] at horder
  exact ⟨hrest, horder⟩

theorem Sequential.delayed_nil (h : g.Sequential os) : g.delayed = [] := by
  apply List.eq_nil_iff_forall_not_mem.mpr
  intro m hm
  exact h.noDelayed (.delayed, m) (mem_slots_delayed.mpr hm) rfl

theorem served_append
    (hserved : ∀ before id t lease after, os = before ++ (id, .handed t lease) :: after → ∃ rest,
      publishedIDs os = settledIDs before ++ id :: rest) (hshort : os'.length ≤ 1)
    (hnew : ∀ id t lease, os' = [(id, .handed t lease)] → ∃ rest,
      publishedIDs os = settledIDs os ++ id :: rest) (before : List (Bytes × Occurrence))
    (id : Bytes) (t lease : Int) (after : List (Bytes × Occurrence))
    (hsplit : os ++ os' = before ++ (id, .handed t lease) :: after) :
    ∃ rest, publishedIDs (os ++ os') = settledIDs before ++ id :: rest := by
  have hpublished : publishedIDs (os ++ os') = publishedIDs os ++ publishedIDs os' :=
    idsOfKind_append _ _ _
  have hold : ∃ rest, publishedIDs os = settledIDs before ++ id :: rest := by
    rcases Lease.append_short_eq hshort hsplit with ⟨hos', rfl, -⟩ | ⟨after', -, hos⟩
    · exact hnew id t lease hos'
    · exact hserved before id t lease after' hos
  obtain ⟨rest, hrest⟩ := hold
  refine ⟨rest ++ publishedIDs os', ?_⟩
  rw [hpublished, hrest, List.append_assoc, List.cons_append]

theorem Sequential.enqueue (h : g.Sequential os) {m : Message} (hm : m.id ∉ publishedIDs os) :
    (g.enqueue m).Sequential (os ++ [(m.id, .published)]) := by
  obtain ⟨out, hout, hlen, horder⟩ := h.order
  have hslots := slots_appendReady g m h.sound.readyHead_le
  have hfresh : m.id ∉ g.ids := by
    intro hid
    obtain ⟨⟨loc, m'⟩, hm', hid⟩ := Multiset.mem_map.mp hid
    apply hm
    rw [horder, ← hid]
    by_cases hloc : loc = .ready
    · exact List.mem_append_right _ (mem_readyIDs.mpr ⟨m', hloc ▸ hm', rfl⟩)
    · have hmem := mem_outIDs hm' hloc
      rw [hout] at hmem
      exact List.mem_append_left _ (List.mem_append_right _ hmem)
  refine ⟨h.sound.enqueue hfresh, h.parallelism, ?_, ⟨out, ?_, hlen, ?_⟩, ?_⟩
  · intro x hx
    rw [Group.enqueue, hslots, Multiset.mem_cons] at hx
    rcases hx with rfl | hx
    · simp
    · exact h.noDelayed x hx
  · rw [← hout, outIDs, Group.enqueue, hslots, Multiset.filter_cons_of_neg _ (by simp), outIDs]
  · have hpublished : publishedIDs (os ++ [(m.id, .published)]) = publishedIDs os ++ [m.id] :=
      idsOfKind_append _ _ _
    have hsettled : settledIDs (os ++ [(m.id, .published)]) = settledIDs os :=
      idsOfKind_append_none rfl os
    rw [hpublished, hsettled, readyIDs_enqueue h.sound.readyHead_le, horder, List.append_assoc]
  · exact served_append h.served (by simp) (by simp)

theorem Sequential.quiet (h : g.Sequential os) (hsound : g'.Sound) (hcfg : g'.cfg.parallelism = 1)
    (hdelayed : ∀ x ∈ g'.slots, x.1 ≠ .delayed) (hout : g'.outIDs = g.outIDs)
    (hready : g'.readyIDs = g.readyIDs) (hshort : os'.length ≤ 1)
    (hpublished : publishedIDs os' = []) (hsettled : settledIDs os' = [])
    (hnew : ∀ id t lease, os' = [(id, .handed t lease)] → ∃ rest,
      publishedIDs os = settledIDs os ++ id :: rest) : g'.Sequential (os ++ os') := by
  obtain ⟨out, hout', hlen, horder⟩ := h.order
  refine ⟨hsound, hcfg, hdelayed, ⟨out, hout.trans hout', hlen, ?_⟩, ?_⟩
  · have hpublished' : publishedIDs (os ++ os') = publishedIDs os :=
      idsOfKind_append_none hpublished os
    have hsettled' : settledIDs (os ++ os') = settledIDs os := idsOfKind_append_none hsettled os
    rw [hpublished', hsettled', hready, horder]
  · exact served_append h.served hshort hnew

theorem Sequential.complete (h : g.Sequential os) (id : Bytes) :
    (g.complete id).1.Sequential (os ++ g.completes id) := by
  have hpublished : publishedIDs (os ++ g.completes id) = publishedIDs os :=
    idsOfKind_append_none (idsOfKind_completes rfl g id) os
  rcases complete_spec h.sound.toWf id with ⟨hnone, heq⟩ | ⟨m, rfl, hr, -⟩
  · rw [heq, completes, hnone, List.append_nil]
    exact h
  · obtain ⟨rest, hslots, hslots'⟩ := hr.slots
    rw [Option.toList_none, Multiset.coe_nil, zero_add] at hslots'
    obtain ⟨hrest, horder⟩ := h.order_of_out (outIDs_cons hslots (by simp))
    have hl : g.processing.get? m.id = some m :=
      (mem_slots_processing h.sound.keyed).mp (hslots ▸ Multiset.mem_cons_self _ _)
    have hcompletes : g.completes m.id = [(m.id, .settled)] := by rw [completes, hl]
    have hready : (g.complete m.id).1.readyIDs = g.readyIDs := by rw [readyIDs, hr.ready, readyIDs]
    refine ⟨h.sound.release hr, hr.cfg ▸ h.parallelism, ?_, ⟨[], ?_, by simp, ?_⟩, ?_⟩
    · intro x hx
      rw [hslots'] at hx
      exact h.noDelayed x (hslots ▸ Multiset.mem_cons_of_mem hx)
    · rw [outIDs, hslots', hrest]
      rfl
    · rw [hpublished, hready, horder, settledIDs, settledIDs, idsOfKind_append, hcompletes,
        List.append_nil, List.append_assoc]
      rfl
    · rw [hcompletes]
      exact served_append h.served (by simp) (by simp)

theorem Sequential.returnToPending (h : g.Sequential os) (id : Bytes) (hshort : os'.length ≤ 1)
    (hos' : ∀ o ∈ os', o.2 = .returned) : (g.returnToPending id).Sequential (os ++ os') := by
  have hpublished : publishedIDs os' = [] := idsOfKind_returned rfl hos'
  have hsettled : settledIDs os' = [] := idsOfKind_returned rfl hos'
  have hnew : ∀ id t lease, os' = [(id, .handed t lease)] →
      ∃ rest, publishedIDs os = settledIDs os ++ id :: rest := by
    intro id t lease heq
    have hret := hos' (id, .handed t lease) (heq ▸ List.mem_cons_self)
    cases hret
  rcases returnToPending_spec h.sound.toWf id with ⟨-, heq⟩ | ⟨m, rfl, hr⟩
  · rw [heq]
    exact h.quiet h.sound h.parallelism h.noDelayed rfl rfl hshort hpublished hsettled hnew
  · obtain ⟨rest, hslots, hslots'⟩ := hr.slots
    have hslots'' : (g.returnToPending m.id).slots =
        (.urgent, { m with state := .pending }) ::ₘ rest := hslots'
    refine h.quiet (h.sound.release hr) (hr.cfg ▸ h.parallelism) ?_ ?_ ?_ hshort
      hpublished hsettled hnew
    · intro x hx
      rw [hslots'', Multiset.mem_cons] at hx
      rcases hx with rfl | hx
      · simp
      · exact h.noDelayed x (hslots ▸ Multiset.mem_cons_of_mem hx)
    · rw [outIDs_cons hslots'' (by simp), outIDs_cons hslots (by simp)]
    · rw [readyIDs, hr.ready, readyIDs]

theorem Sequential.sweepGroup (h : g.Sequential os) (ord : RangeOrder) (now : Int) :
    (Queue.sweepGroup ord now g).Sequential os := by
  unfold Queue.sweepGroup
  induction Queue.expiredIDs g ord now generalizing g with
  | nil => exact h
  | cons id l ih =>
    have hret : (g.returnToPending id).Sequential (os ++ []) :=
      h.returnToPending id (by simp) (by simp)
    rw [List.append_nil] at hret
    exact ih hret

theorem outIDs_eq (g : Group) :
    g.outIDs = (g.liveUrgent.reduceOption.map Message.id : Multiset Bytes) +
      (g.delayed.map Message.id : Multiset Bytes) + g.inFlight.map Message.id := by
  have hall : ∀ loc : Loc, loc ≠ .ready → ∀ ms : Multiset Message,
      (held loc ms).filter (fun x => x.1 ≠ .ready) = held loc ms := by
    intro loc hloc ms
    apply Multiset.filter_eq_self.mpr
    rintro ⟨loc', m⟩ hm
    exact (mem_held.mp hm).1 ▸ hloc
  have hnone : ∀ ms : Multiset Message, (held .ready ms).filter (fun x => x.1 ≠ .ready) = 0 := by
    intro ms
    apply Multiset.filter_eq_nil.mpr
    rintro ⟨loc', m⟩ hm
    simp [(mem_held.mp hm).1]
  rw [outIDs, slots, Multiset.filter_add, Multiset.filter_add, Multiset.filter_add, hnone,
    hall _ (by simp), hall _ (by simp), hall _ (by simp), add_zero]
  simp [held, Multiset.map_map, Function.comp_def]

theorem ids_eq_out (g : Group) : g.ids = g.outIDs + (g.readyIDs : Multiset Bytes) := by
  rw [ids_eq, outIDs_eq, readyIDs]
  abel

theorem Sequential.promoteDelayed (h : g.Sequential os) (ord : RangeOrder) (now : Int) :
    (g.promoteDelayed ord now).1.Sequential os := by
  obtain ⟨expired, due, hp⟩ := promoteDelayed_spec g ord now
  have hempty := h.delayed_nil
  have hsum : (due : Multiset Message) + (g.promoteDelayed ord now).1.delayed = 0 := by
    rw [← hp.delayed, hempty, Multiset.coe_nil]
  rw [Multiset.coe_add, Multiset.coe_eq_zero, List.append_eq_nil_iff] at hsum
  obtain ⟨hdue, hdelayed⟩ := hsum
  rw [← List.append_nil os]
  refine h.quiet (h.sound.serve (hp.serves h.sound.toWf)) (hp.cfg ▸ h.parallelism)
    ?_ ?_ ?_ (by simp) rfl rfl (by simp)
  · rintro ⟨loc, m⟩ hx rfl
    have hm := mem_slots_delayed.mp hx
    rw [hdelayed] at hm
    cases hm
  · have hurgent : (g.promoteDelayed ord now).1.liveUrgent =
        g.liveUrgent ++ expired.map fun m => some { m with state := .pending } := by
      rw [liveUrgent, hp.urgent, hp.urgentHead, List.drop_append_of_le_length h.sound.urgentHead_le]
      rfl
    have hexpired : (expired.map fun m => some { m with state := .pending }).reduceOption.map
        Message.id = expired.map Message.id := by
      have hsome : (expired.map fun m => some { m with state := .pending }) =
          (expired.map fun m => { m with state := .pending }).map some := List.map_map.symm
      rw [hsome, reduceOption_map_some, List.map_map]
      rfl
    rw [outIDs_eq, outIDs_eq, hurgent, List.reduceOption_append, List.map_append, hexpired,
      hdelayed, hempty, hp.inFlight, Multiset.map_add, ← Multiset.coe_add, Multiset.map_coe]
    simp only [List.map_nil, Multiset.coe_nil, add_zero]
    rw [add_assoc]
  · rw [hp.readyIDs h.sound.readyHead_le, hdue]
    exact List.append_nil _

theorem Sequential.nextDispatchable (h : g.Sequential os) {now : Int} {d : Dispatch}
    (hd : g.nextDispatchable now = .ok (g', d)) :
    g'.Sequential (os ++ g.hands now d.msg.toList) := by
  have hw := h.sound.toWf
  have hdisp := nextDispatchable_ok hd hw.readyHead_le
  have hslots := hdisp.slots hw
  have hsound : g'.Sound := h.sound.serve (hdisp.serves hw)
  have hcfg : g'.cfg.parallelism = 1 := nextDispatchable_cfg hd ▸ h.parallelism
  have hpublished : publishedIDs (g.hands now d.msg.toList) = [] :=
    idsOfKind_hands (fun _ _ => rfl) _ _ _
  have hsettled : settledIDs (g.hands now d.msg.toList) = [] :=
    idsOfKind_hands (fun _ _ => rfl) _ _ _
  have hshort : (g.hands now d.msg.toList).length ≤ 1 := by
    rw [hands, List.length_map]
    cases d.msg <;> simp
  have hdelayed : ∀ x ∈ g'.slots, x.1 ≠ .delayed := by
    rintro ⟨loc, m⟩ hx
    rcases hdisp.mem hx with hx | ⟨rfl, -⟩
    · exact h.noDelayed _ hx
    · simp
  cases hdisp with
  | urgent m msg urgent ready processing allocated frame =>
    have hm : (.urgent, m) ∈ g.slots := mem_slots_urgent.mpr (urgent ▸ List.mem_cons_self)
    have hout : g.outIDs = m.id ::ₘ ((g'.liveUrgent.reduceOption.map Message.id : Multiset Bytes) +
        (g.delayed.map Message.id : Multiset Bytes) + g.inFlight.map Message.id) := by
      rw [outIDs_eq, urgent, List.reduceOption_cons_of_some, List.map_cons, ← Multiset.cons_coe,
        Multiset.cons_add, Multiset.cons_add]
    refine h.quiet hsound hcfg hdelayed ?_ ?_ hshort hpublished hsettled ?_
    · rw [hout, outIDs_eq, frame.delayed, inFlight_lease hw hm (by simp) processing,
        Multiset.map_cons, Multiset.add_cons, leased_id]
    · rw [readyIDs, ready, readyIDs]
    · intro id t lease heq
      rw [msg] at heq
      cases heq
      exact ⟨_, (h.order_of_out hout).2⟩
  | ready m k msg urgent urgent' ready processing allocated frame =>
    have hm : (.ready, m) ∈ g.slots :=
      mem_slots_ready.mpr (ready ▸ List.mem_append_right _ List.mem_cons_self)
    -- below the parallelism there is nothing out of `ready`
    have hfree : g.processing.table.entries = [] := by
      rcases nextDispatchable_capacity hd with hnone | hlt
      · rw [msg] at hnone
        cases hnone
      · rw [h.parallelism] at hlt
        exact List.length_eq_zero_iff.mp (show g.processing.len = 0 by omega)
    have hnone : g.outIDs = 0 := by
      rw [outIDs_eq, urgent, h.delayed_nil, inFlight, Map.values, hfree]
      rfl
    obtain ⟨out, hout, -, horder⟩ := h.order
    have horder' : publishedIDs os = settledIDs os ++ m.id :: g'.readyIDs := by
      rw [hnone] at hout
      rw [horder, readyIDs_served ready, (Multiset.coe_eq_zero out).mp hout.symm, List.append_nil]
    refine ⟨hsound, hcfg, hdelayed, ⟨[m.id], ?_, by simp, ?_⟩, served_append h.served hshort ?_⟩
    · rw [outIDs_eq, urgent, h.delayed_nil] at hnone
      rw [outIDs_eq, urgent', frame.delayed, h.delayed_nil,
        inFlight_lease hw hm (by simp) processing, Multiset.map_cons, Multiset.add_cons, hnone,
        leased_id]
      rfl
    · have hpublished' : publishedIDs (os ++ g.hands now d.msg.toList) = publishedIDs os :=
        idsOfKind_append_none hpublished os
      have hsettled' : settledIDs (os ++ g.hands now d.msg.toList) = settledIDs os :=
        idsOfKind_append_none hsettled os
      rw [hpublished', hsettled', horder', List.append_assoc]
      rfl
    · intro id t lease heq
      rw [msg] at heq
      cases heq
      exact ⟨_, horder'⟩
  | refused msg urgent ready processing frame =>
    have hslots' : g'.slots = g.slots := by
      rcases hslots with ⟨-, hslots⟩ | ⟨loc, m, rest, hmsg, -⟩
      · exact hslots
      · rw [msg] at hmsg
        cases hmsg
    refine h.quiet hsound hcfg hdelayed ?_ (readyIDs_refused ready) hshort hpublished hsettled ?_
    · rw [outIDs, hslots', outIDs]
    · intro id t lease heq
      rw [msg] at heq
      cases heq

theorem Sequential.act (h : g.Sequential os) [PathMatch] {op : LiveOp} {key : Bytes} {a : GroupAct}
    (hfail : op.failKey ≠ some key)
    (hcfg : ∀ c : GroupConfig, op = .setGroupConfig c → c.AppliesTo key → c.parallelism = 1)
    (hdoes : op.Does key a) (hact : g.act a = .ok (g', os')) : g'.Sequential (os ++ os') := by
  cases a with
  | complete id =>
    cases hact
    exact h.complete id
  | fail id errMsg now => exact absurd hdoes.1 hfail
  | returnToPending id =>
    cases hact
    exact h.returnToPending id (by simp) (by simp)
  | promoteDelayed ord now =>
    cases hact
    rw [List.append_nil]
    exact h.promoteDelayed ord now
  | sweepGroup ord now =>
    cases hact
    rw [List.append_nil]
    exact h.sweepGroup ord now
  | nextDispatchable now =>
    obtain ⟨⟨g₁, d⟩, hd, hret⟩ := bind_ok.mp hact
    cases hret
    exact h.nextDispatchable hd
  | setCounters deficit quantum =>
    cases hact
    rw [List.append_nil]
    exact ⟨h.sound.setCounters deficit quantum, h.parallelism, h.noDelayed, h.order, h.served⟩
  | applyConfig cfg key' =>
    cases hact
    rw [List.append_nil]
    obtain ⟨c, hop, happlies, hparallelism⟩ := hdoes
    have hone : (Queue.applyConfig cfg key' g).cfg.parallelism = 1 :=
      hparallelism.trans (hcfg c hop happlies)
    exact ⟨h.sound.applyConfig cfg key', hone, h.noDelayed, h.order, h.served⟩

theorem Sequential.ofNewGroup {cfg : GroupConfig} (hcfg : cfg.parallelism = 1)
    (hnew : newGroup cfg = .ok g) (hos : ∀ o ∈ os, o.2 = .returned) : g.Sequential os := by
  obtain ⟨hdefaults, hslots, hready, -⟩ := newGroup_ok hnew
  refine ⟨.ofNewGroup hnew, ?_, by simp [hslots], ⟨[], ?_, by simp, ?_⟩, ?_⟩
  · rw [hdefaults, GroupConfig.withDefaults]
    simp [hcfg]
  · rw [outIDs, hslots]
    rfl
  · rw [publishedIDs, settledIDs, idsOfKind_returned rfl hos, idsOfKind_returned rfl hos, readyIDs,
      hready]
    rfl
  · intro before id t lease after hsplit
    have hret := hos (id, .handed t lease) (hsplit ▸ List.mem_append_right _ List.mem_cons_self)
    cases hret

end Group

theorem LiveOp.configure_oneAtATime [PathMatch] {key : Bytes} {op : LiveOp}
    (hcfg : ∀ c : GroupConfig, op = .setGroupConfig c → c.AppliesTo key → c.parallelism = 1)
    {ci : ConfigIdx} (h : ci.OneAtATime key) : (op.configure ci).OneAtATime key := by
  cases op with
  | setGroupConfig c =>
    apply h.set
    intro happlies
    by_cases hq : c.quantum ≤ 0
    · rw [if_pos hq] at happlies ⊢
      exact hcfg c rfl happlies
    · rw [if_neg hq] at happlies ⊢
      exact hcfg c rfl happlies
  | deleteGroupConfig k => exact h.del k
  | _ => exact h

/-- In a group of parallelism 1 none of whose messages fails, a message is handed out only when
every message accepted before it is settled, and messages settle in the order of their
publishing. -/
theorem sequential_group_completes_in_order [PathMatch] {name ns key : Bytes} {ops : List LiveOp}
    {s : WatchedRun} (hids : (ops.filterMap LiveOp.publishID).Nodup)
    (hcfg : ∀ c : GroupConfig, .setGroupConfig c ∈ ops → c.AppliesTo key → c.parallelism = 1)
    (hfail : ∀ op ∈ ops, op.failKey ≠ some key) (h : runWatched name ns ops = .ok s) :
    (∀ before id t lease after,
      happeningsOf key s.history = before ++ (id, .handed t lease) :: after →
      ∀ earlier id' between later,
        publishedIDs (happeningsOf key s.history) = earlier ++ id' :: between ++ id :: later →
        (id', .settled) ∈ before) ∧
    settledIDs (happeningsOf key s.history) <+: publishedIDs (happeningsOf key s.history) := by
  have hI : GroupInvariant ops key (ConfigIdx.OneAtATime key) Group.Sequential := by
    have hcfg' : ∀ op ∈ ops, ∀ c : GroupConfig, op = .setGroupConfig c → c.AppliesTo key →
        c.parallelism = 1 := fun op hop c heq happlies => hcfg c (heq ▸ hop) happlies
    refine ⟨?_, ?_, ?_, ?_⟩
    · intro op hop ci hci
      exact LiveOp.configure_oneAtATime (hcfg' op hop) hci
    · intro q hq g os hnew hos
      exact .ofNewGroup hq.resolveConfig hnew hos
    · intro g os m hg hm
      exact hg.enqueue hm
    · intro op hop a hdoes g os g' os' hg hact
      exact hg.act (hfail op hop) (hcfg' op hop) hdoes hact
  have hnew : newConfigIdx.OneAtATime key := by
    refine ⟨?_, ?_⟩
    · intro c hl
      cases hl
    · intro c hc
      cases hc
  have hfollows := runWatched_follows hI hnew hids h
  cases hl : s.queue.groups.lookup key with
  | none =>
    have hnone : settledIDs (happeningsOf key s.history) = [] :=
      idsOfKind_returned rfl (hfollows.absent hl)
    refine ⟨?_, hnone ▸ List.nil_prefix⟩
    intro before id t lease after hsplit
    have hret :=
      hfollows.absent hl (id, .handed t lease) (hsplit ▸ List.mem_append_right _ List.mem_cons_self)
    cases hret
  | some g =>
    have hg := hfollows.present g hl
    obtain ⟨out, -, -, horder⟩ := hg.order
    refine ⟨?_, ⟨out ++ g.readyIDs, by rw [horder, List.append_assoc]⟩⟩
    intro before id t lease after hsplit earlier id' between later hpublished
    obtain ⟨rest, hrest⟩ := hg.served before id t lease after hsplit
    have hnodup : (publishedIDs (happeningsOf key s.history)).Nodup := hfollows.fresh.of_append_left
    rw [hrest] at hnodup hpublished
    -- the identifier occurs once, so both say what was accepted before it
    obtain ⟨hbefore, -⟩ := (List.append_cons_inj_of_notMem
      (fun hmem => (List.nodup_middle.mp hnodup).notMem (List.mem_append_left _ hmem))
      (fun hmem => (List.nodup_middle.mp hnodup).notMem (List.mem_append_right _ hmem))).mp
        hpublished
    have hsettled : id' ∈ settledIDs before := by
      rw [hbefore]
      exact List.mem_append_right _ List.mem_cons_self
    obtain ⟨o, ho, hkind⟩ := mem_idsOfKind.mp hsettled
    cases o with
    | settled => exact ho
    | _ => cases hkind

/-- Two messages of a sequential group; the first is returned, its lease expires, and a completion
of the second comes too early. -/
def sequentialOps : List LiveOp :=
  [.setGroupConfig { defaultGroupConfig (str "g") with quantum := 0 },
    .publishWithID (str "g") (str "a") [] 0, .publish (str "g") [] (str "b") 1,
    .drainGroup (str "g") .inOrder 2, .complete (str "g") (str "b"),
      .returnToPending (str "g") (str "a"),
    .tryDispatchOne (str "g") .inOrder 3, .sweepExpiredLeases .inOrder 9000000000000,
    .tryDispatchOne (str "g") .inOrder 9000000000001,
    .completeAndNext (str "g") (str "a") .inOrder 9000000000002]

theorem sequential_group_completes_in_order_sample :
    ∃ s before, @runWatched literalMatch [] [] sequentialOps = .ok s ∧
      happeningsOf (str "g") s.history = before ++ [(str "b", .handed 9000000000002 300000000000)] ∧
      (str "a", .settled) ∈ before ∧
      settledIDs (happeningsOf (str "g") s.history) <+:
        publishedIDs (happeningsOf (str "g") s.history) := by
  obtain ⟨s, hs, hhistory, hpublished⟩ : ∃ s, @runWatched literalMatch [] [] sequentialOps = .ok s ∧
      happeningsOf (str "g") s.history = [(str "a", .published), (str "b", .published),
        (str "a", .handed 2 300000000000), (str "a", .returned), (str "a", .handed 3 300000000000),
        (str "a", .handed 9000000000001 300000000000), (str "a", .settled)] ++
          [(str "b", .handed 9000000000002 300000000000)] ∧
      publishedIDs (happeningsOf (str "g") s.history) = [] ++ str "a" :: [] ++ str "b" :: [] :=
    ⟨_, rfl, by decide +kernel, by decide +kernel⟩
  have hcfg : ∀ c : GroupConfig, .setGroupConfig c ∈ sequentialOps →
      @GroupConfig.AppliesTo literalMatch c (str "g") → c.parallelism = 1 := by
    intro c hc _
    simp only [sequentialOps, List.mem_cons, reduceCtorEq, List.not_mem_nil, or_false,
      LiveOp.setGroupConfig.injEq] at hc
    rw [hc]
    rfl
  have h :=
    @sequential_group_completes_in_order literalMatch [] [] (str "g") sequentialOps
      s (by decide) hcfg
    (by decide) hs
  exact ⟨s, _, hs, hhistory, h.1 _ _ _ _ _ hhistory _ _ _ _ hpublished, h.2⟩

end Octar
