import Octar.Broker.Activation

namespace Octar

open Go Threads

namespace Group

variable {g g' g'' : Group} {now : Int} {batch : List Message}

def Leases (batch : List Message) (g g' : Group) : Prop :=
  ∀ id, (g'.processing.get? id).isSome → (g.processing.get? id).isSome ∨ ∃ m ∈ batch, m.id = id

theorem Leases.refl (batch : List Message) (g : Group) : g.Leases batch g := fun _ h => .inl h

theorem Leases.trans {batch' : List Message} (h : g.Leases batch g') (h' : g'.Leases batch' g'') :
    g.Leases (batch ++ batch') g'' := by
  intro id hid
  rcases h' id hid with hid | ⟨m, hm, rfl⟩
  · refine (h id hid).imp_right ?_
    rintro ⟨m, hm, rfl⟩
    exact ⟨m, List.mem_append_left _ hm, rfl⟩
  · exact .inr ⟨m, List.mem_append_right _ hm, rfl⟩

theorem leases_delete {id : Bytes} (hg : g'.processing = g.processing.delete id) :
    g.Leases [] g' := by
  intro id' hid'
  rw [hg] at hid'
  obtain ⟨m, hm⟩ := Option.isSome_iff_exists.mp hid'
  refine .inl (Option.isSome_iff_exists.mpr ⟨m, ?_⟩)
  exact (lookup_delete hm).1

theorem complete_leases (g : Group) (id : Bytes) : g.Leases [] (g.complete id).1 := by
  unfold complete
  split
  · exact .refl [] g
  · exact leases_delete rfl

theorem returnToPending_leases (g : Group) (id : Bytes) : g.Leases [] (g.returnToPending id) := by
  unfold returnToPending
  split
  · exact .refl [] g
  · exact leases_delete rfl

theorem returnToPending_get? (g : Group) (id : Bytes) :
    (g.returnToPending id).processing.get? id = none := by
  unfold returnToPending
  split
  · assumption
  · change (g.processing.delete id).table.lookup id = none
    rw [NilMap.table_delete, AList.lookup_erase]

theorem sweepGroup_leases (g : Group) (ord : RangeOrder) (now : Int) :
    g.Leases [] (Queue.sweepGroup ord now g) := by
  unfold Queue.sweepGroup
  induction Queue.expiredIDs g ord now generalizing g with
  | nil => exact .refl [] g
  | cons id l ih => exact (returnToPending_leases g id).trans (ih _)

theorem promoteDelayed_leases (g : Group) (ord : RangeOrder) (now : Int) :
    g.Leases [] (g.promoteDelayed ord now).1 := by
  obtain ⟨expired, due, h⟩ := promoteDelayed_spec g ord now
  intro id hid
  obtain ⟨m, hm⟩ := Option.isSome_iff_exists.mp hid
  refine .inl (Option.isSome_iff_exists.mpr ⟨m, ?_⟩)
  exact Option.eq_some_of_filter_eq_some ((h.lookup id).symm.trans hm)

theorem fail_leases {id errMsg : Bytes} {dlq : Option Message}
    (h : g.fail id errMsg now = .ok (g', dlq)) :
    g.Leases [] g' := by
  cases fail_cases h with
  | absent none same letter =>
    subst same
    exact .refl [] _
  | retries m delay found more delayed put letter =>
    subst put
    exact leases_delete rfl
  | drops m found exhausted dropped letter =>
    subst dropped
    exact leases_delete rfl

theorem nextDispatchable_leases {d : Dispatch} (hr : g.readyHead ≤ g.ready.length)
    (h : g.nextDispatchable now = .ok (g', d)) : g.Leases d.msg.toList g' := by
  have hinsert : ∀ {m : Message},
      g'.processing = some (g.processing.table.insert m.id (g.leased m now)) →
        d.msg = some (g.leased m now) → g.Leases d.msg.toList g' := by
    intro m hp hmsg id hid
    rw [hp] at hid
    obtain ⟨m', hm'⟩ := Option.isSome_iff_exists.mp hid
    rcases lookup_insert hm' with hold | ⟨rfl, -⟩
    · exact .inl (Option.isSome_iff_exists.mpr ⟨m', hold⟩)
    · refine .inr ⟨g.leased m now, ?_, rfl⟩
      rw [hmsg]
      exact List.mem_singleton_self _
  cases nextDispatchable_ok h hr with
  | urgent m msg urgent ready processing allocated frame => exact hinsert processing msg
  | ready m k msg urgent urgent' ready processing allocated frame => exact hinsert processing msg
  | refused msg urgent ready processing frame =>
    intro id hid
    rw [processing] at hid
    exact .inl hid

theorem promoteNext_leases {P : Loc × Message → Prop} (hP : Closed P) (hg : g.Each P)
    {ord : RangeOrder} {msg : Option Message}
    (h : (g.promoteDelayed ord now).1.next now = .ok (g', msg)) :
    g.Leases msg.toList g' := by
  obtain ⟨⟨g₁, d⟩, hd, hret⟩ := bind_ok.mp h
  cases hret
  exact (promoteDelayed_leases g ord now).trans
    (nextDispatchable_leases (hg.promoteDelayed hP ord now).readyHead_le hd)

theorem drainRound_leases {P : Loc × Message → Prop} (hP : Closed P) (hg : g.Each P)
    {ord : RangeOrder} {r : DrainResult} (h : g.drainRound ord now = .ok (g', r)) :
    g.Leases (r.ready.getD []) g' := by
  refine (drainRound_induct (motive := fun g' batch => g'.Each P ∧ g.Leases batch g') ?_ ?_
    ⟨hg.promoteDelayed hP ord now, promoteDelayed_leases g ord now⟩ h).2
  · intro g₁ g₂ d batch ⟨h₁, hleases⟩ hd
    exact ⟨(h₁.nextDispatchable hP hd).1,
      hleases.trans (nextDispatchable_leases h₁.readyHead_le hd)⟩
  · intro g₁ batch deficit quantum ⟨h₁, hleases⟩
    exact ⟨h₁.setCounters deficit quantum, hleases⟩

end Group

def Cmd.handedOut : (c : Cmd) → c.Answer → List (GroupRef × Message)
  | .failAndNext g _ _, r => r.2.toList.map (Prod.mk g)
  | c, r => c.messages r

theorem Cmd.Changes.leases {ch : Choice} {g : GroupRef} {c : Cmd} {r : c.Answer} {G G' : Group}
    (h : c.Changes ch g r G G') (hG : G.Each fun x => x.2.ref = g) {id : Bytes}
    (hid : (G'.processing.get? id).isSome) :
    (G.processing.get? id).isSome ∨ ∃ m, (g, m) ∈ c.handedOut r ∧ m.id = id := by
  have hP := closed_ref g
  have hof : ∀ {batch : List Message}, G.Leases batch G' → (∀ m ∈ batch, (g, m) ∈ c.handedOut r) →
      (G.processing.get? id).isSome ∨ ∃ m, (g, m) ∈ c.handedOut r ∧ m.id = id := by
    intro batch hleases hbatch
    refine (hleases id hid).imp_right ?_
    rintro ⟨m, hm, rfl⟩
    exact ⟨m, hbatch m hm, rfl⟩
  have hnone : ∀ m ∈ ([] : List Message), (g, m) ∈ c.handedOut r := fun _ hm => (nomatch hm)
  cases h with
  | refused => exact .inl hid
  | accepted => exact .inl hid
  | dispatched next =>
    exact hof (Group.promoteNext_leases hP hG next) fun m hm => List.mem_map_of_mem hm
  | completed msgID next =>
    exact hof ((Group.complete_leases G msgID).trans
      (Group.promoteNext_leases hP (hG.complete msgID) next))
      fun m hm => List.mem_map_of_mem hm
  | failed msgID reason fail target next =>
    exact hof ((Group.fail_leases fail).trans (Group.promoteNext_leases hP (hG.fail hP fail) next))
      fun m hm => List.mem_map_of_mem hm
  | drained drain =>
    exact hof (Group.drainRound_leases hP hG drain) fun m hm => List.mem_map_of_mem hm
  | returned msgID => exact hof (Group.returnToPending_leases G msgID) hnone
  | swept shard listed => exact hof (Group.sweepGroup_leases G ch.ord ch.now) hnone

namespace Runtime

def Leased (s : Runtime) (d : GroupRef × Bytes) : Prop :=
  ∃ G, s.group d.1 = some G ∧ (G.processing.get? d.2).isSome

def InChannel (s : Runtime) (d : GroupRef × Bytes) : Prop :=
  ∃ c ∈ s.dispatchChs, ∃ m ∈ c.buf, (m.ref, m.id) = d

structure Unseen (s : Runtime) (d : GroupRef × Bytes) : Prop where
  leased : s.Leased d
  channel : ¬ s.InChannel d
  written : d ∉ s.written

end Runtime

section Handle

variable [PathMatch] {ch : Choice} {c : Cmd} {s s' : Runtime} {r : c.Answer} {d : GroupRef × Bytes}

theorem Cmd.handle_leased (hs : s.Placed) (h : c.handle ch s = .ok (s', r)) (hd : s'.Leased d) :
    s.Leased d ∨ ∃ m, (d.1, m) ∈ c.handedOut r ∧ m.id = d.2 := by
  obtain ⟨G', hG', hid⟩ := hd
  rcases handle_group hs.named h d.1 with ⟨hsame, -⟩ | ⟨G, G₁, hG, hG₁, hchanges⟩
  · exact .inl ⟨G', hsame ▸ hG', hid⟩
  · cases hG'.symm.trans hG₁
    refine (hchanges.leases (hs.found hG).1 hid).imp_left fun hold => ?_
    cases hG with
    | old hG => exact ⟨G, hG, hold⟩
    | new _ _ made _ =>
      have hempty : G.Each fun _ => False := .ofNewGroup made
      obtain ⟨m, hm⟩ := Option.isSome_iff_exists.mp hold
      exact (hempty.leases d.2 m hm).2.elim

theorem Cmd.handle_channel (h : c.handle ch s = .ok (s', r)) (hd : s.InChannel d) :
    s'.InChannel d := by
  by_cases hc : c.part = .channels
  case neg =>
    unfold Runtime.InChannel
    rwa [(handle_frame h).dispatchChs hc]
  cases c with
  | enqueueDispatch msg =>
    obtain ⟨_, ch₀, -, hch, ⟨-, rfl, -⟩ | ⟨-, rfl⟩⟩ := Cmd.handle_enqueueDispatch h
    · exact hd
    · obtain ⟨c, hc, m, hm, heq⟩ := hd
      rcases mem_set_or hch hc { ch₀ with buf := ch₀.buf ++ [msg] } with rfl | hc
      · exact ⟨_, mem_set_self hch _, m, List.mem_append_left _ hm, heq⟩
      · exact ⟨c, hc, m, hm, heq⟩
  | _ => cases hc

theorem Cmd.handle_written (h : c.handle ch s = .ok (s', r)) (hd : d ∈ s.written) :
    d ∈ s'.written ∨ ∃ m, (d.1, m) ∈ c.handedOut r ∧ m.id = d.2 := by
  have hleased : ∀ {s₁ : Runtime} {g : GroupRef} {msgs : List Message}, s₁.written = s.written →
      c.handedOut r = msgs.map (Prod.mk g) →
      d ∈ (s₁.leased g msgs).written ∨ ∃ m, (d.1, m) ∈ c.handedOut r ∧ m.id = d.2 := by
    intro s₁ g msgs hs₁ hout
    by_cases hmem : d ∈ msgs.map fun m => (g, m.id)
    · obtain ⟨m, hm, rfl⟩ := List.mem_map.mp hmem
      exact .inr ⟨m, hout ▸ List.mem_map_of_mem hm, rfl⟩
    · refine .inl (List.mem_filter.mpr ⟨hs₁ ▸ hd, ?_⟩)
      simpa using hmem
  by_cases hc : c.part = .queues ∨ c.part = .conns
  case neg =>
    rw [not_or] at hc
    rw [(handle_frame h).written hc.1 hc.2]
    exact .inl hd
  cases c with
  | publishLocked | indexKey | returnToPending | sweepShard =>
    simp only [Cmd.handle] at h
    obtain ⟨q, q', -, -, rfl⟩ := Runtime.atQueue_ok h
    exact .inl hd
  | tryDispatchOne | completeAndNext | failAndNext | drainGroup =>
    obtain ⟨⟨s₁, r₁⟩, h₁, hret⟩ := bind_ok.mp h
    cases hret
    obtain ⟨q, q', -, -, rfl⟩ := Runtime.atQueue_ok h₁
    exact hleased rfl rfl
  | acquireCredit | releaseCredit | inflight | writeOrDrop | writeOrWait | close =>
    obtain ⟨c, c', -, -, rfl⟩ := Runtime.atConn_ok h
    exact .inl hd
  | writeMessage =>
    obtain ⟨⟨s₁, sent⟩, h₁, hret⟩ := bind_ok.mp h
    obtain ⟨c, c', -, -, rfl⟩ := Runtime.atConn_ok h₁
    cases hret
    refine .inl ?_
    split
    · exact List.mem_append_left _ hd
    · exact hd
  | _ => rcases hc with hc | hc <;> cases hc

end Handle

def Cmd.settles (handsOn : Bool) (d : GroupRef × Bytes) : (c : Cmd) → c.Answer → Prop
  | .enqueueDispatch msg, sent => (msg.ref, msg.id) = d ∧ (sent = true ∨ handsOn = true)
  | .returnToPending g msgID, _ => (g, msgID) = d
  | .writeMessage _ msg, sent => (msg.ref, msg.id) = d ∧ sent = true
  | .getQueue ns name, found => (ns, name) = (d.1.ns, d.1.queue) ∧ found = false
  | _, _ => False

def leaseDuties : Duties Task Cmd Cmd.Answer (GroupRef × Bytes) where
  possible := Cmd.Possible
  mine t d := ∀ m, t = .dispatch m → d = (m.ref, m.id)
  incurs _ d c r := ∃ m, (d.1, m) ∈ c.handedOut r ∧ m.id = d.2
  discharges t d c r := c.settles t.handsOn d r

abbrev SeesTo (t : Task) (d : GroupRef × Bytes) {α : Type} (p : Program α) : Prop :=
  p.Owes Cmd.Possible fun c r => c.settles t.handsOn d r

section SeesTo

variable {t : Task}

theorem handBack_seesTo (m : Message) : SeesTo t (m.ref, m.id) (handBack m) := by
  intro found _
  cases found with
  | false => exact .inl ⟨rfl, rfl⟩
  | true => exact .inr fun _ _ => .inl rfl

theorem dispatch_seesTo (m : Message) : SeesTo t (m.ref, m.id) (dispatch m) := by
  have hback : ∀ f : Unit → Program Unit, SeesTo t (m.ref, m.id) (handBack m >>= f) :=
    fun f => (handBack_seesTo m).bind_left f
  intro conn _
  refine .inr ?_
  cases conn with
  | none => exact handBack_seesTo m
  | some conn =>
    intro counted _
    refine .inr ?_
    cases counted with
    | false => exact fun _ _ => .inr (hback _)
    | true =>
      intro credit _
      refine .inr ?_
      cases credit with
      | false => exact fun _ _ => .inr fun _ _ => .inr (hback _)
      | true =>
        intro sent _
        cases sent with
        | true => exact .inl ⟨rfl, rfl⟩
        | false => exact .inr fun _ _ => .inr fun _ _ => .inr (hback _)

theorem returnAll_seesTo (g : GroupRef) {msgs : List Message} {m : Message} (hm : m ∈ msgs) :
    SeesTo t (g, m.id) (returnAll g msgs) := by
  induction msgs with
  | nil => cases hm
  | cons msg msgs ih =>
    intro _ _
    rcases List.mem_cons.mp hm with rfl | hm
    · exact .inl rfl
    · exact .inr (ih hm)

theorem offerAll_seesTo (g : GroupRef) {msgs : List Message} (hmsgs : ∀ m ∈ msgs, m.ref = g)
    {m : Message} (hm : m ∈ msgs) : SeesTo t (g, m.id) (offerAll g msgs) := by
  induction msgs with
  | nil => cases hm
  | cons msg msgs ih =>
    have hback := (returnAll_seesTo (t := t) g hm).bind_left fun _ => (pure false : Program Bool)
    intro sent _
    cases sent with
    | false => exact .inr hback
    | true =>
      rcases List.mem_cons.mp hm with rfl | hm
      · exact .inl ⟨Prod.ext (hmsgs _ List.mem_cons_self) rfl, .inl rfl⟩
      · exact .inr (ih (fun m hm => hmsgs m (List.mem_cons_of_mem _ hm)) hm)

theorem dispatchNext_seesTo (ht : t.handsOn = true) (m : Message) :
    SeesTo t (m.ref, m.id) (dispatchNext (some m)) :=
  fun _ _ => .inl ⟨rfl, .inr ht⟩

end SeesTo

theorem Cmd.Idle.handedOut {c : Cmd} (h : c.Idle) (r : c.Answer) : c.handedOut r = [] := by
  cases c <;> first | rfl | exact h.elim

section Part

variable {t : Task}

theorem ordinary_leases {c : Cmd} (h : ∀ r, c.handedOut r = []) :
    Prog.Ordinary Cmd.Possible (fun _ => True) (leaseDuties.SeenTo t) c := by
  refine Duties.ordinary (Δ := leaseDuties) ?_
  rintro d r ⟨m, hm, -⟩
  rw [h r] at hm
  cases hm

theorem part_command {α : Type} {c : Cmd} {f : c.Answer → Program α} (hc : ∀ r, c.handedOut r = [])
    (hf : ∀ r, c.Possible r → leaseDuties.Part t (f r)) : leaseDuties.Part t (command c >>= f) :=
  .call (ordinary_leases hc) hf

theorem part_lease {α : Type} {c : Cmd} {f : c.Answer → Program α} (ht : ∀ m, t ≠ .dispatch m)
    (hsees : ∀ r, c.Possible r → ∀ x ∈ c.handedOut r, SeesTo t (x.1, x.2.id) (f r))
    (hf : ∀ r, c.Possible r → leaseDuties.Part t (f r)) : leaseDuties.Part t (command c >>= f) := by
  refine Duties.part_call ?_ hf
  rintro r hr ⟨g, id⟩ ⟨m, hm, rfl⟩
  exact ⟨fun m' h => absurd h (ht m'), hsees r hr _ hm⟩

theorem dispatchOne_part (ht : ∀ m, t ≠ .dispatch m) (g : GroupRef) :
    leaseDuties.Part t (dispatchOne g) := by
  refine part_lease ht ?_ ?_
  · intro next hnext x hx
    cases next with
    | none => cases hx
    | some next =>
      cases List.mem_singleton.mp hx
      have href : next.ref = g := hnext (g, next) hx
      intro sent _
      cases sent with
      | true => exact .inl ⟨Prod.ext href rfl, .inl rfl⟩
      | false => exact .inr fun _ _ => .inl rfl
  · intro next _
    cases next with
    | none => exact .ret ()
    | some next =>
      refine part_command (fun _ => rfl) fun _ _ => .ite ?_ (.ret ())
      exact part_command (fun _ => rfl) fun _ _ => .ret ()

theorem dispatchNext_part (next : Option Message) : leaseDuties.Part t (dispatchNext next) := by
  cases next with
  | none => exact .ret ()
  | some next => exact part_command (fun _ => rfl) fun _ _ => .ret ()

theorem Task.ne_dispatch_of_handsOn (hon : t.handsOn = true) (m : Message) : t ≠ .dispatch m := by
  rintro rfl
  cases hon

theorem handOn_part (hon : t.handsOn = true) (g : GroupRef) (msgID : Bytes) :
    leaseDuties.Part t (handOn g msgID) := by
  refine part_lease (Task.ne_dispatch_of_handsOn hon) ?_ fun next _ => dispatchNext_part next
  intro next hnext x hx
  cases next with
  | none => cases hx
  | some next =>
    cases List.mem_singleton.mp hx
    have href : next.ref = g := hnext (g, next) hx
    subst href
    exact dispatchNext_seesTo hon next

theorem handOnFailed_part (hon : t.handsOn = true) (g : GroupRef) (msgID reason : Bytes) :
    leaseDuties.Part t (handOnFailed g msgID reason) := by
  refine part_lease (Task.ne_dispatch_of_handsOn hon) ?_ ?_
  · rintro ⟨dlq, next⟩ hfailed x hx
    cases next with
    | none => cases hx
    | some next =>
      cases List.mem_singleton.mp hx
      have href : next.ref = g := hfailed (g, next) (List.mem_append_left _ hx)
      subst href
      have hrest : ∀ f : Unit → Program (Option (Bytes × Message)),
          SeesTo t (next.ref, next.id) (dispatchNext (some next) >>= f) :=
        fun f => (dispatchNext_seesTo hon next).bind_left f
      cases dlq with
      | none => exact hrest _
      | some dlq => exact fun _ _ => .inr (hrest _)
  · intro failed _
    have hrest : leaseDuties.Part t (do dispatchNext failed.2; pure failed.1) :=
      .bind (dispatchNext_part failed.2) fun _ => .ret _
    exact .ite (part_command (fun _ => rfl) fun _ _ => hrest) hrest

theorem returnAll_part (g : GroupRef) (msgs : List Message) :
    leaseDuties.Part t (returnAll g msgs) := by
  induction msgs with
  | nil => exact .ret ()
  | cons msg msgs ih => exact part_command (fun _ => rfl) fun _ _ => ih

theorem offerAll_part (g : GroupRef) (msgs : List Message) :
    leaseDuties.Part t (offerAll g msgs) := by
  induction msgs with
  | nil => exact .ret true
  | cons msg msgs ih =>
    exact part_command (fun _ => rfl) fun _ _ =>
      .ite ih (.bind (returnAll_part g _) fun _ => .ret false)

theorem offerDrained_part (ht : ∀ m, t ≠ .dispatch m) (g : GroupRef) :
    leaseDuties.Part t (offerDrained g) := by
  refine part_lease ht ?_ fun r _ => .bind (offerAll_part g _) fun _ => .ret _
  intro r hr x hx
  obtain ⟨m, hm, rfl⟩ := List.mem_map.mp hx
  refine (offerAll_seesTo g ?_ hm).bind_left _
  intro m hm
  exact hr (g, m) (List.mem_map_of_mem hm)

theorem handBack_part (msg : Message) : leaseDuties.Part t (handBack msg) :=
  part_command (fun _ => rfl) fun _ _ =>
    .ite (part_command (fun _ => rfl) fun _ _ => .ret ()) (.ret ())

theorem dispatch_part (msg : Message) : leaseDuties.Part t (dispatch msg) := by
  have hback : leaseDuties.Part t (do handBack msg; pure ()) :=
    .bind (handBack_part msg) fun _ => .ret ()
  refine part_command (fun _ => rfl) fun conn _ => ?_
  cases conn with
  | none => exact handBack_part msg
  | some conn =>
    refine part_command (fun _ => rfl) fun _ _ =>
      .ite (part_command (fun _ => rfl) fun _ _ => hback) ?_
    refine part_command (fun _ => rfl) fun _ _ => .ite ?_ ?_
    · exact part_command (fun _ => rfl) fun _ _ => part_command (fun _ => rfl) fun _ _ => hback
    · refine part_command (fun _ => rfl) fun _ _ =>
        .ite ?_ (part_command (fun _ => rfl) fun _ _ => .ret ())
      exact part_command (fun _ => rfl) fun _ _ => part_command (fun _ => rfl) fun _ _ => hback

end Part

theorem dutiful_task (t : Task) : t.start.Dutiful leaseDuties := by
  by_cases hdispatch : ∃ msg, t = .dispatch msg
  · obtain ⟨msg, rfl⟩ := hdispatch
    exact ((dispatch_part msg).calm trivial).2
  · have ht : ∀ msg, t ≠ .dispatch msg := fun msg h => hdispatch ⟨msg, h⟩
    exact (calm_task_of_leases (E := fun _ => True)
      (fun c hc => ordinary_leases hc.handedOut) trivial t ht
      (dispatchOne_part ht) handOn_part handOnFailed_part (offerDrained_part ht)).2

namespace System

def hasRoomFor (sys : System) (msg : Message) : Bool :=
  (sys.state.dispatchChs[(hashKey msg.groupKey).toNat % sys.state.dispatchChs.length]?).any fun c =>
    c.buf.length < c.depth

def roomToHandOn (sys : System) : Label → Bool
  | .run thread _ =>
    (sys.threads[thread]?).all fun t =>
      match t.next? with
      | some (.enqueueDispatch msg) => !t.task.handsOn || sys.hasRoomFor msg
      | _ => true
  | _ => true

structure Leasing (sys : System) : Prop where
  regular : sys.Regular
  dutiful : ∀ t ∈ sys.threads, t.Dutiful leaseDuties
  attended : Attended leaseDuties sys.state.Unseen sys.threads

theorem leasing_start (cfg : RuntimeConfig) (chs : List DispatchCh) : (start cfg chs).Leasing := by
  refine ⟨regular_start cfg chs, ?_, ?_⟩
  · intro t ht
    cases ht
  · rintro d ⟨⟨G, hG, -⟩, -, -⟩
    cases hG

variable [PathMatch] {sys sys' : System} {l : Label}

theorem settles_seen {ch : Choice} {c : Cmd} {s s' : Runtime} {r : c.Answer} {d : GroupRef × Bytes}
    {handsOn : Bool} (h : c.handle ch s = .ok (s', r))
    (hroom : ∀ msg, c = .enqueueDispatch msg → handsOn = true → hasRoomFor ⟨s, []⟩ msg = true)
    (hd : c.settles handsOn d r) : ¬ s'.Unseen d := by
  intro hunseen
  cases c with
  | enqueueDispatch msg =>
    obtain ⟨rfl, hsent⟩ := hd
    obtain ⟨_, c, rfl, hc, ⟨hfull, rfl, rfl⟩ | ⟨rfl, rfl⟩⟩ := Cmd.handle_enqueueDispatch h
    · have hlt := hroom msg rfl (hsent.resolve_left Bool.false_ne_true)
      rw [hasRoomFor, hc] at hlt
      exact Nat.not_lt.mpr hfull (of_decide_eq_true hlt)
    · refine hunseen.channel ⟨_, mem_set_self hc _, msg, ?_, rfl⟩
      exact List.mem_append_right _ List.mem_cons_self
  | returnToPending g msgID =>
    cases hd
    obtain ⟨G', hG', hid⟩ := hunseen.leased
    simp only [Cmd.handle] at h
    obtain ⟨q, q', hq, hret, rfl⟩ := Runtime.atQueue_ok h
    cases hret
    obtain ⟨hl, heq⟩ | ⟨G, hl, heq⟩ := Queue.returnToPending_eq q g.group msgID
    · rw [Runtime.group_of_sameGroups hq rfl (congrArg Queue.groups heq), Runtime.group_of_queue hq,
        hl] at hG'
      cases hG'
    · rw [Runtime.group_of_setGroup hq rfl (congrArg Queue.groups heq), if_pos rfl] at hG'
      cases hG'
      rw [Group.returnToPending_get?] at hid
      cases hid
  | writeMessage conn msg =>
    obtain ⟨rfl, rfl⟩ := hd
    obtain ⟨⟨s₁, sent⟩, h₁, hret⟩ := bind_ok.mp h
    cases hret
    exact hunseen.written (List.mem_append_right _ List.mem_cons_self)
  | getQueue ns name =>
    obtain ⟨hname, hfalse⟩ := hd
    obtain ⟨rfl, hfound⟩ := Prod.mk.inj (Except.ok.inj h)
    obtain ⟨G, hG, -⟩ := hunseen.leased
    rw [hfalse, hname] at hfound
    cases hlookup : s.queues.lookup (d.1.ns, d.1.queue) with
    | none =>
      rw [Runtime.group, hlookup] at hG
      cases hG
    | some q =>
      rw [hlookup] at hfound
      cases hfound
  | _ => exact hd

theorem Leasing.step (hsys : sys.Leasing) (hroom : sys.roomToHandOn l = true)
    (h : sys.Step l sys') :
    sys'.Leasing := by
  refine ⟨hsys.regular.step h, ?_, ?_⟩
  · refine h.threads hsys.dutiful (fun t _ => dutiful_task t) ?_
    intro ch task c k s r handled hdutiful
    exact hdutiful.step (Cmd.handle_possible hsys.regular.placed handled)
  have hold := hsys.attended
  cases h with
  | declare new =>
    intro d hd
    refine hold d ⟨?_, hd.channel, hd.written⟩
    obtain ⟨G, hG, hid⟩ := hd.leased
    exact ⟨G, (Runtime.group_of_declare new rfl d.1).symm.trans hG, hid⟩
  | connect | flush => exact fun d hd => hold d ⟨hd.leased, hd.channel, hd.written⟩
  | receive | disconnect | process | fire | activate | sweep =>
    exact hold.append _ fun d hd => .inl ⟨hd.leased, hd.channel, hd.written⟩
  | @deliver channel depth msg buf first =>
    refine hold.append _ fun d hd => ?_
    by_cases heq : (msg.ref, msg.id) = d
    · subst heq
      refine .inr ⟨?_, dispatch_seesTo msg⟩
      rintro m ⟨⟩
      rfl
    · refine .inl ⟨hd.leased, ?_, hd.written⟩
      rintro ⟨c, hc, m, hm, rfl⟩
      obtain ⟨j, hj⟩ := List.getElem?_of_mem hc
      by_cases hchannel : channel = j
      · subst hchannel
        cases first.symm.trans hj
        have hm : m ∈ buf := (List.mem_cons.mp hm).resolve_left fun h => heq (by rw [h])
        exact hd.channel ⟨_, List.mem_set (List.getElem?_eq_some_iff.mp first).1 _, m, hm, rfl⟩
      · refine hd.channel ⟨c, List.mem_of_getElem? (i := j) ?_, m, hm, rfl⟩
        change (sys.state.dispatchChs.set channel _)[j]? = some c
        rw [List.getElem?_set_ne hchannel]
        exact hj
  | @run thread ch task c k s r next handled =>
    refine hold.advance hsys.dutiful next
      (Cmd.handle_possible hsys.regular.placed handled) fun d hd => ?_
    by_cases hincurs : leaseDuties.incurs task d c r
    · exact .inr (.inl hincurs)
    refine .inl ⟨⟨?_, ?_, ?_⟩, ?_⟩
    · exact (Cmd.handle_leased hsys.regular.placed handled hd.leased).resolve_right hincurs
    · exact fun hchannel => hd.channel (Cmd.handle_channel handled hchannel)
    · exact fun hwritten => (Cmd.handle_written handled hwritten).elim hd.written hincurs
    · intro hsettles
      refine settles_seen handled ?_ hsettles hd
      rintro msg rfl hon
      simp only [roomToHandOn, next, Option.all_some, Thread.next?, hon, Bool.not_true,
        Bool.false_or] at hroom
      exact hroom

def handlersDone (sys : System) : Bool :=
  sys.threads.all fun t =>
    match t.task with
    | .dispatch _ => true
    | _ => t.finished

/-- If `onACK` and `onNACK` always find room in the channels, then between the calls of the handlers
every message that is leased is in a channel, with a dispatch worker, or written to a connection. -/
theorem leases_have_holders {cfg : RuntimeConfig} {chs : List DispatchCh}
    (h : Reachable System.step (fun sys l => sys.roomToHandOn l = true) (start cfg chs) sys)
    (hdone : sys.handlersDone = true) (d : GroupRef × Bytes) (hd : sys.state.Leased d) :
    sys.state.InChannel d ∨
      (∃ t ∈ sys.threads, ∃ msg, t.task = .dispatch msg ∧ t.finished = false ∧
        (msg.ref, msg.id) = d) ∨ d ∈ sys.state.written := by
  have hsys : sys.Leasing :=
    h.invariant (leasing_start cfg chs) fun sys l sys' hsys hroom hstep =>
      hsys.step hroom (step_ok hstep)
  by_contra hnot
  simp only [not_or] at hnot
  obtain ⟨hchannel, hworker, hwritten⟩ := hnot
  obtain ⟨t, ht, hduty⟩ := hsys.attended d ⟨hd, hchannel, hwritten⟩
  have hunfinished := hduty.not_finished
  have hidle := List.all_eq_true.mp hdone t ht
  split at hidle
  · rename_i msg htask
    exact hworker ⟨t, ht, msg, htask, hunfinished, (hduty.1 msg htask).symm⟩
  · rw [hunfinished] at hidle
    cases hidle

end System

/-- The client publishes another message to the group and one to the group `h`, and acknowledges the
one that it has received. -/
def handOnLabels : List Label :=
  receivedLabels ++ [.receive 0 (.publish (str "q") (str "g") (str "p")) 0] ++
  runTimes 3 10 (str "m2") ++ [.receive 0 (.publish (str "q") (str "h") (str "p")) 0] ++
  runTimes 4 13 (str "m3") ++ [.receive 0 (.ack (str "m1") (str "q") (str "g")) 0] ++
    runTimes 5 9 []

def secondLeased (sys : System) : Bool :=
  sys.threads.all Thread.finished && (sys.state.group sampleGroup).any fun G =>
    (G.processing.get? (str "m2")).isSome

theorem secondLeased_leased {sys : System} (h : secondLeased sys = true) :
    sys.handlersDone = true ∧ sys.state.Leased (sampleGroup, str "m2") := by
  obtain ⟨hfinished, hleased⟩ := Bool.and_eq_true_iff.mp h
  refine ⟨?_, ?_⟩
  · refine List.all_eq_true.mpr fun t ht => ?_
    split
    · rfl
    · exact List.all_eq_true.mp hfinished t ht
  · obtain ⟨G, hG, hid⟩ := (Option.any_eq_true _ _).mp hleased
    exact ⟨G, hG, hid⟩

theorem leases_have_holders_sample :
    ∃ sys, Reachable (@System.step literalMatch) (fun sys l => sys.roomToHandOn l = true)
        (.start ⟨1, 0, 0⟩ [⟨2, []⟩]) sys ∧
      sys.handlersDone = true ∧ sys.state.Leased (sampleGroup, str "m2") ∧
      (sys.state.InChannel (sampleGroup, str "m2") ∨
        (∃ t ∈ sys.threads, ∃ msg, t.task = .dispatch msg ∧ t.finished = false ∧
          (msg.ref, msg.id) = (sampleGroup, str "m2")) ∨
        (sampleGroup, str "m2") ∈ sys.state.written) := by
  have htrace : (run (checked (@System.step literalMatch) System.roomToHandOn .blocked)
      (.start ⟨1, 0, 0⟩ [⟨2, []⟩]) handOnLabels).toOption.any secondLeased = true := by
    decide +kernel
  obtain ⟨sys, hreach, hsecond⟩ :=
    Reachable.ofTrace (fun _ _ h => h) handOnLabels secondLeased htrace
  obtain ⟨hdone, hleased⟩ := secondLeased_leased hsecond
  exact ⟨sys, hreach, hdone, hleased,
    @System.leases_have_holders literalMatch sys _ _ hreach hdone _ hleased⟩

def secondLost (sys : System) : Bool :=
  secondLeased sys && sys.state.dispatchChs.all (fun c => c.buf.all fun m => (m.ref, m.id) ≠
    (sampleGroup, str "m2")) && decide ((sampleGroup, str "m2") ∉ sys.state.written)

/-- With a channel that holds one message there is no room for the second message of the group,
which `onACK` has leased, and nobody has it. -/
theorem ack_leaves_lease_without_holder :
    ∃ sys, Reachable (@System.step literalMatch) (fun _ _ => True)
      (.start ⟨1, 0, 0⟩ [⟨1, []⟩]) sys ∧
      sys.handlersDone = true ∧ sys.state.Leased (sampleGroup, str "m2") ∧
      ¬ (sys.state.InChannel (sampleGroup, str "m2") ∨
        (∃ t ∈ sys.threads, ∃ msg, t.task = .dispatch msg ∧ t.finished = false ∧
          (msg.ref, msg.id) = (sampleGroup, str "m2")) ∨
        (sampleGroup, str "m2") ∈ sys.state.written) := by
  have htrace : (run (checked (@System.step literalMatch) (fun _ _ => true) .blocked)
      (.start ⟨1, 0, 0⟩ [⟨1, []⟩]) handOnLabels).toOption.any secondLost = true := by decide +kernel
  obtain ⟨sys, hreach, hlost⟩ :=
    Reachable.ofTrace (fun _ _ _ => trivial) handOnLabels secondLost htrace
  simp only [secondLost, Bool.and_eq_true, decide_eq_true_eq] at hlost
  obtain ⟨⟨hsecond, hchannels⟩, hwritten⟩ := hlost
  obtain ⟨hdone, hleased⟩ := secondLeased_leased hsecond
  refine ⟨sys, hreach, hdone, hleased, ?_⟩
  rintro (⟨c, hc, m, hm, heq⟩ | ⟨t, ht, msg, -, hunfinished, -⟩ | hin)
  · have hne := List.all_eq_true.mp (List.all_eq_true.mp hchannels c hc) m hm
    exact of_decide_eq_true hne heq
  · have hfinished := List.all_eq_true.mp (Bool.and_eq_true_iff.mp hsecond).1 t ht
    rw [hunfinished] at hfinished
    cases hfinished
  · exact hwritten hin

end Octar
