import Octar.Broker.RuntimeLaws

namespace Octar

open Go Threads

namespace Group

variable {g : GroupRef} {G G' : Group} {now : Int}

theorem next_cfg {msg : Option Message} (h : G.next now = .ok (G', msg)) : G'.cfg = G.cfg := by
  obtain ⟨⟨G₁, d⟩, hd, hret⟩ := bind_ok.mp h
  cases hret
  exact nextDispatchable_cfg hd

theorem promoteNext_cfg {ord : RangeOrder} {msg : Option Message}
    (h : (G.promoteDelayed ord now).1.next now = .ok (G', msg)) : G'.cfg = G.cfg :=
  (next_cfg h).trans (promoteDelayed_frees G ord now).cfg

theorem drainRound_cfg {ord : RangeOrder} {r : DrainResult}
    (h : G.drainRound ord now = .ok (G', r)) :
    G'.cfg = G.cfg := by
  refine drainRound_induct (motive := fun G' _ => G'.cfg = G.cfg) ?_ ?_
    (promoteDelayed_frees G ord now).cfg h
  · intro G₁ G₂ d batch h₁ hd
    exact (nextDispatchable_cfg hd).trans h₁
  · intro G₁ batch deficit quantum h₁
    exact h₁

theorem Each.fail_dlq {P : Message → Prop} (h : G.Each fun x => P x.2) {id errMsg : Bytes}
    {dlq : Option Message} (hP : ∀ m : Message, P m →
      P { m with lastError := errMsg, attempts := m.attempts + 1, state := .dlq })
    (hf : G.fail id errMsg now = .ok (G', dlq)) : ∀ m ∈ dlq, P m := by
  cases fail_cases hf with
  | absent none same letter | retries m delay found more delayed put letter =>
    subst letter
    intro m hm
    cases hm
  | drops m₀ found exhausted dropped letter =>
    subst letter
    intro m hm
    obtain ⟨d, -, rfl⟩ := Option.map_eq_some_iff.mp hm
    exact hP m₀ (h.leases id m₀ found).2

end Group

def Message.Lasting (P : Message → Prop) : Prop :=
  ∀ m m' : Message, P m → m'.ref = m.ref → m'.id = m.id → m'.payload = m.payload → P m'

theorem Message.Lasting.closed {P : Message → Prop} (h : Message.Lasting P) :
    Closed fun x : Loc × Message => P x.2 where
  expired hm := h _ _ hm rfl rfl rfl
  due hm := h _ _ hm rfl rfl rfl
  leased _ hm := h _ _ hm rfl rfl rfl
  retried _ _ hm := h _ _ hm rfl rfl rfl

theorem lasting_ref (g : GroupRef) : Message.Lasting fun m => m.ref = g :=
  fun _ _ hm href _ _ => href.trans hm

theorem closed_ref (g : GroupRef) : Closed fun x : Loc × Message => x.2.ref = g :=
  (lasting_ref g).closed

def Cmd.published : (c : Cmd) → c.Answer → Option Message
  | .publishLocked .., (.ok m, _) => some m
  | _, _ => none

namespace Cmd.Changes

variable {ch : Choice} {g : GroupRef} {c : Cmd} {r : c.Answer} {G G' : Group}

theorem cfg (h : c.Changes ch g r G G') : G'.cfg = G.cfg := by
  cases h with
  | refused => rfl
  | accepted => rfl
  | dispatched next => exact Group.promoteNext_cfg next
  | completed msgID next =>
    exact (Group.promoteNext_cfg next).trans (Group.complete_frees G msgID).cfg
  | failed msgID reason fail target next =>
    exact (Group.promoteNext_cfg next).trans (Group.fail_frees fail).cfg
  | drained drain => exact Group.drainRound_cfg drain
  | returned msgID => exact (Group.returnToPending_frees G msgID).cfg
  | swept shard listed => exact (Group.sweepGroup_frees G ch.ord ch.now).cfg

theorem lasting {P : Message → Prop} (h : c.Changes ch g r G G') (hP : Message.Lasting P)
    (hG : G.Each fun x => P x.2) (hnew : ∀ m ∈ c.published r, P m) :
    (G'.Each fun x => P x.2) ∧ ∀ x ∈ c.messages r, P x.2 := by
  have hclosed := hP.closed
  cases h with
  | refused => exact ⟨hG, fun _ hx => (nomatch hx)⟩
  | accepted msgID payload m new G ref id =>
    exact ⟨hG.enqueue (hnew m rfl), fun _ hx => (nomatch hx)⟩
  | dispatched next =>
    obtain ⟨hG', hmsg⟩ := hG.promoteNext hclosed next
    refine ⟨hG', ?_⟩
    intro x hx
    obtain ⟨m, hm, rfl⟩ := List.mem_map.mp hx
    exact hmsg m hm
  | completed msgID next =>
    obtain ⟨hG', hmsg⟩ := (hG.complete msgID).promoteNext hclosed next
    refine ⟨hG', ?_⟩
    intro x hx
    obtain ⟨m, hm, rfl⟩ := List.mem_map.mp hx
    exact hmsg m hm
  | @failed msgID reason G G₁ G' dlq r fail target next =>
    obtain ⟨hG', hmsg⟩ := (hG.fail hclosed fail).promoteNext hclosed next
    refine ⟨hG', ?_⟩
    intro x hx
    rcases List.mem_append.mp hx with hx | hx
    · obtain ⟨m, hm, rfl⟩ := List.mem_map.mp hx
      exact hmsg m hm
    · obtain ⟨t, ht, rfl⟩ := List.mem_map.mp hx
      rw [target] at ht
      have hdlq : ∀ m ∈ dlq, P m := Group.Each.fail_dlq hG (fun m hm => hP _ _ hm rfl rfl rfl) fail
      cases dlq with
      | none => cases ht
      | some m =>
        unfold Queue.dlqTarget at ht
        split at ht
        · rename_i heq hc
          cases heq
          cases List.mem_singleton.mp ht
          exact hdlq m rfl
        · cases ht
  | drained drain =>
    obtain ⟨hG', hmsg⟩ := hG.drainRound hclosed drain
    refine ⟨hG', ?_⟩
    intro x hx
    obtain ⟨m, hm, rfl⟩ := List.mem_map.mp hx
    exact hmsg m hm
  | returned msgID => exact ⟨hG.returnToPending hclosed msgID, fun _ hx => (nomatch hx)⟩
  | swept shard listed => exact ⟨hG.sweepGroup hclosed ch.ord ch.now, fun _ hx => (nomatch hx)⟩

theorem each (h : c.Changes ch g r G G') (hG : G.Each fun x => x.2.ref = g) :
    (G'.Each fun x => x.2.ref = g) ∧ ∀ x ∈ c.messages r, x.2.ref = g := by
  apply h.lasting (lasting_ref g) hG
  intro m hm
  cases h with
  | accepted msgID payload m₀ new G ref id =>
    cases hm
    exact ref
  | _ => cases hm

end Cmd.Changes

def Queue.identity (q : Queue) : Bytes × Bytes × ConfigIdx := (q.ns, q.name, q.cfgIdx)

theorem Cmd.handle_identity [PathMatch] {ch : Choice} {c : Cmd} {s s' : Runtime} {r : c.Answer}
    (h : c.handle ch s = .ok (s', r)) (k : Bytes × Bytes) :
    (s'.queues.lookup k).map Queue.identity = (s.queues.lookup k).map Queue.identity := by
  by_cases hc : c.part = .queues
  case neg => rw [(handle_frame h).queues hc]
  have hinsert : ∀ {k₀ : Bytes × Bytes} {q q' : Queue}, s.queues.lookup k₀ = some q →
      q'.identity = q.identity → ((s.queues.insert k₀ q').lookup k).map Queue.identity =
        (s.queues.lookup k).map Queue.identity := by
    intro k₀ q q' hq hid
    by_cases hk : k = k₀
    · subst hk
      rw [AList.lookup_insert, hq, Option.map_some, Option.map_some, hid]
    · rw [AList.lookup_insert_ne hk]
  cases c with
  | publishLocked g₀ msgID payload =>
    simp only [Cmd.handle] at h
    obtain ⟨q, q', hq, hlocked, rfl⟩ := Runtime.atQueue_ok h
    obtain ⟨⟨q₁, r₁⟩, hpub, hret⟩ := bind_ok.mp hlocked
    cases hret
    obtain ⟨G, -, ⟨-, -, rfl, rfl⟩ | ⟨rfl, keyIdx, rfl⟩⟩ := Queue.publishWithID_ok hpub
    · exact hinsert hq rfl
    · exact hinsert hq rfl
  | indexKey g₀ =>
    simp only [Cmd.handle] at h
    obtain ⟨q, q', hq, hret, rfl⟩ := Runtime.atQueue_ok h
    cases hret
    exact hinsert hq rfl
  | tryDispatchOne g₀ =>
    obtain ⟨⟨s₁, r₁⟩, h₁, hret⟩ := bind_ok.mp h
    cases hret
    obtain ⟨q, q', hq, hop, rfl⟩ := Runtime.atQueue_ok h₁
    obtain ⟨-, rfl, rfl⟩ | ⟨G, G', -, -, rfl⟩ := Queue.tryDispatchOne_ok hop
        <;> exact hinsert hq rfl
  | completeAndNext g₀ msgID =>
    obtain ⟨⟨s₁, r₁⟩, h₁, hret⟩ := bind_ok.mp h
    cases hret
    obtain ⟨q, q', hq, hop, rfl⟩ := Runtime.atQueue_ok h₁
    obtain ⟨-, rfl, rfl⟩ | ⟨G, G', -, -, rfl⟩ := Queue.completeAndNext_ok hop
        <;> exact hinsert hq rfl
  | failAndNext g₀ msgID reason =>
    obtain ⟨⟨s₁, r₁⟩, h₁, hret⟩ := bind_ok.mp h
    cases hret
    obtain ⟨q, q', hq, hop, rfl⟩ := Runtime.atQueue_ok h₁
    obtain ⟨-, rfl, rfl⟩ | ⟨G, G₁, G', dlq, -, -, -, -, rfl⟩ := Queue.failAndNext_ok hop
        <;> exact hinsert hq rfl
  | drainGroup g₀ =>
    obtain ⟨⟨s₁, r₁⟩, h₁, hret⟩ := bind_ok.mp h
    cases hret
    obtain ⟨q, q', hq, hop, rfl⟩ := Runtime.atQueue_ok h₁
    obtain ⟨-, rfl, rfl⟩ | ⟨G, G', -, -, rfl⟩ := Queue.drainGroup_ok hop <;> exact hinsert hq rfl
  | returnToPending g₀ msgID =>
    simp only [Cmd.handle] at h
    obtain ⟨q, q', hq, hret, rfl⟩ := Runtime.atQueue_ok h
    cases hret
    refine hinsert hq ?_
    obtain ⟨-, heq⟩ | ⟨G, -, heq⟩ := Queue.returnToPending_eq q g₀.group msgID <;> rw [heq]
    rfl
  | sweepShard ns name shard =>
    simp only [Cmd.handle] at h
    obtain ⟨q, q', hq, hret, rfl⟩ := Runtime.atQueue_ok h
    cases hret
    exact hinsert hq rfl
  | _ => cases hc

namespace Runtime

structure Placed (s : Runtime) : Prop where
  named : s.Named
  configs : ∀ k q, s.queues.lookup k = some q →
    ∀ key c, q.cfgIdx.exact.lookup key = some c → c.key = key
  messages : ∀ g G, s.group g = some G → G.Each fun x => x.2.ref = g
  keyed : ∀ g G, s.group g = some G → G.cfg.key = g.group

theorem Placed.ofSame {s s' : Runtime} (h : s.Placed) (hs : s'.queues = s.queues) : s'.Placed := by
  refine ⟨fun k q hq => h.named k q (hs ▸ hq), fun k q hq => h.configs k q (hs ▸ hq), ?_, ?_⟩
  · intro g G hG
    exact h.messages g G ((group_of_same hs g).symm.trans hG)
  · intro g G hG
    exact h.keyed g G ((group_of_same hs g).symm.trans hG)

variable [PathMatch] {s s' : Runtime} {g : GroupRef} {G : Group}

theorem Placed.found (h : s.Placed) {c : Cmd} (hG : s.Finds g c G) :
    (G.Each fun x => x.2.ref = g) ∧ G.cfg.key = g.group := by
  cases hG with
  | old hG => exact ⟨h.messages g G hG, h.keyed g G hG⟩
  | @new q _ hq hnew _ =>
    refine ⟨.ofNewGroup hnew, ?_⟩
    rw [(Group.newGroup_ok hnew).1]
    change (q.resolveConfig g.group).key = g.group
    unfold Queue.resolveConfig ConfigIdx.resolve
    cases hexact : q.cfgIdx.exact.lookup g.group with
    | some c => exact h.configs _ q hq _ c hexact
    | none =>
      cases q.cfgIdx.wildcards.find? fun c => c.matchesKey g.group with
      | none => rfl
      | some c => rfl

end Runtime

def Cmd.Possible (c : Cmd) (r : c.Answer) : Prop := ∀ x ∈ c.messages r, x.2.ref = x.1

theorem Cmd.handle_possible [PathMatch] {ch : Choice} {c : Cmd} {s s' : Runtime} {r : c.Answer}
    (hs : s.Placed) (h : c.handle ch s = .ok (s', r)) : c.Possible r := by
  intro x hx
  rcases handle_group hs.named h x.1 with ⟨-, hnone⟩ | ⟨G, G', hG, -, hchanges⟩
  · exact absurd rfl (hnone x hx)
  · exact (hchanges.each (hs.found hG).1).2 x hx

theorem Runtime.Placed.handle [PathMatch] {ch : Choice} {c : Cmd} {s s' : Runtime} {r : c.Answer}
    (hs : s.Placed) (h : c.handle ch s = .ok (s', r)) : s'.Placed := by
  have hqueue : ∀ k q', s'.queues.lookup k = some q' →
      ∃ q, s.queues.lookup k = some q ∧ q'.identity = q.identity := by
    intro k q' hq'
    have hid := Cmd.handle_identity h k
    rw [hq', Option.map_some, eq_comm, Option.map_eq_some_iff] at hid
    obtain ⟨q, hq, heq⟩ := hid
    exact ⟨q, hq, heq.symm⟩
  have hgroup : ∀ g G', s'.group g = some G' → (G'.Each fun x => x.2.ref = g) ∧
      G'.cfg.key = g.group := by
    intro g G' hG'
    rcases Cmd.handle_group hs.named h g with ⟨hsame, -⟩ | ⟨G, G₁, hG, hG₁, hchanges⟩
    · rw [hsame] at hG'
      exact ⟨hs.messages g G' hG', hs.keyed g G' hG'⟩
    · cases hG₁.symm.trans hG'
      obtain ⟨heach, hkey⟩ := hs.found hG
      exact ⟨(hchanges.each heach).1, hchanges.cfg ▸ hkey⟩
  refine ⟨?_, ?_, fun g G' hG' => (hgroup g G' hG').1, fun g G' hG' => (hgroup g G' hG').2⟩
  · intro k q' hq'
    obtain ⟨q, hq, hid⟩ := hqueue k q' hq'
    have hname : (q'.ns, q'.name) = (q.ns, q.name) := by
      simp only [Queue.identity, Prod.mk.injEq] at hid ⊢
      exact ⟨hid.1, hid.2.1⟩
    exact hname.trans (hs.named k q hq)
  · intro k q' hq' key c hc
    obtain ⟨q, hq, hid⟩ := hqueue k q' hq'
    have hcfg : q'.cfgIdx = q.cfgIdx := congrArg (fun i => i.2.2) hid
    rw [hcfg] at hc
    exact hs.configs k q hq key c hc

structure Queue.Empty (q : Queue) : Prop where
  groups : q.groups = ∅
  configs : ∀ key c, q.cfgIdx.exact.lookup key = some c → c.key = key

theorem Queue.Empty.installConfig [PathMatch] {q : Queue} (h : q.Empty) (cfg : GroupConfig) :
    (q.installConfig cfg).Empty ∧ (q.installConfig cfg).ns = q.ns ∧
      (q.installConfig cfg).name = q.name := by
  obtain ⟨name, ns, cfgIdx, groups, keyIdx⟩ := q
  obtain ⟨hgroups, hconfigs⟩ := h
  cases hgroups
  have hset : ∀ key c, (cfgIdx.set cfg).exact.lookup key = some c → c.key = key := by
    intro key c hc
    unfold ConfigIdx.set at hc
    split at hc
    · exact hconfigs key c hc
    · by_cases hk : key = cfg.key
      · subst hk
        rw [AList.lookup_insert] at hc
        cases hc
        rfl
      · rw [AList.lookup_insert_ne hk] at hc
        exact hconfigs key c hc
  unfold Queue.installConfig
  simp only
  split
  · exact ⟨⟨rfl, hset⟩, rfl, rfl⟩
  · exact ⟨⟨rfl, hset⟩, rfl, rfl⟩

theorem System.declared_empty [PathMatch] (ns name : Bytes) (configs : List GroupConfig) :
    (declared ns name configs).Empty ∧
      ((declared ns name configs).ns, (declared ns name configs).name) = (ns, name) := by
  have hfold : ∀ q : Queue, q.Empty → (q.ns, q.name) = (ns, name) →
      (configs.foldl Queue.setGroupConfig q).Empty ∧
        ((configs.foldl Queue.setGroupConfig q).ns, (configs.foldl Queue.setGroupConfig q).name) =
          (ns, name) := by
    induction configs with
    | nil => exact fun q hq hname => ⟨hq, hname⟩
    | cons cfg configs ih =>
      intro q hq hname
      obtain ⟨hempty, hns, hn⟩ :=
        hq.installConfig (if cfg.quantum ≤ 0 then { cfg with quantum := 1 } else cfg)
      exact ih _ hempty ((Prod.ext hns hn).trans hname)
  refine hfold (newQueue name ns) ⟨rfl, ?_⟩ rfl
  intro key c hc
  cases hc

theorem Runtime.group_of_declare [PathMatch] {s s' : Runtime} {ns name : Bytes}
    {configs : List GroupConfig} (hnew : s.queues.lookup (ns, name) = none)
    (hs : s'.queues = s.queues.insert (ns, name) (System.declared ns name configs))
    (g : GroupRef) :
    s'.group g = s.group g := by
  rw [group, hs, group]
  by_cases hk : (g.ns, g.queue) = (ns, name)
  · rw [hk, AList.lookup_insert, hnew, Option.bind_some,
      (System.declared_empty ns name configs).1.groups]
    rfl
  · rw [AList.lookup_insert_ne hk]

theorem Runtime.Placed.declare [PathMatch] {s s' : Runtime} {ns name : Bytes}
    {configs : List GroupConfig} (h : s.Placed) (hnew : s.queues.lookup (ns, name) = none)
    (hs : s'.queues = s.queues.insert (ns, name) (System.declared ns name configs)) :
    s'.Placed := by
  obtain ⟨hempty, hname⟩ := System.declared_empty ns name configs
  have hgroup := group_of_declare hnew hs
  have hqueue : ∀ k q, s'.queues.lookup k = some q →
      s.queues.lookup k = some q ∨ k = (ns, name) ∧ q = System.declared ns name configs := by
    intro k q hq
    rw [hs] at hq
    by_cases hk : k = (ns, name)
    · subst hk
      rw [AList.lookup_insert] at hq
      exact .inr ⟨rfl, (Option.some.inj hq).symm⟩
    · rw [AList.lookup_insert_ne hk] at hq
      exact .inl hq
  refine ⟨?_, ?_, ?_, ?_⟩
  · intro k q hq
    rcases hqueue k q hq with hq | ⟨rfl, rfl⟩
    · exact h.named k q hq
    · exact hname
  · intro k q hq
    rcases hqueue k q hq with hq | ⟨rfl, rfl⟩
    · exact h.configs k q hq
    · exact hempty.configs
  · intro g G hG
    exact h.messages g G ((hgroup g).symm.trans hG)
  · intro g G hG
    exact h.keyed g G ((hgroup g).symm.trans hG)

end Octar
