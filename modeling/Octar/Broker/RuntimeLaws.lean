import Octar.Broker.Runtime
import Octar.Queue.Acts

namespace Octar

open Go Threads

namespace Runtime

variable {β : Type} {s s' : Runtime} {b : β}

theorem atQueue_ok {ns name : Bytes} {f : Queue → Except Panic (Queue × β)}
    (h : s.atQueue ns name f = .ok (s', b)) :
    ∃ q q', s.queues.lookup (ns, name) = some q ∧ f q = .ok (q', b) ∧
      s' = { s with queues := s.queues.insert (ns, name) q' } := by
  unfold atQueue at h
  split at h
  · cases h
  · rename_i q hq
    split at h
    · rename_i q' b' hf
      cases h
      exact ⟨q, q', hq, hf, rfl⟩
    · cases h

theorem readQueue_ok {ns name : Bytes} {f : Queue → β} (h : s.readQueue ns name f = .ok (s', b)) :
    ∃ q, s.queues.lookup (ns, name) = some q ∧ s' = s ∧ b = f q := by
  unfold readQueue at h
  split at h
  · cases h
  · rename_i q hq
    cases h
    exact ⟨q, hq, rfl, rfl⟩

theorem atConn_ok {conn : Nat} {f : Conn → Except Stuck (Conn × β)}
    (h : s.atConn conn f = .ok (s', b)) :
    ∃ c c', s.conns[conn]? = some c ∧ f c = .ok (c', b) ∧
      s' = { s with conns := s.conns.set conn c' } := by
  unfold atConn at h
  split at h
  · cases h
  · rename_i c hc
    obtain ⟨⟨c', b'⟩, hf, hret⟩ := bind_ok.mp h
    cases hret
    exact ⟨c, c', hc, hf, rfl⟩

end Runtime

inductive Part
  | queues | schedule | wakes | channels | registry | conns | quota | counters | nothing
  deriving DecidableEq

def Cmd.part : Cmd → Part
  | .publishLocked .. | .indexKey _ | .tryDispatchOne _ | .completeAndNext ..
    | .failAndNext .. | .drainGroup _
  | .returnToPending .. | .sweepShard .. => .queues
  | .trySchedule _ | .unschedule _ | .sendActive _ => .schedule
  | .setWake .. | .clearWake .. | .addTimer .. => .wakes
  | .enqueueDispatch _ => .channels
  | .registryAdd .. | .registryNext _ | .registryRemove _ => .registry
  | .acquireCredit _ | .releaseCredit _ | .inflight _ | .writeMessage .. | .writeOrDrop ..
    | .writeOrWait ..
  | .close _ => .conns
  | .tryAcquire | .release => .quota
  | .incGlobalMsgs | .decGlobalMsgs | .append _ => .counters
  | .getQueue .. | .listQueues | .pageGroupStats .. | .getGroupToken _ | .generateID
    | .registryHas _ | .readOn =>
    .nothing

structure Cmd.Frame (c : Cmd) (s s' : Runtime) : Prop where
  cfg : s'.cfg = s.cfg
  queues : c.part ≠ .queues → s'.queues = s.queues
  drains : c.part ≠ .queues → s'.drains = s.drains
  isScheduled : c.part ≠ .schedule → s'.isScheduled = s.isScheduled
  active : c.part ≠ .schedule → s'.active = s.active
  wakeScheduledAt : c.part ≠ .wakes → s'.wakeScheduledAt = s.wakeScheduledAt
  timers : c.part ≠ .wakes → s'.timers = s.timers
  dispatchChs : c.part ≠ .channels → s'.dispatchChs = s.dispatchChs
  registry : c.part ≠ .registry → s'.registry = s.registry
  conns : c.part ≠ .conns → s'.conns = s.conns
  quota : c.part ≠ .quota → s'.quota = s.quota
  globalMsgs : c.part ≠ .counters → s'.globalMsgs = s.globalMsgs
  wal : c.part ≠ .counters → s'.wal = s.wal
  written : c.part ≠ .queues → c.part ≠ .conns → s'.written = s.written

theorem Cmd.handle_frame [PathMatch] {ch : Choice} {c : Cmd} {s s' : Runtime} {r : c.Answer}
    (h : c.handle ch s = .ok (s', r)) : c.Frame s s' := by
  have hqueue : ∀ {k : Bytes × Bytes} {q : Queue} {written : List (GroupRef × Bytes)}
      {drains : GroupRef → Nat}, c.part = .queues →
        s' = { s with queues := s.queues.insert k q, written := written, drains := drains } →
      c.Frame s s' := by
    rintro k q written drains hc rfl
    exact ⟨rfl, fun h => absurd hc h, fun h => absurd hc h, fun _ => rfl, fun _ => rfl,
      fun _ => rfl, fun _ => rfl,
      fun _ => rfl, fun _ => rfl, fun _ => rfl, fun _ => rfl, fun _ => rfl, fun _ => rfl,
      fun h => absurd hc h⟩
  have hconn : ∀ {conns : List Conn} {written : List (GroupRef × Bytes)},
      c.part = .conns → s' = { s with conns := conns, written := written } → c.Frame s s' := by
    rintro conns written hc rfl
    exact ⟨rfl, fun _ => rfl, fun _ => rfl, fun _ => rfl, fun _ => rfl, fun _ => rfl,
      fun _ => rfl, fun _ => rfl,
      fun _ => rfl, fun h => absurd hc h, fun _ => rfl, fun _ => rfl, fun _ => rfl,
      fun _ h => absurd hc h⟩
  have hsame : s' = s → c.Frame s s' := by
    rintro rfl
    constructor <;> intros <;> rfl
  cases c with
  | publishLocked | indexKey | returnToPending | sweepShard =>
    simp only [Cmd.handle] at h
    obtain ⟨q, q', -, -, heq⟩ := Runtime.atQueue_ok h
    exact hqueue rfl heq
  | tryDispatchOne | completeAndNext | failAndNext | drainGroup =>
    obtain ⟨⟨s₁, r₁⟩, h₁, hret⟩ := bind_ok.mp h
    cases hret
    obtain ⟨q, q', -, -, rfl⟩ := Runtime.atQueue_ok h₁
    exact hqueue rfl rfl
  | pageGroupStats | getGroupToken =>
    obtain ⟨q, -, heq, -⟩ := Runtime.readQueue_ok h
    exact hsame heq
  | acquireCredit | releaseCredit | inflight | writeOrDrop | writeOrWait | close =>
    obtain ⟨c, c', -, -, heq⟩ := Runtime.atConn_ok h
    exact hconn rfl heq
  | writeMessage =>
    obtain ⟨⟨s₁, sent⟩, h₁, hret⟩ := bind_ok.mp h
    obtain ⟨c, c', -, -, rfl⟩ := Runtime.atConn_ok h₁
    cases sent with
    | true =>
      cases hret
      exact hconn rfl rfl
    | false =>
      cases hret
      exact hconn rfl rfl
  | getQueue | listQueues | generateID | registryHas =>
    cases h
    exact hsame rfl
  | readOn => cases h
  | unschedule | addTimer | decGlobalMsgs | registryAdd | registryNext | registryRemove =>
    cases h
    constructor <;> intros <;> first | rfl | contradiction
  | trySchedule | sendActive | setWake | clearWake | incGlobalMsgs | append | release =>
    simp only [Cmd.handle] at h
    split at h
    all_goals
      cases h
      constructor <;> intros <;> first | rfl | contradiction
  | tryAcquire =>
    simp only [Cmd.handle] at h
    split at h
    · cases h
      exact hsame rfl
    · split at h
      all_goals
        cases h
        constructor <;> intros <;> first | rfl | contradiction
  | enqueueDispatch =>
    simp only [Cmd.handle] at h
    split at h
    · cases h
    · split at h
      all_goals
        cases h
        constructor <;> intros <;> first | rfl | contradiction

theorem Cmd.handle_enqueueDispatch [PathMatch] {ch : Choice} {msg : Message} {s s' : Runtime}
    {r : Bool} (h : (Cmd.enqueueDispatch msg).handle ch s = .ok (s', r)) :
    ∃ idx c, idx = (hashKey msg.groupKey).toNat % s.dispatchChs.length ∧
      s.dispatchChs[idx]? = some c ∧ (c.depth ≤ c.buf.length ∧ s' = s ∧ r = false ∨
        r = true ∧ s' =
          { s with dispatchChs := s.dispatchChs.set idx { c with buf := c.buf ++ [msg] } }) := by
  simp only [Cmd.handle] at h
  split at h
  · cases h
  · rename_i c hc
    refine ⟨_, c, rfl, hc, ?_⟩
    split at h
    · cases h
      exact .inr ⟨rfl, rfl⟩
    · rename_i hfull
      cases h
      exact .inl ⟨Nat.not_lt.mp hfull, rfl, rfl⟩

theorem Cmd.drainGroup_drains [PathMatch] {ch : Choice} {g : GroupRef} {s s' : Runtime}
    {r : DrainResult} (h : (Cmd.drainGroup g).handle ch s = .ok (s', r)) :
    s'.drains = Function.update s.drains g (s.drains g + 1) := by
  obtain ⟨⟨s₁, r₁⟩, h₁, hret⟩ := bind_ok.mp h
  cases hret
  obtain ⟨q, q', -, -, rfl⟩ := Runtime.atQueue_ok h₁
  rfl

theorem Cmd.handle_drains_le [PathMatch] {ch : Choice} {c : Cmd} {s s' : Runtime} {r : c.Answer}
    (h : c.handle ch s = .ok (s', r)) (g : GroupRef) : s.drains g ≤ s'.drains g := by
  by_cases hc : c.part = .queues
  case neg => rw [(handle_frame h).drains hc]
  cases c with
  | publishLocked | indexKey | returnToPending | sweepShard =>
    simp only [Cmd.handle] at h
    obtain ⟨q, q', -, -, rfl⟩ := Runtime.atQueue_ok h
    exact Nat.le_refl _
  | tryDispatchOne | completeAndNext | failAndNext =>
    obtain ⟨⟨s₁, r₁⟩, h₁, hret⟩ := bind_ok.mp h
    cases hret
    obtain ⟨q, q', -, -, rfl⟩ := Runtime.atQueue_ok h₁
    exact Nat.le_refl _
  | drainGroup g' =>
    rw [drainGroup_drains h]
    by_cases hg : g = g'
    · subst hg
      rw [Function.update_self]
      exact Nat.le_succ _
    · rw [Function.update_of_ne hg]
  | _ => cases hc

namespace Runtime

def group (s : Runtime) (g : GroupRef) : Option Group :=
  (s.queues.lookup (g.ns, g.queue)).bind fun q => q.groups.lookup g.group

def Named (s : Runtime) : Prop := ∀ k q, s.queues.lookup k = some q → (q.ns, q.name) = k

variable {s s' : Runtime} {g : GroupRef} {q : Queue}

theorem group_of_queue (hq : s.queues.lookup (g.ns, g.queue) = some q) :
    s.group g = q.groups.lookup g.group := by
  rw [group, hq]
  rfl

theorem group_of_same (hs : s'.queues = s.queues) (g : GroupRef) : s'.group g = s.group g := by
  rw [group, hs]
  rfl

theorem group_of_sameGroups {k : Bytes × Bytes} {q' : Queue} (hq : s.queues.lookup k = some q)
    (hs : s'.queues = s.queues.insert k q') (hg : q'.groups = q.groups) (g : GroupRef) :
    s'.group g = s.group g := by
  rw [group, hs, group]
  by_cases hk : (g.ns, g.queue) = k
  · subst hk
    rw [AList.lookup_insert, hq, Option.bind_some, Option.bind_some, hg]
  · rw [AList.lookup_insert_ne hk]

theorem group_of_setGroup {G : Group} {q' : Queue} (hq : s.queues.lookup (g.ns, g.queue) = some q)
    (hs : s'.queues = s.queues.insert (g.ns, g.queue) q')
    (hg : q'.groups = q.groups.insert g.group G) (g₁ : GroupRef) :
    s'.group g₁ = if g₁ = g then some G else s.group g₁ := by
  by_cases hk : (g₁.ns, g₁.queue) = (g.ns, g.queue)
  · have hns : g₁.ns = g.ns := congrArg Prod.fst hk
    have hqueue : g₁.queue = g.queue := congrArg Prod.snd hk
    rw [group, group, hs, hns, hqueue, AList.lookup_insert, hq, Option.bind_some, Option.bind_some,
      hg]
    by_cases hgroup : g₁.group = g.group
    · have heq : g₁ = g := by
        cases g₁
        cases g
        simp_all
      rw [if_pos heq, hgroup, AList.lookup_insert]
    · have hne : g₁ ≠ g := fun h => hgroup (congrArg GroupRef.group h)
      rw [if_neg hne, AList.lookup_insert_ne hgroup]
  · have hne : g₁ ≠ g := by
      rintro rfl
      exact hk rfl
    rw [if_neg hne, group, group, hs, AList.lookup_insert_ne hk]

end Runtime

inductive Cmd.Changes (ch : Choice) (g : GroupRef) : (c : Cmd) → c.Answer → Group → Group → Prop
  | refused (msgID : Option Bytes) (payload : Bytes) (e : QueueError) (new : Bool) (G : Group) :
    Changes ch g (.publishLocked g msgID payload) (.error e, new) G G
  | accepted (msgID : Option Bytes) (payload : Bytes) (m : Message) (new : Bool) (G : Group)
    (ref : m.ref = g) (id : m.id = msgID.getD ch.newID) :
    Changes ch g (.publishLocked g msgID payload) (.ok m, new) G (G.enqueue m)
  | dispatched {G G' : Group} {msg : Option Message}
    (next : (G.promoteDelayed ch.ord ch.now).1.next ch.now = .ok (G', msg)) :
    Changes ch g (.tryDispatchOne g) msg G G'
  | completed (msgID : Bytes) {G G' : Group} {msg : Option Message}
    (next : ((G.complete msgID).1.promoteDelayed ch.ord ch.now).1.next ch.now = .ok (G', msg)) :
    Changes ch g (.completeAndNext g msgID) msg G G'
  | failed (msgID reason : Bytes) {G G₁ G' : Group} {dlq : Option Message}
    {r : Option (Bytes × Message) × Option Message}
    (fail : G.fail msgID reason ch.now = .ok (G₁, dlq)) (target : r.1 = Queue.dlqTarget G₁ dlq)
    (next : (G₁.promoteDelayed ch.ord ch.now).1.next ch.now = .ok (G', r.2)) :
    Changes ch g (.failAndNext g msgID reason) r G G'
  | drained {G G' : Group} {r : DrainResult} (drain : G.drainRound ch.ord ch.now = .ok (G', r)) :
    Changes ch g (.drainGroup g) r G G'
  | returned (msgID : Bytes) (G : Group) :
    Changes ch g (.returnToPending g msgID) () G (G.returnToPending msgID)
  | swept (shard : Nat) {r : List ExpiredLease} {G : Group}
    (listed : ∀ id ∈ Queue.expiredIDs G ch.ord ch.now, ⟨g.ns, g.queue, G.cfg.key, id⟩ ∈ r) :
    Changes ch g (.sweepShard g.ns g.queue shard) r G (Queue.sweepGroup ch.ord ch.now G)

def Cmd.messages : (c : Cmd) → c.Answer → List (GroupRef × Message)
  | .tryDispatchOne g, r => r.toList.map (Prod.mk g)
  | .completeAndNext g _, r => r.toList.map (Prod.mk g)
  | .failAndNext g _ _, r => r.2.toList.map (Prod.mk g) ++ r.1.toList.map fun t => (g, t.2)
  | .drainGroup g, r => (r.ready.getD []).map (Prod.mk g)
  | _, _ => []

inductive Runtime.Finds [PathMatch] (s : Runtime) (g : GroupRef) (c : Cmd) (G : Group) : Prop
  | old (group : s.group g = some G)
  | new {q : Queue} (group : s.group g = none) (queue : s.queues.lookup (g.ns, g.queue) = some q)
    (made : newGroup (q.resolveConfig g.group) = .ok G)
    (publishes : ∃ msgID payload, c = .publishLocked g msgID payload)

def Cmd.target : Cmd → Option GroupRef
  | .publishLocked g _ _ | .tryDispatchOne g | .completeAndNext g _
    | .failAndNext g _ _ | .drainGroup g
  | .returnToPending g _ => some g
  | _ => none

theorem Cmd.handle_target [PathMatch] {ch : Choice} {c : Cmd} {s s' : Runtime} {r : c.Answer}
    (hs : s.Named) (h : c.handle ch s = .ok (s', r)) {g₀ : GroupRef} (hc : c.target = some g₀) :
    s.group g₀ = none ∧ (∀ msgID payload, c ≠ .publishLocked g₀ msgID payload) ∧ c.messages r = [] ∧
        (∀ g, s'.group g = s.group g) ∨
      ∃ G G', s.Finds g₀ c G ∧ c.Changes ch g₀ r G G' ∧ (∀ x ∈ c.messages r, x.1 = g₀) ∧
        ∀ g, s'.group g = if g = g₀ then some G' else s.group g := by
  cases c with
  | publishLocked g msgID payload =>
    cases hc
    simp only [Cmd.handle] at h
    obtain ⟨q, q', hq, hlocked, rfl⟩ := Runtime.atQueue_ok h
    obtain ⟨⟨q₁, r₁⟩, hpub, hret⟩ := bind_ok.mp hlocked
    cases hret
    obtain ⟨G, hG, hcases⟩ := Queue.publishWithID_ok hpub
    have hfinds : s.Finds g₀ (.publishLocked g₀ msgID payload) G := by
      have hgroup := Runtime.group_of_queue hq
      rcases Queue.groupFor_cases hG with hl | ⟨hl, hnew⟩
      · exact .old (hgroup.trans hl)
      · exact .new (hgroup.trans hl) hq hnew ⟨msgID, payload, rfl⟩
    obtain ⟨hns, hname⟩ := Prod.mk.inj (hs _ q hq)
    have hnone : ∀ x ∈ ([] : List (GroupRef × Message)), x.1 = g₀ := List.forall_mem_nil _
    rcases hcases with ⟨-, -, rfl, rfl⟩ | ⟨rfl, keyIdx, rfl⟩
    · exact .inr ⟨G, G, hfinds, .refused msgID payload _ _ G, hnone,
        Runtime.group_of_setGroup hq rfl rfl⟩
    · refine .inr ⟨G, _, hfinds, .accepted msgID payload _ _ G ?_ rfl, hnone,
        Runtime.group_of_setGroup hq rfl rfl⟩
      rw [Message.ref, newMessageAt, hns, hname]
  | tryDispatchOne g =>
    cases hc
    obtain ⟨⟨s₁, r₁⟩, h₁, hret⟩ := bind_ok.mp h
    cases hret
    obtain ⟨q, q', hq, hop, rfl⟩ := Runtime.atQueue_ok h₁
    have hgroup := Runtime.group_of_queue hq
    obtain ⟨hl, rfl, rfl⟩ | ⟨G, G', hl, hn, rfl⟩ := Queue.tryDispatchOne_ok hop
    · exact .inl ⟨hgroup.trans hl, (fun _ _ heq => by cases heq), rfl,
        Runtime.group_of_sameGroups hq rfl rfl⟩
    · exact .inr ⟨G, G', .old (hgroup.trans hl), .dispatched hn, by simp [messages],
        Runtime.group_of_setGroup hq rfl rfl⟩
  | completeAndNext g msgID =>
    cases hc
    obtain ⟨⟨s₁, r₁⟩, h₁, hret⟩ := bind_ok.mp h
    cases hret
    obtain ⟨q, q', hq, hop, rfl⟩ := Runtime.atQueue_ok h₁
    have hgroup := Runtime.group_of_queue hq
    obtain ⟨hl, rfl, rfl⟩ | ⟨G, G', hl, hn, rfl⟩ := Queue.completeAndNext_ok hop
    · exact .inl ⟨hgroup.trans hl, (fun _ _ heq => by cases heq), rfl,
        Runtime.group_of_sameGroups hq rfl rfl⟩
    · exact .inr ⟨G, G', .old (hgroup.trans hl), .completed msgID hn, by simp [messages],
        Runtime.group_of_setGroup hq rfl rfl⟩
  | failAndNext g msgID reason =>
    cases hc
    obtain ⟨⟨s₁, r₁⟩, h₁, hret⟩ := bind_ok.mp h
    cases hret
    obtain ⟨q, q', hq, hop, rfl⟩ := Runtime.atQueue_ok h₁
    have hgroup := Runtime.group_of_queue hq
    obtain ⟨hl, rfl, rfl⟩ | ⟨G, G₁, G', dlq, hl, hf, ht, hn, rfl⟩ := Queue.failAndNext_ok hop
    · exact .inl ⟨hgroup.trans hl, (fun _ _ heq => by cases heq), rfl,
        Runtime.group_of_sameGroups hq rfl rfl⟩
    · refine .inr ⟨G, G', .old (hgroup.trans hl), .failed msgID reason hf ht hn, ?_,
        Runtime.group_of_setGroup hq rfl rfl⟩
      intro x hx
      rcases List.mem_append.mp hx with hx | hx
      all_goals
        obtain ⟨m, -, rfl⟩ := List.mem_map.mp hx
        rfl
  | drainGroup g =>
    cases hc
    obtain ⟨⟨s₁, r₁⟩, h₁, hret⟩ := bind_ok.mp h
    cases hret
    obtain ⟨q, q', hq, hop, rfl⟩ := Runtime.atQueue_ok h₁
    have hgroup := Runtime.group_of_queue hq
    obtain ⟨hl, rfl, rfl⟩ | ⟨G, G', hl, hd, rfl⟩ := Queue.drainGroup_ok hop
    · exact .inl ⟨hgroup.trans hl, (fun _ _ heq => by cases heq), rfl,
        Runtime.group_of_sameGroups hq rfl rfl⟩
    · exact .inr ⟨G, G', .old (hgroup.trans hl), .drained hd, by simp [messages],
        Runtime.group_of_setGroup hq rfl rfl⟩
  | returnToPending g msgID =>
    cases hc
    simp only [Cmd.handle] at h
    obtain ⟨q, q', hq, hret, rfl⟩ := Runtime.atQueue_ok h
    cases hret
    have hgroup := Runtime.group_of_queue hq
    obtain ⟨hl, heq⟩ | ⟨G, hl, heq⟩ := Queue.returnToPending_eq q g₀.group msgID
    · exact .inl ⟨hgroup.trans hl, (fun _ _ heq => by cases heq), rfl,
        Runtime.group_of_sameGroups hq rfl (congrArg Queue.groups heq)⟩
    · exact .inr ⟨G, _, .old (hgroup.trans hl), .returned msgID G, List.forall_mem_nil _,
        Runtime.group_of_setGroup hq rfl (congrArg Queue.groups heq)⟩
  | _ => cases hc

theorem Cmd.handle_group [PathMatch] {ch : Choice} {c : Cmd} {s s' : Runtime} {r : c.Answer}
    (hs : s.Named) (h : c.handle ch s = .ok (s', r)) (g : GroupRef) :
    s'.group g = s.group g ∧ (∀ x ∈ c.messages r, x.1 ≠ g) ∨
      ∃ G G', s.Finds g c G ∧ s'.group g = some G' ∧ c.Changes ch g r G G' := by
  cases htarget : c.target with
  | some g₀ =>
    rcases handle_target hs h htarget with ⟨-, -, hmessages, hsame⟩
      | ⟨G, G', hfinds, hchanges, hmessages, hgroup⟩
    · refine .inl ⟨hsame g, ?_⟩
      rw [hmessages]
      exact fun _ hx => (nomatch hx)
    · by_cases heq : g = g₀
      · subst heq
        exact .inr ⟨G, G', hfinds, (hgroup g).trans (if_pos rfl), hchanges⟩
      · exact .inl ⟨(hgroup g).trans (if_neg heq),
          fun x hx h => heq (h.symm.trans (hmessages x hx))⟩
  | none =>
    have hmessages : c.messages r = [] := by
      cases c <;> first | rfl | cases htarget
    have hnone : ∀ x ∈ c.messages r, x.1 ≠ g := by
      rw [hmessages]
      exact fun _ hx => (nomatch hx)
    by_cases hc : c.part = .queues
    case neg => exact .inl ⟨Runtime.group_of_same ((handle_frame h).queues hc) g, hnone⟩
    cases c with
    | indexKey g₀ =>
      simp only [Cmd.handle] at h
      obtain ⟨q, q', hq, hret, rfl⟩ := Runtime.atQueue_ok h
      cases hret
      refine .inl ⟨Runtime.group_of_sameGroups hq rfl ?_ g, hnone⟩
      rfl
    | sweepShard ns name shard =>
      simp only [Cmd.handle] at h
      obtain ⟨q, q', hq, hret, rfl⟩ := Runtime.atQueue_ok h
      cases hret
      by_cases hk : (g.ns, g.queue) = (ns, name)
      case neg =>
        refine .inl ⟨?_, hnone⟩
        rw [Runtime.group, Runtime.group, AList.lookup_insert_ne hk]
      cases hk
      obtain ⟨hns, hname⟩ := Prod.mk.inj (hs _ q hq)
      have hbefore := Runtime.group_of_queue hq
      rw [Runtime.group, AList.lookup_insert, hbefore, Option.bind_some, Map.lookup_mapTo]
      cases hl : q.groups.lookup g.group with
      | none => exact .inl ⟨rfl, hnone⟩
      | some G =>
        rw [Option.map_some]
        split
        · rename_i hshard
          refine .inr ⟨G, _, .old (hbefore.trans hl), rfl, .swept shard ?_⟩
          intro id hid
          simp only [List.mem_flatMap, List.mem_filter, RangeOrder.mem_pick, List.mem_map]
          refine ⟨⟨g.group, G⟩, ⟨AList.mem_lookup_iff.mp hl, decide_eq_true hshard⟩, id, hid, ?_⟩
          rw [hns, hname]
        · exact .inl ⟨rfl, hnone⟩
    | publishLocked | tryDispatchOne | completeAndNext | failAndNext | drainGroup
      | returnToPending => cases htarget
    | _ => cases hc

namespace System

def declared [PathMatch] (ns name : Bytes) (configs : List GroupConfig) : Queue :=
  configs.foldl Queue.setGroupConfig (newQueue name ns)

inductive Step [PathMatch] (sys : System) : Label → System → Prop
  | declare {ns name : Bytes} {configs : List GroupConfig}
    (new : sys.state.queues.lookup (ns, name) = none) :
    Step sys (.declare ns name configs)
      { sys with state.queues := sys.state.queues.insert (ns, name) (declared ns name configs) }
  | connect {ns : Bytes} :
    Step sys (.connect ns)
      { sys with state.conns := sys.state.conns ++ [⟨ns, 0, [], true, false, [], false⟩] }
  | receive {conn pages : Nat} {f : ClientFrame} {c : Conn} (reader : sys.atReader conn = some c)
    (valid : f.valid = true) :
    Step sys (.receive conn f pages)
      ({ sys with
          state.conns := sys.state.conns.set conn
            { c with unanswered := f.answers.elim c.unanswered c.unanswered.erase } }.spawn
        (.frame conn c.ns f pages))
  | disconnect {conn : Nat} {c : Conn} (reader : sys.atReader conn = some c) :
    Step sys (.disconnect conn)
      ({ sys with state.conns := sys.state.conns.set conn { c with reading := false } }.spawn
        (.teardown conn))
  | deliver {channel depth : Nat} {msg : Message} {buf : List Message}
    (first : sys.state.dispatchChs[channel]? = some ⟨depth, msg :: buf⟩) :
    Step sys (.deliver channel)
      ({ sys with state.dispatchChs := sys.state.dispatchChs.set channel ⟨depth, buf⟩ }.spawn
        (.dispatch msg))
  | process {g : GroupRef} {active : List GroupRef} (first : sys.state.active = g :: active) :
    Step sys .process ({ sys with state.active := active }.spawn (.process g))
  | fire {timer : Nat} {g : GroupRef} {wakeNs : Int}
    (armed : sys.state.timers[timer]? = some (g, wakeNs)) :
    Step sys (.fire timer) ({ sys with state.timers := sys.state.timers.eraseIdx timer }.spawn
      (.timer g wakeNs))
  | activate {g : GroupRef} (queue : (sys.state.queues.lookup (g.ns, g.queue)).isSome) :
    Step sys (.activate g) (sys.spawn (.activate g))
  | sweep : Step sys .sweep (sys.spawn .sweep)
  | flush {conn n : Nat} {c : Conn} (open_ : sys.state.conns[conn]? = some c) :
    Step sys (.flush conn n)
      { sys with state.conns := sys.state.conns.set conn { c with out := c.out.drop n } }
  | run {thread : Nat} {ch : Choice} {task : Task} {c : Cmd} {k : c.Answer → Program Unit}
    {s : Runtime} {r : c.Answer} (next : sys.threads[thread]? = some ⟨task, .call c k⟩)
    (handled : c.handle ch sys.state = .ok (s, r)) :
    Step sys (.run thread ch) ⟨s, sys.threads.set thread ⟨task, k r⟩⟩

theorem atReader_conn {sys : System} {conn : Nat} {C : Conn} (h : sys.atReader conn = some C) :
    sys.state.conns[conn]? = some C :=
  Option.eq_some_of_filter_eq_some h

theorem step_ok [PathMatch] {sys sys' : System} {l : Label} (h : sys.step l = .ok sys') :
    sys.Step l sys' := by
  cases l with
  | declare ns name configs =>
    simp only [step] at h
    split at h
    · cases h
    · rename_i hnew
      cases h
      exact .declare (Option.not_isSome_iff_eq_none.mp hnew)
  | connect ns =>
    cases h
    exact .connect
  | receive conn f pages =>
    simp only [step] at h
    split at h
    · cases h
    · rename_i c hreader
      split at h
      · rename_i hvalid
        cases h
        exact .receive hreader hvalid
      · cases h
  | disconnect conn =>
    simp only [step] at h
    split at h
    · cases h
    · rename_i c hreader
      cases h
      exact .disconnect hreader
  | deliver channel =>
    simp only [step] at h
    split at h
    · rename_i hfirst
      cases h
      exact .deliver hfirst
    · cases h
  | process =>
    simp only [step] at h
    split at h
    · rename_i hfirst
      cases h
      exact .process hfirst
    · cases h
  | fire timer =>
    simp only [step] at h
    split at h
    · rename_i harmed
      cases h
      exact .fire harmed
    · cases h
  | activate g =>
    simp only [step] at h
    split at h
    · rename_i hqueue
      cases h
      exact .activate hqueue
    · cases h
  | sweep =>
    cases h
    exact .sweep
  | flush conn n =>
    obtain ⟨⟨s, _⟩, hconn, hret⟩ := bind_ok.mp h
    cases hret
    obtain ⟨c, c', hc, hf, rfl⟩ := Runtime.atConn_ok hconn
    cases hf
    exact .flush hc
  | run thread ch =>
    obtain ⟨⟨s, threads⟩, hadvance, hret⟩ := bind_ok.mp h
    cases hret
    obtain ⟨task, c, k, r, hnext, hhandled, rfl⟩ := advance_ok hadvance
    exact .run hnext hhandled

end System

end Octar
