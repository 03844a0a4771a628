import Octar.Broker.Deliveries

namespace Octar

open Go Threads

namespace Group

variable {g g' : Group}

def size (g : Group) : Nat := g.slots.card

theorem Serves.size {batch : List Message} (h : Serves g g' batch) : g'.size = g.size := by
  have hcard := congrArg Multiset.card h.bodies
  rwa [Group.bodies, Group.bodies, Multiset.card_map, Multiset.card_map] at hcard

theorem Releases.size {m : Message} {kept : Option (Loc × Message)} (h : Releases g g' m kept) :
    g'.size + 1 = g.size + kept.toList.length := by
  obtain ⟨rest, hold, hnew⟩ := h.slots
  rw [Group.size, Group.size, hold, hnew, Multiset.card_cons, Multiset.card_add, Multiset.coe_card]
  omega

theorem enqueue_size (hw : g.Wf) (m : Message) : (g.enqueue m).size = g.size + 1 := by
  rw [size, enqueue, slots_appendReady g m hw.readyHead_le, Multiset.card_cons, size]

def full (g : Group) : Bool := 0 < g.cfg.maxPending && g.cfg.maxPending ≤ g.pendingCount

def drops (g : Group) (m : Message) : Bool :=
  g.cfg.retry.maxAttempts ≤ m.attempts + 1 && !g.cfg.dlq.any DLQConfig.enabled

theorem fail_size (hw : g.Wf) {id errMsg : Bytes} {now : Int} {dlq : Option Message}
    (h : g.fail id errMsg now = .ok (g', dlq))
    (hdrops : ∀ m, g.processing.get? id = some m → g.drops m = false) :
    (g'.size : Int) = g.size + if (Queue.dlqTarget g' dlq).isSome then -1 else 0 := by
  cases fail_cases h with
  | absent none same letter =>
    subst same letter
    exact (Int.add_zero _).symm
  | retries m delay found more delayed put letter =>
    subst put letter
    have hsize := (release_dropped hw found).size
    simp only [Option.toList_none, List.length_nil, Nat.add_zero] at hsize
    rw [size, slots_pushDelayed { g with processing := g.processing.delete id }, Multiset.card_cons]
    change ((size { g with processing := g.processing.delete id } + 1 : Nat) : Int) = g.size + 0
    omega
  | drops m found exhausted dropped letter =>
    subst dropped
    have hsize := (release_dropped hw found).size
    simp only [Option.toList_none, List.length_nil, Nat.add_zero] at hsize
    have hkeeps := hdrops m found
    rw [drops, decide_eq_true exhausted, Bool.true_and, Bool.not_eq_false',
      Option.any_eq_true] at hkeeps
    obtain ⟨d, hd, henabled⟩ := hkeeps
    simp only [Queue.dlqTarget, letter, hd, Option.filter_some, henabled, if_true, Option.map_some,
      Option.isSome_some]
    omega

end Group

def Queue.size (q : Queue) : Nat := q.groups.total Group.size

namespace Runtime

def size (s : Runtime) : Nat := s.queues.total Queue.size

variable {s s' : Runtime} {g₀ : GroupRef}

theorem size_change (g₀ : GroupRef)
    (hqueues : ∀ k, (s'.queues.lookup k).isSome = (s.queues.lookup k).isSome)
    (hother : ∀ g, g ≠ g₀ → (s'.group g).map Group.size = (s.group g).map Group.size) :
    s'.size + (s.group g₀).elim 0 Group.size = s.size + (s'.group g₀).elim 0 Group.size := by
  have hsome : ∀ {k q}, s.queues.lookup k = some q → ∃ q', s'.queues.lookup k = some q' := by
    intro k q hq
    refine Option.isSome_iff_exists.mp ((hqueues k).trans ?_)
    rw [hq]
    rfl
  have hnone : ∀ {k}, s.queues.lookup k = none → s'.queues.lookup k = none := by
    intro k hk
    have h := hqueues k
    rw [hk] at h
    exact Option.not_isSome_iff_eq_none.mp (Bool.eq_false_iff.mp h)
  have hgroups : ∀ {k : Bytes × Bytes} {q q' : Queue}, s.queues.lookup k = some q →
      s'.queues.lookup k = some q' → ∀ key, (⟨k.1, k.2, key⟩ : GroupRef) ≠ g₀ →
        (q'.groups.lookup key).map Group.size = (q.groups.lookup key).map Group.size := by
    intro k q q' hq hq' key hne
    have h := hother ⟨k.1, k.2, key⟩ hne
    rwa [group, group, hq, hq'] at h
  have hrest : ∀ k, k ≠ (g₀.ns, g₀.queue) →
      (s'.queues.lookup k).map Queue.size = (s.queues.lookup k).map Queue.size := by
    intro k hk
    cases hq : s.queues.lookup k with
    | none => rw [hnone hq]
    | some q =>
      obtain ⟨q', hq'⟩ := hsome hq
      rw [hq', Option.map_some, Option.map_some]
      refine congrArg some (Map.total_congr _ fun key => hgroups hq hq' key ?_)
      rintro rfl
      exact hk rfl
  have htotal := Map.total_change Queue.size hrest
  cases hq : s.queues.lookup (g₀.ns, g₀.queue) with
  | none =>
    rw [group, group, hq, hnone hq]
    rw [hq, hnone hq] at htotal
    exact htotal
  | some q =>
    obtain ⟨q', hq'⟩ := hsome hq
    have hqueue : q'.groups.total Group.size + (q.groups.lookup g₀.group).elim 0 Group.size =
        q.groups.total Group.size + (q'.groups.lookup g₀.group).elim 0 Group.size :=
      Map.total_change Group.size fun key hne => hgroups hq hq' key fun heq =>
        hne (congrArg GroupRef.group heq)
    rw [hq, hq', Option.elim_some, Option.elim_some] at htotal
    rw [group_of_queue hq, group_of_queue hq', size, size]
    unfold Queue.size at htotal ⊢
    omega

theorem size_of_same (hqueues : ∀ k, (s'.queues.lookup k).isSome = (s.queues.lookup k).isSome)
    (hgroup : ∀ g, (s'.group g).map Group.size = (s.group g).map Group.size) :
    s'.size = s.size := by
  have hchange := size_change ⟨[], [], []⟩ hqueues fun g _ => hgroup g
  have helim : ∀ o : Option Group, o.elim 0 Group.size = (o.map Group.size).getD 0 := by
    intro o
    cases o <;> rfl
  rw [helim, helim, hgroup] at hchange
  omega

theorem size_of_declare [PathMatch] {ns name : Bytes} {configs : List GroupConfig}
    (hnew : s.queues.lookup (ns, name) = none)
    (hs : s'.queues = s.queues.insert (ns, name) (System.declared ns name configs)) :
    s'.size = s.size := by
  have hempty : (System.declared ns name configs).size = 0 := by
    rw [Queue.size, (System.declared_empty ns name configs).1.groups]
    rfl
  have hchange : s'.queues.total Queue.size + (s.queues.lookup (ns, name)).elim 0 Queue.size =
      s.queues.total Queue.size + (s'.queues.lookup (ns, name)).elim 0 Queue.size :=
    Map.total_change Queue.size fun k hne => by rw [hs, AList.lookup_insert_ne hne]
  rw [hnew, hs, AList.lookup_insert, Option.elim_some, hempty] at hchange
  rw [size, hs, size]
  exact hchange

end Runtime

def Cmd.sizeChange : (c : Cmd) → c.Answer → Int
  | .publishLocked _ (some _) _, (.ok _, _) => 1
  | .completeAndNext .., _ => -1
  | .failAndNext .., failed => if failed.1.isSome then -1 else 0
  | _, _ => 0

def Cmd.msgsChange : (c : Cmd) → c.Answer → Int
  | .incGlobalMsgs, counted => if counted then 1 else 0
  | .decGlobalMsgs, _ => -1
  | _, _ => 0

/-- The command acknowledges a message that is in processing; it fails one that is retried or goes
to a DLQ, or none; the DLQ refuses the message. -/
def Cmd.accounted (s : Runtime) : Cmd → Bool
  | .completeAndNext g msgID => (s.group g).any fun G => (G.processing.get? msgID).isSome
  | .failAndNext g msgID _ =>
    (s.group g).all fun G => (G.processing.get? msgID).all fun m => !G.drops m
  | .publishLocked g none _ => (s.group g).any Group.full
  | _ => true

theorem Queue.publishWithID_full [PathMatch] {q : Queue} {key : Bytes} {G : Group}
    (hG : q.groups.lookup key = some G) (hfull : G.full = true) (id payload : Bytes) (now : Int) :
    q.publishWithID key id payload now =
      .ok (q.setGroup key G, .error (.depthLimitExceeded key G.cfg.maxPending)) := by
  rw [Group.full, Bool.and_eq_true, decide_eq_true_eq, decide_eq_true_eq] at hfull
  rw [publishWithID, groupFor, hG]
  exact if_pos hfull

theorem Cmd.Changes.size {ch : Choice} {g : GroupRef} {c : Cmd} {r : c.Answer} {G G' : Group}
    (h : c.Changes ch g r G G') (hw : G.Wf)
    (hcomplete : ∀ msgID, c = .completeAndNext g msgID → (G.processing.get? msgID).isSome)
    (hfail : ∀ msgID reason, c = .failAndNext g msgID reason →
      ∀ m, G.processing.get? msgID = some m → G.drops m = false)
    (hpublish : ∀ payload, c = .publishLocked g none payload → c.published r = none) :
    (G'.size : Int) = G.size + c.sizeChange r := by
  cases h with
  | refused msgID payload e new =>
    cases msgID with
    | none => exact (Int.add_zero _).symm
    | some id => exact (Int.add_zero _).symm
  | accepted msgID payload m new =>
    cases msgID with
    | none => cases hpublish payload rfl
    | some id =>
      rw [Group.enqueue_size hw m]
      rfl
  | @dispatched G G' msg next =>
    rw [(Group.promote_next_serves hw next).size]
    exact (Int.add_zero _).symm
  | @completed msgID G G' msg next =>
    have hsome := hcomplete msgID rfl
    obtain ⟨hnone, -⟩ | ⟨m, -, hreleases, -⟩ := Group.complete_spec hw msgID
    · rw [hnone] at hsome
      cases hsome
    · have hsize := hreleases.size
      rw [(Group.promote_next_serves hreleases.wf next).size]
      change _ = _ + (-1 : Int)
      simp only [Option.toList_none, List.length_nil] at hsize
      omega
  | @failed msgID reason G G₁ G' dlq r fail target next =>
    rw [(Group.promote_next_serves (Group.fail_wf hw fail) next).size,
      Group.fail_size hw fail (hfail msgID reason rfl)]
    rw [sizeChange, target]
  | @drained G G' r drain =>
    rw [(Group.drainRound_serves hw drain).size]
    exact (Int.add_zero _).symm
  | returned msgID =>
    rw [(Group.returnToPending_serves hw msgID).size]
    exact (Int.add_zero _).symm
  | swept shard listed =>
    rw [Queue.sweepGroup, (Group.foldl_returnToPending_serves hw _).size]
    exact (Int.add_zero _).symm

section Handle

variable [PathMatch] {ch : Choice} {c : Cmd} {s s' : Runtime} {r : c.Answer}

theorem Cmd.publishLocked_full {g : GroupRef} {msgID : Option Bytes} {payload : Bytes}
    {r : Except QueueError Message × Bool} (hfull : (s.group g).any Group.full = true)
    (h : (Cmd.publishLocked g msgID payload).handle ch s = .ok (s', r)) :
    (Cmd.publishLocked g msgID payload).published r = none := by
  rw [Option.any_eq_true] at hfull
  obtain ⟨G, hG, hfull⟩ := hfull
  simp only [Cmd.handle] at h
  obtain ⟨q, q', hq, hlocked, -⟩ := Runtime.atQueue_ok h
  obtain ⟨⟨q₁, r₁⟩, hpub, hret⟩ := bind_ok.mp hlocked
  cases hret
  rw [Runtime.group_of_queue hq] at hG
  rw [Queue.publishWithID_full hG hfull] at hpub
  cases hpub
  rfl

theorem Cmd.handle_queues_isSome (h : c.handle ch s = .ok (s', r)) (k : Bytes × Bytes) :
    (s'.queues.lookup k).isSome = (s.queues.lookup k).isSome := by
  have hid := congrArg Option.isSome (handle_identity h k)
  rwa [Option.isSome_map, Option.isSome_map] at hid

theorem Cmd.handle_size (hs : s.Placed) (hw : s.WellFormed) (haccounted : c.accounted s = true)
    (h : c.handle ch s = .ok (s', r)) : (s'.size : Int) = s.size + c.sizeChange r := by
  have hqueues := handle_queues_isSome h
  have hwf : ∀ {g G}, s.Finds g c G → G.Wf ∧ (s.group g).elim 0 Group.size = G.size := by
    intro g G hG
    cases hG with
    | old hG => exact ⟨hw g G hG, by rw [hG]; rfl⟩
    | new hnone _ made _ =>
      obtain ⟨-, hslots, -, hwf⟩ := Group.newGroup_ok made
      refine ⟨hwf, ?_⟩
      rw [hnone, Group.size, hslots]
      rfl
  cases htarget : c.target with
  | none =>
    have hzero : c.sizeChange r = 0 := by
      cases c <;> first | rfl | cases htarget
    have hsame : s'.size = s.size := by
      refine Runtime.size_of_same hqueues fun g => ?_
      rcases handle_group hs.named h g with ⟨hsame, -⟩ | ⟨G, G', hG, hG', hchanges⟩
      · rw [hsame]
      · cases hchanges with
        | swept shard listed =>
          cases hG with
          | old hG =>
            rw [hG, hG', Option.map_some, Option.map_some, Queue.sweepGroup,
              (Group.foldl_returnToPending_serves (hw g G hG) _).size]
          | new _ _ _ publishes =>
            obtain ⟨msgID, payload, hc⟩ := publishes
            cases hc
        | _ => cases htarget
    rw [hsame, hzero, Int.add_zero]
  | some g₀ =>
    rcases handle_target hs.named h htarget with ⟨hnone, hpub, hmessages, hsame⟩
      | ⟨G, G', hG, hchanges, -, hgroup⟩
    · have hzero : c.sizeChange r = 0 := by
        cases c with
        | publishLocked g msgID payload =>
          cases htarget
          exact absurd rfl (hpub msgID payload)
        | completeAndNext g msgID =>
          cases htarget
          rw [accounted, hnone] at haccounted
          cases haccounted
        | failAndNext g msgID reason =>
          obtain ⟨dlq, next⟩ := r
          cases dlq with
          | none => rfl
          | some x =>
            have hmem : (g, x.2) ∈ (Cmd.failAndNext g msgID reason).messages (some x, next) :=
              List.mem_append_right _ List.mem_cons_self
            rw [hmessages] at hmem
            cases hmem
        | _ => rfl
      rw [hzero, Int.add_zero, Runtime.size_of_same hqueues fun g => by rw [hsame g]]
    · have hchange := Runtime.size_change g₀ hqueues fun g hne => by rw [hgroup g, if_neg hne]
      obtain ⟨hGw, hsize⟩ := hwf hG
      have hold : ∀ {G₁}, s.group g₀ = some G₁ → G₁ = G := by
        intro G₁ hG₁
        cases hG with
        | old hG => exact Option.some.inj (hG₁.symm.trans hG)
        | new hnone => cases hnone.symm.trans hG₁
      have hnew : (G'.size : Int) = G.size + c.sizeChange r := by
        refine hchanges.size hGw ?_ ?_ ?_
        · rintro msgID rfl
          rw [accounted, Option.any_eq_true] at haccounted
          obtain ⟨G₁, hG₁, hsome⟩ := haccounted
          rwa [hold hG₁] at hsome
        · rintro msgID reason rfl m hm
          cases hG with
          | old hG =>
            rw [accounted, hG, Option.all_some, hm, Option.all_some] at haccounted
            exact Bool.not_eq_true' .. |>.mp haccounted
          | new _ _ _ publishes =>
            obtain ⟨_, _, hc⟩ := publishes
            cases hc
        · rintro payload rfl
          exact publishLocked_full haccounted h
      rw [hsize, hgroup g₀, if_pos rfl, Option.elim_some] at hchange
      omega

theorem Cmd.handle_msgs (h : c.handle ch s = .ok (s', r)) :
    s'.globalMsgs = s.globalMsgs + c.msgsChange r := by
  by_cases hc : c.part = .counters
  case neg =>
    have hzero : c.msgsChange r = 0 := by
      cases c <;> first | rfl | exact absurd rfl hc
    rw [(handle_frame h).globalMsgs hc, hzero, Int.add_zero]
  cases c with
  | incGlobalMsgs =>
    simp only [Cmd.handle] at h
    split at h
    · cases h
      exact (Int.add_zero _).symm
    · cases h
      rfl
  | decGlobalMsgs =>
    cases h
    rfl
  | append event =>
    simp only [Cmd.handle] at h
    split at h
    all_goals
      cases h
      exact (Int.add_zero _).symm
  | _ => cases hc

end Handle

def Cmd.countDue : Cmd → Int
  | .decGlobalMsgs => 1
  | .completeAndNext .. => -1
  | _ => 0

def Cmd.countUsual : (c : Cmd) → Option c.Answer
  | .generateID => some []
  | .append _ => some false
  | .publishLocked g _ _ => some (.error (.depthLimitExceeded g.group 0), false)
  | .decGlobalMsgs | .writeOrWait .. => some ()
  | _ => none

def aheadBy : Program Unit → Int
  | .ret _ => 0
  | .call c k => c.countDue + c.countUsual.elim 0 fun r => aheadBy (k r)

def aheadGain (c : Cmd) (r : c.Answer) : Int := c.msgsChange r - c.sizeChange r

theorem Cmd.countUsual_possible {c : Cmd} {r : c.Answer} (h : c.countUsual = some r) :
    c.Possible r := by
  intro x hx
  cases c <;> first | cases hx | cases h

def countLedger : Ledger Cmd Cmd.Answer where
  possible := Cmd.Possible
  due := Cmd.countDue
  usual := Cmd.countUsual
  gain := aheadGain
  rel := Eq
  load := aheadBy
  load_call _ _ := rfl
  usual_possible _ _ := Cmd.countUsual_possible
  rel_refl _ := rfl

def Cmd.Uncounted : Cmd → Prop
  | .publishLocked .. | .completeAndNext .. | .failAndNext .. | .incGlobalMsgs | .decGlobalMsgs =>
    False
  | _ => True

theorem neutral_count (c : Cmd) (h : c.Uncounted) : countLedger.Neutral c := by
  refine ⟨?_, fun r => ?_⟩
  · change c.countDue = 0
    cases c <;> first | rfl | exact h.elim
  · change c.msgsChange r - c.sizeChange r = 0
    cases c <;> first | rfl | exact h.elim

theorem quiet_uncounted (c : Cmd) (hc : c.Quiet) : c.Uncounted := by
  cases c <;> first | exact trivial | exact hc.elim

section Handlers

theorem carries_quiet {α : Type} {p : Program α} (h : p.Uses Cmd.Possible Cmd.Quiet) :
    countLedger.Carries 0 p :=
  .ofUses (fun c hc => neutral_count c (quiet_uncounted c hc)) h

theorem dec_carries {p : Program Unit} {n : Int} (h : countLedger.Carries n p) :
    countLedger.Carries (1 + n) (do command .decGlobalMsgs; p) := by
  refine Ledger.Carries.seq (c := Cmd.decGlobalMsgs) (fun _ => n) rfl (fun _ _ => h) fun _ _ => ?_
  change n = 1 + n + (-1 - 0)
  omega

theorem publishAs_carries {g : GroupRef} {msgID payload : Bytes}
    {f : Except QueueError Message → Program Unit} (hok : ∀ m, countLedger.Carries 0 (f (.ok m)))
    (herror : ∀ e, countLedger.Carries 1 (f (.error e))) :
    countLedger.Carries 1 (publishAs g (some msgID) payload >>= f) := by
  refine Ledger.Carries.seq (c := Cmd.publishLocked g (some msgID) payload)
    (fun r => r.1.toOption.elim 1 fun _ => 0) rfl ?_ ?_
  · rintro ⟨published, new⟩ _
    cases published with
    | error e => exact herror e
    | ok m =>
      cases new with
      | false => exact hok m
      | true => exact .still (neutral_count (.indexKey g) trivial) fun _ _ => hok m
  · rintro ⟨published, new⟩ _
    cases published <;> rfl

theorem onPublish_carries (conn : Nat) (g : GroupRef) (payload : Bytes) :
    countLedger.Carries 0 (onPublish conn g payload) := by
  refine .still (neutral_count _ trivial) fun _ _ => .ite (fun _ => ?_) fun _ => ?_
  · exact .still (neutral_count _ trivial) fun _ _ => .ret ()
  refine Ledger.Carries.seq (c := Cmd.incGlobalMsgs) (fun counted => if counted then 1
    else 0) rfl ?_ ?_
  · intro counted _
    cases counted with
    | false => exact .still (neutral_count _ trivial) fun _ _ => .ret ()
    | true =>
      change countLedger.Carries 1 _
      refine .wait (neutral_count _ trivial) rfl fun msgID _ => ?_
      refine .wait (neutral_count _ trivial) rfl fun _ _ => .ite (fun _ => ?_) fun _ =>
        publishAs_carries ?_ ?_
      · exact .wait (neutral_count _ trivial) rfl fun _ _ => dec_carries (.ret ())
      · intro msg
        refine .still (neutral_count _ trivial) fun _ _ => ?_
        refine .bind (carries_quiet (dispatchOne_quiet g)) fun _ =>
          .still (neutral_count _ trivial) fun _ _ => ?_
        exact .ite (fun _ => carries_quiet (activate_quiet g)) fun _ => .ret ()
      · intro e
        exact .wait (neutral_count _ trivial) rfl fun _ _ => dec_carries (.ret ())
  · intro counted _
    cases counted <;> rfl

theorem onACK_carries (conn : Nat) (g : GroupRef) (msgID : Bytes) :
    countLedger.Carries 0 (onACK conn g msgID) := by
  refine .still (neutral_count _ trivial) fun _ _ => .still (neutral_count _ trivial) fun _ _ => ?_
  refine .still (neutral_count _ trivial) fun _ _ => .ite (fun _ => .ret ()) fun _ => ?_
  refine .still (neutral_count _ trivial) fun _ _ => .ite (fun _ => .ret ()) fun _ => ?_
  have hcomplete : countLedger.Carries (-1) (do
      let next : Option Message ← command (.completeAndNext g msgID)
      dispatchNext next
      activate g) := by
    refine Ledger.Carries.seq (c := Cmd.completeAndNext g msgID) (fun _ => 0) rfl
      (fun next _ => ?_) fun _ _ => rfl
    exact .bind (carries_quiet (dispatchNext_quiet next)) fun _ => carries_quiet (activate_quiet g)
  exact dec_carries hcomplete

theorem deadLetter_carries (ns : Bytes) (dlq : Option (Bytes × Message)) :
    countLedger.Carries 0 (deadLetter ns dlq) := by
  cases dlq with
  | none => exact .ret ()
  | some x =>
    have hfound : countLedger.Carries 0 (do
        let subscribed : Bool ← command (.registryHas ⟨ns, x.1, x.2.groupKey⟩)
        if subscribed then activate ⟨ns, x.1, x.2.groupKey⟩) :=
      .still (neutral_count _ trivial) fun _ _ =>
        .ite (fun _ => carries_quiet (activate_quiet _)) fun _ => .ret ()
    refine .ite (fun _ => .ret ()) fun _ => .still (neutral_count _ trivial) fun _ _ =>
      .ite (fun _ => .ret ()) fun _ => ?_
    refine Ledger.Carries.seq (c := Cmd.publishLocked ⟨ns, x.1, x.2.groupKey⟩ none x.2.payload)
      (fun _ => 0) rfl ?_ ?_
    · rintro ⟨published, new⟩ _
      cases published with
      | error e => exact .ret ()
      | ok m =>
        cases new with
        | false => exact hfound
        | true => exact .still (neutral_count (.indexKey _) trivial) fun _ _ => hfound
    · rintro ⟨published, new⟩ _
      cases published <;> rfl

theorem onNACK_carries (conn : Nat) (g : GroupRef) (msgID reason : Bytes) :
    countLedger.Carries 0 (onNACK conn g msgID reason) := by
  refine .still (neutral_count _ trivial) fun _ _ => .still (neutral_count _ trivial) fun _ _ => ?_
  refine .still (neutral_count _ trivial) fun _ _ => .ite (fun _ => .ret ()) fun _ => ?_
  refine .still (neutral_count _ trivial) fun _ _ => .ite (fun _ => .ret ()) fun _ => ?_
  refine Ledger.Carries.seq (c := Cmd.failAndNext g msgID reason)
    (fun failed => if failed.1.isSome then 1 else 0) rfl (fun failed _ => ?_) ?_
  · have hrest : countLedger.Carries 0
        (do dispatchNext failed.2; activate g; deadLetter g.ns failed.1) :=
      .bind (carries_quiet (dispatchNext_quiet _)) fun _ =>
        .bind (carries_quiet (activate_quiet g)) fun _ => deadLetter_carries g.ns failed.1
    refine .ite (fun hsome => ?_) fun hnone => ?_
    · rw [if_pos hsome]
      exact dec_carries hrest
    · rw [if_neg hnone]
      exact hrest
  · rintro ⟨dlq, next⟩ _
    cases dlq <;> rfl

theorem task_counted (t : Task) : countLedger.Carries 0 t.program := by
  by_cases ht : t.counts = true
  · cases t with
    | frame conn ns f pages =>
      cases f with
      | publish queue group payload => exact onPublish_carries conn ⟨ns, queue, group⟩ payload
      | ack msgID queue group => exact onACK_carries conn ⟨ns, queue, group⟩ msgID
      | nack msgID queue group reason => exact onNACK_carries conn ⟨ns, queue, group⟩ msgID reason
      | _ => cases ht
    | _ => cases ht
  · exact carries_quiet (task_quiet (Bool.not_eq_true _ |>.mp ht))

end Handlers

namespace System

def accounted (sys : System) : Label → Bool
  | .run thread ch =>
    (sys.threads[thread]?.bind Thread.next?).all fun c => c.fresh ch sys.state &&
      c.accounted sys.state
  | _ => true

structure Exact (sys : System) : Prop where
  regular : sys.Regular
  wellFormed : sys.state.WellFormed
  kept : ∀ t ∈ sys.threads, t.prog.Balanced Cmd.Possible aheadBy aheadGain
  quiet : ∀ t ∈ sys.threads, t.task.counts = false → t.prog.Uses Cmd.Possible Cmd.Quiet
  count : sys.state.globalMsgs = sys.state.size + total aheadBy sys.threads

theorem exact_start (cfg : RuntimeConfig) (chs : List DispatchCh) : (start cfg chs).Exact := by
  refine ⟨regular_start cfg chs, ?_, ?_, ?_, rfl⟩
  · intro g G hG
    cases hG
  · intro t ht
    cases ht
  · intro t ht
    cases ht

variable [PathMatch] {sys sys' : System} {l : Label}

theorem Exact.step (hsys : sys.Exact) (haccounted : sys.accounted l = true) (h : sys.Step l sys') :
    sys'.Exact := by
  have hplaced := hsys.regular.placed
  have hkept : ∀ t ∈ sys'.threads, t.prog.Balanced Cmd.Possible aheadBy aheadGain := by
    refine h.threads hsys.kept (fun t _ => ((task_counted t).whole rfl).2) ?_
    intro ch task c k s r handled hall
    exact hall.2 r (Cmd.handle_possible hplaced handled)
  have hquiet : ∀ t ∈ sys'.threads, t.task.counts = false → t.prog.Uses Cmd.Possible Cmd.Quiet := by
    refine h.threads hsys.quiet (fun t _ => task_quiet) ?_
    intro ch task c k s r handled hall ht
    exact (hall ht).2 r (Cmd.handle_possible hplaced handled)
  have hregular := hsys.regular.step h
  have hsame : sys'.state.queues = sys.state.queues → sys'.state.globalMsgs = sys.state.globalMsgs →
      total aheadBy sys'.threads = total aheadBy sys.threads → sys'.Exact := by
    intro hqueues hmsgs htotal
    refine ⟨hregular, ?_, hkept, hquiet, ?_⟩
    · intro g G hG
      exact hsys.wellFormed g G ((Runtime.group_of_same hqueues g).symm.trans hG)
    · rw [hmsgs, htotal, Runtime.size, hqueues]
      exact hsys.count
  have hspawn : ∀ t : Task, total aheadBy (sys.threads ++ [t.start]) =
      total aheadBy sys.threads := by
    intro t
    rw [total_append, show aheadBy t.start.prog = 0 from ((task_counted t).whole rfl).1,
      Int.add_zero]
  cases h with
  | @declare ns name configs new =>
    refine ⟨hregular, ?_, hkept, hquiet, ?_⟩
    · intro g G hG
      exact hsys.wellFormed g G ((Runtime.group_of_declare new rfl g).symm.trans hG)
    · rw [Runtime.size_of_declare new rfl]
      exact hsys.count
  | connect | flush => exact hsame rfl rfl rfl
  | receive | disconnect | deliver | process | fire | activate | sweep =>
    exact hsame rfl rfl (hspawn _)
  | @run thread ch task c k s r next handled =>
    simp only [accounted, next, Option.bind_some, Thread.next?, Option.all_some,
      Bool.and_eq_true] at haccounted
    refine ⟨hregular, Cmd.handle_wellFormed hplaced hsys.wellFormed haccounted.1 handled,
      hkept, hquiet, ?_⟩
    have hcount := hsys.count
    have hmsgs := Cmd.handle_msgs handled
    have hsize := Cmd.handle_size hplaced hsys.wellFormed haccounted.2 handled
    have htotal :=
      total_advance next (hsys.kept _ (List.mem_of_getElem? next))
        (Cmd.handle_possible hplaced handled)
    unfold aheadGain at htotal
    dsimp only
    omega

/-- If every `ACK` finds its message in processing, no `NACK` drops a message and no dead letter is
added to a queue, then the counter is exact whenever no handler is running. -/
theorem global_counter_exact {cfg : RuntimeConfig} {depths : List Nat}
    (hreach : Reachable System.step (fun sys l => sys.accounted l = true)
      (.start cfg (depths.map fun n => ⟨n, []⟩)) sys)
    (hdone : ∀ t ∈ sys.threads, t.task.counts = true → t.finished = true) :
    sys.state.globalMsgs = sys.state.size := by
  have hsys : sys.Exact :=
    hreach.invariant (exact_start cfg _) fun _ _ _ hsys hl h => hsys.step hl (step_ok h)
  have hzero : total aheadBy sys.threads = 0 := by
    apply total_eq_zero
    intro t ht
    cases hc : t.task.counts with
    | false => exact ((carries_quiet (hsys.quiet t ht hc)).whole rfl).1
    | true =>
      have hfinished := hdone t ht hc
      obtain ⟨task, p⟩ := t
      cases p with
      | ret a => rfl
      | call c k => cases hfinished
  rw [hsys.count, hzero, Int.add_zero]

end System

def System.handled (sys : System) : Bool := sys.threads.all fun t => !t.task.counts || t.finished

theorem global_counter_exact_sample :
    ∃ sys, Reachable (@System.step literalMatch) (fun sys l => sys.accounted l = true)
        (.start ⟨1, 0, 0⟩ ([1].map fun n => ⟨n, []⟩)) sys ∧
      (∀ t ∈ sys.threads, t.task.counts = true → t.finished = true) ∧ sys.state.globalMsgs = 1 ∧
        sys.state.size = 1 := by
  have htrace : (run (checked (@System.step literalMatch) System.accounted .blocked)
      (.start ⟨1, 0, 0⟩ ([1].map fun n => ⟨n, []⟩)) receivedLabels).toOption.any (fun sys =>
        sys.handled && sys.state.globalMsgs = 1) = true := by
    decide +kernel
  obtain ⟨sys, hreach, hend⟩ := Reachable.ofTrace (fun _ _ h => h) receivedLabels _ htrace
  obtain ⟨hhandled, hone⟩ := Bool.and_eq_true_iff.mp hend
  have hone := of_decide_eq_true hone
  have hdone : ∀ t ∈ sys.threads, t.task.counts = true → t.finished = true := by
    intro t ht hc
    have h := List.all_eq_true.mp hhandled t ht
    rwa [hc] at h
  have hexact := @System.global_counter_exact literalMatch sys _ _ hreach hdone
  exact ⟨sys, hreach, hdone, hone, by omega⟩

/-- The client acknowledges a message that does not exist: the counter is taken down, the message
stays. -/
theorem counter_below_messages :
    ∃ sys, Reachable (@System.step literalMatch) (fun _ _ => True)
      (.start ⟨1, 0, 0⟩ ([1].map fun n => ⟨n, []⟩)) sys ∧
      (∀ t ∈ sys.threads, t.task.counts = true → t.finished = true) ∧ sys.state.globalMsgs = 0 ∧
        sys.state.size = 1 := by
  have htrace : (run (checked (@System.step literalMatch) (fun _ _ => true) .blocked)
      (.start ⟨1, 0, 0⟩ ([1].map fun n => ⟨n, []⟩))
        (receivedLabels ++ [.receive 0 (.ack (str "x") (str "q") (str "g")) 0] ++
          runTimes 3 8 [])).toOption.any
          (fun sys => sys.handled && sys.state.globalMsgs = 0 && sys.state.size = 1) = true := by
    decide +kernel
  obtain ⟨sys, hreach, hend⟩ := Reachable.ofTrace (fun _ _ _ => trivial) _ _ htrace
  simp only [Bool.and_eq_true, decide_eq_true_eq] at hend
  refine ⟨sys, hreach, ?_, hend.1.2, hend.2⟩
  intro t ht hc
  have h := List.all_eq_true.mp hend.1.1 t ht
  rwa [hc] at h

end Octar
