import Octar.Queue.DrainRound

namespace Octar

open Go

/-- The polls of an operation that hands out: the group as the first one meets it, how many there
are at most, and when. -/
structure HandOut where
  key : Bytes
  group : Group
  polls : Nat
  now : Int

namespace Queue

def handOut (q : Queue) : LiveOp → Option HandOut
  | .tryDispatchOne groupKey ord now => do
    let g ← q.groups.lookup groupKey
    return ⟨groupKey, (g.promoteDelayed ord now).1, 1, now⟩
  | .completeAndNext groupKey msgID ord now => do
    let g ← q.groups.lookup groupKey
    return ⟨groupKey, ((g.complete msgID).1.promoteDelayed ord now).1, 1, now⟩
  | .failAndNext groupKey msgID errMsg ord now => do
    let g ← q.groups.lookup groupKey
    let (g, _) ← (g.fail msgID errMsg now).toOption
    return ⟨groupKey, (g.promoteDelayed ord now).1, 1, now⟩
  | .drainGroup groupKey ord now => do
    let g ← q.groups.lookup groupKey
    if (g.promoteDelayed ord now).1.pendingCount = 0 then none
    else return ⟨groupKey, g.opened ord now, g.allowance.toNat, now⟩
  | _ => none

end Queue

namespace Group

/-- One of `n` polls at `now` finds that nothing waits any more while parallelism and rate limit
would let a message through. -/
def Wastes (now : Int) (n : Nat) (g : Group) : Prop :=
  g.line.length < n ∧ ((g.busy ∪ (g.line.map Message.id).toFinset).card : Int) < g.cfg.parallelism ∧
    permits now (g.line.length + 1) g.limiter = true

instance (now : Int) (n : Nat) (g : Group) : Decidable (g.Wastes now n) :=
  inferInstanceAs (Decidable (_ ∧ _ ∧ _))

def Thrifty (last : Int) (g : Group) (times : List Int) : Prop :=
  ∀ l ∈ g.limiter, Window.Accounts last l.events times

variable {g g' : Group} {now : Int} {d : Dispatch}

theorem permit_accounts {l l' : Option SlidingWindowLimiter} {times : List Int} {allowed : Bool}
    {wakeAt : Int} (h : permit now l = .ok (l', allowed, wakeAt))
    (hl : ∀ x ∈ l, Window.Accounts now x.events times) :
    ∀ x ∈ l', Window.Accounts now x.events (times ++ if allowed then [now] else []) := by
  cases l with
  | none =>
    cases h
    intro x hx
    cases hx
  | some l =>
    obtain ⟨⟨l₁, allowed, w₁⟩, hallow, hret⟩ := bind_ok.mp h
    cases hret
    intro x hx
    cases hx
    rcases SlidingWindowLimiter.allow_spec hallow with ⟨rfl, -, rfl⟩ | ⟨rfl, -, rfl⟩
    · simpa using (hl l rfl).evict
    · exact (hl l rfl).evict.pass

theorem Wastes.of_handed {n : Nat} {m : Message} {wakeAt : Int} (hline : g.line = m :: g'.line)
    (hprocessing : g'.processing = some (g.processing.table.insert m.id (g.leased m now)))
    (hgranted : permit now g.limiter = .ok (g'.limiter, true, wakeAt)) (hcfg : g'.cfg = g.cfg)
    (h : g'.Wastes now n) : g.Wastes now (n + 1) := by
  obtain ⟨hlength, hroom, hpermits⟩ := h
  refine ⟨?_, ?_, ?_⟩
  · rw [hline, List.length_cons]
    exact Nat.succ_lt_succ hlength
  · rw [busy_insert hprocessing, hcfg] at hroom
    rwa [hline, List.map_cons, List.toFinset_cons, Finset.union_insert, ← Finset.insert_union]
  · rw [hline, List.length_cons]
    exact permits_succ.mpr ⟨_, wakeAt, hgranted, hpermits⟩

theorem Lined.not_empty_of_not_wastes {n : Nat} {batch : List Message} {s : DrainState}
    (hg : g.Lined) (hwastes : ¬ g.Wastes now n) (hs : Group.drainLoop now n g batch = .ok s)
    (hd : s.stop = some d) :
    d.stop ≠ .empty := by
  induction n generalizing g batch with
  | zero =>
    cases hs
    cases hd
  | succ n ih =>
    obtain ⟨⟨g₁, d₁⟩, hd₁, hr⟩ := bind_ok.mp hs
    obtain ⟨hpoll, frame, hlined⟩ := hg.poll hd₁
    cases hpoll with
    | capacity full same answer =>
      subst same answer
      cases hr
      cases hd
      exact nofun
    | rateLimited l wakeAt free refused same answer =>
      subst same answer
      cases hr
      cases hd
      exact nofun
    | taken l wakeAt free granted limiter takes stop =>
      cases takes with
      | empty line line' msg processing =>
        exfalso
        apply hwastes
        refine ⟨by simp [line], ?_, ?_⟩
        · simpa [line, card_busy] using free
        · rw [line]
          exact permits_succ.mpr ⟨l, wakeAt, granted, rfl⟩
      | handed m line msg processing =>
        simp only [msg] at hr
        subst limiter
        exact ih (hlined.setCounters (g₁.deficit - 1) g₁.quantum)
          (fun hw => hwastes (.of_handed line processing granted frame.cfg hw)) hr

theorem Thrifty.drainLoop {n : Nat} {batch : List Message} {s : DrainState} {times : List Int}
    (h : g.Thrifty now times) (hg : g.Lined) (hs : Group.drainLoop now n g batch = .ok s)
    (hstop : ∀ d ∈ s.stop, d.stop ≠ .empty) :
    ∃ handed, s.batch = batch ++ handed ∧
      s.group.Thrifty now (times ++ handed.map fun _ => now) := by
  induction n generalizing g batch times with
  | zero =>
    cases hs
    exact ⟨[], by simp, by simpa using h⟩
  | succ n ih =>
    obtain ⟨⟨g₁, d⟩, hd, hr⟩ := bind_ok.mp hs
    obtain ⟨hpoll, frame, hlined⟩ := hg.poll hd
    cases hpoll with
    | capacity full same answer =>
      subst same answer
      cases hr
      exact ⟨[], by simp, by simpa using h⟩
    | rateLimited l wakeAt free refused same answer =>
      subst same answer
      cases hr
      exact ⟨[], by simp, permit_accounts refused h⟩
    | taken l wakeAt free granted limiter takes stop =>
      cases takes with
      | empty line line' msg processing =>
        simp only [msg] at hr
        cases hr
        exact absurd stop (hstop d rfl)
      | handed m line msg processing =>
        simp only [msg] at hr
        subst limiter
        have hthrifty : { g₁ with deficit := g₁.deficit - 1 }.Thrifty now (times ++ [now]) :=
          permit_accounts granted h
        obtain ⟨handed, hbatch, hrest⟩ := ih hthrifty (hlined.setCounters _ _) hr
        refine ⟨g.leased m now :: handed, ?_, ?_⟩
        · rw [hbatch, List.append_assoc]
          rfl
        · rw [List.append_assoc] at hrest
          exact hrest

theorem Lined.drainLoop_unlimited {n : Nat} {batch : List Message} {s : DrainState} (hg : g.Lined)
    (hlimiter : g.limiter = none) (hs : Group.drainLoop now n g batch = .ok s) :
    s.group.limiter = none := by
  refine (drainLoop_induct (motive := fun g _ => g.Lined ∧ g.limiter = none) ?_ ?_
    ⟨hg, hlimiter⟩ hs).2
  · intro g₁ g₂ d batch ⟨hlined, hnone⟩ hd
    obtain ⟨hpoll, -, hlined'⟩ := hlined.poll hd
    refine ⟨hlined', ?_⟩
    cases hpoll with
    | capacity full same answer => exact same ▸ hnone
    | rateLimited l wakeAt free refused same answer =>
      rw [hnone] at refused
      cases refused
    | taken l wakeAt free granted limiter takes stop =>
      rw [hnone] at granted
      cases granted
      exact limiter
  · intro g₁ batch deficit quantum ⟨hlined, hnone⟩
    exact ⟨hlined.setCounters deficit quantum, hnone⟩

theorem Thrifty.ofNewGroup {cfg : GroupConfig} (hnew : newGroup cfg = .ok g) (last : Int) :
    g.Thrifty last [] := by
  simp only [newGroup] at hnew
  obtain ⟨limiter, hlimiter, hret⟩ := bind_ok.mp hnew
  cases hret
  intro l hl
  change limiter = some l at hl
  subst hl
  cases hrate : cfg.withDefaults.rateLimit with
  | none =>
    rw [hrate] at hlimiter
    cases hlimiter
  | some r =>
    rw [hrate, groupLimiter, newSlidingWindowLimiter] at hlimiter
    split at hlimiter
    · cases hlimiter
    · cases hlimiter
      exact ⟨List.suffix_refl _, .nil, List.forall_mem_nil _⟩

theorem Thrifty.later {last : Int} {times : List Int} (h : g.Thrifty last times)
    (hle : last ≤ now) :
    g.Thrifty now times := fun l hl => (h l hl).later hle

end Group

namespace Queue

variable {q q' : Queue} {op : LiveOp} {key : Bytes} {g : Group}

theorem handOut_failAndNext {key₀ id err : Bytes} {ord : RangeOrder} {now : Int} {a : HandOut} :
    q.handOut (.failAndNext key₀ id err ord now) = some a ↔
      ∃ g₀ g₁ dlq, q.groups.lookup key₀ = some g₀ ∧
      g₀.fail id err now = .ok (g₁, dlq) ∧ a = ⟨key₀, (g₁.promoteDelayed ord now).1, 1, now⟩ := by
  simp only [handOut]
  constructor
  · intro h
    obtain ⟨g₀, hl, h⟩ := Option.bind_eq_some_iff.mp h
    obtain ⟨⟨g₁, dlq⟩, hf, h⟩ := Option.bind_eq_some_iff.mp h
    cases hfail : g₀.fail id err now with
    | error e =>
      rw [hfail] at hf
      cases hf
    | ok r =>
      rw [hfail] at hf
      cases hf
      cases h
      exact ⟨g₀, g₁, dlq, hl, hfail, rfl⟩
  · rintro ⟨g₀, g₁, dlq, hl, hf, rfl⟩
    apply Option.bind_eq_some_iff.mpr
    refine ⟨g₀, hl, Option.bind_eq_some_iff.mpr ⟨(g₁, dlq), ?_, rfl⟩⟩
    rw [hf]
    rfl

theorem handOut_group {a : HandOut} (h : q.handOut op = some a) : op.clock = some a.now ∧
    ∃ g, q.groups.lookup a.key = some g ∧ a.group.limiter = g.limiter ∧
      (g.Lined → a.group.Lined) := by
  cases op with
  | tryDispatchOne key₀ ord now =>
    obtain ⟨g₀, hl, h⟩ := Option.bind_eq_some_iff.mp h
    cases h
    exact ⟨rfl, g₀, hl, (Group.promoteDelayed_frees g₀ ord now).limiter,
      fun hg => hg.promoteDelayed ord now⟩
  | completeAndNext key₀ id ord now =>
    obtain ⟨g₀, hl, h⟩ := Option.bind_eq_some_iff.mp h
    cases h
    refine ⟨rfl, g₀, hl, ?_, ?_⟩
    · exact (Group.promoteDelayed_frees _ ord now).limiter.trans
        (Group.complete_frees g₀ id).limiter
    · intro hg
      have hcomplete : (g₀.complete id).1.Lined := Group.lasting_lined.complete id hg
      exact hcomplete.promoteDelayed ord now
  | failAndNext key₀ id err ord now =>
    obtain ⟨g₀, g₁, dlq, hl, hf, rfl⟩ := handOut_failAndNext.mp h
    refine ⟨rfl, g₀, hl, ?_, ?_⟩
    · exact (Group.promoteDelayed_frees g₁ ord now).limiter.trans (Group.fail_frees hf).limiter
    · intro hg
      exact (hg.fail hf).promoteDelayed ord now
  | drainGroup key₀ ord now =>
    obtain ⟨g₀, hl, h⟩ := Option.bind_eq_some_iff.mp h
    split at h
    · cases h
    · cases h
      exact ⟨rfl, g₀, hl, (Group.promoteDelayed_frees g₀ ord now).limiter,
        fun hg => hg.opened ord now⟩
  | _ => cases h

inductive Asks (op : LiveOp) (key : Bytes) (q q' : Queue) (g : Group) (times : List Int) : Prop
  | quiet {g' : Group} (after : q'.groups.lookup key = some g') (limiter : g'.limiter = g.limiter)
    (handed : times = [])
  | polls {g' : Group} (a : HandOut) (s : Group.DrainState) (asked : q.handOut op = some a)
    (own : a.key = key) (loop : Group.drainLoop a.now a.polls a.group [] = .ok s)
    (after : q'.groups.lookup key = some g') (limiter' : g'.limiter = s.group.limiter)
    (handed : times = s.batch.map fun _ => a.now)

theorem Asks.ofSame (op : LiveOp) (hg : q.groups.lookup key = some g)
    (h : q'.groups.lookup key = q.groups.lookup key) : Asks op key q q' g [] :=
  .quiet (h.trans hg) rfl rfl

theorem next_drainLoop {p g' : Group} {now : Int} {msg : Option Message}
    (h : p.next now = .ok (g', msg)) :
    ∃ s, Group.drainLoop now 1 p [] = .ok s ∧ g'.limiter = s.group.limiter ∧
      s.batch = msg.toList := by
  obtain ⟨⟨g₁, d⟩, hd, hret⟩ := bind_ok.mp h
  cases hret
  cases hmsg : d.msg with
  | none => exact ⟨⟨g', [], some d⟩, bind_ok.mpr ⟨_, hd, by simp only [hmsg]; rfl⟩, rfl, rfl⟩
  | some msg =>
    exact ⟨⟨{ g' with deficit := g'.deficit - 1 }, [msg], none⟩,
      bind_ok.mpr ⟨_, hd, by simp only [hmsg]; rfl⟩,
      rfl, rfl⟩

theorem Asks.ofNext {key₀ : Bytes} {g₀ p g' : Group} {now : Int} {msg : Option Message}
    (os : List (Bytes × Occurrence)) (hg : q.groups.lookup key = some g)
    (hl : q.groups.lookup key₀ = some g₀) (hask : q.handOut op = some ⟨key₀, p, 1, now⟩)
    (hn : p.next now = .ok (g', msg)) (hos : handedTimes os = []) :
    Asks op key q (q.setGroup key₀ g') g
      (handedTimes (happeningsOf key (happened key₀ (os ++ g₀.hands now msg.toList)))) := by
  rw [happeningsOf_happened]
  split
  · rename_i hk
    subst hk
    cases hl.symm.trans hg
    obtain ⟨s, hs, hlimiter', hbatch⟩ := next_drainLoop hn
    refine .polls _ s hask rfl hs (lookup_setGroup q key g') hlimiter' ?_
    rw [handedTimes_append, hos, handedTimes_hands, hbatch, List.nil_append]
  · rename_i hk
    exact .ofSame op hg (lookup_setGroup_ne q g' hk)

theorem Asks.ofQuiet {key₀ : Bytes} {g₀ g' : Group} {os : List (Bytes × Occurrence)}
    (hg : q.groups.lookup key = some g) (hl : q.groups.lookup key₀ = some g₀)
    (hlimiter : g'.limiter = g₀.limiter) (hos : handedTimes os = []) :
    Asks op key q (q.setGroup key₀ g') g (handedTimes (happeningsOf key (happened key₀ os))) := by
  rw [happeningsOf_happened]
  split
  · rename_i hk
    subst hk
    cases hl.symm.trans hg
    exact .quiet (lookup_setGroup q key g') hlimiter hos
  · rename_i hk
    exact .ofSame op hg (lookup_setGroup_ne q g' hk)

theorem handedTimes_completes (g : Group) (id : Bytes) : handedTimes (g.completes id) = [] :=
  handedTimes_eq_nil (Group.idsOfKind_completes rfl g id)

theorem handedTimes_fails (g : Group) (id : Bytes) (now : Int) :
    handedTimes (g.fails id now) = [] :=
  handedTimes_eq_nil (Group.idsOfKind_fails rfl (fun _ _ _ => rfl) g id now)

variable [PathMatch]

theorem publishWithID_asks {key₀ id payload : Bytes} {now : Int} {r : Except QueueError Message}
    (hg : q.groups.lookup key = some g) (h : q.publishWithID key₀ id payload now = .ok (q', r)) :
    Asks op key q q' g (handedTimes (happeningsOf key
      (happened key₀ ((Reply.published r).accepted.map fun m => (m.id, .published))))) := by
  obtain ⟨g₀, hg₀, hcases⟩ := publishWithID_ok h
  have htimes : ∀ l : List Message,
      handedTimes (l.map fun m => (m.id, Occurrence.published)) = [] := by
    intro l
    rw [handedTimes, List.filterMap_map, List.filterMap_eq_nil_iff]
    exact fun _ _ => rfl
  rw [happeningsOf_happened]
  split
  · rename_i hk
    subst hk
    rw [groupFor, hg] at hg₀
    cases hg₀
    rw [htimes]
    rcases hcases with ⟨-, -, -, rfl⟩ | ⟨-, keyIdx, rfl⟩
    · exact .quiet (lookup_setGroup q key g) rfl rfl
    · exact .quiet (AList.lookup_insert _) rfl rfl
  · rename_i hk
    rcases hcases with ⟨-, -, -, rfl⟩ | ⟨-, keyIdx, rfl⟩
    · exact .ofSame op hg (lookup_setGroup_ne q g₀ hk)
    · exact .ofSame op hg (AList.lookup_insert_ne hk)

theorem Asks.ofActs {r : Reply} (h : q.exec op = .ok (q', r)) (hg : q.groups.lookup key = some g)
    (hclock : op.clock = none) :
    Asks op key q q' g (handedTimes (happeningsOf key (q.happenings r op))) := by
  cases exec_actsOn h key with
  | absent before after seen => cases before.symm.trans hg
  | created before new after seen => cases before.symm.trans hg
  | accepted m publishes id before after seen => cases op <;> cases hclock <;> cases publishes
  | changed before after acts =>
    cases before.symm.trans hg
    have hquiet := acts.induct
      (motive := fun g' os => g'.limiter = g.limiter ∧ handedTimes os = []) ?_
      (show _ ∧ handedTimes [] = [] from ⟨rfl, rfl⟩)
    · exact .quiet after hquiet.1 hquiet.2
    · intro g₁ os a g₂ os' hg₁ hdoes hact
      rw [handedTimes_append, hg₁.2, List.nil_append, ← hg₁.1]
      cases a with
      | complete id =>
        cases hact
        exact ⟨(Group.complete_frees g₁ id).limiter, handedTimes_completes g₁ id⟩
      | returnToPending id =>
        cases hact
        exact ⟨(Group.returnToPending_frees g₁ id).limiter, rfl⟩
      | setCounters deficit quantum | applyConfig cfg key' =>
        cases hact
        exact ⟨rfl, rfl⟩
      | fail id errMsg now => cases hclock.symm.trans hdoes.2
      | promoteDelayed ord now | sweepGroup ord now | nextDispatchable now =>
        cases hclock.symm.trans hdoes

omit [PathMatch] in
theorem drainGroup_asks {key₀ : Bytes} {ord : RangeOrder} {now : Int} {r : DrainResult}
    {g₀ g' : Group} (hg : q.groups.lookup key = some g) (hl : q.groups.lookup key₀ = some g₀)
    (hd : g₀.drainRound ord now = .ok (g', r)) :
    Asks (.drainGroup key₀ ord now) key q (q.setGroup key₀ g') g
      (handedTimes (happeningsOf key (happened key₀ (g₀.hands now (r.ready.getD []))))) := by
  have hlimiter := (Group.promoteDelayed_frees g₀ ord now).limiter
  rw [Group.drainRound_eq] at hd
  split at hd
  · cases hd
    exact .ofQuiet hg hl hlimiter rfl
  · rename_i hpending
    obtain ⟨s, hs, hret⟩ := bind_ok.mp hd
    cases hret
    rw [happeningsOf_happened]
    split
    · rename_i hk
      subst hk
      cases hl.symm.trans hg
      have hask : q.handOut (.drainGroup key ord now) =
          some ⟨key, g.opened ord now, g.allowance.toNat, now⟩ := by
        rw [handOut, hl]
        exact if_neg hpending
      refine .polls _ s hask rfl hs (lookup_setGroup q key s.group) rfl ?_
      rw [Group.DrainState.report_ready, handedTimes_hands]
      rfl
    · rename_i hk
      exact .ofSame _ hg (lookup_setGroup_ne q s.group hk)

theorem exec_asks {r : Reply} (h : q.exec op = .ok (q', r)) (hg : q.groups.lookup key = some g) :
    Asks op key q q' g (handedTimes (happeningsOf key (q.happenings r op))) := by
  cases op with
  | publish key₀ payload id now =>
    obtain ⟨⟨q₁, r₁⟩, hq, hret⟩ := bind_ok.mp h
    cases hret
    exact publishWithID_asks hg hq
  | publishWithID key₀ id payload now =>
    obtain ⟨⟨q₁, r₁⟩, hq, hret⟩ := bind_ok.mp h
    cases hret
    exact publishWithID_asks hg hq
  | tryDispatchOne key₀ ord now =>
    obtain ⟨⟨q₁, r₁⟩, hq, hret⟩ := bind_ok.mp h
    cases hret
    obtain ⟨hl, rfl, -⟩ | ⟨g₀, g', hl, hn, rfl⟩ := tryDispatchOne_ok hq
    · rw [happenings, inGroupOf_none hl]
      exact .ofSame _ hg rfl
    · rw [happenings, inGroupOf_some hl]
      exact Asks.ofNext [] hg hl (by rw [handOut, hl]; rfl) hn rfl
  | drainGroup key₀ ord now =>
    obtain ⟨⟨q₁, r₁⟩, hq, hret⟩ := bind_ok.mp h
    cases hret
    obtain ⟨hl, rfl, -⟩ | ⟨g₀, g', hl, hd, rfl⟩ := drainGroup_ok hq
    · rw [happenings, inGroupOf_none hl]
      exact .ofSame _ hg rfl
    · rw [happenings, inGroupOf_some hl]
      exact drainGroup_asks hg hl hd
  | completeAndNext key₀ id ord now =>
    obtain ⟨⟨q₁, r₁⟩, hq, hret⟩ := bind_ok.mp h
    cases hret
    obtain ⟨hl, rfl, -⟩ | ⟨g₀, g', hl, hn, rfl⟩ := completeAndNext_ok hq
    · rw [happenings, inGroupOf_none hl]
      exact .ofSame _ hg rfl
    · rw [happenings, inGroupOf_some hl]
      exact .ofNext _ hg hl (by rw [handOut, hl]; rfl) hn (handedTimes_completes g₀ id)
  | fail key₀ id err now =>
    obtain ⟨⟨q₁, r₁⟩, hq, hret⟩ := bind_ok.mp h
    cases hret
    obtain ⟨hl, rfl, -⟩ | ⟨g₀, g', dlq, hl, hf, -, rfl⟩ := fail_ok hq
    · rw [happenings, inGroupOf_none hl]
      exact .ofSame _ hg rfl
    · rw [happenings, inGroupOf_some hl]
      exact .ofQuiet hg hl (Group.fail_frees hf).limiter (handedTimes_fails g₀ id now)
  | failAndNext key₀ id err ord now =>
    obtain ⟨⟨q₁, r₁⟩, hq, hret⟩ := bind_ok.mp h
    cases hret
    obtain ⟨hl, rfl, -⟩ | ⟨g₀, g₁, g', dlq, hl, hf, -, hn, rfl⟩ := failAndNext_ok hq
    · rw [happenings, inGroupOf_none hl]
      exact .ofSame _ hg rfl
    · rw [happenings, inGroupOf_some hl]
      refine .ofNext _ hg hl ?_ hn (handedTimes_fails g₀ id now)
      exact handOut_failAndNext.mpr ⟨g₀, g₁, dlq, hl, hf, rfl⟩
  | sweepExpiredLeases ord now =>
    cases h
    have hafter : (q.sweepExpiredLeases ord now).1.groups.lookup key =
        some (sweepGroup ord now g) := by
      rw [sweepExpiredLeases, Map.lookup_mapTo, hg]
      rfl
    exact .quiet hafter (Group.sweepGroup_frees g ord now).limiter rfl
  | complete | returnToPending | setGroupConfig | deleteGroupConfig => exact .ofActs h hg rfl

end Queue

/-- An operation that spends a permit of the group `key` on nothing: it polls the group once more
than messages are waiting. -/
def Queue.Wasteful (q : Queue) (key : Bytes) (op : LiveOp) : Prop :=
  ∃ a, q.handOut op = some a ∧ a.key = key ∧ a.group.limiter.isSome ∧ a.group.Wastes a.now a.polls

instance (q : Queue) (key : Bytes) (op : LiveOp) : Decidable (q.Wasteful key op) :=
  match h : q.handOut op with
  | none => .isFalse (by rintro ⟨a, ha, -⟩; cases h.symm.trans ha)
  | some a => decidable_of_iff (a.key = key ∧ a.group.limiter.isSome ∧ a.group.Wastes a.now a.polls)
      ⟨fun hw => ⟨a, h, hw⟩, by rintro ⟨a', ha, hw⟩; cases h.symm.trans ha; exact hw⟩

namespace WatchedRun

variable {key : Bytes}

def Thrifty [PathMatch] (key : Bytes) : WatchedRun → List LiveOp → Prop
  | _, [] => True
  | s, op :: l => ¬ s.queue.Wasteful key op ∧ ∀ s', s.step op = .ok s' → Thrifty key s' l

instance [PathMatch] (key : Bytes) :
    (s : WatchedRun) → (l : List LiveOp) → Decidable (s.Thrifty key l)
  | _, [] => .isTrue trivial
  | s, op :: l =>
    have : ∀ s, Decidable (Thrifty key s l) := fun s => instDecidableThrifty key s l
    have : Decidable (∀ s', s.step op = .ok s' → Thrifty key s' l) :=
      match s.step op with
      | .error _ => .isTrue nofun
      | .ok s' =>
        decidable_of_iff (Thrifty key s' l) ⟨fun h _ heq => by cases heq; exact h,
          fun h => h s' rfl⟩
    inferInstanceAs (Decidable (_ ∧ _))

structure Accounted (key : Bytes) (last : Int) (s : WatchedRun) : Prop where
  unseen : s.Unseen key
  group : ∀ g, s.queue.groups.lookup key = some g →
    g.Lined ∧ g.Thrifty last (handedTimes (happeningsOf key s.history))

theorem Accounted.later {last now : Int} {s : WatchedRun} (h : s.Accounted key last)
    (hle : last ≤ now) :
    s.Accounted key now :=
  ⟨h.unseen, fun g hg => ⟨(h.group g hg).1, (h.group g hg).2.later hle⟩⟩

variable [PathMatch]

theorem Accounted.step {op : LiveOp} {s s' : WatchedRun} {now : Int} (h : s.Accounted key now)
    (hthrifty : ¬ s.queue.Wasteful key op) (hclock : ∀ t ∈ op.clock, t = now)
    (hstep : s.step op = .ok s') :
    s'.Accounted key now := by
  refine ⟨h.unseen.step hstep, ?_⟩
  obtain ⟨⟨q, reply⟩, hexec, hret⟩ := bind_ok.mp hstep
  cases hret
  intro g' hg'
  have hhistory := happeningsOf_append key s.history (s.queue.happenings reply op)
  cases hbefore : s.queue.groups.lookup key with
  | none =>
    -- the group is new, and nothing of it was handed out before
    have hnone := handedTimes_eq_nil (idsOfKind_returned rfl (h.unseen hbefore))
    cases Queue.exec_actsOn hexec key with
    | absent before after seen => cases after.symm.trans hg'
    | created before new after seen =>
      cases after.symm.trans hg'
      refine ⟨.ofNewGroup new, ?_⟩
      rw [hhistory, seen, List.append_nil, hnone]
      exact .ofNewGroup new now
    | accepted m publishes id before after seen =>
      cases after.symm.trans hg'
      rcases before with before | ⟨-, new⟩
      · cases before.symm.trans hbefore
      · refine ⟨(Group.Lined.ofNewGroup new).enqueue m, ?_⟩
        rw [hhistory, seen, handedTimes_append, hnone]
        exact Group.Thrifty.ofNewGroup new now
    | changed before after acts => cases before.symm.trans hbefore
  | some g =>
    obtain ⟨hlined, haccount⟩ := h.group g hbefore
    have hlined' : g'.Lined := by
      cases Queue.exec_actsOn hexec key with
      | absent before after seen => cases after.symm.trans hg'
      | created before new after seen => cases before.symm.trans hbefore
      | accepted m publishes id before after seen =>
        cases after.symm.trans hg'
        rcases before with before | ⟨before, -⟩
        · cases before.symm.trans hbefore
          exact hlined.enqueue m
        · cases before.symm.trans hbefore
      | changed before after acts =>
        cases before.symm.trans hbefore
        cases after.symm.trans hg'
        exact acts.keeps (fun _ _ _ _ hg _ hact => Group.lasting_lined.act hg hact) hlined
    refine ⟨hlined', ?_⟩
    rw [hhistory, handedTimes_append]
    cases Queue.exec_asks hexec hbefore with
    | quiet after limiter handed =>
      cases after.symm.trans hg'
      rw [handed, List.append_nil]
      intro l hl
      exact haccount l (limiter ▸ hl)
    | polls a st asked own loop after limiter' handed =>
      cases after.symm.trans hg'
      obtain ⟨clock, g₀, hl₀, limiter, lined⟩ := Queue.handOut_group asked
      rw [own] at hl₀
      cases hl₀.symm.trans hbefore
      cases hclock a.now clock
      rw [handed]
      have haccount' : a.group.Thrifty a.now _ := fun l hl => haccount l (limiter ▸ hl)
      cases hl : a.group.limiter with
      | none =>
        have hnone := (lined hlined).drainLoop_unlimited hl loop
        intro l hl
        cases (limiter'.trans hnone).symm.trans hl
      | some l =>
        have hnot : ¬ a.group.Wastes a.now a.polls := by
          intro hw
          exact hthrifty ⟨a, asked, own, by rw [hl]; rfl, hw⟩
        obtain ⟨handed, hbatch, hthrifty'⟩ := haccount'.drainLoop (lined hlined) loop
          (fun d hd => (lined hlined).not_empty_of_not_wastes hnot loop hd)
        rw [hbatch, List.nil_append]
        intro l hl
        exact hthrifty' l (limiter' ▸ hl)

end WatchedRun

def singlePermit : GroupConfig :=
  { defaultGroupConfig (str "g") with parallelism := 2, rateLimit := some ⟨1, 10⟩ }

def emptyPoll : List LiveOp :=
  [.setGroupConfig singlePermit, .publishWithID (str "g") (str "a") [] 0,
    .tryDispatchOne (str "g") .inOrder 1,
    .completeAndNext (str "g") (str "a") .inOrder 20, .publishWithID (str "g") (str "b") [] 21]

end Octar
