import Octar.Queue.ConfigTable
import Octar.Queue.Permits
import Octar.Queue.Promotion
import Octar.Queue.Serviceable

namespace Octar

open Go

def ConfigIdx.Admitting (ci : ConfigIdx) : Prop :=
  ∃ t, ci.Refines t ∧ ∀ key c, t.select key = some c → c.Admits

theorem ConfigIdx.Admitting.configure {ci : ConfigIdx} (h : ci.Admitting) {op : LiveOp}
    (hop : ∀ cfg, op = .setGroupConfig cfg → cfg.Admits) : (op.configure ci).Admitting := by
  obtain ⟨t, hrefines, hadmits⟩ := h
  cases op with
  | setGroupConfig cfg =>
    rw [LiveOp.configure]
    generalize hset : (if cfg.quantum ≤ 0 then { cfg with quantum := 1 } else cfg) = set
    refine ⟨_, hrefines.set set, fun key c hc => ?_⟩
    rw [Sql.Table.select_upsert] at hc
    split at hc
    · cases hc
      rw [← hset]
      split <;> exact hop cfg rfl
    · exact hadmits key c hc
  | deleteGroupConfig key =>
    refine ⟨_, hrefines.del key, fun key' c hc => ?_⟩
    rw [Sql.Table.select_delete] at hc
    split at hc
    · cases hc
    · exact hadmits key' c hc
  | _ => exact ⟨t, hrefines, hadmits⟩

theorem ConfigIdx.Admitting.resolveConfig [PathMatch] {q : Queue} (h : q.cfgIdx.Admitting)
    (key : Bytes) :
    (q.resolveConfig key).Admits := by
  obtain ⟨t, hrefines, hadmits⟩ := h
  have hrows : ∀ c ∈ t.rows, c.Admits :=
    fun c hc => hadmits c.key c (Sql.Table.select_eq_some.mpr ⟨hc, rfl⟩)
  rw [Queue.resolveConfig, hrefines.resolve, ConfigTable.resolve]
  split
  · rename_i c hc
    exact hrows c (List.mem_filter.mp (List.mem_of_find?_eq_some hc)).1
  · cases hc : t.wildcards.find? fun c => c.matchesKey key with
    | none =>
      intro r hr
      cases hr
    | some c => exact hrows c (List.mem_filter.mp (List.mem_of_find?_eq_some hc)).1

/-- If no rate limit that is set is below one, no call of a run panics, whatever its arguments and
the clock. -/
theorem live_run_never_panics [PathMatch] (name ns : Bytes) {ops : List LiveOp}
    (hops : ∀ cfg, .setGroupConfig cfg ∈ ops → cfg.Admits) : ∃ s, runLive name ns ops = .ok s := by
  obtain ⟨s, hrun, -⟩ : ∃ s, runLive name ns ops = .ok s ∧ s.queue.Serviceable ∧
      s.queue.cfgIdx.Admitting := by
    apply Run.total (motive := fun s : LiveRun => s.queue.Serviceable ∧ s.queue.cfgIdx.Admitting)
    · intro s ⟨hs, hcfg⟩ op hop
      obtain ⟨⟨q, r⟩, hexec⟩ := hs.exec_total op
      have hcfg' : q.cfgIdx.Admitting := by
        rw [Queue.exec_cfgIdx hexec]
        exact hcfg.configure fun cfg heq => hops cfg (heq ▸ hop)
      refine ⟨_, bind_ok.mpr ⟨_, hexec, rfl⟩,
        ⟨hs.groups.exec hexec ?_ ?_ ?_, ?_, hcfg'.resolveConfig⟩, hcfg'⟩
      · intro key g hnew
        exact .ofNewGroup (hs.admits key) hnew
      · intro g m _ hg
        exact ⟨hg.lined.enqueue m, hg.limiter⟩
      · intro key a _ g g' os hg hact
        exact Group.lasting_serviceable.act hg hact
      · exact (hs.attempts.exec Queue.attempts_closed (fun _ _ _ _ _ => Int.le_refl 0) hexec).1
    · have hcfg : newConfigIdx.Admitting := ⟨_, .new, fun _ _ hc => (nomatch hc)⟩
      exact ⟨⟨fun _ _ hg => (nomatch hg), fun _ _ hg => (nomatch hg), hcfg.resolveConfig⟩, hcfg⟩
  exact ⟨s, hrun⟩

theorem live_run_never_panics_sample : ∃ s, @runLive literalMatch [] [] emptyPoll = .ok s := by
  refine @live_run_never_panics literalMatch [] [] emptyPoll fun cfg hcfg => ?_
  obtain rfl : cfg = singlePermit := by simpa [emptyPoll] using hcfg
  exact fun r hr => (Option.some.inj hr) ▸ (by decide)

theorem permit_refused_wakeAt {now wakeAt : Int} {l l' : Option SlidingWindowLimiter}
    (h : permit now l = .ok (l', false, wakeAt)) : now ≤ wakeAt := by
  cases l with
  | none => cases h
  | some l =>
    obtain ⟨⟨l₁, allowed, w⟩, hallow, hret⟩ := bind_ok.mp h
    cases hret
    unfold SlidingWindowLimiter.allow at hallow
    simp only at hallow
    split at hallow
    · split at hallow
      · cases hallow
      · cases hallow
        split <;> omega
    · cases hallow

namespace Group

variable {g g' : Group} {now : Int}

theorem promoteDelayed_wakes (hheap : Heap.IsHeap delayedLess g.delayed) (ord : RangeOrder)
    (hnow : zeroTime < now) {m : Message}
    (hm : m ∈ (g.promoteDelayed ord now).1.inFlight + (g.promoteDelayed ord now).1.delayed) :
    (g.promoteDelayed ord now).2 ≠ zeroTime ∧ (g.promoteDelayed ord now).2 ≤ m.scheduledAt := by
  let l := ord.pick g.processing.table.entries
  let s := l.foldl (expireLease now) (g, zeroTime)
  have hl : l.Perm g.processing.table.entries := ord.perm _
  have hs := expires_of_perm hl (foldl_expireLease now l (g, zeroTime))
  have hvalues : (l.map Sigma.snd : Multiset Message) = g.inFlight :=
    Multiset.coe_eq_coe.mpr (hl.map Sigma.snd)
  have hleases : Wakes _ s.2 := foldl_expireLease_wakes l (fun e _ hlt => by omega) Wakes.none
  rw [hvalues, ← hs.kept, add_zero] at hleases
  obtain ⟨due, hdue⟩ := promoteDelayed_due hheap ord now
  have hwakes := hdue.wakes hleases fun m hm => by
    have hlate := hdue.late m hm
    omega
  have hmoved : (g.promoteDelayed ord now).1.inFlight = s.1.inFlight := by
    obtain ⟨_, _, hmoved, -, -⟩ := promoteDue_spec now s.1.delayed.length s
    change (g.promoteDelayed ord now).1 = _ at hmoved
    rw [hmoved]
    rfl
  rw [hmoved] at hm
  have hmem := Multiset.mem_map_of_mem Message.scheduledAt hm
  rw [Multiset.map_add] at hmem
  have hne : Multiset.map Message.scheduledAt s.1.inFlight +
      Multiset.map Message.scheduledAt (g.promoteDelayed ord now).1.delayed ≠ 0 := by
    intro hzero
    rw [hzero] at hmem
    exact Multiset.notMem_zero _ hmem
  exact ⟨fun hzero => hne (hwakes.zero.mp hzero), (hwakes.earliest hne).2 _ hmem⟩

inductive Refused (now : Int) (g : Group) (d : Dispatch) : Prop
  | capacity (stop : d.stop = .capacity) (full : g.cfg.parallelism ≤ g.processing.len)
  | rateLimited (stop : d.stop = .rateLimited) (later : now ≤ d.wakeAt)
  | empty (stop : d.stop = .empty) (line : g.line = [])

theorem Lined.refused {d : Dispatch} (h : g.Lined) (hd : g.nextDispatchable now = .ok (g', d))
    (hmsg : d.msg = none) :
    Refused now g' d := by
  obtain ⟨hpoll, -, -⟩ := h.poll hd
  cases hpoll with
  | capacity full same answer =>
    subst same answer
    exact .capacity rfl full
  | rateLimited l wakeAt free refused same answer =>
    subst same answer
    exact .rateLimited rfl (permit_refused_wakeAt refused)
  | taken l wakeAt free granted limiter takes stop =>
    cases takes with
    | handed m line msg processing => cases hmsg.symm.trans msg
    | empty line line' msg processing => exact .empty stop line'

theorem Lined.drainLoop_refused {n : Nat} {batch : List Message} {s : DrainState} {d : Dispatch}
    (h : g.Lined) (hs : Group.drainLoop now n g batch = .ok s) (hstop : s.stop = some d) :
    Refused now s.group d := by
  induction n generalizing g batch with
  | zero =>
    cases hs
    cases hstop
  | succ n ih =>
    obtain ⟨⟨g₁, d₁⟩, hd, hr⟩ := bind_ok.mp hs
    cases hmsg : d₁.msg with
    | none =>
      simp only [hmsg] at hr
      cases hr
      cases hstop
      exact h.refused hd hmsg
    | some msg =>
      simp only [hmsg] at hr
      exact ih ((h.poll hd).2.2.setCounters _ _) hr

theorem drainRest_eq (g : Group) (ready : List Message) (wakeAt : Int) : g.drainRest ready wakeAt =
    ⟨some ready, wakeAt, !isZero wakeAt, isZero wakeAt && decide (0 < g.pendingCount)⟩ := by
  unfold drainRest
  by_cases hzero : wakeAt = zeroTime
  · subst hzero
    by_cases hpending : 0 < g.pendingCount <;> simp [isZero, hpending]
  · simp [isZero, hzero]

theorem earlierWake_cases (w t : Int) : earlierWake w t = t ∧ (w = zeroTime ∨ t < w) ∨
    earlierWake w t = w ∧ w ≠ zeroTime := by
  unfold earlierWake
  split
  · rename_i h
    exact .inl ⟨rfl, h.imp_left beq_iff_eq.mp⟩
  · rename_i h
    exact .inr ⟨rfl, fun hw => h (.inl (beq_iff_eq.mpr hw))⟩

/-- What a round reports if the promotion has found `wakeAt`: that time or an earlier one, and if
messages are left in line, that it has to be called again or that all places are taken. -/
structure Reports (s : DrainState) (wakeAt : Int) (r : DrainResult) : Prop where
  hasWake : r.hasWake = !isZero r.wakeAt
  earlier : wakeAt ≠ zeroTime → r.wakeAt ≠ zeroTime ∧ r.wakeAt ≤ wakeAt
  asks : s.group.line = [] ∨ r.stillPending = true ∨ r.wakeAt ≠ zeroTime ∨
    s.group.cfg.parallelism ≤ s.group.processing.len

theorem DrainState.reports {s : DrainState} (hlined : s.group.Lined) (hnow : zeroTime < now)
    (hrefused : ∀ d ∈ s.stop, Refused now s.group d) (wakeAt : Int) :
    Reports s wakeAt (s.report wakeAt) := by
  cases hstop : s.stop with
  | none =>
    rw [report, hstop]
    simp only [drainRest_eq]
    refine ⟨rfl, fun hne => ⟨hne, Int.le_refl _⟩, ?_⟩
    by_cases hpending : 0 < s.group.pendingCount
    · by_cases hzero : wakeAt = zeroTime <;> simp [isZero, hpending, hzero]
    · have hcount := hlined.pendingCount_eq
      exact .inl (hlined.line_of_idle (by omega)).1
  | some d =>
    obtain ⟨msg, reason, stopWake⟩ := d
    have hcases := earlierWake_cases wakeAt stopWake
    rw [report, hstop]
    cases hrefused _ hstop with
    | capacity stop full =>
      cases stop
      exact ⟨rfl, fun hne => ⟨hne, Int.le_refl _⟩, .inr (.inr (.inr full))⟩
    | empty stop line =>
      cases stop
      refine ⟨rfl, fun hne => ?_, .inl line⟩
      dsimp only
      split
      · exact ⟨hne, Int.le_refl _⟩
      · rename_i hstop
        have hstop : stopWake ≠ zeroTime := fun heq => hstop (beq_iff_eq.mpr heq)
        omega
    | rateLimited stop later =>
      cases stop
      simp only [drainRest_eq]
      simp only at later
      exact ⟨rfl, fun hne => by dsimp only; omega, .inr (.inr (.inl (by dsimp only; omega)))⟩

/-- The group is called again by the time that something in it waits for: a retry, or a lease that
ran already before the round.  If messages are left in line, it is called again as well, or all
places are taken. -/
structure CalledAgain (g : Group) (now : Int) (g' : Group) (r : DrainResult) : Prop where
  retries : ∀ m ∈ g'.delayed, r.hasWake = true ∧ r.wakeAt ≤ m.scheduledAt
  leases : ∀ id m, g.processing.get? id = some m → now ≤ m.scheduledAt → r.hasWake = true ∧
    r.wakeAt ≤ m.scheduledAt
  line : g'.line = [] ∨ r.stillPending = true ∨ r.hasWake = true ∨
    g'.cfg.parallelism ≤ g'.processing.len

theorem Lined.calledAgain {r : DrainResult} {ord : RangeOrder} (h : g.Lined)
    (hheap : Heap.IsHeap delayedLess g.delayed) (hnow : zeroTime < now)
    (hr : g.drainRound ord now = .ok (g', r)) :
    g.CalledAgain now g' r := by
  -- a round that finds nothing reports like one that stops at an empty line
  obtain ⟨s, rfl, hdelayed, hreports⟩ : ∃ s : DrainState, s.group = g' ∧
      s.group.delayed = (g.promoteDelayed ord now).1.delayed ∧
        Reports s (g.promoteDelayed ord now).2 r := by
    rw [drainRound_eq] at hr
    split at hr
    · rename_i hidle
      cases hr
      exact ⟨⟨_, [], none⟩, rfl, rfl, rfl, fun hne => ⟨hne, Int.le_refl _⟩,
        .inl ((h.promoteDelayed ord now).line_of_idle hidle).1⟩
    · obtain ⟨s, hs, hret⟩ := bind_ok.mp hr
      cases hret
      obtain ⟨k, handed, -, hdrained, -⟩ := (h.opened ord now).drainLoop hs
      exact ⟨s, rfl, hdrained.delayed, DrainState.reports hdrained.lined hnow
        (fun d hd => (h.opened ord now).drainLoop_refused hs hd) _⟩
  have hasWake : r.hasWake = true ↔ r.wakeAt ≠ zeroTime := by
    rw [hreports.hasWake]
    simp [isZero]
  have hwakes : ∀ m ∈ (g.promoteDelayed ord now).1.inFlight + (g.promoteDelayed ord now).1.delayed,
      r.hasWake = true ∧ r.wakeAt ≤ m.scheduledAt := by
    intro m hm
    obtain ⟨hne, hle⟩ := promoteDelayed_wakes hheap ord hnow hm
    obtain ⟨hwake, hearlier⟩ := hreports.earlier hne
    exact ⟨hasWake.mpr hwake, hearlier.trans hle⟩
  refine ⟨fun m hm => hwakes m (Multiset.mem_add.mpr (.inr (hdelayed ▸ hm))), fun id m hm hle => ?_,
    by rw [hasWake]; exact hreports.asks⟩
  obtain ⟨expired, due, hp⟩ := promoteDelayed_spec g ord now
  refine hwakes m (Multiset.mem_add.mpr (.inl (Map.mem_values.mpr ⟨id, ?_⟩)))
  rw [hp.lookup, Option.filter_eq_some_iff]
  exact ⟨hm, by simpa using hle⟩

end Group

/-- Whatever a queue has gone through, a group that is drained at a clock after the zero time is not
forgotten. -/
theorem drained_group_is_called_again [PathMatch] {name ns key : Bytes} {ops : List LiveOp}
    {s : LiveRun} {g g' : Group} {ord : RangeOrder} {now : Int} {r : DrainResult}
    (h : runLive name ns ops = .ok s) (hg : s.queue.groups.lookup key = some g)
    (hnow : zeroTime < now) (hr : g.drainRound ord now = .ok (g', r)) :
    g.CalledAgain now g' r := by
  have htake : ∀ s op s', LiveRun.step s op = .ok s' → s.queue.take (.live op) = .ok s'.queue := by
    intro s op s' hstep
    obtain ⟨⟨q, reply⟩, hexec, hret⟩ := bind_ok.mp hstep
    cases hret
    exact bind_ok.mpr ⟨_, hexec, rfl⟩
  have hheaps := Queue.heaps_run (Run.map LiveRun.queue QueueStep.live htake h)
  exact (runLive_lined h key g hg).calledAgain (hheaps key g hg) hnow hr

def twoRetries : List LiveOp :=
  threeWaiting ++ [.tryDispatchOne (str "g") .inOrder 1, .tryDispatchOne (str "g") .inOrder 1,
    .fail (str "g") (str "a") [] 5, .fail (str "g") (str "b") [] 2]

theorem drained_group_is_called_again_sample :
    ∃ s g g' r, @runLive literalMatch [] [] twoRetries = .ok s ∧
    s.queue.groups.lookup (str "g") = some g ∧ g.drainRound .inOrder 6 = .ok (g', r) ∧
      g'.delayed.length = 2 ∧ r.wakeAt = 2 * second + 2 ∧ g.CalledAgain 6 g' r := by
  obtain ⟨s, g, g', r, hs, hg, hr, hdelayed, hwake⟩ : ∃ s g g' r,
      @runLive literalMatch [] [] twoRetries = .ok s ∧
      s.queue.groups.lookup (str "g") = some g ∧ g.drainRound .inOrder 6 = .ok (g', r) ∧
        g'.delayed.length = 2 ∧ r.wakeAt = 2 * second + 2 :=
    ⟨_, _, _, _, rfl, rfl, rfl, by decide +kernel, by decide +kernel⟩
  exact ⟨s, g, g', r, hs, hg, hr, hdelayed, hwake,
    @drained_group_is_called_again literalMatch [] [] (str "g") twoRetries s g g' .inOrder 6 r hs
      hg (by decide) hr⟩

end Octar
