import Octar.Lib.Window
import Octar.Queue.Ordering
import Mathlib.Algebra.Order.Group.Int

namespace Octar

open Go

def Occurrence.handedAt : Occurrence → Option Int
  | .handed now _ => some now
  | _ => none

def handedTimes (os : List (Bytes × Occurrence)) : List Int := os.filterMap fun o => o.2.handedAt

theorem handedTimes_append (os os' : List (Bytes × Occurrence)) :
    handedTimes (os ++ os') = handedTimes os ++ handedTimes os' := List.filterMap_append

theorem handedTimes_eq_nil {os : List (Bytes × Occurrence)} (h : handedIDs os = []) :
    handedTimes os = [] := by
  rw [handedTimes, List.filterMap_eq_nil_iff]
  rintro ⟨id, o⟩ ho
  cases o with
  | handed now lease =>
    have hmem : id ∈ handedIDs os := mem_idsOfKind.mpr ⟨_, ho, rfl⟩
    rw [h] at hmem
    cases hmem
  | _ => rfl

theorem handedTimes_hands (g : Group) (now : Int) (batch : List Message) :
    handedTimes (g.hands now batch) = batch.map fun _ => now := by
  rw [handedTimes, Group.hands, List.filterMap_map, ← List.filterMap_eq_map]
  rfl

theorem SlidingWindowLimiter.allow_spec {l l' : SlidingWindowLimiter} {now wakeAt : Int}
    {allowed : Bool} (h : l.allow now = .ok (l', allowed, wakeAt)) :
    allowed = false ∧ l.max ≤ (Window.current l.window now l.events).length ∧
        l' = { l with events := Window.current l.window now l.events } ∨
      allowed = true ∧ ((Window.current l.window now l.events).length : Int) < l.max ∧
        l' = { l with events := Window.current l.window now l.events ++ [now] } := by
  unfold allow at h
  simp only at h
  split at h
  · rename_i hfull
    split at h
    · cases h
    · rename_i e rest hevents
      cases h
      refine .inl ⟨rfl, hfull, ?_⟩
      rw [Window.current, hevents]
  · rename_i hlt
    cases h
    exact .inr ⟨rfl, Int.not_le.mp hlt, rfl⟩

namespace Group

/-- A group of parallelism `P` with the limiter of the rate limit `r`, at a time when `last` is the
latest clock reading. -/
structure Limited (P : Int) (r : RateLimitConfig) (last : Int) (g : Group)
    (os : List (Bytes × Occurrence)) :
    Prop where
  parallelism : g.cfg.parallelism = P
  len_le : (g.processing.len : Int) ≤ P
  limiter : ∃ events, g.limiter = some ⟨r.max, r.window, events⟩ ∧
    Window.Counts r.max.toNat r.window last events (handedTimes os)

variable {P : Int} {r : RateLimitConfig} {last now : Int} {g g' : Group}
  {os os' : List (Bytes × Occurrence)}

theorem Limited.later (h : g.Limited P r last os) (hle : last ≤ now) : g.Limited P r now os := by
  obtain ⟨events, hlimiter, hcounts⟩ := h.limiter
  exact ⟨h.parallelism, h.len_le, ⟨events, hlimiter, hcounts.later hle⟩⟩

theorem Limited.quiet (h : g.Limited P r last os) (hcfg : g'.cfg.parallelism = P)
    (hlimiter : g'.limiter = g.limiter) (hlen : g'.processing.len ≤ g.processing.len)
    (hhanded : handedIDs os' = []) : g'.Limited P r last (os ++ os') := by
  refine ⟨hcfg, (Int.ofNat_le.mpr hlen).trans h.len_le, ?_⟩
  rw [hlimiter, handedTimes_append, handedTimes_eq_nil hhanded, List.append_nil]
  exact h.limiter

theorem Limited.frees (h : g.Limited P r last os) (hf : Frees g g') (hhanded : handedIDs os' = []) :
    g'.Limited P r last (os ++ os') :=
  h.quiet (hf.cfg ▸ h.parallelism) hf.limiter hf.len_le hhanded

theorem Limited.takeWaiting {events : List Int} {d : Dispatch} (hcfg : g.cfg.parallelism = P)
    (hlt : (g.processing.len : Int) < P)
    (hlimiter : g.limiter = some ⟨r.max, r.window, events ++ [now]⟩)
    (hcounts : Window.Counts r.max.toNat r.window now events (handedTimes os))
    (hmax : events.length < r.max.toNat) (h : g.takeWaiting now = .ok (g', d)) :
    g'.Limited P r now (os ++ g.hands now d.msg.toList) := by
  obtain ⟨hcfg', hlimiter', -, hmsg⟩ := takeWaiting_frame h
  have htimes : handedTimes (os ++ g.hands now d.msg.toList) = handedTimes os ++ d.msg.toList.map
      fun _ => now := by
    rw [handedTimes_append, handedTimes_hands]
  have hcounts' : Window.Counts r.max.toNat r.window now (events ++ [now])
      (handedTimes (os ++ g.hands now d.msg.toList)) := by
    rw [htimes]
    cases d.msg with
    | none => simpa using hcounts.spend hmax
    | some m => exact hcounts.pass hmax
  refine ⟨hcfg' ▸ hcfg, ?_, ⟨_, hlimiter'.trans hlimiter, hcounts'⟩⟩
  rcases hmsg with ⟨-, hprocessing⟩ | ⟨m, hprocessing⟩
  · rw [hprocessing]
    exact hlt.le
  · have hlen : g'.processing.len ≤ g.processing.len + 1 := by
      rw [hprocessing]
      exact NilMap.len_insert_le _ _ _
    omega

theorem Limited.nextDispatchable (h : g.Limited P r now os) {d : Dispatch}
    (hd : g.nextDispatchable now = .ok (g', d)) :
    g'.Limited P r now (os ++ g.hands now d.msg.toList) := by
  obtain ⟨events, hlimiter, hcounts⟩ := h.limiter
  unfold Group.nextDispatchable at hd
  split at hd
  · cases hd
    exact h.quiet h.parallelism rfl (Nat.le_refl _) rfl
  · rename_i hroom
    rw [h.parallelism, Int.not_le] at hroom
    rw [hlimiter] at hd
    obtain ⟨⟨l, allowed, wakeAt⟩, hallow, hd⟩ := bind_ok.mp hd
    rcases SlidingWindowLimiter.allow_spec hallow with ⟨rfl, -, rfl⟩ | ⟨rfl, hmax, rfl⟩
    · cases hd
      refine ⟨h.parallelism, h.len_le, ⟨_, rfl, ?_⟩⟩
      rw [handedTimes_append, handedTimes_hands]
      simpa using hcounts.evict
    · exact Limited.takeWaiting
        (g :=
          { g with limiter := some ⟨r.max, r.window, Window.current r.window now events ++ [now]⟩ })
        h.parallelism hroom rfl hcounts.evict (Int.lt_toNat.mpr hmax) hd

theorem Limited.act [PathMatch] (h : g.Limited P r now os) {op : LiveOp} {key : Bytes}
    {a : GroupAct} (hclock : ∀ t ∈ op.clock, t = now)
    (hcfg : ∀ c : GroupConfig, op = .setGroupConfig c → c.AppliesTo key → c.parallelism = P)
    (hdoes : op.Does key a) (hact : g.act a = .ok (g', os')) : g'.Limited P r now (os ++ os') := by
  cases a with
  | complete id =>
    cases hact
    exact h.frees (complete_frees g id) (idsOfKind_completes rfl g id)
  | fail id errMsg t =>
    obtain ⟨⟨g₁, dlq⟩, hf, hret⟩ := bind_ok.mp hact
    cases hret
    exact h.frees (fail_frees hf) (idsOfKind_fails rfl (fun _ _ _ => rfl) g id t)
  | returnToPending id =>
    cases hact
    exact h.frees (returnToPending_frees g id) rfl
  | promoteDelayed ord t =>
    cases hact
    exact h.frees (promoteDelayed_frees g ord t) rfl
  | sweepGroup ord t =>
    cases hact
    exact h.frees (sweepGroup_frees g ord t) rfl
  | nextDispatchable t =>
    cases hclock t hdoes
    obtain ⟨⟨g₁, d⟩, hd, hret⟩ := bind_ok.mp hact
    cases hret
    exact h.nextDispatchable hd
  | setCounters deficit quantum =>
    cases hact
    exact h.quiet h.parallelism rfl (Nat.le_refl _) rfl
  | applyConfig cfg key' =>
    cases hact
    obtain ⟨c, hop, happlies, hparallelism⟩ := hdoes
    exact h.quiet (hparallelism.trans (hcfg c hop happlies)) rfl (Nat.le_refl _) rfl

theorem Limited.ofNewGroup {cfg : GroupConfig} (hparallelism : 1 ≤ cfg.parallelism)
    (hrate : cfg.rateLimit = some r) (last : Int) (hnew : newGroup cfg = .ok g)
    (hos : ∀ o ∈ os, o.2 = .returned) : g.Limited cfg.parallelism r last os := by
  have hdefaults : cfg.withDefaults.parallelism = cfg.parallelism := if_neg (by omega)
  have htimes : handedTimes os = [] := handedTimes_eq_nil (idsOfKind_returned rfl hos)
  simp only [newGroup] at hnew
  obtain ⟨limiter, hlimiter, hret⟩ := bind_ok.mp hnew
  cases hret
  have hrate' : cfg.withDefaults.rateLimit = some r := hrate
  rw [hrate', groupLimiter, newSlidingWindowLimiter] at hlimiter
  split at hlimiter
  · cases hlimiter
  · cases hlimiter
    refine ⟨hdefaults, ?_, ⟨[], rfl, ?_⟩⟩
    · show ((0 : Nat) : Int) ≤ cfg.parallelism
      omega
    · rw [htimes]
      exact .new _ _ _

end Group

theorem LiveOp.exists_now {op : LiveOp} {l : List LiveOp} {last : Int}
    (hsorted : ((op :: l).filterMap LiveOp.clock).Pairwise (· ≤ ·))
    (hlast : ∀ t ∈ (op :: l).filterMap LiveOp.clock, last ≤ t) :
    ∃ now, (∀ t ∈ op.clock, t = now) ∧ last ≤ now ∧ ∀ t ∈ l.filterMap LiveOp.clock, now ≤ t := by
  cases hop : op.clock with
  | none =>
    rw [List.filterMap_cons_none hop] at hlast
    exact ⟨last, by simp, Int.le_refl _, hlast⟩
  | some now =>
    rw [List.filterMap_cons_some hop] at hlast hsorted
    exact ⟨now, by simp, hlast now List.mem_cons_self, (List.pairwise_cons.mp hsorted).1⟩

theorem exists_before {l : List Int} (hsorted : l.Pairwise (· ≤ ·)) :
    ∃ last, ∀ t ∈ l, last ≤ t := by
  cases l with
  | nil => exact ⟨0, by simp⟩
  | cons t ts =>
    refine ⟨t, ?_⟩
    rw [List.forall_mem_cons]
    exact ⟨Int.le_refl _, (List.pairwise_cons.mp hsorted).1⟩

section Run

variable [PathMatch] {key : Bytes} {P : Int} {r : RateLimitConfig}

structure WatchedRun.Limited (key : Bytes) (P : Int) (r : RateLimitConfig) (s : WatchedRun)
    (l : List LiveOp) :
    Prop where
  configs : ∀ c : GroupConfig, .setGroupConfig c ∈ l → c.AppliesTo key → c.parallelism = P
  clocks : (l.filterMap LiveOp.clock).Pairwise (· ≤ ·)
  group : ∃ last g, (∀ t ∈ l.filterMap LiveOp.clock, last ≤ t) ∧
    s.queue.groups.lookup key = some g ∧ g.Limited P r last (happeningsOf key s.history)

theorem WatchedRun.Limited.step {op : LiveOp} {l : List LiveOp} {s s' : WatchedRun}
    (h : s.Limited key P r (op :: l)) (hstep : s.step op = .ok s') : s'.Limited key P r l := by
  obtain ⟨last, g, hlast, hg, hlimited⟩ := h.group
  obtain ⟨⟨q, reply⟩, hexec, hret⟩ := bind_ok.mp hstep
  cases hret
  have hhistory := happeningsOf_append key s.history (s.queue.happenings reply op)
  obtain ⟨now, hclock, hle, hnow⟩ := LiveOp.exists_now h.clocks hlast
  have hsorted : (l.filterMap LiveOp.clock).Pairwise (· ≤ ·) :=
    h.clocks.sublist ((List.sublist_cons_self op l).filterMap _)
  refine ⟨fun c hc => h.configs c (List.mem_cons_of_mem _ hc), hsorted, ?_⟩
  have hlimited' := hlimited.later hle
  cases Queue.exec_actsOn hexec key with
  | absent before => cases before.symm.trans hg
  | created before => cases before.symm.trans hg
  | accepted m publishes id before after seen =>
    rcases before with before | ⟨before, -⟩
    · cases before.symm.trans hg
      refine ⟨now, _, hnow, after, ?_⟩
      rw [hhistory, seen]
      exact hlimited'.quiet hlimited.parallelism rfl (Nat.le_refl _) rfl
    · cases before.symm.trans hg
  | changed before after acts =>
    cases before.symm.trans hg
    refine ⟨now, _, hnow, after, ?_⟩
    rw [hhistory]
    refine acts.induct (motive := fun g os => g.Limited P r now os) ?_ hlimited'
    intro g₁ os a g₂ os' hg₁ hdoes hact
    exact hg₁.act hclock (fun c heq => h.configs c (heq ▸ List.mem_cons_self)) hdoes hact

theorem WatchedRun.Limited.run {l : List LiveOp} {s s' : WatchedRun} (h : s.Limited key P r l)
    (hrun : run WatchedRun.step s l = .ok s') : s'.Limited key P r [] :=
  Run.induct (motive := fun s l => s.Limited key P r l)
    (fun _ _ _ _ hs hstep => hs.step hstep) h hrun

/-- A group that is created under a parallelism and a rate limit keeps both in every run with
non-decreasing clocks that leaves its parallelism alone: `processing` never has more messages, and
no closed window of time more hand-outs. -/
theorem limits_hold_over_runs {name ns : Bytes} {before after : List LiveOp} {op : LiveOp}
    {s₀ s₁ s : WatchedRun} (hbefore : runWatched name ns before = .ok s₀)
    (habsent : s₀.queue.groups.lookup key = none) (hstep : s₀.step op = .ok s₁)
    (hcreated : (s₁.queue.groups.lookup key).isSome)
    (hparallelism : 1 ≤ (s₀.queue.resolveConfig key).parallelism)
    (hrate : (s₀.queue.resolveConfig key).rateLimit = some r) (hmax : 1 ≤ r.max)
    (hcfg : ∀ c : GroupConfig, .setGroupConfig c ∈ after → c.AppliesTo key →
      c.parallelism = (s₀.queue.resolveConfig key).parallelism)
    (hclocks : (after.filterMap LiveOp.clock).Pairwise (· ≤ ·))
    (hafter : run WatchedRun.step s₁ after = .ok s) :
    ∃ g, s.queue.groups.lookup key = some g ∧
      (g.processing.len : Int) ≤ (s₀.queue.resolveConfig key).parallelism ∧
      ∀ t, (Window.countIn (t - r.window) t (handedTimes (happeningsOf key s.history)) : Int) ≤
        r.max := by
  have hunseen : s₀.Unseen key :=
    Run.induct (motive := fun s _ => s.Unseen key) (fun _ _ _ _ hs hstep => hs.step hstep)
      (fun _ o ho => (nomatch ho)) hbefore
  obtain ⟨last, hlast⟩ := exists_before hclocks
  have hstart : s₁.Limited key (s₀.queue.resolveConfig key).parallelism r after := by
    refine ⟨hcfg, hclocks, ?_⟩
    obtain ⟨⟨q, reply⟩, hexec, hret⟩ := bind_ok.mp hstep
    cases hret
    have hhistory := happeningsOf_append key s₀.history (s₀.queue.happenings reply op)
    cases Queue.exec_actsOn hexec key with
    | absent _ after =>
      rw [after] at hcreated
      cases hcreated
    | created _ new after seen =>
      refine ⟨last, _, hlast, after, ?_⟩
      rw [hhistory, seen, List.append_nil]
      exact .ofNewGroup hparallelism hrate last new (hunseen habsent)
    | accepted m publishes id before after seen =>
      rcases before with before | ⟨-, new⟩
      · cases before.symm.trans habsent
      · have hnew := Group.Limited.ofNewGroup hparallelism hrate last new (hunseen habsent)
        refine ⟨last, _, hlast, after, ?_⟩
        rw [hhistory, seen]
        exact hnew.quiet hnew.parallelism rfl (Nat.le_refl _) rfl
    | changed before => cases before.symm.trans habsent
  obtain ⟨last', g, -, hg, hlimited⟩ := (hstart.run hafter).group
  obtain ⟨events, -, hcounts⟩ := hlimited.limiter
  refine ⟨g, hg, hlimited.len_le, ?_⟩
  intro t
  have hbound := hcounts.bound t
  omega

end Run

def limitedConfig : GroupConfig :=
  { defaultGroupConfig (str "g") with parallelism := 2, rateLimit := some ⟨2, 10⟩ }

def throttledOps : List LiveOp :=
  [.publishWithID (str "g") (str "b") [] 0, .publishWithID (str "g") (str "c") [] 0,
    .tryDispatchOne (str "g") .inOrder 1, .drainGroup (str "g") .inOrder 2,
    .completeAndNext (str "g") (str "a") .inOrder 11,
    .failAndNext (str "g") (str "b") [] .inOrder 12]

theorem limits_hold_over_runs_sample :
    ∃ s₀ s₁ s g, @runWatched literalMatch [] [] [.setGroupConfig limitedConfig] = .ok s₀ ∧
      @WatchedRun.step literalMatch s₀ (.publishWithID (str "g") (str "a") [] 0) = .ok s₁ ∧
      run (@WatchedRun.step literalMatch) s₁ throttledOps = .ok s ∧
      handedTimes (happeningsOf (str "g") s.history) = [1, 2, 12] ∧
      s.queue.groups.lookup (str "g") = some g ∧ (g.processing.len : Int) ≤ 2 ∧
      ∀ t, (Window.countIn (t - 10) t (handedTimes (happeningsOf (str "g") s.history)) : Int) ≤
        2 := by
  obtain ⟨s₀, s₁, s, hs₀, hs₁, hs, habsent, hconfig, hcreated, htimes⟩ : ∃ s₀ s₁ s,
      @runWatched literalMatch [] [] [.setGroupConfig limitedConfig] = .ok s₀ ∧
      @WatchedRun.step literalMatch s₀ (.publishWithID (str "g") (str "a") [] 0) = .ok s₁ ∧
      run (@WatchedRun.step literalMatch) s₁ throttledOps = .ok s ∧
      s₀.queue.groups.lookup (str "g") = none ∧
      @Queue.resolveConfig literalMatch s₀.queue (str "g") = limitedConfig ∧
      (s₁.queue.groups.lookup (str "g")).isSome ∧
      handedTimes (happeningsOf (str "g") s.history) = [1, 2, 12] :=
    ⟨_, _, _, rfl, rfl, rfl, by decide +kernel, by decide +kernel, by decide +kernel,
      by decide +kernel⟩
  have hparallelism : 1 ≤ (@Queue.resolveConfig literalMatch s₀.queue (str "g")).parallelism := by
    rw [hconfig]
    decide
  have hrate : (@Queue.resolveConfig literalMatch s₀.queue (str "g")).rateLimit = some ⟨2, 10⟩ := by
    rw [hconfig]
    rfl
  obtain ⟨g, hg, hlen, hcount⟩ := @limits_hold_over_runs literalMatch (str "g") ⟨2, 10⟩ [] []
    [.setGroupConfig limitedConfig] throttledOps _ s₀ s₁ s hs₀ habsent hs₁ hcreated hparallelism
      hrate (by decide)
    (by simp [throttledOps]) (by decide) hs
  rw [hconfig] at hlen
  exact ⟨s₀, s₁, s, g, hs₀, hs₁, hs, htimes, hg, hlen, hcount⟩

end Octar
