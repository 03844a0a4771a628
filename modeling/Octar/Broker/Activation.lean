import Octar.Broker.Programs

namespace Octar

open Go Threads

def flagHeld : Program Unit → Option (GroupRef × Bool)
  | .call (.sendActive g) _ => some (g, true)
  | .call (.unschedule g) _ => some (g, false)
  | _ => none

def flagAfter : (c : Cmd) → c.Answer → Option (GroupRef × Bool)
  | .trySchedule g, won => if won then some (g, true) else none
  | .sendActive g, sent => if sent then none else some (g, false)
  | _, _ => none

theorem flagHeld_of_part {c : Cmd} (h : c.part ≠ .schedule) (k : c.Answer → Program Unit) :
    flagHeld (.call c k) = none := by
  cases c <;> first | rfl | exact absurd rfl h

theorem flagAfter_of_part {c : Cmd} (h : c.part ≠ .schedule) (r : c.Answer) :
    flagAfter c r = none := by
  cases c <;> first | rfl | exact absurd rfl h

def Flagged (p : Program Unit) : Prop :=
  p.All Cmd.Possible fun c k => ∀ r, c.Possible r → flagHeld (k r) = flagAfter c r

theorem ordinary_flagged {c : Cmd} (h : c.part ≠ .schedule) :
    Prog.Ordinary Cmd.Possible (fun p => flagHeld p = none)
      (fun c k => ∀ r, c.Possible r → flagHeld (k r) = flagAfter c r) c := by
  intro k hk
  refine ⟨flagHeld_of_part h k, ?_⟩
  intro r hr
  rw [hk r hr, flagAfter_of_part h r]

theorem schedule_flagged (g : GroupRef) :
    (schedule g).Keeps Cmd.Possible (fun p => flagHeld p = none)
      fun c k => ∀ r, c.Possible r → flagHeld (k r) = flagAfter c r := by
  intro f hf
  refine ⟨rfl, ?_, ?_⟩
  · intro won _
    cases won with
    | true => rfl
    | false => exact (hf ()).1
  · intro won _
    cases won with
    | false => exact (hf ()).2
    | true =>
      refine ⟨?_, ?_⟩
      · intro sent _
        cases sent with
        | true => exact (hf ()).1
        | false => rfl
      · intro sent _
        cases sent with
        | true => exact (hf ()).2
        | false => exact ⟨fun _ _ => (hf ()).1, fun _ _ => (hf ()).2⟩

theorem parts_flagged :
    Parts true true (fun p => flagHeld p = none) fun c k => ∀ r, c.Possible r →
      flagHeld (k r) = flagAfter c r where
  ret := rfl
  plain c hc := ordinary_flagged hc.part_ne.1
  activate g :=
    .ite (.ret ()) (.call (ordinary_flagged fun h => (nomatch h)) fun _ _ =>
      .ite (.ret ()) (schedule_flagged g))
  scheduleWake g wakeNs := by
    refine scheduleWake_keeps g wakeNs fun c hc => ordinary_flagged ?_
    rcases hc with hc | hc <;> rw [hc] <;> decide
  publishAs g msgID payload _ :=
    publishAs_keeps g msgID payload (ordinary_flagged fun h => (nomatch h))
      (ordinary_flagged fun h => (nomatch h))

theorem flagged_task (t : Task) (ht : t.Proper) : Flagged t.program :=
  all_task parts_flagged (fun _ h _ _ => h) (fun _ _ h _ _ => h) (fun _ h r _ => h r.toNat) t ht

theorem flagHeld_task (t : Task) (ht : t.Proper) :
    flagHeld t.program = none ∨ ∃ g, t = .process g := by
  obtain hbuilt | ⟨g, rfl⟩ | ⟨g, wakeNs, rfl⟩ | ⟨conn, rfl⟩ := t.built ht
  · exact .inl (parts_flagged.calm hbuilt).1
  · exact .inr ⟨g, rfl⟩
  · exact .inl rfl
  · exact .inl rfl

def oneFor (g : GroupRef) : Option (GroupRef × Bool) → Int
  | some (g', _) => if g' = g then 1 else 0
  | none => 0

def flagLoad (g : GroupRef) (p : Program Unit) : Int := oneFor g (flagHeld p)

def flagGain (g : GroupRef) : (c : Cmd) → c.Answer → Int
  | .trySchedule g', won => if won = true ∧ g' = g then 1 else 0
  | .sendActive g', sent => if sent = true ∧ g' = g then -1 else 0
  | .unschedule g', _ => if g' = g then -1 else 0
  | _, _ => 0

theorem flagLoad_nonneg (g : GroupRef) (p : Program Unit) : 0 ≤ flagLoad g p := by
  unfold flagLoad oneFor
  split
  · split <;> omega
  · omega

theorem flagHeld_of_load {g : GroupRef} {p : Program Unit} (h : flagLoad g p ≠ 0) :
    ∃ b, flagHeld p = some (g, b) := by
  unfold flagLoad oneFor at h
  split at h
  · rename_i g' b hheld
    split at h
    · rename_i hg
      exact ⟨b, hg ▸ hheld⟩
    · exact absurd rfl h
  · exact absurd rfl h

theorem next_of_flagHeld {g : GroupRef} {t : Goroutine} (h : flagHeld t.prog = some (g, true)) :
    t.next? = some (.sendActive g) := by
  obtain ⟨task, p⟩ := t
  cases p with
  | ret a => cases h
  | call c k =>
    cases c <;> cases h
    rfl

theorem Cmd.handle_active [PathMatch] {ch : Choice} {c : Cmd} {s s' : Runtime} {r : c.Answer}
    (h : c.handle ch s = .ok (s', r)) {g : GroupRef} (hg : g ∈ s.active) : g ∈ s'.active := by
  by_cases hc : c.part = .schedule
  case neg => rwa [(handle_frame h).active hc]
  cases c with
  | trySchedule g' =>
    simp only [Cmd.handle] at h
    split at h <;> cases h <;> exact hg
  | unschedule g' =>
    cases h
    exact hg
  | sendActive g' =>
    simp only [Cmd.handle] at h
    split at h
    · cases h
      exact List.mem_append_left _ hg
    · cases h
      exact hg
  | _ => cases hc

theorem flagGain_of_part (g : GroupRef) {c : Cmd} (h : c.part ≠ .schedule) (r : c.Answer) :
    flagGain g c r = 0 := by
  cases c <;> first | rfl | exact absurd rfl h

theorem Flagged.balanced {p : Program Unit} (h : Flagged p) (g : GroupRef) :
    p.Balanced Cmd.Possible (flagLoad g) (flagGain g) := by
  refine h.imp ?_
  intro c k hk r hr
  rw [flagLoad, flagLoad, hk r hr]
  by_cases hc : c.part = .schedule
  · cases c with
    | trySchedule g' => cases r <;> simp [flagHeld, flagAfter, flagGain, oneFor]
    | sendActive g' =>
      cases r <;> by_cases hg : g' = g <;> simp [flagHeld, flagAfter, flagGain, oneFor, hg]
    | unschedule g' => by_cases hg : g' = g <;> simp [flagHeld, flagAfter, flagGain, oneFor, hg]
    | _ => cases hc
  · rw [flagAfter_of_part hc, flagHeld_of_part hc, flagGain_of_part g hc]
    rfl

theorem activate_eq {g : GroupRef} (hg : g.group ≠ []) :
    activate g = .call (.getGroupToken g) fun token => if !token then pure () else schedule g :=
  if_neg hg

namespace System

/-- The flag of a group is set if and only if there is an activation of it, in the channel or held,
and then there is exactly one. -/
structure Scheduled (sys : System) : Prop where
  flagged : ∀ t ∈ sys.threads, Flagged t.prog
  count : ∀ g, (sys.state.active.count g : Int) + total (flagLoad g) sys.threads =
    if sys.state.isScheduled g then 1 else 0

theorem scheduled_start (cfg : RuntimeConfig) (chs : List DispatchCh) :
    (start cfg chs).Scheduled := by
  refine ⟨?_, fun g => rfl⟩
  intro t ht
  cases ht

variable [PathMatch] {sys sys' : System} {l : Label}

theorem Scheduled.step (hsys : sys.Scheduled) (hregular : sys.Regular) (h : sys.Step l sys') :
    sys'.Scheduled := by
  refine ⟨?_, ?_⟩
  · refine h.threads hsys.flagged flagged_task ?_
    intro ch task c k s r handled hall
    exact hall.2 r (Cmd.handle_possible hregular.placed handled)
  intro g
  have hcount := hsys.count g
  have hspawn : ∀ t : Task, t.Proper → (∀ g, t ≠ .process g) →
      (sys.state.active.count g : Int) + total (flagLoad g) (sys.threads ++ [t.start]) =
        if sys.state.isScheduled g then 1 else 0 := by
    intro t ht hne
    have hload : flagLoad g t.start.prog = 0 := by
      rcases flagHeld_task t ht with hnone | ⟨g, rfl⟩
      · exact congrArg (oneFor g) hnone
      · exact absurd rfl (hne g)
    rw [total_append, hload, Int.add_zero, hcount]
  cases h with
  | declare | connect | flush => exact hcount
  | @receive conn pages f c reader valid =>
    exact hspawn (.frame conn c.ns f pages) valid fun _ h => (nomatch h)
  | @disconnect conn => exact hspawn (.teardown conn) trivial fun _ h => (nomatch h)
  | @deliver _ _ msg => exact hspawn (.dispatch msg) trivial fun _ h => (nomatch h)
  | @fire _ g' wakeNs => exact hspawn (.timer g' wakeNs) trivial fun _ h => (nomatch h)
  | @activate g' => exact hspawn (.activate g') trivial fun _ h => (nomatch h)
  | sweep => exact hspawn .sweep trivial fun _ h => (nomatch h)
  | @process g' active first =>
    -- the activation moves from the channel to the worker
    have hload : flagLoad g (Task.process g').start.prog = if g' = g then 1 else 0 := rfl
    change (active.count g : Int) + total (flagLoad g) (sys.threads ++ [(Task.process g').start]) =
      if sys.state.isScheduled g then 1 else 0
    rw [first, List.count_cons] at hcount
    rw [← hcount, total_append, hload]
    by_cases hg : g' = g <;> simp [hg]
    omega
  | @run thread ch task c k s r next handled =>
    have hmem := List.mem_of_getElem? next
    have hbalanced := (hsys.flagged _ hmem).balanced g
    change (s.active.count g : Int) + total (flagLoad g) (sys.threads.set thread ⟨task, k r⟩) =
      if s.isScheduled g then 1 else 0
    rw [total_advance next hbalanced (Cmd.handle_possible hregular.placed handled)]
    by_cases hc : c.part = .schedule
    case neg =>
      have hframe := Cmd.handle_frame handled
      rw [hframe.active hc, hframe.isScheduled hc, flagGain_of_part g hc, Int.add_zero, hcount]
    cases c with
    | trySchedule g' =>
      simp only [Cmd.handle] at handled
      split at handled
      · cases handled
        simp [flagGain, hcount]
      · rename_i hfree
        cases handled
        by_cases hg : g' = g
        · subst hg
          rw [if_neg hfree] at hcount
          simp only [flagGain, Function.update_self, and_self, if_true]
          omega
        · simp only [flagGain, Function.update_of_ne (Ne.symm hg)]
          rw [if_neg fun h => hg h.2, ← hcount]
          omega
    | sendActive g' =>
      simp only [Cmd.handle] at handled
      split at handled
      · cases handled
        rw [← hcount]
        by_cases hg : g' = g <;> simp [flagGain, List.count_append, hg]
        omega
      · cases handled
        simp [flagGain, hcount]
    | unschedule g' =>
      cases handled
      by_cases hg : g' = g
      · -- the flag of a group that this goroutine holds is set
        subst hg
        have hload : flagLoad g' (.call (.unschedule g') k) = 1 := by
          simp [flagLoad, flagHeld, oneFor]
        have hle := load_le_total (flagLoad_nonneg g') hmem
        simp only [flagGain, Function.update_self, if_true, Bool.false_eq_true, if_false]
        simp only [hload] at hle
        split at hcount
        all_goals omega
      · simp only [flagGain, Function.update_of_ne (Ne.symm hg)]
        rw [if_neg hg, ← hcount, Int.add_zero]
    | _ => cases hc

omit [PathMatch] in
theorem Scheduled.count_le_one (hsys : sys.Scheduled) (g : GroupRef) :
    sys.state.active.count g ≤ 1 := by
  have hcount := hsys.count g
  have hnonneg := total_nonneg (flagLoad_nonneg g) sys.threads
  split at hcount
  all_goals omega

/-- A drain of the group is owed: an activation is in the channel, or a caller is between its
compare-and-swap and its send, or a worker has received one and not yet drained. -/
def Owed (sys : System) (g : GroupRef) : Prop :=
  g ∈ sys.state.active ∨ (∃ t ∈ sys.threads, t.next? = some (.sendActive g)) ∨
    ∃ t ∈ sys.threads, t = ⟨.process g, processActivation g⟩ ∨ t = ⟨.process g, drainActivated g⟩

def Room (sys : System) (l : Label) : Prop :=
  ∀ thread ch, l = .run thread ch → ∀ t, sys.threads[thread]? = some t → ∀ g,
    t.next? = some (.sendActive g) → sys.state.active.length < activeDepth

def Workers (sys : System) : Prop :=
  ∀ t ∈ sys.threads, ∀ g, flagHeld t.prog = some (g, false) → t = ⟨.process g, processActivation g⟩

theorem Workers.step (hsys : sys.Workers) (hscheduled : sys.Scheduled) (hregular : sys.Regular)
    (hroom : sys.Room l) (h : sys.Step l sys') : sys'.Workers := by
  have hspawn : ∀ t : Task, t.Proper → ∀ t' ∈ sys.threads ++ [t.start], ∀ g,
      flagHeld t'.prog = some (g, false) → t' = ⟨.process g, processActivation g⟩ := by
    intro t ht t' ht' g hheld
    rcases List.mem_append.mp ht' with ht' | ht'
    · exact hsys t' ht' g hheld
    · cases List.mem_singleton.mp ht'
      rcases flagHeld_task t ht with hnone | ⟨g', rfl⟩
      · cases hnone.symm.trans hheld
      · cases hheld
        rfl
  cases h with
  | declare | connect | flush => exact hsys
  | receive reader valid => exact hspawn _ valid
  | disconnect | deliver | process | fire | activate | sweep => exact hspawn _ trivial
  | @run thread ch task c k s r next handled =>
    intro t ht g hheld
    rcases List.mem_or_eq_of_mem_set ht with ht | rfl
    · exact hsys t ht g hheld
    · -- a reset follows only a send that found the channel full
      have hflagged := (hscheduled.flagged _ (List.mem_of_getElem? next)).1
      rw [hflagged r (Cmd.handle_possible hregular.placed handled)] at hheld
      cases c with
      | trySchedule g' => cases r <;> cases hheld
      | sendActive g' =>
        have hlt := hroom thread ch rfl _ next g' rfl
        simp only [Cmd.handle, if_pos hlt] at handled
        cases handled
        cases hheld
      | _ => cases hheld

omit [PathMatch] in
theorem Scheduled.owed (hsys : sys.Scheduled) (hworkers : sys.Workers) {g : GroupRef}
    (hg : sys.state.isScheduled g = true) : sys.Owed g := by
  have hcount := hsys.count g
  rw [if_pos hg] at hcount
  by_cases hactive : g ∈ sys.state.active
  · exact .inl hactive
  · rw [List.count_eq_zero.mpr hactive] at hcount
    have hsum : total (flagLoad g) sys.threads ≠ 0 := by omega
    obtain ⟨t, ht, hload⟩ := exists_load hsum
    obtain ⟨b, hb⟩ := flagHeld_of_load hload
    cases b with
    | true => exact .inr (.inl ⟨t, ht, next_of_flagHeld hb⟩)
    | false => exact .inr (.inr ⟨t, ht, .inl (hworkers t ht g hb)⟩)

theorem Owed.step {g : GroupRef} (howed : sys.Owed g) (hroom : sys.Room l) (h : sys.Step l sys') :
    sys'.Owed g ∨ sys.state.drains g < sys'.state.drains g := by
  have hspawn : ∀ {s : Runtime} {t : Task}, g ∈ s.active ∨ g ∉ sys.state.active →
      Owed ⟨s, sys.threads ++ [t.start]⟩ g := by
    intro s t hactive
    rcases howed with hg | ⟨t', ht', hnext⟩ | ⟨t', ht', heq⟩
    · exact .inl (hactive.resolve_right fun h => h hg)
    · exact .inr (.inl ⟨t', List.mem_append_left _ ht', hnext⟩)
    · exact .inr (.inr ⟨t', List.mem_append_left _ ht', heq⟩)
  cases h with
  | declare | connect | flush => exact .inl howed
  | receive | disconnect | deliver | fire | activate | sweep => exact .inl (hspawn (Decidable.em _))
  | @process g' active first =>
    refine .inl ?_
    by_cases hg : g' = g
    · subst hg
      exact .inr (.inr ⟨_, List.mem_append_right _ List.mem_cons_self, .inl rfl⟩)
    · refine hspawn ?_
      rw [first, List.mem_cons]
      change g ∈ active ∨ _
      by_cases hin : g ∈ active
      · exact .inl hin
      · exact .inr fun h => h.elim (fun h => hg h.symm) hin
  | @run thread ch task c k s r next handled =>
    rcases howed with hg | ⟨t, ht, hnext⟩ | ⟨t, ht, heq⟩
    · exact .inl (.inl (Cmd.handle_active handled hg))
    · rcases mem_set_or next ht ⟨task, k r⟩ with rfl | ht
      · cases hnext
        have hlt := hroom thread ch rfl _ next g rfl
        simp only [Cmd.handle, if_pos hlt] at handled
        cases handled
        exact .inl (.inl (List.mem_append_right _ List.mem_cons_self))
      · exact .inl (.inr (.inl ⟨t, ht, hnext⟩))
    · rcases mem_set_or next ht ⟨task, k r⟩ with rfl | ht
      · rcases heq with heq | heq
        · cases heq
          exact .inl (.inr (.inr ⟨_, mem_set_self next _, .inr rfl⟩))
        · cases heq
          refine .inr ?_
          rw [Cmd.drainGroup_drains handled, Function.update_self]
          exact Nat.lt_succ_self _
      · exact .inl (.inr (.inr ⟨t, ht, heq⟩))

theorem Step.drains_le (h : sys.Step l sys') (g : GroupRef) :
    sys.state.drains g ≤ sys'.state.drains g := by
  cases h with
  | declare | connect | receive | disconnect | deliver | process | fire | activate
    | sweep | flush =>
    exact Nat.le_refl _
  | run next handled => exact Cmd.handle_drains_le handled g

theorem Step.group_isSome (h : sys.Step l sys') (hsys : sys.Regular) {g : GroupRef}
    (hg : (sys.state.group g).isSome) : (sys'.state.group g).isSome := by
  cases h with
  | declare new => rwa [Runtime.group_of_declare new rfl]
  | connect | receive | disconnect | deliver | process | fire | activate | sweep | flush => exact hg
  | run next handled =>
    rcases Cmd.handle_group hsys.placed.named handled g with ⟨hsame, -⟩ | ⟨G, G', -, hG', -⟩
    · exact hsame ▸ hg
    · exact hG' ▸ rfl

structure Protocol (sys : System) : Prop where
  regular : sys.Regular
  scheduled : sys.Scheduled
  workers : sys.Workers

theorem Protocol.step (hsys : sys.Protocol) (hroom : sys.Room l) (h : sys.Step l sys') :
    sys'.Protocol :=
  ⟨hsys.regular.step h, hsys.scheduled.step hsys.regular h,
    hsys.workers.step hsys.scheduled hsys.regular hroom h⟩

omit [PathMatch] in
theorem protocol_start (cfg : RuntimeConfig) (chs : List DispatchCh) : (start cfg chs).Protocol :=
  ⟨regular_start cfg chs, scheduled_start cfg chs, fun _ ht => (nomatch ht)⟩

/-- How far a call of `Activate` is, with `k` after it, for a group that was drained `n` times
before: at its beginning, before its compare-and-swap, or past it with a drain done or owed. -/
inductive Called (g : GroupRef) (n i : Nat) (task : Task) (k : Unit → Program Unit) (sys : System) :
    Prop
  | begun (at_ : sys.threads[i]? = some ⟨task, activate g >>= k⟩)
  | found (at_ : sys.threads[i]? = some ⟨task, schedule g >>= k⟩)
  | drained (more : n < sys.state.drains g)
  | owed (owed : sys.Owed g)

structure Watched (g : GroupRef) (n : Nat) (sys : System) : Prop extends Protocol sys where
  group : (sys.state.group g).isSome
  drains : n ≤ sys.state.drains g

variable {g : GroupRef} {n i : Nat} {task : Task} {k : Unit → Program Unit}

theorem Watched.step (hsys : sys.Watched g n) (hroom : sys.Room l) (h : sys.Step l sys') :
    sys'.Watched g n :=
  ⟨hsys.toProtocol.step hroom h, h.group_isSome hsys.regular hsys.group,
    hsys.drains.trans (h.drains_le g)⟩

theorem Called.step (hcalled : sys.Called g n i task k) (hsys : sys.Watched g n)
    (hroom : sys.Room l) (h : sys.Step l sys') : sys'.Called g n i task k := by
  have howed : sys.Owed g → sys'.Called g n i task k := by
    intro howed
    rcases howed.step hroom h with howed | hlt
    · exact .owed howed
    · exact .drained (Nat.lt_of_le_of_lt hsys.drains hlt)
  cases hcalled with
  | begun at_ =>
    obtain ht | ⟨ch, task', c, k', r, heq, handled, ht⟩ := h.thread at_
    · exact .begun ht
    · rw [activate_eq (hsys.regular.keys g hsys.group)] at heq
      cases heq
      obtain ⟨q, hq, -, rfl⟩ := Runtime.readQueue_ok handled
      have hgroup := hsys.group
      rw [Runtime.group_of_queue hq] at hgroup
      simp only [hgroup] at ht
      exact .found ht
  | found at_ =>
    obtain ht | ⟨ch, task', c, k', r, heq, handled, ht⟩ := h.thread at_
    · exact .found ht
    · cases heq
      simp only [Cmd.handle] at handled
      split at handled
      · rename_i hset
        exact howed (hsys.scheduled.owed hsys.workers hset)
      · obtain ⟨-, rfl⟩ := Prod.mk.inj (Except.ok.inj handled)
        exact .owed (.inr (.inl ⟨_, List.mem_of_getElem? ht, rfl⟩))
  | drained more => exact .drained (Nat.lt_of_lt_of_le more (h.drains_le g))
  | owed owed => exact howed owed

omit [PathMatch] in
theorem Called.returned (hcalled : sys.Called g n i task k) (hsys : sys.Watched g n)
    (ht : sys.threads[i]? = some ⟨task, k ()⟩) : n < sys.state.drains g ∨ sys.Owed g := by
  cases hcalled with
  | begun at_ =>
    have heq : (activate g >>= k) = k () :=
      congrArg Thread.prog (Option.some.inj (at_.symm.trans ht))
    rw [activate_eq (hsys.regular.keys g hsys.group), Prog.call_bind] at heq
    exact absurd heq (Prog.call_ne false rfl)
  | found at_ =>
    have heq : (schedule g >>= k) = k () :=
      congrArg Thread.prog (Option.some.inj (at_.symm.trans ht))
    rw [schedule, command_bind, Prog.call_bind] at heq
    exact absurd heq (Prog.call_ne false rfl)
  | drained more => exact .inl more
  | owed owed => exact .inr owed

/-- Once a call of `Activate` has returned, a drain of a group that existed before it has been done
since or is owed; and no group has two activations in the channel. -/
theorem activations_lead_to_drains {cfg : RuntimeConfig} {chs : List DispatchCh} {sys₁ : System}
    (h₁ : Reachable System.step Room (start cfg chs) sys₁) :
    (∀ g, sys₁.state.active.count g ≤ 1) ∧
      ∀ (g : GroupRef) (sys₂ : System) (i : Nat) (task : Task) (k : Unit → Program Unit)
        (sys₃ sys₄ : System), (sys₁.state.group g).isSome → Reachable System.step Room sys₁ sys₂ →
        sys₂.threads[i]? = some ⟨task, activate g >>= k⟩ → Reachable System.step Room sys₂ sys₃ →
        sys₃.threads[i]? = some ⟨task, k ()⟩ → Reachable System.step Room sys₃ sys₄ →
        sys₁.state.drains g < sys₄.state.drains g ∨ sys₄.Owed g := by
  have hprotocol : sys₁.Protocol :=
    h₁.invariant (protocol_start cfg chs) fun sys l sys' hsys hroom hstep =>
      hsys.step hroom (step_ok hstep)
  refine ⟨hprotocol.scheduled.count_le_one, ?_⟩
  intro g sys₂ i task k sys₃ sys₄ hg h₂ hcall h₃ hreturned h₄
  have hwatched : sys₂.Watched g (sys₁.state.drains g) :=
    h₂.invariant ⟨hprotocol, hg, Nat.le_refl _⟩ fun sys l sys' hsys hroom hstep =>
      hsys.step hroom (step_ok hstep)
  obtain ⟨hwatched₃, hcalled⟩ := h₃.invariant
    (motive := fun sys => sys.Watched g (sys₁.state.drains g) ∧
      sys.Called g (sys₁.state.drains g) i task k)
    ⟨hwatched, .begun hcall⟩ fun sys l sys' hsys hroom hstep =>
      ⟨hsys.1.step hroom (step_ok hstep), hsys.2.step hsys.1 hroom (step_ok hstep)⟩
  -- what a call has left behind stays
  have hdone := h₄.invariant (motive := fun sys => sys.Watched g (sys₁.state.drains g) ∧
      (sys₁.state.drains g < sys.state.drains g ∨ sys.Owed g))
    ⟨hwatched₃, hcalled.returned hwatched₃ hreturned⟩ (by
      rintro sys l sys' ⟨hsys, hdone⟩ hroom hstep
      have hstep := step_ok hstep
      refine ⟨hsys.step hroom hstep, ?_⟩
      rcases hdone with hmore | howed
      · exact .inl (Nat.lt_of_lt_of_le hmore (hstep.drains_le g))
      · exact (howed.step hroom hstep).symm.imp_left (Nat.lt_of_le_of_lt hsys.drains))
  exact hdone.2

end System

def sampleGroup : GroupRef := ⟨str "n", str "q", str "g"⟩

def sampleChoice : Choice := ⟨1, .inOrder, str "m1", true⟩

def hasRoom (sys : System) (_ : Label) : Bool := sys.state.active.length < activeDepth

theorem hasRoom_room (sys : System) (l : Label) (h : hasRoom sys l = true) : sys.Room l :=
  fun _ _ _ _ _ _ _ => of_decide_eq_true h

def runTimes (thread n : Nat) (newID : Bytes) : List Label :=
  List.replicate n (.run thread ⟨1, .inOrder, newID, true⟩)

def receivedLabels : List Label :=
  [.declare (str "n") (str "q") [], .connect (str "n"),
    .receive 0 (.subscribe (str "q") (str "*")) 1] ++
  runTimes 0 3 [] ++ [.receive 0 (.publish (str "q") (str "g") (str "p")) 0] ++
  runTimes 1 13 (str "m1") ++ [.deliver 0] ++ runTimes 2 5 []

def publishLabels : List Label :=
  [.declare (str "n") (str "q") [], .connect (str "n"),
    .receive 0 (.publish (str "q") (str "g") (str "p")) 0,
    .run 0 sampleChoice, .run 0 sampleChoice, .run 0 sampleChoice, .run 0 sampleChoice,
    .run 0 sampleChoice]

def sampleStart : System := .start ⟨1, 0, 0⟩ [⟨1, []⟩]

def callReturns (sys : System) : Bool :=
  (sys.state.group sampleGroup).isSome && sys.threads.length == 1 &&
    (@System.step literalMatch sys (.activate sampleGroup)).toOption.any fun call =>
      (run (checked (@System.step literalMatch) hasRoom .blocked) call
        [.run 1 sampleChoice, .run 1 sampleChoice, .run 1 sampleChoice]).toOption.any fun sys₃ =>
          sys₃.threads[1]?.any fun t => t.task = .activate sampleGroup && t.finished

theorem activations_lead_to_drains_sample :
    ∃ sys₁ call sys₃, Reachable (@System.step literalMatch) System.Room sampleStart sys₁ ∧
      @System.step literalMatch sys₁ (.activate sampleGroup) = .ok call ∧
      Reachable (@System.step literalMatch) System.Room call sys₃ ∧
      (sys₁.state.drains sampleGroup < sys₃.state.drains sampleGroup ∨ sys₃.Owed sampleGroup) := by
  have htrace : (run (checked (@System.step literalMatch) hasRoom .blocked) sampleStart
      publishLabels).toOption.any callReturns = true := by decide +kernel
  obtain ⟨sys₁, h₁, hreturns⟩ := Reachable.ofTrace hasRoom_room publishLabels callReturns htrace
  simp only [callReturns, Bool.and_eq_true, beq_iff_eq] at hreturns
  obtain ⟨⟨hgroup, hlength⟩, hcall⟩ := hreturns
  obtain ⟨call, hcall, hrest⟩ := any_toOption.mp hcall
  obtain ⟨sys₃, hrun, hfinished⟩ := any_toOption.mp hrest
  have h₃ := Reachable.start.ofRun hasRoom_room hrun
  refine ⟨sys₁, call, sys₃, h₁, hcall, h₃, ?_⟩
  have hbegun : call.threads[1]? = some ⟨.activate sampleGroup, activate sampleGroup >>= .ret⟩ := by
    cases @System.step_ok literalMatch _ _ _ hcall
    rw [Prog.bind_ret, ← hlength]
    exact List.getElem?_concat_length
  have hreturned : sys₃.threads[1]? = some ⟨.activate sampleGroup, .ret ()⟩ := by
    cases ht : sys₃.threads[1]? with
    | none =>
      rw [ht] at hfinished
      cases hfinished
    | some t =>
      obtain ⟨task, p⟩ := t
      rw [ht] at hfinished
      simp only [Option.any_some, Bool.and_eq_true, decide_eq_true_eq] at hfinished
      cases p with
      | ret a => rw [hfinished.1]
      | call c k => cases hfinished.2
  have hroom : sys₁.Room (.activate sampleGroup) := fun _ _ h => (nomatch h)
  exact (@System.activations_lead_to_drains literalMatch _ _ sys₁ h₁).2 sampleGroup call 1 _
    _ sys₃ sys₃ hgroup (.step .start hroom hcall) hbegun h₃ hreturned .start

end Octar
