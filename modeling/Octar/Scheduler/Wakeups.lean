import Octar.Broker.Runtime
import Octar.Lib.Spin

/-! The wake-ups of one group.  One word stands for the timers of the group: `scheduleWake` adds a
timer only if it brings the word to an earlier time, and a timer that fires clears the word only if
it still has its time. -/

namespace Octar.Wakeups

open Threads Relation

structure Memory where
  wakeScheduledAt : Int
  armed : List Int
  activations : Nat
  deriving DecidableEq, Repr

inductive Access
  | loadWake
  | trySetWake (curr next : Int)
  | clearWake (expected : Int)
  | add (wakeNs : Int)
  | activate
  deriving DecidableEq, Repr

abbrev Access.Answer : Access → Type
  | .loadWake => Int
  | .trySetWake _ _ => Bool
  | .clearWake _ => Unit
  | .add _ => Unit
  | .activate => Unit

def Access.exec : (c : Access) → Memory → Memory × c.Answer
  | .loadWake, m => (m, m.wakeScheduledAt)
  | .trySetWake curr next, m =>
    if m.wakeScheduledAt = curr then ({ m with wakeScheduledAt := next }, true) else (m, false)
  | .clearWake expected, m =>
    (if m.wakeScheduledAt = expected then { m with wakeScheduledAt := 0 } else m, ())
  | .add wakeNs, m => ({ m with armed := m.armed ++ [wakeNs] }, ())
  | .activate, m => ({ m with activations := m.activations + 1 }, ())

abbrev Round := Prog Access Access.Answer

def access (c : Access) : Round c.Answer := Prog.command c

def setWakeLoop (wakeNs : Int) : Round (Option Bool) := do
  let curr : Int ← access .loadWake
  if curr ≠ 0 ∧ curr ≤ wakeNs then return some false
  let set : Bool ← access (.trySetWake curr wakeNs)
  return if set then some true else none

inductive Command
  | setWake (wakeNs : Int)
  | add (wakeNs : Int)
  | clearWake (wakeNs : Int)
  | activate
  deriving DecidableEq, Repr

abbrev Command.Answer : Command → Type
  | .setWake _ => Bool
  | .add _ => Unit
  | .clearWake _ => Unit
  | .activate => Unit

def Command.round : (c : Command) → Round (Option c.Answer)
  | .setWake wakeNs => setWakeLoop wakeNs
  | .add wakeNs => do
    access (.add wakeNs)
    return some ()
  | .clearWake wakeNs => do
    access (.clearWake wakeNs)
    return some ()
  | .activate => do
    access .activate
    return some ()

def Command.atom : (c : Command) → Memory → Memory × c.Answer
  | .setWake wakeNs, m =>
    if m.wakeScheduledAt ≠ 0 ∧ m.wakeScheduledAt ≤ wakeNs then (m, false)
    else ({ m with wakeScheduledAt := wakeNs }, true)
  | .add wakeNs, m => Access.exec (.add wakeNs) m
  | .clearWake wakeNs, m => Access.exec (.clearWake wakeNs) m
  | .activate, m => Access.exec .activate m

theorem linear_trySetWake {wakeNs curr : Int} (hcurr : ¬ (curr ≠ 0 ∧ curr ≤ wakeNs)) :
    Linear Access.exec (Command.atom (.setWake wakeNs))
      (.call (.trySetWake curr wakeNs) fun set => .ret (if set then some true else none)) := by
  intro m
  by_cases heq : m.wakeScheduledAt = curr
  · subst heq
    left
    simp only [Access.exec, Command.atom, if_neg hcurr, if_true, and_self]
  · right
    simp [Access.exec, heq, Linear]

theorem linear_setWakeLoop (wakeNs : Int) :
    Linear Access.exec (Command.atom (.setWake wakeNs)) (setWakeLoop wakeNs) := by
  intro m
  by_cases hm : m.wakeScheduledAt ≠ 0 ∧ m.wakeScheduledAt ≤ wakeNs
  · left
    change (if m.wakeScheduledAt ≠ 0 ∧ m.wakeScheduledAt ≤ wakeNs then _ else _) = _ ∧ _
    rw [if_pos hm, Command.atom, if_pos hm]
    exact ⟨rfl, rfl⟩
  · refine .inr ⟨rfl, ?_⟩
    change Linear _ _ (if m.wakeScheduledAt ≠ 0 ∧ m.wakeScheduledAt ≤ wakeNs then _ else _)
    rw [if_neg hm]
    exact linear_trySetWake hm

def loops : Loops Command Command.Answer Access Access.Answer Memory where
  exec := Access.exec
  body := Command.round
  atom := Command.atom
  linear := by
    intro c
    cases c with
    | setWake wakeNs => exact linear_setWakeLoop wakeNs
    | add wakeNs => exact fun m => .inl ⟨rfl, rfl⟩
    | clearWake wakeNs => exact fun m => .inl ⟨rfl, rfl⟩
    | activate => exact fun m => .inl ⟨rfl, rfl⟩

abbrev Commands := Prog Command Command.Answer

def command (c : Command) : Commands c.Answer := Prog.command c

def view (g : GroupRef) (activations : Nat) (s : Runtime) : Memory where
  wakeScheduledAt := s.wakeScheduledAt g
  armed := (s.timers.filter fun timer => timer.1 = g).map Prod.snd
  activations := activations

theorem view_setWake [PathMatch] {ch : Choice} {g : GroupRef} {wakeNs : Int} {s s' : Runtime}
    {r : Bool} (h : Cmd.handle ch (.setWake g wakeNs) s = .ok (s', r)) (n : Nat) :
    (view g n s', r) = Command.atom (.setWake wakeNs) (view g n s) := by
  by_cases hle : s.wakeScheduledAt g ≠ 0 ∧ s.wakeScheduledAt g ≤ wakeNs
  · rw [Cmd.handle, if_pos hle] at h
    cases h
    exact (if_pos hle).symm
  · rw [Cmd.handle, if_neg hle] at h
    cases h
    refine Eq.trans ?_ (if_neg hle).symm
    simp only [view, Function.update_self]

theorem view_addTimer [PathMatch] {ch : Choice} {g : GroupRef} {wakeNs : Int} {s s' : Runtime}
    (h : Cmd.handle ch (.addTimer g wakeNs) s = .ok (s', ())) (n : Nat) :
    (view g n s', ()) = Command.atom (.add wakeNs) (view g n s) := by
  rw [Cmd.handle] at h
  cases h
  simp [view, Command.atom, Access.exec]

theorem view_clearWake [PathMatch] {ch : Choice} {g : GroupRef} {wakeNs : Int} {s s' : Runtime}
    (h : Cmd.handle ch (.clearWake g wakeNs) s = .ok (s', ())) (n : Nat) :
    (view g n s', ()) = Command.atom (.clearWake wakeNs) (view g n s) := by
  by_cases heq : s.wakeScheduledAt g = wakeNs
  · rw [Cmd.handle, if_pos heq] at h
    cases h
    simp [view, Command.atom, Access.exec, heq]
  · rw [Cmd.handle, if_neg heq] at h
    cases h
    simp [view, Command.atom, Access.exec, heq]

inductive Task
  | scheduleWake (wakeNs : Int)
  | timer (wakeNs : Int)
  deriving DecidableEq, Repr

def program : Task → Commands Unit
  | .scheduleWake wakeNs => do
    let earliest : Bool ← command (.setWake wakeNs)
    if earliest then command (.add wakeNs)
  | .timer wakeNs => do
    command (.clearWake wakeNs)
    command .activate

abbrev Wakes := Pool Memory Task (Commands Unit)

def Begins (p : Wakes) : Task → Memory → Prop
  | .scheduleWake _, m => m = p.memory
  | .timer wakeNs, m =>
    wakeNs ∈ p.memory.armed ∧ m = { p.memory with armed := p.memory.armed.erase wakeNs }

def adding (wakeNs : Int) : Commands Unit := command (.add wakeNs)

def cleared : Commands Unit := command .activate

inductive Stage : Task × Commands Unit → Prop
  | scheduling (wakeNs : Int) : Stage (.scheduleWake wakeNs, program (.scheduleWake wakeNs))
  | adding (wakeNs : Int) : Stage (.scheduleWake wakeNs, adding wakeNs)
  | scheduled (wakeNs : Int) : Stage (.scheduleWake wakeNs, .ret ())
  | firing (wakeNs : Int) : Stage (.timer wakeNs, program (.timer wakeNs))
  | cleared (wakeNs : Int) : Stage (.timer wakeNs, cleared)
  | fired (wakeNs : Int) : Stage (.timer wakeNs, .ret ())

inductive Event (p : Wakes) : Wakes → Prop
  | call (t : Int) : Event p ⟨p.memory, p.threads ++ [(.scheduleWake t, program (.scheduleWake t))]⟩
  | fire {t : Int} (ht : t ∈ p.memory.armed) :
    Event p ⟨{ p.memory with armed := p.memory.armed.erase t },
      p.threads ++ [(.timer t, program (.timer t))]⟩
  | leave {i : Nat} {t : Int}
    (hi : p.threads[i]? = some (.scheduleWake t, program (.scheduleWake t)))
    (hne : p.memory.wakeScheduledAt ≠ 0) (hle : p.memory.wakeScheduledAt ≤ t) :
    Event p ⟨p.memory, p.threads.set i (.scheduleWake t, .ret ())⟩
  | set {i : Nat} {t : Int}
    (hi : p.threads[i]? = some (.scheduleWake t, program (.scheduleWake t))) :
    Event p ⟨{ p.memory with wakeScheduledAt := t }, p.threads.set i (.scheduleWake t, adding t)⟩
  | add {i : Nat} {t : Int} (hi : p.threads[i]? = some (.scheduleWake t, adding t)) :
    Event p ⟨{ p.memory with armed := p.memory.armed ++ [t] },
      p.threads.set i (.scheduleWake t, .ret ())⟩
  | clear {i : Nat} {t : Int} (hi : p.threads[i]? = some (.timer t, program (.timer t))) :
    Event p ⟨(Access.exec (.clearWake t) p.memory).1, p.threads.set i (.timer t, cleared)⟩
  | activate {i : Nat} {t : Int} (hi : p.threads[i]? = some (.timer t, cleared)) :
    Event p ⟨{ p.memory with activations := p.memory.activations + 1 },
      p.threads.set i (.timer t, .ret ())⟩

theorem event_of_atomicStep {p p' : Wakes} (hp : ∀ x ∈ p.threads, Stage x)
    (h : loops.AtomicStep program Begins p p') : Event p p' := by
  cases h with
  | @spawn task m h =>
    cases task with
    | scheduleWake t =>
      cases h
      exact .call t
    | timer t =>
      obtain ⟨ht, rfl⟩ := h
      exact .fire ht
  | @run i task c k hi =>
    generalize hx : (task, Prog.call c k) = x at hi
    cases hp x (List.mem_of_getElem? hi) with
    | scheduling t =>
      cases hx
      change Event p ⟨(Command.atom (.setWake t) p.memory).1, p.threads.set i (.scheduleWake t,
        if (Command.atom (.setWake t) p.memory).2 then adding t else .ret ())⟩
      by_cases hm : p.memory.wakeScheduledAt ≠ 0 ∧ p.memory.wakeScheduledAt ≤ t
      · rw [Command.atom, if_pos hm]
        exact .leave hi hm.1 hm.2
      · rw [Command.atom, if_neg hm]
        exact .set hi
    | adding t =>
      cases hx
      exact .add hi
    | scheduled t => cases hx
    | firing t =>
      cases hx
      exact .clear hi
    | cleared t =>
      cases hx
      exact .activate hi
    | fired t => cases hx

inductive Backed (t : Int) (p : Wakes) : Prop
  | armed (h : t ∈ p.memory.armed)
  | firing (h : (.timer t, program (.timer t)) ∈ p.threads)
  | adding (h : (.scheduleWake t, adding t) ∈ p.threads)

theorem Backed.begin {t : Int} {p : Wakes} {m : Memory} (h : Backed t p)
    (hm : t ∈ p.memory.armed → t ∈ m.armed) (x : Task × Commands Unit) :
    Backed t ⟨m, p.threads ++ [x]⟩ := by
  cases h with
  | armed h => exact .armed (hm h)
  | firing h => exact .firing (List.mem_append_left _ h)
  | adding h => exact .adding (List.mem_append_left _ h)

theorem Backed.set {t : Int} {p : Wakes} {m : Memory} (h : Backed t p)
    (hm : t ∈ p.memory.armed → t ∈ m.armed) {i : Nat} {x : Task × Commands Unit}
    (hi : p.threads[i]? = some x) (hfiring : (.timer t, program (.timer t)) ≠ x)
    (hadding : (.scheduleWake t, Wakeups.adding t) ≠ x) (y : Task × Commands Unit) :
    Backed t ⟨m, p.threads.set i y⟩ := by
  cases h with
  | armed h => exact .armed (hm h)
  | firing h => exact .firing ((mem_set_or hi h y).resolve_left hfiring)
  | adding h => exact .adding ((mem_set_or hi h y).resolve_left hadding)

structure Timed (p : Wakes) : Prop where
  stage : ∀ x ∈ p.threads, Stage x
  backed : p.memory.wakeScheduledAt ≠ 0 → Backed p.memory.wakeScheduledAt p

theorem timed_start : Timed ⟨⟨0, [], 0⟩, []⟩ := ⟨List.forall_mem_nil _, fun h => absurd rfl h⟩

theorem Timed.step {p p' : Wakes} (hp : Timed p) (h : Event p p') : Timed p' := by
  cases h with
  | call t => exact ⟨forall_begin hp.stage (.scheduling t), fun hne => (hp.backed hne).begin id _⟩
  | @fire t ht =>
    refine ⟨forall_begin hp.stage (.firing t), fun hne => ?_⟩
    by_cases heq : p.memory.wakeScheduledAt = t
    · exact .firing (List.mem_append_right _ (List.mem_singleton.mpr (by rw [heq])))
    · exact (hp.backed hne).begin (List.mem_erase_of_ne heq).mpr _
  | @leave i t hi =>
    refine ⟨forall_step hp.stage (.scheduled t), fun hne => (hp.backed hne).set id hi ?_ ?_ _⟩
    · intro heq
      cases heq
    · intro heq
      cases heq
  | @set i t hi => exact ⟨forall_step hp.stage (.adding t), fun _ => .adding (mem_set_self hi _)⟩
  | @add i t hi =>
    refine ⟨forall_step hp.stage (.scheduled t), fun hne => ?_⟩
    by_cases heq : p.memory.wakeScheduledAt = t
    · exact .armed (List.mem_append_right _ (List.mem_singleton.mpr heq))
    · refine (hp.backed hne).set (List.mem_append_left _) hi ?_ ?_ _
      · intro hx
        cases hx
      · intro hx
        exact heq (Task.scheduleWake.inj (congrArg Prod.fst hx))
  | @clear i t hi =>
    refine ⟨forall_step hp.stage (.cleared t), ?_⟩
    by_cases heq : p.memory.wakeScheduledAt = t
    · rw [Access.exec, if_pos heq]
      exact fun hne => absurd rfl hne
    · rw [Access.exec, if_neg heq]
      refine fun hne => (hp.backed hne).set id hi ?_ ?_ _
      · intro hx
        exact heq (Task.timer.inj (congrArg Prod.fst hx))
      · intro hx
        cases hx
  | @activate i t hi =>
    refine ⟨forall_step hp.stage (.fired t), fun hne => (hp.backed hne).set ?_ hi ?_ ?_ _⟩
    · exact id
    · intro hx
      cases hx
    · intro hx
      cases hx

/-- A timer of a time up to `t` is armed, or has begun to fire and has not yet called `Activate`, or
a call other than the one at `i` has set the word to such a time and is about to add the timer. -/
inductive Covered (t : Int) (i : Nat) (p : Wakes) : Prop
  | armed {t' : Int} (hle : t' ≤ t) (h : t' ∈ p.memory.armed)
  | firing {t' : Int} {q : Commands Unit} (hle : t' ≤ t) (h : (.timer t', q) ∈ p.threads)
    (hq : q ≠ .ret ())
  | adding {t' : Int} {j : Nat} (hle : t' ≤ t) (hj : j ≠ i)
    (h : p.threads[j]? = some (.scheduleWake t', adding t'))

theorem Covered.set {t : Int} {i : Nat} {p : Wakes} (h : Covered t i p) (m : Memory)
    (hm : ∀ t' ∈ p.memory.armed, t' ∈ m.armed) {k : Nat} {x : Task × Commands Unit}
    (hk : p.threads[k]? = some x) (y : Task × Commands Unit) : Covered t i ⟨m, p.threads.set k y⟩ ∨
      ∃ t' ≤ t, x.1 = .timer t' ∨ x = (.scheduleWake t', Wakeups.adding t') := by
  cases h with
  | armed hle h => exact .inl (.armed hle (hm _ h))
  | @firing t' q hle h hq =>
    rcases mem_set_or hk h y with rfl | h
    · exact .inr ⟨t', hle, .inl rfl⟩
    · exact .inl (.firing hle h hq)
  | @adding t' j hle hj h =>
    by_cases heq : k = j
    · subst heq
      exact .inr ⟨t', hle, .inr (Option.some.inj (hk.symm.trans h))⟩
    · refine .inl (.adding hle hj ?_)
      rw [List.getElem?_set_ne heq]
      exact h

theorem Covered.begin {t : Int} {i : Nat} {p : Wakes} {x : Task × Commands Unit} {m : Memory}
    (h : Covered t i p)
    (hm : ∀ t' ∈ p.memory.armed, t' ∈ m.armed ∨ x = (.timer t', program (.timer t'))) :
    Covered t i ⟨m, p.threads ++ [x]⟩ := by
  cases h with
  | @armed t' hle h =>
    rcases hm t' h with h | rfl
    · exact .armed hle h
    · refine .firing hle (List.mem_append_right _ (List.mem_singleton.mpr rfl)) ?_
      intro hq
      cases hq
  | firing hle h hq => exact .firing hle (List.mem_append_left _ h) hq
  | adding hle hj h =>
    exact .adding hle hj ((List.getElem?_append_left (List.getElem?_eq_some_iff.mp h).1).trans h)

theorem Covered.step {t : Int} {i : Nat} {p p' : Wakes} (hp : Covered t i p) (h : Event p p') :
    p.memory.activations < p'.memory.activations ∨ Covered t i p' := by
  cases h with
  | call t₀ => exact .inr (hp.begin fun _ h => .inl h)
  | @fire t₀ ht =>
    refine .inr (hp.begin fun t' h => ?_)
    by_cases heq : t' = t₀
    · subst heq
      exact .inr rfl
    · exact .inl ((List.mem_erase_of_ne heq).mpr h)
  | @leave k t₀ hk =>
    rcases hp.set p.memory (fun _ h => h) hk (.scheduleWake t₀, .ret ()) with h | ⟨t', -, h | h⟩
    · exact .inr h
    · cases h
    · cases h
  | @set k t₀ hk =>
    let m := { p.memory with wakeScheduledAt := t₀ }
    rcases hp.set m (fun _ h => h) hk (.scheduleWake t₀, Wakeups.adding t₀) with h | ⟨t', -, h | h⟩
    · exact .inr h
    · cases h
    · cases h
  | @add k t₀ hk =>
    let m := { p.memory with armed := p.memory.armed ++ [t₀] }
    rcases hp.set m (fun _ => List.mem_append_left _) hk (.scheduleWake t₀, .ret ()) with h
      | ⟨t', hle, h | h⟩
    · exact .inr h
    · cases h
    · cases h
      exact .inr (.armed hle (List.mem_append_right _ (List.mem_singleton.mpr rfl)))
  | @clear k t₀ hk =>
    have harmed : (Access.exec (.clearWake t₀) p.memory).1.armed = p.memory.armed := by
      rw [Access.exec]
      split <;> rfl
    rcases hp.set _ (fun _ h => harmed ▸ h) hk (.timer t₀, cleared) with h | ⟨t', hle, h | h⟩
    · exact .inr h
    · cases h
      refine .inr (.firing hle (mem_set_self hk _) ?_)
      intro hq
      cases hq
    · cases h
  | activate => exact .inl (Nat.lt_succ_self _)

theorem Backed.covered {t c : Int} {i : Nat} {p : Wakes} (h : Backed c p) (hle : c ≤ t)
    (hi : p.threads[i]? = some (.scheduleWake t, program (.scheduleWake t))) :
    Covered t i ⟨p.memory, p.threads.set i (.scheduleWake t, .ret ())⟩ := by
  cases h with
  | armed h => exact .armed hle h
  | firing h =>
    refine .firing hle ((mem_set_or hi h _).resolve_left ?_) ?_
    · intro hx
      cases hx
    · intro hq
      cases hq
  | adding h =>
    obtain ⟨j, hj⟩ := List.getElem?_of_mem h
    have hne : j ≠ i := by
      rintro rfl
      cases hj.symm.trans hi
    refine .adding hle hne ?_
    rw [List.getElem?_set_ne (Ne.symm hne)]
    exact hj

theorem Timed.returns {t : Int} {i : Nat} {p p' : Wakes} (hp : Timed p) (h : Event p p')
    (hi : p.threads[i]? ≠ some (.scheduleWake t, .ret ()))
    (hi' : p'.threads[i]? = some (.scheduleWake t, .ret ())) :
    Covered t i p' := by
  cases h with
  | call t₀ => cases (getElem?_begin hi').resolve_left hi
  | fire ht => cases (getElem?_begin hi').resolve_left hi
  | leave hk hne hle =>
    obtain ⟨rfl, hnew⟩ := (getElem?_step hi').resolve_left hi
    cases hnew
    exact (hp.backed hne).covered hle hk
  | set hk => cases ((getElem?_step hi').resolve_left hi).2
  | add hk =>
    obtain ⟨rfl, hnew⟩ := (getElem?_step hi').resolve_left hi
    cases hnew
    exact .armed (Int.le_refl t) (List.mem_append_right _ (List.mem_singleton.mpr rfl))
  | clear hk => cases ((getElem?_step hi').resolve_left hi).2
  | activate hk => cases ((getElem?_step hi').resolve_left hi).2

theorem Event.activations_le {p p' : Wakes} (h : Event p p') :
    p.memory.activations ≤ p'.memory.activations := by
  cases h with
  | clear =>
    rw [Access.exec]
    split <;> exact Nat.le_refl _
  | activate => exact Nat.le_succ _
  | _ => exact Nat.le_refl _

theorem covered_run {t : Int} {i : Nat} {p p' : Wakes} (hp : Timed p)
    (hi : p.threads[i]? ≠ some (.scheduleWake t, .ret ()))
    (h : ReflTransGen (loops.AtomicStep program Begins) p p') :
    Timed p' ∧ p.memory.activations ≤ p'.memory.activations ∧
      (p'.threads[i]? = some (.scheduleWake t, .ret ()) →
        p.memory.activations < p'.memory.activations ∨ Covered t i p') := by
  induction h with
  | refl => exact ⟨hp, Nat.le_refl _, fun h => absurd h hi⟩
  | @tail u v _ hstep ih =>
    obtain ⟨hu, hle, hcovered⟩ := ih
    have hevent := event_of_atomicStep hu.stage hstep
    have hle' := hevent.activations_le
    refine ⟨hu.step hevent, Nat.le_trans hle hle', fun hv => ?_⟩
    by_cases hreturned : u.threads[i]? = some (.scheduleWake t, .ret ())
    · rcases hcovered hreturned with hlt | hcovered
      · exact .inl (Nat.lt_of_lt_of_le hlt hle')
      · exact (hcovered.step hevent).imp_left (Nat.lt_of_le_of_lt hle)
    · exact .inr (hu.returns hevent hreturned hv)

abbrev State := Pool Memory Task (Place Command Command.Answer Access Access.Answer Unit)

abbrev Reaches : State → State → Prop := ReflTransGen (loops.Step program Begins)

/-- When a call has returned, a timer has activated the group since it began, or the group is
covered. -/
theorem wakeups_covered (p p' : State) (t : Int) (i : Nat) (h : Reaches ⟨⟨0, [], 0⟩, []⟩ p)
    (hi : p.threads[i]? = some (.scheduleWake t, loops.enter (program (.scheduleWake t))))
    (hrun : Reaches p p') (hi' : p'.threads[i]? = some (.scheduleWake t, .ret ())) :
    p.memory.activations < p'.memory.activations ∨ Covered t i p'.atomic := by
  have hp : Timed p.atomic := Loops.Reachable.induct timed_start
    (fun hp hstep => hp.step (event_of_atomicStep hp.stage hstep)) h
  have hbegun : p.atomic.threads[i]? ≠ some (.scheduleWake t, .ret ()) := by
    intro hreturned
    cases (Pool.atomic_getElem? hi).symm.trans hreturned
  have hatomic := (Loops.atomic_run (Loops.Reachable.sound h) hrun).1
  exact (covered_run hp hbegun hatomic).2.2 (Pool.atomic_getElem? hi')

/-- The second call finds the word of the first, which has not added its timer. -/
theorem wakeups_covered_sample : ∃ p p' : State, Reaches ⟨⟨0, [], 0⟩, []⟩ p ∧ Reaches p p' ∧
    p'.memory = ⟨5, [], 0⟩ ∧ p'.threads[1]? = some (.scheduleWake 7, .ret ()) ∧
    (p.memory.activations < p'.memory.activations ∨ Covered 7 1 p'.atomic) := by
  let p : State := ⟨⟨0, [], 0⟩, [(.scheduleWake 5, loops.enter (program (.scheduleWake 5))),
    (.scheduleWake 7, loops.enter (program (.scheduleWake 7)))]⟩
  let p' : State := ⟨⟨5, [], 0⟩, [(.scheduleWake 5, .loop (.setWake 5)
    (fun earliest => if earliest then command (.add 5) else pure ()) (.ret (some true))),
      (.scheduleWake 7, .ret ())]⟩
  have hbegin : ∀ (q : Wakes) (t : Int), Begins q (.scheduleWake t) q.memory := fun _ _ => rfl
  have hp : Reaches ⟨⟨0, [], 0⟩, []⟩ p :=
    .tail (.single (.spawn (hbegin _ 5))) (.spawn (hbegin _ 7))
  have hp' : [0, 0, 1, 1].foldlM loops.turn p = some p' := rfl
  exact ⟨p, p', hp, Loops.run_turns hp', rfl, rfl,
    wakeups_covered p p' 7 1 hp rfl (Loops.run_turns hp') rfl⟩

end Octar.Wakeups
