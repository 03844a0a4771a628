import Octar.Broker.Runtime
import Octar.Lib.Spin
import Octar.Storage.Export

/-! The three counters that admit work: the deliveries of the broker, the deliveries of a connection
and the messages of the broker.  Each is raised by a compare-and-swap that is tried until it
succeeds; in the runtime such a loop is one command. -/

namespace Octar.Admission

open Go Threads Relation

inductive Counter
  | brokerQuota
  | credit
  | globalMsgs
  deriving DecidableEq, Repr

def Counter.word : Counter → Int → Int
  | .brokerQuota, n => int64 n
  | .credit, n => int32 n
  | .globalMsgs, n => int64 n

inductive Access
  | load
  | compareAndSwap (old new : Int)
  | add (delta : Int)
  deriving DecidableEq, Repr

abbrev Access.Answer : Access → Type
  | .load => Int
  | .compareAndSwap _ _ => Bool
  | .add _ => Int

def Access.exec (word : Int → Int) : (c : Access) → Int → Int × c.Answer
  | .load, v => (v, v)
  | .compareAndSwap old new, v => if v = old then (new, true) else (v, false)
  | .add delta, v => (word (v + delta), word (v + delta))

abbrev Round := Prog Access Access.Answer

def access (c : Access) : Round c.Answer := Prog.command c

def acquireLoop (kind : Counter) (max : Int) : Round (Option Bool) := do
  let cur : Int ← access .load
  if max ≤ cur then return some false
  let swapped : Bool ← access (.compareAndSwap cur (kind.word (cur + 1)))
  return if swapped then some true else none

def tryAcquire (max : Int) : Round (Option Bool) :=
  if max ≤ 0 then return some true else acquireLoop .brokerQuota max

def release (max : Int) : Round (Option Unit) := do
  if 0 < max then
    let _ : Int ← access (.add (-1))
  return some ()

def acquireCredit (maxInflight : Int) : Round (Option Bool) := acquireLoop .credit maxInflight

def releaseCredit : Round (Option Unit) := do
  let _ : Int ← access (.add (-1))
  return some ()

def incGlobalMsgs (globalMaxMsgs : Int) : Round (Option Bool) := do
  if globalMaxMsgs ≤ 0 then
    let _ : Int ← access (.add 1)
    return some true
  acquireLoop .globalMsgs globalMaxMsgs

def decGlobalMsgs : Round (Option Unit) := do
  let _ : Int ← access (.add (-1))
  return some ()

inductive Call
  | acquire
  | release
  deriving DecidableEq, Repr

abbrev Call.Answer : Call → Type
  | .acquire => Bool
  | .release => Unit

def Counter.round (max : Int) : Counter → (c : Call) → Round (Option c.Answer)
  | .brokerQuota, .acquire => tryAcquire max
  | .brokerQuota, .release => Admission.release max
  | .credit, .acquire => acquireCredit max
  | .credit, .release => releaseCredit
  | .globalMsgs, .acquire => incGlobalMsgs max
  | .globalMsgs, .release => decGlobalMsgs

def Counter.atom (kind : Counter) (max : Int) : (c : Call) → Int → Int × c.Answer
  | .acquire, v => if max ≤ v then (v, false) else (kind.word (v + 1), true)
  | .release, v => (kind.word (v - 1), ())

theorem acquireLoop_eq (kind : Counter) (max : Int) : acquireLoop kind max =
    .call .load fun cur => if max ≤ cur then .ret (some false) else
      .call (.compareAndSwap cur (kind.word (cur + 1))) fun swapped =>
        .ret (if swapped then some true else none) := rfl

theorem linear_swap (kind : Counter) {max cur : Int} (hcur : ¬ max ≤ cur) :
    Linear (Access.exec kind.word) (kind.atom max .acquire)
      (.call (.compareAndSwap cur (kind.word (cur + 1))) fun swapped =>
        .ret (if swapped then some true else none)) := by
  intro v
  by_cases heq : v = cur
  · left
    simp [Access.exec, Counter.atom, heq, hcur]
  · right
    simp [Access.exec, heq, Linear]

theorem linear_acquireLoop (kind : Counter) (max : Int) :
    Linear (Access.exec kind.word) (kind.atom max .acquire) (acquireLoop kind max) := by
  rw [acquireLoop_eq]
  intro v
  by_cases hv : max ≤ v
  · left
    simp [Access.exec, Counter.atom, hv]
  · refine .inr ⟨rfl, ?_⟩
    change Linear _ _ (if max ≤ v then _ else _)
    rw [if_neg hv]
    exact linear_swap kind hv

theorem linear_add (kind : Counter) (max : Int) :
    Linear (Access.exec kind.word) (kind.atom max .release)
      (.call (.add (-1)) fun _ => .ret (some ())) := by
  intro v
  exact .inl ⟨rfl, rfl⟩

def Counter.loops (kind : Counter) {max : Int} (hmax : 1 ≤ max) :
    Loops Call Call.Answer Access Access.Answer Int where
  exec := Access.exec kind.word
  body := kind.round max
  atom := kind.atom max
  linear := by
    have hpos : ¬ max ≤ 0 := by omega
    intro c
    cases kind with
    | brokerQuota =>
      cases c with
      | acquire =>
        rw [Counter.round, tryAcquire, if_neg hpos]
        exact linear_acquireLoop _ max
      | release =>
        rw [Counter.round, Admission.release, if_pos (by omega)]
        exact linear_add _ max
    | credit =>
      cases c with
      | acquire => exact linear_acquireLoop _ max
      | release => exact linear_add _ max
    | globalMsgs =>
      cases c with
      | acquire =>
        rw [Counter.round, incGlobalMsgs, if_neg hpos]
        exact linear_acquireLoop _ max
      | release => exact linear_add _ max

def program : Call → Prog Call Call.Answer Bool
  | .acquire => .call .acquire .ret
  | .release => .call .release fun _ => .ret true

abbrev Calls := Pool Int Call (Prog Call Call.Answer Bool)

def returned : Prog Call Call.Answer Bool → Option Bool
  | .ret a => some a
  | .call _ _ => none

@[simp] theorem returned_ret (a : Bool) : returned (.ret a) = some a := rfl

@[simp] theorem returned_program (c : Call) : returned (program c) = none := by
  cases c <;> rfl

def acquired (p : Calls) : Nat :=
  p.threads.countP fun x => x.1 = .acquire ∧ returned x.2 = some true

def released (p : Calls) : Nat := p.threads.countP fun x => x.1 = .release ∧ (returned x.2).isSome

def releases (p : Calls) : Nat := p.threads.countP fun x => x.1 = .release

def Begins (p : Calls) (c : Call) (v : Int) : Prop :=
  v = p.memory ∧ (c = .release → releases p < acquired p)

theorem released_le_releases (p : Calls) : released p ≤ releases p := by
  apply List.countP_mono_left
  intro x _ hx
  simp only [decide_eq_true_eq] at hx ⊢
  exact hx.1

theorem counts_begin (p : Calls) (v : Int) (c : Call) :
    acquired ⟨v, p.threads ++ [(c, program c)]⟩ = acquired p ∧
    released ⟨v, p.threads ++ [(c, program c)]⟩ = released p ∧
    releases ⟨v, p.threads ++ [(c, program c)]⟩ = releases p + if c = .release then 1 else 0 := by
  cases c <;> simp [acquired, released, releases, List.countP_append]

theorem counts_return {p : Calls} {i : Nat} {c : Call} (hi : p.threads[i]? = some (c, program c))
    (v : Int) (a : Bool) :
    acquired ⟨v, p.threads.set i (c, .ret a)⟩ = acquired p + (decide (c = .acquire) && a).toNat ∧
    released ⟨v, p.threads.set i (c, .ret a)⟩ = released p + (decide (c = .release)).toNat ∧
    releases ⟨v, p.threads.set i (c, .ret a)⟩ = releases p := by
  have hset := fun f => countP_set f hi (c, .ret a)
  have hacquired := hset fun x => x.1 = .acquire ∧ returned x.2 = some true
  have hreleased := hset fun x => x.1 = .release ∧ (returned x.2).isSome
  have hreleases := hset fun x => x.1 = .release
  refine ⟨?_, ?_, ?_⟩
  · cases c <;> cases a <;> simpa [acquired] using hacquired
  · cases c <;> simpa [released] using hreleased
  · simpa [releases] using hreleases

structure Counted (max : Int) (p : Calls) : Prop where
  stage : ∀ x ∈ p.threads, x.2 = program x.1 ∨ ∃ a, x.2 = .ret a
  memory : p.memory = acquired p - released p
  owed : releases p ≤ acquired p
  le : p.memory ≤ max

theorem Counted.nonneg {max : Int} {p : Calls} (hp : Counted max p) : 0 ≤ p.memory := by
  have hle := released_le_releases p
  have howed := hp.owed
  rw [hp.memory]
  omega

theorem Counter.word_eq {kind : Counter} {max v : Int} (hword : kind.word max = max) (hv : 0 ≤ v)
    (hle : v ≤ max) :
    kind.word v = v := by
  have hbmod : ∀ n : Nat, 0 < n → max.bmod n = max → v.bmod n = v := by
    intro n hn hmax
    have hlt := Int.bmod_lt (x := max) hn
    exact Int.bmod_eq_of_le (by omega) (by omega)
  cases kind with
  | brokerQuota => exact hbmod _ (by decide) hword
  | credit => exact hbmod _ (by decide) hword
  | globalMsgs => exact hbmod _ (by decide) hword

theorem counted_start {max : Int} (hmax : 1 ≤ max) : Counted max ⟨0, []⟩ :=
  ⟨List.forall_mem_nil _, rfl, Nat.le_refl 0, Int.le_trans (by decide) hmax⟩

theorem atom_acquire_eq {kind : Counter} {max v : Int} (hword : kind.word max = max) (hv : 0 ≤ v) :
    kind.atom max .acquire v = if max ≤ v then (v, false) else (v + 1, true) := by
  rw [Counter.atom]
  split
  · rfl
  · rw [Counter.word_eq hword (by omega) (by omega)]

theorem handle_tryAcquire [PathMatch] (ch : Choice) {s : Runtime} (hmax : 1 ≤ s.cfg.globalMax)
    (hword : Counter.brokerQuota.word s.cfg.globalMax = s.cfg.globalMax) (hs : 0 ≤ s.quota) :
    Cmd.handle ch .tryAcquire s =
      let quota := Counter.brokerQuota.atom s.cfg.globalMax .acquire s.quota
      .ok ({ s with quota := quota.1 }, quota.2) := by
  have hpos : ¬ s.cfg.globalMax ≤ 0 := by omega
  rw [atom_acquire_eq hword hs, Cmd.handle, if_neg hpos]
  split <;> rfl

theorem handle_acquireCredit [PathMatch] (ch : Choice) {s : Runtime} {conn : Nat} {c : Conn}
    (hword : Counter.credit.word s.cfg.maxInflight = s.cfg.maxInflight)
    (hconn : s.conns[conn]? = some c) (hc : 0 ≤ c.inflight) :
    Cmd.handle ch (.acquireCredit conn) s =
      let inflight := Counter.credit.atom s.cfg.maxInflight .acquire c.inflight
      .ok ({ s with conns := s.conns.set conn ({ c with inflight := inflight.1 }) },
        inflight.2) := by
  rw [atom_acquire_eq hword hc, Cmd.handle, Runtime.atConn, hconn]
  dsimp only
  split <;> rfl

theorem handle_incGlobalMsgs [PathMatch] (ch : Choice) {s : Runtime}
    (hmax : 1 ≤ s.cfg.globalMaxMsgs)
    (hword : Counter.globalMsgs.word s.cfg.globalMaxMsgs = s.cfg.globalMaxMsgs)
    (hs : 0 ≤ s.globalMsgs) :
    Cmd.handle ch .incGlobalMsgs s =
      let globalMsgs := Counter.globalMsgs.atom s.cfg.globalMaxMsgs .acquire s.globalMsgs
      .ok ({ s with globalMsgs := globalMsgs.1 }, globalMsgs.2) := by
  have hpos : 0 < s.cfg.globalMaxMsgs := by omega
  simp only [atom_acquire_eq hword hs, Cmd.handle, hpos, true_and]
  split <;> rfl

section Runs

variable {kind : Counter} {max : Int} {hmax : 1 ≤ max} {p p' : Calls}

theorem atom_full (hv : max ≤ p.memory) :
    (kind.loops hmax).atom .acquire p.memory = (p.memory, false) := if_pos hv

theorem atom_acquire (hword : kind.word max = max) (hp : Counted max p) (hv : ¬ max ≤ p.memory) :
    (kind.loops hmax).atom .acquire p.memory = (p.memory + 1, true) :=
  (atom_acquire_eq hword hp.nonneg).trans (if_neg hv)

theorem atom_release (hword : kind.word max = max) (hp : Counted max p) (hv : 1 ≤ p.memory) :
    (kind.loops hmax).atom .release p.memory = (p.memory - 1, ()) := by
  have hle := hp.le
  have hnext : kind.word (p.memory - 1) = p.memory - 1 :=
    Counter.word_eq hword (by omega) (by omega)
  change (kind.word (p.memory - 1), ()) = _
  rw [hnext]

theorem Counted.begin {c : Call} {v : Int} (hp : Counted max p) (h : Begins p c v) :
    Counted max ⟨v, p.threads ++ [(c, program c)]⟩ := by
  obtain ⟨rfl, hrelease⟩ := h
  obtain ⟨hacquired, hreleased, hreleases⟩ := counts_begin p p.memory c
  refine ⟨forall_begin hp.stage (.inl rfl), ?_, ?_, hp.le⟩
  · rw [hacquired, hreleased]
    exact hp.memory
  · rw [hacquired, hreleases]
    split
    · rename_i hc
      exact hrelease hc
    · exact hp.owed

theorem Counted.acquire (hword : kind.word max = max) (hp : Counted max p) {i : Nat}
    (hi : p.threads[i]? = some (.acquire, program .acquire)) :
    Counted max ⟨((kind.loops hmax).atom .acquire p.memory).1,
      p.threads.set i (.acquire, .ret ((kind.loops hmax).atom .acquire p.memory).2)⟩ := by
  have hmemory := hp.memory
  by_cases hv : max ≤ p.memory
  · rw [atom_full hv]
    obtain ⟨hacquired, hreleased, hreleases⟩ := counts_return hi p.memory false
    refine ⟨forall_step hp.stage (.inr ⟨false, rfl⟩), ?_, ?_, hp.le⟩
    · rw [hacquired, hreleased]
      exact hmemory
    · rw [hacquired, hreleases]
      exact hp.owed
  · rw [atom_acquire hword hp hv]
    obtain ⟨hacquired, hreleased, hreleases⟩ := counts_return hi (p.memory + 1) true
    refine ⟨forall_step hp.stage (.inr ⟨true, rfl⟩), ?_, ?_, Int.not_le.mp hv⟩
    · change p.memory + 1 = _
      rw [hacquired, hreleased, hmemory]
      exact sub_add_eq_add_sub ..
    · rw [hacquired, hreleases]
      exact Nat.le_succ_of_le hp.owed

theorem Counted.release (hword : kind.word max = max) (hp : Counted max p) {i : Nat}
    (hi : p.threads[i]? = some (.release, program .release)) :
    Counted max ⟨((kind.loops hmax).atom .release p.memory).1,
      p.threads.set i (.release, .ret true)⟩ := by
  have hmemory := hp.memory
  have howed := hp.owed
  obtain ⟨hacquired, hreleased, hreleases⟩ := counts_return hi (p.memory - 1) true
  have hlt : released p + 1 ≤ releases p := by
    rw [← hreleases]
    exact hreleased ▸ released_le_releases _
  rw [atom_release hword hp (by omega)]
  refine ⟨forall_step hp.stage (.inr ⟨true, rfl⟩), ?_, ?_,
    Int.le_trans (Int.sub_le_self _ (by decide)) hp.le⟩
  · change p.memory - 1 = _
    rw [hacquired, hreleased, hmemory]
    exact Int.sub_sub ..
  · rw [hacquired, hreleases]
    exact howed

theorem Counted.step (hword : kind.word max = max) (hp : Counted max p)
    (h : (kind.loops hmax).AtomicStep program Begins p p') : Counted max p' := by
  cases h with
  | spawn h => exact hp.begin h
  | @run i t c k hi =>
    rcases hp.stage _ (List.mem_of_getElem? hi) with hprogram | ⟨a, ha⟩
    · cases t with
      | acquire =>
        cases hprogram
        exact hp.acquire hword hi
      | release =>
        cases hprogram
        exact hp.release hword hi
    · cases ha

theorem Counted.full (hword : kind.word max = max) (hp : Counted max p)
    (h : (kind.loops hmax).AtomicStep program Begins p p') {i : Nat}
    (hi : p.threads[i]? ≠ some (.acquire, .ret false))
    (hi' : p'.threads[i]? = some (.acquire, .ret false)) :
    p.memory = max := by
  rcases h.thread hi' with hold | hbegun | ⟨c, k, hcall, hret⟩
  · exact absurd hold hi
  · cases hbegun
  · rcases hp.stage _ (List.mem_of_getElem? hcall) with hprogram | ⟨a, ha⟩
    · cases hprogram
      by_cases hv : max ≤ p.memory
      · exact Int.le_antisymm hp.le hv
      · rw [atom_acquire hword hp hv] at hret
        cases hret
    · cases ha

end Runs

abbrev State := Pool Int Call (Place Call Call.Answer Access Access.Answer Bool)

abbrev Reaches (kind : Counter) {max : Int} (hmax : 1 ≤ max) : State → State → Prop :=
  ReflTransGen ((kind.loops hmax).Step program Begins)

/-- The counter never overshoots, and an acquire fails only if the counter is at its limit during
the call.  The limit is any value of the counter's type from 1 on. -/
theorem admission_counters (kind : Counter) (max : Int) (hmax : 1 ≤ max)
    (hword : kind.word max = max) (p : State) (h : Reaches kind hmax ⟨0, []⟩ p) :
    p.memory = acquired p.atomic - released p.atomic ∧ 0 ≤ p.memory ∧ p.memory ≤ max ∧
      ∀ (i : Nat) (p' : State),
        p.threads[i]? = some (.acquire, (kind.loops hmax).enter (program .acquire)) →
        Reaches kind hmax p p' → p'.threads[i]? = some (.acquire, .ret false) →
        ∃ u, Reaches kind hmax p u ∧ Reaches kind hmax u p' ∧ u.memory = max := by
  have hcounted : ∀ {u : State}, Reaches kind hmax ⟨0, []⟩ u → Counted max u.atomic := fun hu =>
    Loops.Reachable.induct (counted_start hmax) (fun hp => hp.step hword) hu
  have hp := hcounted h
  refine ⟨hp.memory, hp.nonneg, hp.le, ?_⟩
  intro i p' hi hrun hi'
  let Failed (q : Calls) : Prop := q.threads[i]? = some (.acquire, .ret false)
  have hbegun : ¬ Failed p.atomic := by
    intro hfailed
    have hprog := (Pool.atomic_getElem? hi).symm.trans hfailed
    rw [(Loops.enter_spec _).1] at hprog
    cases hprog
  obtain ⟨u, v, hpu, hup, hstep, hu, hv⟩ :=
    Loops.exists_atomicStep (D := Failed) (Loops.Reachable.sound h) hrun hbegun
      (Pool.atomic_getElem? hi')
  exact ⟨u, hpu, hup, (hcounted (h.trans hpu)).full hword hstep hu hv⟩

/-- The second call loads the counter first and loses the swap to the first call. -/
theorem admission_counters_sample : ∃ p p' : State, Reaches .credit (Int.le_refl 1) ⟨0, []⟩ p ∧
    p.memory = acquired p.atomic - released p.atomic ∧
      p'.threads[1]? = some (.acquire, .ret false) ∧
    ∃ u, Reaches .credit (Int.le_refl 1) p u ∧ Reaches .credit (Int.le_refl 1) u p' ∧
      u.memory = 1 := by
  let L := Counter.loops .credit (Int.le_refl 1)
  let p : State :=
    ⟨0, [(.acquire, L.enter (program .acquire)), (.acquire, L.enter (program .acquire))]⟩
  let p' : State :=
    ⟨1, [(.acquire, .loop .acquire .ret (.ret (some true))), (.acquire, .ret false)]⟩
  have hbegin : ∀ q : Calls, Begins q .acquire q.memory := fun q => ⟨rfl, fun h => by cases h⟩
  have hp : Reaches .credit (Int.le_refl 1) ⟨0, []⟩ p :=
    .tail (.single (.spawn (hbegin _))) (.spawn (hbegin _))
  have hp' : [1, 0, 0, 1, 1, 1, 1].foldlM L.turn p = some p' := rfl
  obtain ⟨hmemory, -, -, hfull⟩ := admission_counters .credit 1 (Int.le_refl 1) (by decide) p hp
  exact ⟨p, p', hp, hmemory, rfl, hfull 1 p' rfl (Loops.run_turns hp') rfl⟩

end Octar.Admission
