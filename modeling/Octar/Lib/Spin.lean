import Octar.Lib.Threads
import Mathlib.Logic.Relation

/-! Threads whose commands are loops over finer commands, such as a compare-and-swap that is tried
until it succeeds.  A loop that takes effect in one of its steps may be taken for one atomic
command. -/

namespace Threads

open Relation

structure Pool (σ τ P : Type) where
  memory : σ
  threads : List (τ × P)

theorem countP_set {α : Type} (f : α → Bool) {l : List α} {i : Nat} {a : α} (hi : l[i]? = some a)
    (b : α) :
    (l.set i b).countP f + (if f a then 1 else 0) = l.countP f + (if f b then 1 else 0) := by
  obtain ⟨hlt, rfl⟩ := List.getElem?_eq_some_iff.mp hi
  have hpos : f l[i] → 0 < l.countP f :=
    fun h => List.countP_pos_iff.mpr ⟨_, List.getElem_mem hlt, h⟩
  rw [List.countP_set hlt]
  split
  · rename_i ha
    have hpos := hpos ha
    omega
  · omega

theorem forall_begin {α : Type} {P : α → Prop} {l : List α} (h : ∀ a ∈ l, P a) {b : α} (hb : P b) :
    ∀ a ∈ l ++ [b], P a := List.forall_mem_append.mpr ⟨h, List.forall_mem_singleton.mpr hb⟩

theorem forall_step {α : Type} {P : α → Prop} {l : List α} (h : ∀ a ∈ l, P a) {i : Nat} {b : α}
    (hb : P b) :
    ∀ a ∈ l.set i b, P a := by
  intro a ha
  rcases List.mem_or_eq_of_mem_set ha with ha | rfl
  · exact h a ha
  · exact hb

theorem getElem?_begin {α : Type} {l : List α} {i : Nat} {a b : α} (h : (l ++ [a])[i]? = some b) :
    l[i]? = some b ∨ a = b := by
  by_cases hlt : i < l.length
  · rw [List.getElem?_append_left hlt] at h
    exact .inl h
  · rw [List.getElem?_append_right (Nat.not_lt.mp hlt)] at h
    exact .inr (List.mem_singleton.mp (List.mem_of_getElem? h)).symm

theorem getElem?_step {α : Type} {l : List α} {i j : Nat} {a b : α} (h : (l.set j a)[i]? = some b) :
    l[i]? = some b ∨ j = i ∧ a = b := by
  by_cases heq : j = i
  · rw [List.getElem?_set, if_pos heq] at h
    split at h
    · exact .inr ⟨heq, Option.some.inj h⟩
    · cases h
  · rw [List.getElem?_set_ne heq] at h
    exact .inl h

section Linear

variable {F : Type} {A : F → Type} {σ β : Type}

/-- In whatever memory the next command finds, the loop body ends with it and with what `f` does and
answers, or it changes nothing and goes on.  With `none` it is tried again. -/
def Linear (exec : (c : F) → σ → σ × A c) (f : σ → σ × β) : Prog F A (Option β) → Prop
  | .ret none => True
  | .ret (some _) => False
  | .call c k => ∀ s, k (exec c s).2 = .ret (some (f s).2) ∧ (exec c s).1 = (f s).1 ∨
      (exec c s).1 = s ∧ Linear exec f (k (exec c s).2)

end Linear

structure Loops (C : Type) (R : C → Type) (F : Type) (A : F → Type) (σ : Type) where
  exec : (c : F) → σ → σ × A c
  body : (c : C) → Prog F A (Option (R c))
  atom : (c : C) → σ → σ × R c
  linear : ∀ c, Linear exec (atom c) (body c)

variable {C F : Type} {R : C → Type} {A : F → Type} {σ τ α : Type}

inductive Place (C : Type) (R : C → Type) (F : Type) (A : F → Type) (α : Type)
  | ret (a : α)
  | loop (c : C) (k : R c → Prog C R α) (rest : Prog F A (Option (R c)))

def Place.prog : Place C R F A α → Prog C R α
  | .ret a => .ret a
  | .loop _ k (.ret (some r)) => k r
  | .loop c k (.ret none) => .call c k
  | .loop c k (.call _ _) => .call c k

namespace Loops

variable (L : Loops C R F A σ)

def enter : Prog C R α → Place C R F A α
  | .ret a => .ret a
  | .call c k => .loop c k (L.body c)

def advance (s : σ) : Place C R F A α → Option (σ × Place C R F A α)
  | .ret _ => none
  | .loop c k (.ret none) => some (s, .loop c k (L.body c))
  | .loop _ k (.ret (some r)) => some (s, L.enter (k r))
  | .loop c k (.call f next) => some ((L.exec f s).1, .loop c k (next (L.exec f s).2))

variable (program : τ → Prog C R α) (spawn : Pool σ τ (Prog C R α) → τ → σ → Prop)

inductive AtomicStep : Pool σ τ (Prog C R α) → Pool σ τ (Prog C R α) → Prop
  | spawn {p : Pool σ τ (Prog C R α)} {t : τ} {s : σ} (h : spawn p t s) :
    AtomicStep p ⟨s, p.threads ++ [(t, program t)]⟩
  | run {p : Pool σ τ (Prog C R α)} {i : Nat} {t : τ} {c : C} {k : R c → Prog C R α}
    (hi : p.threads[i]? = some (t, .call c k)) :
    AtomicStep p ⟨(L.atom c p.memory).1, p.threads.set i (t, k (L.atom c p.memory).2)⟩

end Loops

def Pool.atomic (p : Pool σ τ (Place C R F A α)) : Pool σ τ (Prog C R α) :=
  ⟨p.memory, p.threads.map fun x => (x.1, x.2.prog)⟩

theorem Pool.atomic_getElem? {p : Pool σ τ (Place C R F A α)} {i : Nat} {t : τ}
    {place : Place C R F A α} (hi : p.threads[i]? = some (t, place)) :
    p.atomic.threads[i]? = some (t, place.prog) := by
  rw [Pool.atomic, List.getElem?_map, hi, Option.map_some]

namespace Loops

variable (L : Loops C R F A σ) (program : τ → Prog C R α)
  (spawn : Pool σ τ (Prog C R α) → τ → σ → Prop)

inductive Step : Pool σ τ (Place C R F A α) → Pool σ τ (Place C R F A α) → Prop
  | spawn {p : Pool σ τ (Place C R F A α)} {t : τ} {s : σ} (h : spawn p.atomic t s) :
    Step p ⟨s, p.threads ++ [(t, L.enter (program t))]⟩
  | run {p : Pool σ τ (Place C R F A α)} {i : Nat} {t : τ} {place place' : Place C R F A α} {s : σ}
    (hi : p.threads[i]? = some (t, place)) (h : L.advance p.memory place = some (s, place')) :
    Step p ⟨s, p.threads.set i (t, place')⟩

def turn (p : Pool σ τ (Place C R F A α)) (i : Nat) : Option (Pool σ τ (Place C R F A α)) := do
  let (t, place) ← p.threads[i]?
  let (s, place') ← L.advance p.memory place
  return ⟨s, p.threads.set i (t, place')⟩

def Sound : Place C R F A α → Prop
  | .ret _ => True
  | .loop _ _ (.ret (some _)) => True
  | .loop c _ rest => Linear L.exec (L.atom c) rest

variable {L program spawn}

theorem run_turns {p p' : Pool σ τ (Place C R F A α)} {is : List Nat}
    (h : is.foldlM L.turn p = some p') :
    ReflTransGen (L.Step program spawn) p p' := by
  induction is generalizing p with
  | nil =>
    cases h
    exact .refl
  | cons i is ih =>
    obtain ⟨q, hq, hrest⟩ := Option.bind_eq_some_iff.mp h
    obtain ⟨⟨t, place⟩, hi, hturn⟩ := Option.bind_eq_some_iff.mp hq
    obtain ⟨⟨s, place'⟩, hadvance, hret⟩ := Option.bind_eq_some_iff.mp hturn
    cases hret
    exact .head (.run hi hadvance) (ih hrest)

theorem prog_loop {c : C} {k : R c → Prog C R α} {rest : Prog F A (Option (R c))}
    (h : Linear L.exec (L.atom c) rest) : (Place.loop c k rest).prog = .call c k := by
  cases rest with
  | ret r =>
    cases r with
    | none => rfl
    | some r => exact h.elim
  | call f next => rfl

theorem sound_loop {c : C} {k : R c → Prog C R α} {rest : Prog F A (Option (R c))}
    (h : Linear L.exec (L.atom c) rest) : L.Sound (.loop c k rest) := by
  cases rest with
  | ret r =>
    cases r with
    | none => exact h
    | some r => exact trivial
  | call f next => exact h

theorem enter_spec (p : Prog C R α) : (L.enter p).prog = p ∧ L.Sound (L.enter p) := by
  cases p with
  | ret a => exact ⟨rfl, trivial⟩
  | call c k => exact ⟨prog_loop (L.linear c), sound_loop (L.linear c)⟩

theorem advance_spec {s s' : σ} {place place' : Place C R F A α} (hplace : L.Sound place)
    (h : L.advance s place = some (s', place')) : L.Sound place' ∧
      (s' = s ∧ place'.prog = place.prog ∨ ∃ c k, place.prog = .call c k ∧
        s' = (L.atom c s).1 ∧ place'.prog = k (L.atom c s).2) := by
  cases place with
  | ret a => cases h
  | loop c k rest =>
    cases rest with
    | ret r =>
      cases r with
      | none =>
        cases h
        exact ⟨sound_loop (L.linear c), .inl ⟨rfl, prog_loop (L.linear c)⟩⟩
      | some r =>
        cases h
        exact ⟨(enter_spec _).2, .inl ⟨rfl, (enter_spec _).1⟩⟩
    | call f next =>
      cases h
      rcases hplace s with ⟨hnext, hs⟩ | ⟨hs, hnext⟩
      · rw [hnext, hs]
        exact ⟨trivial, .inr ⟨c, k, rfl, rfl, rfl⟩⟩
      · exact ⟨sound_loop hnext, .inl ⟨hs, prog_loop hnext⟩⟩

theorem sound_step {p p' : Pool σ τ (Place C R F A α)} (hp : ∀ x ∈ p.threads, L.Sound x.2)
    (h : L.Step program spawn p p') : ∀ x ∈ p'.threads, L.Sound x.2 := by
  cases h with
  | spawn h => exact forall_begin hp (enter_spec _).2
  | run hi h => exact forall_step hp (advance_spec (hp _ (List.mem_of_getElem? hi)) h).1

theorem atomic_step {p p' : Pool σ τ (Place C R F A α)} (hp : ∀ x ∈ p.threads, L.Sound x.2)
    (h : L.Step program spawn p p') :
    p'.atomic = p.atomic ∨ L.AtomicStep program spawn p.atomic p'.atomic := by
  cases h with
  | @spawn t s h =>
    right
    have hnew : Pool.atomic ⟨s, p.threads ++ [(t, L.enter (program t))]⟩ =
        ⟨s, p.atomic.threads ++ [(t, program t)]⟩ := by
      simp only [Pool.atomic, List.map_append, List.map_cons, List.map_nil, (enter_spec _).1]
    rw [hnew]
    exact .spawn h
  | @run i t place place' s hi h =>
    have hmap : Pool.atomic ⟨s, p.threads.set i (t, place')⟩ =
        ⟨s, p.atomic.threads.set i (t, place'.prog)⟩ := by
      simp only [Pool.atomic, List.map_set]
    have hi' := Pool.atomic_getElem? hi
    rw [hmap]
    rcases (advance_spec (hp _ (List.mem_of_getElem? hi)) h).2 with ⟨rfl, hprog⟩
      | ⟨c, k, hprog, rfl, hprog'⟩
    · left
      obtain ⟨_, hget⟩ := List.getElem?_eq_some_iff.mp hi'
      rw [hprog, ← hget, List.set_getElem_self]
      rfl
    · right
      rw [hprog']
      rw [hprog] at hi'
      exact .run hi'

theorem atomic_run {p p' : Pool σ τ (Place C R F A α)} (hp : ∀ x ∈ p.threads, L.Sound x.2)
    (h : ReflTransGen (L.Step program spawn) p p') :
    ReflTransGen (L.AtomicStep program spawn) p.atomic p'.atomic ∧ ∀ x ∈ p'.threads,
      L.Sound x.2 := by
  induction h with
  | refl => exact ⟨.refl, hp⟩
  | tail _ hstep ih =>
    obtain ⟨hrun, hsound⟩ := ih
    refine ⟨?_, sound_step hsound hstep⟩
    rcases atomic_step hsound hstep with heq | hatomic
    · rw [heq]
      exact hrun
    · exact hrun.tail hatomic

theorem AtomicStep.thread {p p' : Pool σ τ (Prog C R α)} (h : L.AtomicStep program spawn p p')
    {i : Nat} {t : τ} {q : Prog C R α} (hi' : p'.threads[i]? = some (t, q)) :
    p.threads[i]? = some (t, q) ∨ q = program t ∨
      ∃ c k, p.threads[i]? = some (t, .call c k) ∧ q = k (L.atom c p.memory).2 := by
  cases h with
  | spawn h =>
    rcases getElem?_begin hi' with hold | hnew
    · exact .inl hold
    · cases hnew
      exact .inr (.inl rfl)
  | @run j t₀ c k hj =>
    rcases getElem?_step hi' with hold | ⟨rfl, hnew⟩
    · exact .inl hold
    · cases hnew
      exact .inr (.inr ⟨c, k, hj, rfl⟩)

theorem exists_atomicStep {D : Pool σ τ (Prog C R α) → Prop} {p p' : Pool σ τ (Place C R F A α)}
    (hp : ∀ x ∈ p.threads, L.Sound x.2) (h : ReflTransGen (L.Step program spawn) p p')
    (hD : ¬ D p.atomic) (hD' : D p'.atomic) : ∃ u v, ReflTransGen (L.Step program spawn) p u ∧
      ReflTransGen (L.Step program spawn) u p' ∧ L.AtomicStep program spawn u.atomic v ∧
        ¬ D u.atomic ∧ D v := by
  induction h with
  | refl => exact absurd hD' hD
  | @tail b c hrun hstep ih =>
    by_cases hb : D b.atomic
    · obtain ⟨u, v, hpu, hub, huv⟩ := ih hb
      exact ⟨u, v, hpu, hub.tail hstep, huv⟩
    · rcases atomic_step (atomic_run hp hrun).2 hstep with heq | hatomic
      · exact absurd (heq ▸ hD') hb
      · exact ⟨b, c.atomic, hrun, .single hstep, hatomic, hb, hD'⟩

variable (L program spawn) in
def Reachable (s : σ) (p : Pool σ τ (Place C R F A α)) : Prop :=
  ReflTransGen (L.Step program spawn) ⟨s, []⟩ p

theorem Reachable.sound {s : σ} {p : Pool σ τ (Place C R F A α)}
    (h : L.Reachable program spawn s p) :
    ∀ x ∈ p.threads, L.Sound x.2 := (atomic_run (List.forall_mem_nil _) h).2

theorem Reachable.induct {I : Pool σ τ (Prog C R α) → Prop} {s : σ} (hstart : I ⟨s, []⟩)
    (hstep : ∀ {p p'}, I p → L.AtomicStep program spawn p p' → I p')
    {p : Pool σ τ (Place C R F A α)} (h : L.Reachable program spawn s p) : I p.atomic := by
  have hrun := (atomic_run (List.forall_mem_nil _) h).1
  generalize p.atomic = q at hrun ⊢
  induction hrun with
  | refl => exact hstart
  | tail _ hatomic ih => exact hstep ih hatomic

end Loops

end Threads
