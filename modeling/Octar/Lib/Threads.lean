import Octar.Lib.Run

/-! Threads that share a state: each runs a program of atomic commands, and at every step one of
them does its next command. -/

namespace Threads

inductive Prog (C : Type) (R : C → Type) (α : Type) : Type
  | ret (a : α)
  | call (c : C) (k : R c → Prog C R α)

namespace Prog

variable {C : Type} {R : C → Type} {α β γ : Type}

def bind (p : Prog C R α) (f : α → Prog C R β) : Prog C R β :=
  match p with
  | .ret a => f a
  | .call c k => .call c fun r => (k r).bind f

instance : Monad (Prog C R) where
  pure := .ret
  bind := bind

def command (c : C) : Prog C R (R c) := .call c .ret

@[simp] theorem pure_eq_ret (a : α) : (pure a : Prog C R α) = .ret a := rfl

@[simp] theorem ret_bind (a : α) (f : α → Prog C R β) : (Prog.ret a >>= f) = f a := rfl

@[simp] theorem call_bind (c : C) (k : R c → Prog C R α) (f : α → Prog C R β) :
    (Prog.call c k >>= f) = .call c fun r => k r >>= f := rfl

@[simp] theorem command_bind (c : C) (f : R c → Prog C R β) : (command c >>= f) = .call c f := rfl

@[simp] theorem bind_assoc (p : Prog C R α) (f : α → Prog C R β) (g : β → Prog C R γ) :
    (p >>= f >>= g) = (p >>= fun a => f a >>= g) := by
  induction p with
  | ret a => rfl
  | call c k ih =>
    simp only [call_bind]
    congr 1
    funext r
    exact ih r

@[simp] theorem bind_ret (p : Prog C R α) : (p >>= ret) = p := by
  induction p with
  | ret a => rfl
  | call c k ih =>
    rw [call_bind]
    congr 1
    funext r
    exact ih r

theorem ite_bind {b : Prop} [Decidable b] (p q : Prog C R α) (f : α → Prog C R β) :
    ((if b then p else q) >>= f) = if b then p >>= f else q >>= f := by
  split <;> rfl

theorem call_ne {c : C} {k : R c → Prog C R α} {p : Prog C R α} (r : R c) (hr : k r = p) :
    Prog.call c k ≠ p := by
  have hne : ∀ p : Prog C R α, ∀ c k r, p = .call c k → p ≠ k r := by
    intro p
    induction p with
    | ret a =>
      intro c k r h
      cases h
    | call c₀ k₀ ih =>
      intro c k r h heq
      cases h
      exact ih r c₀ k₀ r heq.symm rfl
  exact hr ▸ hne _ c k r rfl

def All (possible : (c : C) → R c → Prop) (Q : (c : C) → (R c → Prog C R α) → Prop) :
    Prog C R α → Prop
  | .ret _ => True
  | .call c k => Q c k ∧ ∀ r, possible c r → All possible Q (k r)

theorem All.imp {possible : (c : C) → R c → Prop} {Q Q' : (c : C) → (R c → Prog C R α) → Prop}
    (h : ∀ c k, Q c k → Q' c k) {p : Prog C R α} (hp : p.All possible Q) : p.All possible Q' := by
  induction p with
  | ret a => exact trivial
  | call c k ih => exact ⟨h c k hp.1, fun r hr => ih r (hp.2 r hr)⟩

section Uses

variable {possible : (c : C) → R c → Prop} {S : C → Prop}

variable (possible S) in
def Uses (p : Prog C R α) : Prop := p.All possible fun c _ => S c

theorem Uses.ret (a : α) : (Prog.ret a : Prog C R α).Uses possible S := trivial

theorem Uses.seq {c : C} {f : R c → Prog C R α} (hc : S c)
    (hf : ∀ r, possible c r → (f r).Uses possible S) :
    (command c >>= f).Uses possible S := ⟨hc, hf⟩

theorem Uses.command {c : C} (hc : S c) : (command c : Prog C R (R c)).Uses possible S :=
  ⟨hc, fun _ _ => trivial⟩

theorem Uses.bind {p : Prog C R α} {f : α → Prog C R β} (hp : p.Uses possible S)
    (hf : ∀ a, (f a).Uses possible S) : (p >>= f).Uses possible S := by
  induction p with
  | ret a => exact hf a
  | call c k ih => exact ⟨hp.1, fun r hr => ih r (hp.2 r hr)⟩

theorem Uses.ite {b : Prop} [Decidable b] {p q : Prog C R α} (hp : p.Uses possible S)
    (hq : q.Uses possible S) :
    (if b then p else q).Uses possible S := by
  split
  · exact hp
  · exact hq

end Uses

def Owes (possible discharges : (c : C) → R c → Prop) : Prog C R α → Prop
  | .ret _ => False
  | .call c k => ∀ r, possible c r → discharges c r ∨ Owes possible discharges (k r)

theorem Owes.bind_left {possible discharges : (c : C) → R c → Prop} {p : Prog C R α}
    (h : p.Owes possible discharges) (f : α → Prog C R β) : (p >>= f).Owes possible discharges := by
  induction p with
  | ret a => exact h.elim
  | call c k ih => exact fun r hr => (h r hr).imp_right (ih r)

section Keeps

variable (possible : (c : C) → R c → Prop) (E : Prog C R Unit → Prop)
  (Q : (c : C) → (R c → Prog C R Unit) → Prop)

def Calm (p : Prog C R Unit) : Prop := E p ∧ p.All possible Q

def Ordinary (c : C) : Prop :=
  ∀ k : R c → Prog C R Unit, (∀ r, possible c r → E (k r)) → E (.call c k) ∧ Q c k

def Keeps (p : Prog C R α) : Prop :=
  ∀ f : α → Prog C R Unit, (∀ a, (f a).Calm possible E Q) → (p >>= f).Calm possible E Q

variable {possible E Q}

theorem Keeps.ret (a : α) : (ret a : Prog C R α).Keeps possible E Q := fun _ hf => hf a

theorem Keeps.bind {p : Prog C R α} {f : α → Prog C R β} (hp : p.Keeps possible E Q)
    (hf : ∀ a, (f a).Keeps possible E Q) : (p >>= f).Keeps possible E Q := by
  intro g hg
  rw [bind_assoc]
  exact hp _ fun a => hf a g hg

theorem Keeps.ite {b : Prop} [Decidable b] {p q : Prog C R α} (hp : p.Keeps possible E Q)
    (hq : q.Keeps possible E Q) : (if b then p else q).Keeps possible E Q := by
  split
  · exact hp
  · exact hq

theorem Keeps.call {c : C} {k : R c → Prog C R α} (hc : Ordinary possible E Q c)
    (hk : ∀ r, possible c r → (k r).Keeps possible E Q) : (Prog.call c k).Keeps possible E Q := by
  intro f hf
  have hkeeps : ∀ r, possible c r → (k r >>= f).Calm possible E Q := fun r hr => hk r hr f hf
  obtain ⟨hE, hQ⟩ := hc (fun r => k r >>= f) fun r hr => (hkeeps r hr).1
  exact ⟨hE, hQ, fun r hr => (hkeeps r hr).2⟩

theorem Keeps.calm {p : Prog C R Unit} (h : p.Keeps possible E Q) (hend : E (Prog.ret ())) :
    p.Calm possible E Q := by
  have hcalm := h Prog.ret fun _ => ⟨hend, trivial⟩
  rwa [bind_ret] at hcalm

end Keeps

end Prog

structure Thread (τ C : Type) (R : C → Type) where
  task : τ
  prog : Prog C R Unit

variable {τ C D ε σ : Type} {R : C → Type}

namespace Thread

def next? (t : Thread τ C R) : Option C :=
  match t.prog with
  | .ret _ => none
  | .call c _ => some c

def finished (t : Thread τ C R) : Bool := t.next?.isNone

end Thread

def advance (handle : (c : C) → σ → Except ε (σ × R c)) (blocked : ε) (i : Nat) (s : σ)
    (ts : List (Thread τ C R)) : Except ε (σ × List (Thread τ C R)) :=
  match ts[i]? with
  | some ⟨task, .call c k⟩ => do
    let (s, r) ← handle c s
    return (s, ts.set i ⟨task, k r⟩)
  | _ => .error blocked

theorem advance_ok {handle : (c : C) → σ → Except ε (σ × R c)} {blocked : ε} {i : Nat} {s s' : σ}
    {ts ts' : List (Thread τ C R)} (h : advance handle blocked i s ts = .ok (s', ts')) :
    ∃ task c k r, ts[i]? = some ⟨task, .call c k⟩ ∧ handle c s = .ok (s', r) ∧
      ts' = ts.set i ⟨task, k r⟩ := by
  unfold advance at h
  split at h
  · rename_i task c k hi
    obtain ⟨⟨s₁, r⟩, hr, hret⟩ := Go.bind_ok.mp h
    cases hret
    exact ⟨task, c, k, r, hi, hr, rfl⟩
  · cases h

theorem mem_set_or {α : Type} {ts : List α} {i : Nat} {t t₀ : α} (hi : ts[i]? = some t₀)
    (ht : t ∈ ts) (t' : α) : t = t₀ ∨ t ∈ ts.set i t' := by
  obtain ⟨j, hj⟩ := List.getElem?_of_mem ht
  by_cases heq : j = i
  · subst heq
    exact .inl (Option.some.inj (hj.symm.trans hi))
  · refine .inr (List.mem_of_getElem? (i := j) ?_)
    rw [List.getElem?_set_ne (Ne.symm heq)]
    exact hj

theorem mem_set_self {α : Type} {ts : List α} {i : Nat} {t₀ : α} (hi : ts[i]? = some t₀)
    (t' : α) : t' ∈ ts.set i t' := List.mem_set (List.getElem?_eq_some_iff.mp hi).1 _

def total (load : Prog C R Unit → Int) (ts : List (Thread τ C R)) : Int :=
  (ts.map fun t => load t.prog).sum

@[simp] theorem total_nil (load : Prog C R Unit → Int) :
    total load ([] : List (Thread τ C R)) = 0 := rfl

theorem total_append (load : Prog C R Unit → Int) (ts : List (Thread τ C R)) (t : Thread τ C R) :
    total load (ts ++ [t]) = total load ts + load t.prog := by
  simp [total]

theorem sum_map_set {α : Type} (f : α → Int) {l : List α} {i : Nat} {a : α} (hi : l[i]? = some a)
    (b : α) :
    ((l.set i b).map f).sum = (l.map f).sum - f a + f b := by
  induction l generalizing i with
  | nil => cases hi
  | cons a₀ l ih =>
    cases i with
    | zero =>
      cases hi
      simp only [List.set_cons_zero, List.map_cons, List.sum_cons]
      omega
    | succ i =>
      have hrest := ih hi
      simp only [List.set_cons_succ, List.map_cons, List.sum_cons]
      omega

theorem total_set (load : Prog C R Unit → Int) {ts : List (Thread τ C R)} {i : Nat}
    {t : Thread τ C R} (hi : ts[i]? = some t) (t' : Thread τ C R) :
    total load (ts.set i t') = total load ts - load t.prog + load t'.prog := sum_map_set _ hi t'

theorem total_nonneg {load : Prog C R Unit → Int} (hload : ∀ p, 0 ≤ load p)
    (ts : List (Thread τ C R)) :
    0 ≤ total load ts := by
  induction ts with
  | nil => exact Int.le_refl 0
  | cons t₀ ts ih => exact Int.add_nonneg (hload t₀.prog) ih

theorem load_le_total {load : Prog C R Unit → Int} (hload : ∀ p, 0 ≤ load p)
    {ts : List (Thread τ C R)} {t : Thread τ C R} (ht : t ∈ ts) : load t.prog ≤ total load ts := by
  induction ts with
  | nil => cases ht
  | cons t₀ ts ih =>
    have hcons : total load (t₀ :: ts) = load t₀.prog + total load ts := rfl
    have h₀ := hload t₀.prog
    rcases List.mem_cons.mp ht with rfl | ht
    · have h := total_nonneg hload ts
      omega
    · have h := ih ht
      omega

theorem exists_load {load : Prog C R Unit → Int} {ts : List (Thread τ C R)}
    (h : total load ts ≠ 0) :
    ∃ t ∈ ts, load t.prog ≠ 0 := by
  by_contra hnone
  push Not at hnone
  apply h
  induction ts with
  | nil => rfl
  | cons t₀ ts ih =>
    have hcons : total load (t₀ :: ts) = load t₀.prog + total load ts := rfl
    rw [hcons, hnone t₀ List.mem_cons_self, Int.zero_add]
    by_contra hne
    exact hne (ih hne fun t ht => hnone t (List.mem_cons_of_mem _ ht))

theorem total_eq_zero {load : Prog C R Unit → Int} {ts : List (Thread τ C R)}
    (h : ∀ t ∈ ts, load t.prog = 0) :
    total load ts = 0 := by
  by_contra hne
  obtain ⟨t, ht, hload⟩ := exists_load hne
  exact hload (h t ht)

def Prog.Balanced (possible : (c : C) → R c → Prop) (load : Prog C R Unit → Int)
    (gain : (c : C) → R c → Int) (p : Prog C R Unit) : Prop :=
  p.All possible fun c k => ∀ r, possible c r → load (k r) = load (.call c k) + gain c r

theorem Prog.ordinary_of_zero {possible : (c : C) → R c → Prop} {load : Prog C R Unit → Int}
    {gain : (c : C) → R c → Int} {c : C} (hload : ∀ k, load (.call c k) = 0)
    (hgain : ∀ r, gain c r = 0) :
    Ordinary possible (fun p => load p = 0)
      (fun c k => ∀ r, possible c r → load (k r) = load (.call c k) + gain c r) c := by
  intro k hk
  refine ⟨hload k, ?_⟩
  intro r hr
  rw [hk r hr, hload, hgain]
  rfl

theorem total_advance {possible : (c : C) → R c → Prop} {load : Prog C R Unit → Int}
    {gain : (c : C) → R c → Int} {ts : List (Thread τ C R)} {i : Nat} {task : τ} {c : C}
    {k : R c → Prog C R Unit} {r : R c} (hi : ts[i]? = some ⟨task, .call c k⟩)
    (hbalanced : (Prog.call c k).Balanced possible load gain) (hr : possible c r) :
    total load (ts.set i ⟨task, k r⟩) = total load ts + gain c r := by
  have hstep := hbalanced.1 r hr
  rw [total_set load hi]
  simp only [hstep]
  omega

def Prog.Bounded (possible : (c : C) → R c → Prop) (load : Prog C R Unit → Int)
    (gain : (c : C) → R c → Int) (p : Prog C R Unit) : Prop :=
  p.All possible fun c k => ∀ r, possible c r → load (k r) ≤ load (.call c k) + gain c r

theorem total_advance_le {possible : (c : C) → R c → Prop} {load : Prog C R Unit → Int}
    {gain : (c : C) → R c → Int} {ts : List (Thread τ C R)} {i : Nat} {task : τ} {c : C}
    {k : R c → Prog C R Unit} {r : R c} (hi : ts[i]? = some ⟨task, .call c k⟩)
    (hbounded : (Prog.call c k).Bounded possible load gain) (hr : possible c r) :
    total load (ts.set i ⟨task, k r⟩) ≤ total load ts + gain c r := by
  have hstep := hbounded.1 r hr
  rw [total_set load hi]
  dsimp only
  omega

/-- The load of a program is what its commands will use of it if each gets its usual answer; a
command changes the load by its gain, up to `rel`. -/
structure Ledger (C : Type) (R : C → Type) where
  possible : (c : C) → R c → Prop
  due : C → Int
  usual : (c : C) → Option (R c)
  gain : (c : C) → R c → Int
  rel : Int → Int → Prop
  load : Prog C R Unit → Int
  load_call : ∀ c k, load (.call c k) = due c + (usual c).elim 0 fun r => load (k r)
  usual_possible : ∀ c r, usual c = some r → possible c r
  rel_refl : ∀ n, rel n n

namespace Ledger

variable (Λ : Ledger C R) {α β : Type}

def Kept (p : Prog C R Unit) : Prop :=
  p.All Λ.possible fun c k => ∀ r, Λ.possible c r →
    Λ.rel (Λ.load (k r)) (Λ.load (.call c k) + Λ.gain c r)

def Carries (n : Int) (p : Prog C R α) : Prop :=
  ∀ f : α → Prog C R Unit, (∀ a, Λ.load (f a) = 0 ∧ Λ.Kept (f a)) →
    Λ.load (p >>= f) = n ∧ Λ.Kept (p >>= f)

def Neutral (c : C) : Prop := Λ.due c = 0 ∧ ∀ r, Λ.gain c r = 0

variable {Λ} {n : Int}

theorem Carries.ret (a : α) : Λ.Carries 0 (Prog.ret a : Prog C R α) := fun _ hf => hf a

theorem Carries.bind {p : Prog C R α} {f : α → Prog C R β} (hp : Λ.Carries n p)
    (hf : ∀ a, Λ.Carries 0 (f a)) :
    Λ.Carries n (p >>= f) := by
  intro g hg
  rw [Prog.bind_assoc]
  exact hp _ fun a => hf a g hg

theorem Carries.ite {b : Prop} [Decidable b] {p q : Prog C R α} (hp : b → Λ.Carries n p)
    (hq : ¬ b → Λ.Carries n q) :
    Λ.Carries n (if b then p else q) := by
  split
  · exact hp ‹b›
  · exact hq ‹¬ b›

theorem Carries.seq {c : C} {f : R c → Prog C R α} (m : R c → Int)
    (hload : Λ.due c + (Λ.usual c).elim 0 m = n) (hf : ∀ r, Λ.possible c r → Λ.Carries (m r) (f r))
    (hgain : ∀ r, Λ.possible c r → Λ.rel (m r) (n + Λ.gain c r)) :
    Λ.Carries n (Prog.command c >>= f) := by
  intro k hk
  have hrest : ∀ r, Λ.possible c r → Λ.load (f r >>= k) = m r := fun r hr => (hf r hr k hk).1
  have hcall : Λ.load (.call c fun r => f r >>= k) = n := by
    rw [Λ.load_call, ← hload]
    cases hu : Λ.usual c with
    | none => rfl
    | some r => exact congrArg (Λ.due c + ·) (hrest r (Λ.usual_possible c r hu))
  refine ⟨hcall, ?_, fun r hr => (hf r hr k hk).2⟩
  intro r hr
  change Λ.rel (Λ.load (f r >>= k)) (Λ.load (.call c fun r => f r >>= k) + Λ.gain c r)
  rw [hcall, hrest r hr]
  exact hgain r hr

theorem Carries.still {c : C} {f : R c → Prog C R α} (hc : Λ.Neutral c)
    (hf : ∀ r, Λ.possible c r → Λ.Carries 0 (f r)) : Λ.Carries 0 (Prog.command c >>= f) := by
  refine .seq (fun _ => 0) ?_ hf fun r _ => ?_
  · rw [hc.1]
    cases Λ.usual c <;> rfl
  · rw [hc.2 r]
    exact Λ.rel_refl 0

theorem Carries.wait {c : C} {f : R c → Prog C R α} (hc : Λ.Neutral c) (hu : (Λ.usual c).isSome)
    (hf : ∀ r, Λ.possible c r → Λ.Carries n (f r)) : Λ.Carries n (Prog.command c >>= f) := by
  refine .seq (fun _ => n) ?_ hf fun r _ => ?_
  · obtain ⟨r, hr⟩ := Option.isSome_iff_exists.mp hu
    rw [hc.1, hr, Int.zero_add]
    rfl
  · rw [hc.2 r, Int.add_zero]
    exact Λ.rel_refl n

theorem Carries.ofUses {S : C → Prop} (hS : ∀ c, S c → Λ.Neutral c) {p : Prog C R α}
    (hp : p.Uses Λ.possible S) :
    Λ.Carries 0 p := by
  induction p with
  | ret a => exact .ret a
  | call c k ih => exact .still (hS c hp.1) fun r hr => ih r (hp.2 r hr)

theorem Carries.whole (hret : Λ.load (.ret ()) = 0) {p : Prog C R Unit} (hp : Λ.Carries n p) :
    Λ.load p = n ∧ Λ.Kept p := by
  have h := hp Prog.ret fun _ => ⟨hret, trivial⟩
  rwa [Prog.bind_ret] at h

end Ledger

/-- Some commands make a thread responsible for something, others relieve it; both may depend on the
task of the thread, and so may what it can be responsible for at all. -/
structure Duties (τ C : Type) (R : C → Type) (D : Type) where
  possible : (c : C) → R c → Prop
  mine : τ → D → Prop
  incurs : τ → D → (c : C) → R c → Prop
  discharges : τ → D → (c : C) → R c → Prop

namespace Duties

variable (Δ : Duties τ C R D) (task : τ)

def SeenTo (c : C) (k : R c → Prog C R Unit) : Prop :=
  ∀ r, Δ.possible c r → ∀ d, Δ.incurs task d c r → Δ.mine task d ∧
    (k r).Owes Δ.possible (Δ.discharges task d)

def Part {α : Type} (p : Prog C R α) : Prop := p.Keeps Δ.possible (fun _ => True) (Δ.SeenTo task)

variable {Δ task}

theorem part_call {α : Type} {c : C} {k : R c → Prog C R α}
    (hc : ∀ r, Δ.possible c r → ∀ d, Δ.incurs task d c r →
      Δ.mine task d ∧ (k r).Owes Δ.possible (Δ.discharges task d))
    (hk : ∀ r, Δ.possible c r → Δ.Part task (k r)) : Δ.Part task (.call c k) := by
  intro f hf
  refine ⟨trivial, ?_, fun r hr => (hk r hr f hf).2⟩
  intro r hr d hd
  obtain ⟨hmine, howes⟩ := hc r hr d hd
  exact ⟨hmine, howes.bind_left f⟩

theorem ordinary {c : C} (hc : ∀ d r, ¬ Δ.incurs task d c r) :
    Prog.Ordinary Δ.possible (fun _ => True) (Δ.SeenTo task) c :=
  fun _ _ => ⟨trivial, fun r _ d hd => absurd hd (hc d r)⟩

end Duties

namespace Thread

variable (Δ : Duties τ C R D)

def OnDuty (d : D) (t : Thread τ C R) : Prop :=
  Δ.mine t.task d ∧ t.prog.Owes Δ.possible (Δ.discharges t.task d)

def Dutiful (t : Thread τ C R) : Prop := t.prog.All Δ.possible (Δ.SeenTo t.task)

variable {Δ} {task : τ} {c : C} {k : R c → Prog C R Unit}

theorem Dutiful.step (h : Dutiful Δ ⟨task, .call c k⟩) {r : R c} (hr : Δ.possible c r) :
    Dutiful Δ ⟨task, k r⟩ :=
  h.2 r hr

theorem OnDuty.step {d : D} (h : OnDuty Δ d ⟨task, .call c k⟩) {r : R c} (hr : Δ.possible c r)
    (hd : ¬ Δ.discharges task d c r) : OnDuty Δ d ⟨task, k r⟩ := ⟨h.1, (h.2 r hr).resolve_left hd⟩

theorem OnDuty.not_finished {d : D} {t : Thread τ C R} (h : t.OnDuty Δ d) : t.finished = false := by
  obtain ⟨task, p⟩ := t
  cases p with
  | ret a => exact h.2.elim
  | call c k => rfl

end Thread

def Attended (Δ : Duties τ C R D) (needs : D → Prop) (ts : List (Thread τ C R)) : Prop :=
  ∀ d, needs d → ∃ t ∈ ts, t.OnDuty Δ d

theorem Attended.append {Δ : Duties τ C R D} {needs needs' : D → Prop} {ts : List (Thread τ C R)}
    (h : Attended Δ needs ts) (t : Thread τ C R) (hneeds : ∀ d, needs' d → needs d ∨ t.OnDuty Δ d) :
    Attended Δ needs' (ts ++ [t]) := by
  intro d hd
  rcases hneeds d hd with hold | hnew
  · obtain ⟨t', ht', hduty⟩ := h d hold
    exact ⟨t', List.mem_append_left _ ht', hduty⟩
  · exact ⟨t, List.mem_append_right _ List.mem_cons_self, hnew⟩

theorem Attended.advance {Δ : Duties τ C R D} {needs needs' : D → Prop} {ts : List (Thread τ C R)}
    {i : Nat} {task : τ} {c : C} {k : R c → Prog C R Unit} {r : R c} (h : Attended Δ needs ts)
    (hdutiful : ∀ t ∈ ts, t.Dutiful Δ) (hi : ts[i]? = some ⟨task, .call c k⟩) (hr : Δ.possible c r)
    (hneeds : ∀ d, needs' d → needs d ∧ ¬ Δ.discharges task d c r ∨ Δ.incurs task d c r ∨ ∃ j t,
      j ≠ i ∧ ts[j]? = some t ∧ t.OnDuty Δ d) :
    Attended Δ needs' (ts.set i ⟨task, k r⟩) := by
  have hself : (⟨task, k r⟩ : Thread τ C R) ∈ ts.set i ⟨task, k r⟩ := mem_set_self hi _
  have hother : ∀ j t, j ≠ i → ts[j]? = some t → t ∈ ts.set i ⟨task, k r⟩ := by
    intro j t hj ht
    refine List.mem_of_getElem? (i := j) ?_
    rw [List.getElem?_set_ne (Ne.symm hj)]
    exact ht
  intro d hd
  rcases hneeds d hd with ⟨hold, hnot⟩ | hnew | ⟨j, t, hj, ht, hduty⟩
  · obtain ⟨t, ht, hduty⟩ := h d hold
    obtain ⟨j, hj⟩ := List.getElem?_of_mem ht
    by_cases heq : j = i
    · subst heq
      cases hi.symm.trans hj
      exact ⟨_, hself, hduty.step hr hnot⟩
    · exact ⟨t, hother j t heq hj, hduty⟩
  · exact ⟨_, hself, (hdutiful _ (List.mem_of_getElem? hi)).1 r hr d hnew⟩
  · exact ⟨t, hother j t hj ht, hduty⟩

end Threads
