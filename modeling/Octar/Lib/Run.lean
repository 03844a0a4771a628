import Octar.Lib.GoMap

namespace Go

universe u

variable {ε σ : Type} {α : Type u}

def run (step : σ → α → Except ε σ) (s : σ) (l : List α) : Except ε σ := l.foldlM step s

namespace Run

variable {step : σ → α → Except ε σ}

@[simp] theorem run_nil (s : σ) : run step s [] = .ok s := rfl

theorem run_cons (s : σ) (a : α) (l : List α) :
    run step s (a :: l) = step s a >>= fun s' => run step s' l := rfl

theorem run_append (s : σ) (l l' : List α) :
    run step s (l ++ l') = run step s l >>= fun s' => run step s' l' := by
  simp [run, List.foldlM_append]

theorem run_cons_ok {s s' : σ} {a : α} {l : List α} :
    run step s (a :: l) = .ok s' ↔ ∃ s₁, step s a = .ok s₁ ∧ run step s₁ l = .ok s' := by
  rw [run_cons, bind_ok]

theorem run_append_ok {s s' : σ} {l l' : List α} :
    run step s (l ++ l') = .ok s' ↔ ∃ s₁, run step s l = .ok s₁ ∧ run step s₁ l' = .ok s' := by
  rw [run_append, bind_ok]

theorem induct {motive : σ → List α → Prop}
    (hstep : ∀ s a l s', motive s (a :: l) → step s a = .ok s' → motive s' l)
    {s s' : σ} {l : List α} (hinit : motive s l) (h : run step s l = .ok s') : motive s' [] := by
  induction l generalizing s with
  | nil =>
    cases h
    exact hinit
  | cons a l ih =>
    obtain ⟨s₁, hs, hr⟩ := run_cons_ok.mp h
    exact ih (hstep s a l s₁ hinit hs) hr

theorem map {τ : Type} {β : Type u} {step' : τ → β → Except ε τ} (f : σ → τ) (g : α → β)
    (hstep : ∀ s a s', step s a = .ok s' → step' (f s) (g a) = .ok (f s')) {s s' : σ} {l : List α}
    (h : run step s l = .ok s') : run step' (f s) (l.map g) = .ok (f s') := by
  induction l generalizing s with
  | nil =>
    cases h
    rfl
  | cons a l ih =>
    obtain ⟨s₁, hs, hr⟩ := run_cons_ok.mp h
    exact run_cons_ok.mpr ⟨f s₁, hstep s a s₁ hs, ih hr⟩

theorem total {motive : σ → Prop} {l : List α}
    (hstep : ∀ s, motive s → ∀ a ∈ l, ∃ s', step s a = .ok s' ∧ motive s') {s : σ}
    (hinit : motive s) : ∃ s', run step s l = .ok s' ∧ motive s' := by
  induction l generalizing s with
  | nil => exact ⟨s, rfl, hinit⟩
  | cons a l ih =>
    obtain ⟨s₁, hs₁, h₁⟩ := hstep s hinit a List.mem_cons_self
    obtain ⟨s', hrun, h'⟩ := ih (fun s hs a ha => hstep s hs a (List.mem_cons_of_mem _ ha)) h₁
    exact ⟨s', run_cons_ok.mpr ⟨s₁, hs₁, hrun⟩, h'⟩

end Run

inductive Reachable (step : σ → α → Except ε σ) (guard : σ → α → Prop) (s₀ : σ) : σ → Prop
  | start : Reachable step guard s₀ s₀
  | step {s s' : σ} {a : α} :
    Reachable step guard s₀ s → guard s a → step s a = .ok s' → Reachable step guard s₀ s'

theorem Reachable.run {step : σ → α → Except ε σ} {guard : σ → α → Prop} {s₀ s s' : σ} {l : List α}
    (h : Reachable step guard s₀ s) (hl : ∀ a ∈ l, ∀ s, guard s a)
    (hrun : Go.run step s l = .ok s') :
    Reachable step guard s₀ s' := by
  induction l generalizing s with
  | nil =>
    cases hrun
    exact h
  | cons a l ih =>
    obtain ⟨s₁, hs₁, hrun⟩ := Run.run_cons_ok.mp hrun
    rw [List.forall_mem_cons] at hl
    exact ih (.step h (hl.1 s) hs₁) hl.2 hrun

theorem Reachable.invariant {step : σ → α → Except ε σ} {guard : σ → α → Prop} {s₀ s : σ}
    {motive : σ → Prop}
    (h : Reachable step guard s₀ s) (hinit : motive s₀)
    (hstep : ∀ s a s', motive s → guard s a → step s a = .ok s' → motive s') : motive s := by
  induction h with
  | start => exact hinit
  | step _ hg hs ih => exact hstep _ _ _ ih hg hs

def checked (step : σ → α → Except ε σ) (check : σ → α → Bool) (refused : ε) (s : σ) (a : α) :
    Except ε σ :=
  if check s a then step s a else .error refused

theorem Reachable.ofRun {step : σ → α → Except ε σ} {guard : σ → α → Prop} {check : σ → α → Bool}
    {refused : ε} (hcheck : ∀ s a, check s a = true → guard s a) {s₀ s s' : σ} {l : List α}
    (hs : Reachable step guard s₀ s) (h : Go.run (checked step check refused) s l = .ok s') :
    Reachable step guard s₀ s' := by
  induction l generalizing s with
  | nil =>
    cases h
    exact hs
  | cons a l ih =>
    obtain ⟨s₁, hs₁, hrest⟩ := Run.run_cons_ok.mp h
    unfold checked at hs₁
    split at hs₁
    · rename_i hpass
      exact ih (.step hs (hcheck s a hpass) hs₁) hrest
    · cases hs₁

theorem any_toOption {β : Type} {x : Except ε β} {p : β → Bool} :
    x.toOption.any p = true ↔ ∃ b, x = .ok b ∧ p b = true := by
  cases x with
  | error e => exact ⟨fun h => (nomatch h), fun ⟨_, h, _⟩ => (nomatch h)⟩
  | ok b => exact ⟨fun h => ⟨b, rfl, h⟩, fun ⟨_, h, hp⟩ => by cases h; exact hp⟩

theorem exists_ok {β : Type} {x : Except ε β} {P : β → Prop} [DecidablePred P]
    (h : x.toOption.any (fun b => decide (P b)) = true) : ∃ b, x = .ok b ∧ P b := by
  obtain ⟨b, hb, hP⟩ := any_toOption.mp h
  exact ⟨b, hb, of_decide_eq_true hP⟩

theorem Reachable.ofTrace {step : σ → α → Except ε σ} {guard : σ → α → Prop} {check : σ → α → Bool}
    {refused : ε} (hcheck : ∀ s a, check s a = true → guard s a) {s₀ : σ} (l : List α)
    (p : σ → Bool) (h : (Go.run (checked step check refused) s₀ l).toOption.any p = true) :
    ∃ s, Reachable step guard s₀ s ∧ p s = true := by
  obtain ⟨s, hr, hp⟩ := any_toOption.mp h
  exact ⟨s, Reachable.start.ofRun hcheck hr, hp⟩

end Go
