import Octar.Queue.DrainRound
import Mathlib.Algebra.Order.Ring.Int

namespace Octar

open Go

namespace SlidingWindowLimiter

variable {max window last now retryAt u : Int} {l l' : SlidingWindowLimiter}

def Grants (l : SlidingWindowLimiter) (now : Int) : Prop :=
  ∃ l' wakeAt, l.allow now = .ok (l', true, wakeAt)

def Refuses (l : SlidingWindowLimiter) (now : Int) : Prop :=
  ∃ l' wakeAt, l.allow now = .ok (l', false, wakeAt)

inductive Reached (max window : Int) : Int → SlidingWindowLimiter → Prop
  | new {l : SlidingWindowLimiter} (last : Int) (h : newSlidingWindowLimiter max window = .ok l) :
    Reached max window last l
  | allow {last now wakeAt : Int} {l l' : SlidingWindowLimiter} {allowed : Bool}
    (h : Reached max window last l) (hle : last ≤ now)
    (hallow : l.allow now = .ok (l', allowed, wakeAt)) : Reached max window now l'

def RetryExact (l : SlidingWindowLimiter) (now : Int) : Prop :=
  ∀ l' retryAt, l.allow now = .ok (l', false, retryAt) →
    l'.Grants retryAt ∧ ∀ u, now ≤ u → u < retryAt → l'.Refuses u

theorem grants_iff :
    l.Grants now ↔ ((Window.current l.window now l.events).length : Int) < l.max := by
  constructor
  · rintro ⟨l', wakeAt, hallow⟩
    rcases allow_spec hallow with ⟨hfalse, -⟩ | ⟨-, hroom, -⟩
    · cases hfalse
    · exact hroom
  · exact fun hroom => ⟨_, _, allow_of_lt hroom⟩

theorem refuses_iff (hmax : 1 ≤ l.max) : l.Refuses now ↔ ¬ l.Grants now := by
  constructor
  · rintro ⟨l', wakeAt, hallow⟩ ⟨l'', wakeAt', hallow'⟩
    cases hallow.symm.trans hallow'
  · intro hgrants
    obtain ⟨⟨l', allowed, wakeAt⟩, hallow⟩ := l.allow_total hmax now
    cases allowed with
    | false => exact ⟨l', wakeAt, hallow⟩
    | true => exact absurd ⟨l', wakeAt, hallow⟩ hgrants

theorem allow_refused (h : l.allow now = .ok (l', false, retryAt)) : ∃ e events,
    l' = { l with events := e :: events } ∧ l.max ≤ (e :: events).length ∧
      retryAt = e + l.window := by
  unfold allow at h
  simp only at h
  split at h
  · rename_i hfull
    split at h
    · cases h
    · rename_i e events hevents
      cases h
      have hle : now - l.window ≤ e := Window.le_of_current_eq_cons hevents
      rw [hevents] at hfull
      refine ⟨e, events, by rw [hevents], hfull, if_neg ?_⟩
      omega
  · cases h

structure Kept (max window last : Int) (l : SlidingWindowLimiter) : Prop where
  max_eq : l.max = max
  window_eq : l.window = window
  events : ∃ passed, Window.Counts max.toNat window last l.events passed ∧
    Window.Accounts last l.events passed

theorem Kept.allow {wakeAt : Int} {allowed : Bool} (h : l.Kept max window last) (hle : last ≤ now)
    (hallow : l.allow now = .ok (l', allowed, wakeAt)) : l'.Kept max window now := by
  obtain ⟨rfl, rfl, passed, hcounts, haccounts⟩ := h
  have hcounts := (hcounts.later hle).evict
  have haccounts : Window.Accounts now (Window.current l.window now l.events) passed :=
    (haccounts.later hle).evict
  rcases allow_spec hallow with ⟨-, -, rfl⟩ | ⟨-, hroom, rfl⟩
  · exact ⟨rfl, rfl, passed, hcounts, haccounts⟩
  · have hlt : (Window.current l.window now l.events).length < l.max.toNat := by omega
    exact ⟨rfl, rfl, _, hcounts.pass hlt, haccounts.pass⟩

theorem Reached.kept (h : Reached max window last l) : l.Kept max window last := by
  induction h with
  | new last h =>
    unfold newSlidingWindowLimiter at h
    split at h
    · cases h
    · cases h
      exact ⟨rfl, rfl, [], .new _ _ _, List.suffix_refl _, .nil, List.forall_mem_nil _⟩
  | allow h hle hallow ih => exact ih.allow hle hallow

theorem Kept.refused (hmax : 1 ≤ max) (h : l.Kept max window last) (hle : last ≤ now)
    (hallow : l.allow now = .ok (l', false, retryAt)) : l'.Grants u ↔ retryAt < u := by
  obtain ⟨hmax', hwindow', passed, hcounts, -⟩ := h.allow hle hallow
  obtain ⟨e, events, rfl, hfull, rfl⟩ := allow_refused hallow
  have hlength := hcounts.length_le
  have hleaves : (Window.current l.window u (e :: events)).length < (e :: events).length ↔
      e < u - l.window := Window.length_current_cons_lt
  rw [grants_iff]
  dsimp only at hmax' hlength ⊢
  omega

/-- The time that a refusal returns is exact only where there is none. -/
theorem retry_exact_iff (hmax : 1 ≤ max) (h : Reached max window last l) (hle : last ≤ now) :
    l.RetryExact now ↔ Window.countFrom (now - window) l.events < max := by
  obtain ⟨hmax', hwindow', passed, -, haccounts⟩ := h.kept
  have hgrants : l.Grants now ↔ Window.countFrom (now - window) l.events < max := by
    rw [grants_iff, Window.length_current (haccounts.ascending.sublist haccounts.suffix.sublist),
      hmax', hwindow']
  rw [← hgrants]
  constructor
  · intro hexact
    by_contra hrefuses
    rw [← refuses_iff (hmax' ▸ hmax)] at hrefuses
    obtain ⟨l', retryAt, hallow⟩ := hrefuses
    exact Int.lt_irrefl retryAt ((h.kept.refused hmax hle hallow).mp (hexact l' retryAt hallow).1)
  · rintro ⟨l₁, wakeAt, hgranted⟩ l' retryAt hallow
    cases hgranted.symm.trans hallow

theorem retry_exact_iff_of_room :
    ∃ l, Reached 2 10 0 l ∧ Window.countFrom (5 - 10) l.events < 2 ∧ l.RetryExact 5 :=
  have h : Reached 2 10 0 ⟨2, 10, [0]⟩ := .allow (.new 0 rfl) (Int.le_refl 0) rfl
  ⟨_, h, by decide, (retry_exact_iff (by decide) h (by decide)).mpr (by decide)⟩

/-- One event in ten nanoseconds: what is refused at 5 is to come back at 10, and is refused
again. -/
theorem retry_refused_again : ∃ l, Reached 1 10 0 l ∧ l.allow 5 = .ok (l, false, 10) ∧
    l.allow 10 = .ok (l, false, 10) ∧ ¬ l.RetryExact 5 := by
  have h : Reached 1 10 0 ⟨1, 10, [0]⟩ := .allow (.new 0 rfl) (Int.le_refl 0) rfl
  refine ⟨_, h, rfl, rfl, ?_⟩
  intro hexact
  obtain ⟨⟨l', wakeAt, hgranted⟩, -⟩ := hexact _ 10 rfl
  cases hgranted

end SlidingWindowLimiter

def RetryConfig.nominal (retry : RetryConfig) (attempt : Int) : Int :=
  match retry.backoff with
  | .exponential => retry.initialDelay * 2 ^ attempt.toNat
  | .linear => retry.initialDelay * (attempt + 1)
  | _ => retry.initialDelay

theorem RetryConfig.nominal_mono {retry : RetryConfig} (h : 0 ≤ retry.initialDelay) {a b : Int}
    (hab : b ≤ a) :
    retry.nominal b ≤ retry.nominal a := by
  unfold nominal
  cases retry.backoff with
  | exponential =>
    apply Int.mul_le_mul_of_nonneg_left _ h
    exact pow_le_pow_right₀ (by decide) (Int.toNat_le_toNat hab)
  | linear => exact Int.mul_le_mul_of_nonneg_left (Int.add_le_add_right hab 1) h
  | _ => exact Int.le_refl _

theorem RetryConfig.nominal_nonneg {retry : RetryConfig} (h : 0 ≤ retry.initialDelay) {a : Int}
    (ha : 0 ≤ a) :
    0 ≤ retry.nominal a := by
  refine Int.le_trans ?_ (nominal_mono h ha)
  unfold nominal
  cases retry.backoff with
  | exponential => exact Int.mul_nonneg h (by decide)
  | linear => exact Int.mul_nonneg h (by decide)
  | _ => exact h

theorem int64_of_nonneg {n : Int} (h : 0 ≤ n) (hlt : n < 2 ^ 63) : int64 n = n :=
  int64_eq_self.mpr ⟨Int.le_trans (by decide) h, hlt⟩

namespace Group

variable {g : Group} {attempt : Int}

theorem retryDelay_eq (h : 0 ≤ g.cfg.retry.initialDelay) (hlt : g.cfg.retry.initialDelay < 2 ^ 63)
    (hattempt : 0 ≤ attempt) :
    g.retryDelay attempt =
      .ok (min g.cfg.retry.maxDelay (int64 (g.cfg.retry.nominal attempt))) := by
  have hmin : ∀ d, (if g.cfg.retry.maxDelay < d then g.cfg.retry.maxDelay else d) =
      min g.cfg.retry.maxDelay d := by
    intro d
    omega
  unfold retryDelay RetryConfig.nominal
  cases g.cfg.retry.backoff with
  | exponential =>
    simp only [if_neg (Int.not_lt.mpr hattempt), int64_mul_int64, hmin]
    rfl
  | linear =>
    simp only [int64_mul_int64, hmin]
    rfl
  | _ =>
    simp only [int64_of_nonneg h hlt, hmin]
    rfl

/-- The delay of an attempt is the nominal one cut to the maximum, and so within bounds, and no less
than that of an attempt before. -/
structure BacksOff (g : Group) (attempt : Int) : Prop where
  value : g.retryDelay attempt = .ok (min g.cfg.retry.maxDelay (g.cfg.retry.nominal attempt))
  bounds : ∀ d, g.retryDelay attempt = .ok d → 0 ≤ d ∧ d ≤ g.cfg.retry.maxDelay
  monotone : ∀ earlier d d', 0 ≤ earlier → earlier ≤ attempt → g.retryDelay earlier = .ok d →
    g.retryDelay attempt = .ok d' → d ≤ d'

/-- The product is formed before the maximum is applied: it must fit, or what is left of it be cut
anyway. -/
theorem backsOff_iff (h : 0 ≤ g.cfg.retry.initialDelay) (hlt : g.cfg.retry.initialDelay < 2 ^ 63)
    (hmax : 0 ≤ g.cfg.retry.maxDelay) (hmaxlt : g.cfg.retry.maxDelay < 2 ^ 63)
    (hattempt : 0 ≤ attempt) :
    g.BacksOff attempt ↔ g.cfg.retry.nominal attempt < 2 ^ 63 ∨
      g.cfg.retry.maxDelay ≤ int64 (g.cfg.retry.nominal attempt) := by
  have hdelay := retryDelay_eq h hlt hattempt
  have hint := (fitsInt64_int64 (g.cfg.retry.nominal attempt)).2
  have hnonneg := RetryConfig.nominal_nonneg h hattempt
  constructor
  · intro hbacks
    by_contra hnot
    obtain ⟨hover, hcut⟩ := not_or.mp hnot
    have hvalue := Except.ok.inj (hdelay.symm.trans hbacks.value)
    omega
  · intro hfits
    have hcut : min g.cfg.retry.maxDelay (int64 (g.cfg.retry.nominal attempt)) =
        min g.cfg.retry.maxDelay (g.cfg.retry.nominal attempt) := by
      rcases hfits with hfits | hcut
      · rw [int64_of_nonneg hnonneg hfits]
      · by_cases hover : g.cfg.retry.nominal attempt < 2 ^ 63
        · rw [int64_of_nonneg hnonneg hover]
        · omega
    rw [hcut] at hdelay
    refine ⟨hdelay, ?_, ?_⟩
    · intro d hd
      have hd := Except.ok.inj (hdelay.symm.trans hd)
      omega
    · intro earlier d d' hearlier hle hd hd'
      have hd := Except.ok.inj ((retryDelay_eq h hlt hearlier).symm.trans hd)
      have hd' := Except.ok.inj (hdelay.symm.trans hd')
      have hmono := RetryConfig.nominal_mono h hle
      by_cases hover : g.cfg.retry.nominal attempt < 2 ^ 63
      · rw [int64_of_nonneg (RetryConfig.nominal_nonneg h hearlier) (hmono.trans_lt hover)] at hd
        omega
      · omega

theorem backsOff_iff_default : ∃ g, Octar.newGroup (defaultGroupConfig (str "g")) = .ok g ∧
    g.retryDelay 3 = .ok (8 * second) ∧ g.BacksOff 3 := by
  obtain ⟨g, hg, hretry⟩ : ∃ g, Octar.newGroup (defaultGroupConfig (str "g")) = .ok g ∧
      g.cfg.retry = (defaultGroupConfig (str "g")).retry := exists_ok (by decide +kernel)
  have hbacks : g.BacksOff 3 := by
    apply (backsOff_iff _ _ _ _ (by decide)).mpr (.inl _)
    all_goals rw [hretry]; decide
  refine ⟨g, hg, ?_, hbacks⟩
  rw [hbacks.value, hretry]
  rfl

/-- With the delays of the default config, the retry of the 34th attempt is 40 years back. -/
theorem retryDelay_negative : ∃ g, Octar.newGroup (defaultGroupConfig (str "g")) = .ok g ∧
    g.retryDelay 34 = .ok (-1266874889709551616) ∧ ¬ g.BacksOff 34 := by
  obtain ⟨g, hg, hretry⟩ : ∃ g, Octar.newGroup (defaultGroupConfig (str "g")) = .ok g ∧
      g.cfg.retry = (defaultGroupConfig (str "g")).retry := exists_ok (by decide +kernel)
  have hdelay : g.retryDelay 34 = .ok (-1266874889709551616) := by
    rw [retryDelay_eq (hretry ▸ by decide) (hretry ▸ by decide) (by decide), hretry]
    rfl
  refine ⟨g, hg, hdelay, ?_⟩
  intro hbacks
  exact absurd (hbacks.bounds _ hdelay).1 (by decide)

end Group

end Octar
