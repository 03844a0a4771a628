import Octar.Queue.Acts

namespace Octar

open Go

def SlidingWindowLimiter.settings (l : SlidingWindowLimiter) : Int × Int := (l.max, l.window)

def RateLimitConfig.settings (r : RateLimitConfig) : Int × Int := (r.max, r.window)

def Group.LikeNew (cfg : GroupConfig) (g : Group) : Prop :=
  ∃ g₀, newGroup cfg = .ok g₀ ∧ g.cfg = g₀.cfg ∧ g.quantum = g₀.quantum ∧
    g.limiter.map SlidingWindowLimiter.settings = g₀.limiter.map SlidingWindowLimiter.settings

theorem groupLimiter_ok {rate : Option RateLimitConfig} {limiter : Option SlidingWindowLimiter}
    (h : groupLimiter rate = .ok limiter) :
    limiter.map SlidingWindowLimiter.settings = rate.map RateLimitConfig.settings := by
  cases rate with
  | none =>
    cases h
    rfl
  | some r =>
    rw [groupLimiter, newSlidingWindowLimiter] at h
    split at h
    · cases h
    · cases h
      rfl

theorem newGroup_settings {cfg : GroupConfig} {g : Group} (h : newGroup cfg = .ok g) :
    g.cfg = cfg.withDefaults ∧ g.quantum = cfg.withDefaults.quantum ∧
      g.limiter.map SlidingWindowLimiter.settings = cfg.rateLimit.map RateLimitConfig.settings := by
  simp only [newGroup] at h
  obtain ⟨limiter, hlimiter, hret⟩ := bind_ok.mp h
  cases hret
  exact ⟨rfl, rfl, groupLimiter_ok hlimiter⟩

theorem Group.likeNew_iff {cfg : GroupConfig} {g : Group} : g.LikeNew cfg ↔
    cfg.RateOk ∧ g.cfg = cfg.withDefaults ∧ g.quantum = cfg.withDefaults.quantum ∧
      g.limiter.map SlidingWindowLimiter.settings = cfg.rateLimit.map RateLimitConfig.settings := by
  constructor
  · rintro ⟨g₀, hnew, hcfg, hquantum, hlimiter⟩
    obtain ⟨hcfg₀, hquantum₀, hlimiter₀⟩ := newGroup_settings hnew
    exact ⟨newGroup_total.mp ⟨g₀, hnew⟩, hcfg.trans hcfg₀, hquantum.trans hquantum₀,
      hlimiter.trans hlimiter₀⟩
  · rintro ⟨hrate, hcfg, hquantum, hlimiter⟩
    obtain ⟨g₀, hnew⟩ := newGroup_total.mpr hrate
    obtain ⟨hcfg₀, hquantum₀, hlimiter₀⟩ := newGroup_settings hnew
    exact ⟨g₀, hnew, hcfg.trans hcfg₀.symm, hquantum.trans hquantum₀.symm,
      hlimiter.trans hlimiter₀.symm⟩

def GroupConfig.Complete (cfg : GroupConfig) : Prop :=
  0 < cfg.parallelism ∧ cfg.retry.maxAttempts ≠ 0 ∧ cfg.retry.backoff ≠ .unset ∧
    cfg.retry.initialDelay ≠ 0 ∧ cfg.retry.maxDelay ≠ 0

instance (cfg : GroupConfig) : Decidable cfg.Complete :=
  inferInstanceAs (Decidable (_ ∧ _ ∧ _ ∧ _ ∧ _))

theorem GroupConfig.Complete.withDefaults {cfg : GroupConfig} (h : cfg.Complete)
    (hquantum : 0 < cfg.quantum) :
    cfg.withDefaults = cfg := by
  obtain ⟨hparallelism, hattempts, hbackoff, hinitial, hmax⟩ := h
  simp only [GroupConfig.withDefaults, if_neg (Int.not_le.mpr hparallelism),
    if_neg (Int.not_le.mpr hquantum), if_neg hattempts, if_neg hbackoff, if_neg hinitial,
    if_neg hmax]

inductive ConfigEntry
  | exact (key : Bytes)
  | wildcard (pattern : Bytes)
  deriving DecidableEq, Repr

def GroupConfig.entry (cfg : GroupConfig) : ConfigEntry :=
  if isGlobPattern cfg.key then .wildcard cfg.key else .exact cfg.key

namespace ConfigIdx

variable [PathMatch] {ci : ConfigIdx} {c : GroupConfig} {key : Bytes}

def entryOf (ci : ConfigIdx) (key : Bytes) : Option ConfigEntry :=
  if (ci.exact.lookup key).isSome then some (.exact key)
  else (ci.wildcards.find? fun c => c.matchesKey key).map fun c => .wildcard c.key

theorem find?_setWildcard {ws : List GroupConfig} (hmatches : c.matchesKey key = true)
    {w : GroupConfig} (h : (setWildcard c ws).find? (fun c => c.matchesKey key) = some w)
    (hkey : w.key = c.key) : w = c := by
  induction ws with
  | nil =>
    simp only [setWildcard, List.find?_cons, hmatches] at h
    exact (Option.some.inj h).symm
  | cons v ws ih =>
    rw [setWildcard] at h
    split at h
    · simp only [List.find?_cons, hmatches] at h
      exact (Option.some.inj h).symm
    · rename_i hne
      rw [List.find?_cons] at h
      split at h
      · cases h
        exact absurd hkey hne
      · exact ih h

theorem find?_setWildcard_key (key : Bytes) {c' : GroupConfig} (hkey : c'.key = c.key)
    (ws : List GroupConfig) :
    ((setWildcard c' ws).find? fun c => c.matchesKey key).map GroupConfig.key =
      ((setWildcard c ws).find? fun c => c.matchesKey key).map GroupConfig.key := by
  have hmatches : c'.matchesKey key = c.matchesKey key := by
    rw [GroupConfig.matchesKey, hkey, GroupConfig.matchesKey]
  induction ws with
  | nil =>
    simp only [setWildcard, List.find?_cons, hmatches]
    cases c.matchesKey key with
    | true => exact congrArg some hkey
    | false => rfl
  | cons w ws ih =>
    rw [setWildcard, setWildcard, hkey]
    split
    · simp only [List.find?_cons, hmatches]
      cases c.matchesKey key with
      | true => exact congrArg some hkey
      | false => rfl
    · rw [List.find?_cons, List.find?_cons]
      cases w.matchesKey key with
      | true => rfl
      | false => exact ih

theorem entryOf_set_congr (ci : ConfigIdx) (key : Bytes) {c' : GroupConfig}
    (hkey : c'.key = c.key) :
    (ci.set c').entryOf key = (ci.set c).entryOf key := by
  by_cases hglob : isGlobPattern c.key = true
  · have hfind :=
      congrArg (Option.map ConfigEntry.wildcard) (find?_setWildcard_key key hkey ci.wildcards)
    rw [Option.map_map, Option.map_map] at hfind
    simp only [entryOf, set, hkey, if_pos hglob]
    split
    · rfl
    · exact hfind
  · simp only [entryOf, set, hkey, if_neg hglob]
    have hsome : ((ci.exact.insert c.key c').lookup key).isSome =
        ((ci.exact.insert c.key c).lookup key).isSome := by
      by_cases hk : key = c.key
      · subst hk
        rw [AList.lookup_insert, AList.lookup_insert]
        rfl
      · rw [AList.lookup_insert_ne hk, AList.lookup_insert_ne hk]
    rw [hsome]

theorem resolve_set (happlies : c.AppliesTo key) (hentry : (ci.set c).entryOf key = some c.entry) :
    (ci.set c).resolve key = some { c with key := key } := by
  unfold GroupConfig.AppliesTo at happlies
  unfold GroupConfig.entry at hentry
  by_cases hglob : isGlobPattern c.key = true
  · rw [if_pos hglob] at happlies hentry
    rw [entryOf] at hentry
    split at hentry
    · cases hentry
    · rename_i hexact
      obtain ⟨w, hfind, hw⟩ := Option.map_eq_some_iff.mp hentry
      have hwildcards : (ci.set c).wildcards = setWildcard c ci.wildcards := by
        rw [set, if_pos hglob]
      have hfind' := hfind
      rw [hwildcards] at hfind'
      have heq : w = c := find?_setWildcard happlies hfind' (ConfigEntry.wildcard.inj hw)
      rw [resolve, Option.not_isSome_iff_eq_none.mp hexact]
      simp only
      rw [hfind, heq]
      rfl
  · rw [if_neg hglob] at happlies
    subst happlies
    rw [resolve, set, if_neg hglob]
    simp only [AList.lookup_insert]

theorem find?_setWildcard_other (ws : List GroupConfig) (hmatches : c.matchesKey key = false) :
    (setWildcard c ws).find? (fun c => c.matchesKey key) = ws.find? fun c => c.matchesKey key := by
  induction ws with
  | nil => simp [setWildcard, hmatches]
  | cons w ws ih =>
    rw [setWildcard]
    split
    · rename_i hkey
      have hw : w.matchesKey key = false := by
        rw [← hmatches, GroupConfig.matchesKey, hkey, GroupConfig.matchesKey]
      simp [hmatches, hw]
    · rw [List.find?_cons, List.find?_cons, ih]

theorem resolve_set_other (h : ¬ c.AppliesTo key) : (ci.set c).resolve key = ci.resolve key := by
  unfold GroupConfig.AppliesTo at h
  by_cases hglob : isGlobPattern c.key = true
  · rw [if_pos hglob, Bool.not_eq_true] at h
    rw [resolve, set, if_pos hglob]
    simp only
    rw [find?_setWildcard_other ci.wildcards h]
    rfl
  · rw [if_neg hglob] at h
    rw [resolve, set, if_neg hglob]
    simp only
    rw [AList.lookup_insert_ne (Ne.symm h)]
    rfl

theorem find?_eraseP_other {k : Bytes} {ws : List GroupConfig}
    (h : ∀ w, ws.find? (fun c => c.matchesKey k) = some w → w.key ≠ key) :
    (ws.eraseP fun c => c.key == key).find? (fun c => c.matchesKey k) = ws.find? fun c =>
      c.matchesKey k := by
  induction ws with
  | nil => rfl
  | cons w ws ih =>
    rw [List.find?_cons] at h
    rw [List.eraseP_cons]
    by_cases hkey : w.key = key
    · -- the erased pattern does not match, or it would be the first one that does
      have hw : w.matchesKey k = false := by
        cases hm : w.matchesKey k with
        | false => rfl
        | true =>
          rw [hm] at h
          exact absurd hkey (h w rfl)
      simp [hkey, hw]
    · have hne : (w.key == key) = false := beq_eq_false_iff_ne.mpr hkey
      rw [hne, cond_false, List.find?_cons, List.find?_cons]
      cases hm : w.matchesKey k with
      | true => rfl
      | false =>
        rw [hm] at h
        exact ih h

theorem resolve_del {k : Bytes} (hexact : ci.entryOf k ≠ some (.exact key))
    (hwildcard : ci.entryOf k ≠ some (.wildcard key)) :
    (ci.del key).1.resolve k = ci.resolve k := by
  unfold del
  split
  · rename_i hsome
    have hne : k ≠ key := by
      intro heq
      subst heq
      exact hexact (if_pos hsome)
    rw [resolve]
    simp only
    rw [AList.lookup_erase_ne hne]
    rfl
  · split
    · rw [resolve, resolve]
      simp only
      cases hk : ci.exact.lookup k with
      | some c => rfl
      | none =>
        simp only
        rw [find?_eraseP_other]
        intro w hw hkey
        apply hwildcard
        rw [entryOf, hk, hw, ← hkey]
        rfl
    · rfl

end ConfigIdx

inductive ConfigCall
  | setGroupConfig (cfg : GroupConfig)
  | deleteGroupConfig (key : Bytes)
  | publish (groupKey payload newID : Bytes) (now : Int)

namespace Queue

variable [PathMatch] {q q' : Queue}

def call (q : Queue) : ConfigCall → Except Panic Queue
  | .setGroupConfig cfg => .ok (q.setGroupConfig cfg)
  | .deleteGroupConfig key => .ok (q.deleteGroupConfig key).1
  | .publish groupKey payload newID now => do
    let (q, _) ← q.publish groupKey payload newID now
    return q

/-- A change that reaches the active groups as it reaches new ones: a config that is set is
complete, has the rate limit the active groups it applies to were made with and is the one they
resolve to; a config that is deleted is not used by any. -/
def Propagates (q : Queue) : ConfigCall → Prop
  | .setGroupConfig cfg => ∀ key g, q.groups.lookup key = some g → cfg.AppliesTo key →
    cfg.Complete ∧
      cfg.rateLimit.map RateLimitConfig.settings = g.limiter.map SlidingWindowLimiter.settings ∧
      (q.cfgIdx.set cfg).entryOf key = some cfg.entry
  | .deleteGroupConfig key => ∀ k g, q.groups.lookup k = some g →
    q.cfgIdx.entryOf k ≠ some (.exact key) ∧ q.cfgIdx.entryOf k ≠ some (.wildcard key)
  | .publish .. => True

def InStep (q : Queue) : Prop :=
  ∀ key g, q.groups.lookup key = some g → g.LikeNew (q.resolveConfig key)

theorem lookup_installConfig (q : Queue) (cfg : GroupConfig) (key : Bytes) :
    (q.installConfig cfg).groups.lookup key =
      (q.groups.lookup key).map fun g => if cfg.AppliesTo key then applyConfig cfg key g
        else g := by
  unfold installConfig GroupConfig.AppliesTo
  by_cases hglob : isGlobPattern cfg.key = true
  · simp only [if_pos hglob]
    rw [Map.lookup_mapTo]
  · simp only [if_neg hglob]
    cases hl : q.groups.lookup cfg.key with
    | none =>
      simp only
      cases hk : q.groups.lookup key with
      | none => rfl
      | some g =>
        have hne : cfg.key ≠ key := by
          intro heq
          subst heq
          cases hl.symm.trans hk
        rw [Option.map_some, if_neg hne]
    | some g =>
      simp only
      by_cases hkey : key = cfg.key
      · subst hkey
        rw [hl, Option.map_some, if_pos rfl]
        exact AList.lookup_insert _
      · rw [setGroup, AList.lookup_insert_ne hkey]
        cases q.groups.lookup key with
        | none => rfl
        | some g => rw [Option.map_some, if_neg (Ne.symm hkey)]

theorem InStep.installConfig {cfg : GroupConfig} (h : q.InStep) (hquantum : 0 < cfg.quantum)
    (hp : q.Propagates (.setGroupConfig cfg)) : (q.installConfig cfg).InStep := by
  intro key g' hg'
  rw [lookup_installConfig] at hg'
  obtain ⟨g, hg, rfl⟩ := Option.map_eq_some_iff.mp hg'
  have hbefore := h key g hg
  have hresolve : (q.installConfig cfg).resolveConfig key =
      ((q.cfgIdx.set cfg).resolve key).getD (defaultGroupConfig key) := by
    rw [resolveConfig, installConfig_cfgIdx]
  rw [hresolve]
  by_cases happlies : cfg.AppliesTo key
  · obtain ⟨hcomplete, hlimiter, hentry⟩ := hp key g hg happlies
    rw [if_pos happlies, ConfigIdx.resolve_set happlies hentry, Option.getD_some]
    have hdefaults : { cfg with key := key }.withDefaults = { cfg with key := key } :=
      (show GroupConfig.Complete { cfg with key := key } from hcomplete).withDefaults hquantum
    obtain ⟨hrate, -, -, hsettings⟩ := Group.likeNew_iff.mp hbefore
    refine Group.likeNew_iff.mpr ⟨?_, hdefaults.symm, by rw [hdefaults]; rfl, hlimiter.symm⟩
    -- the rate limit was accepted when the group was made
    intro r hr
    change cfg.rateLimit = some r at hr
    rw [← hlimiter, hr] at hsettings
    obtain ⟨r₀, hr₀, heq⟩ := Option.map_eq_some_iff.mp hsettings.symm
    have hmax : r₀.max = r.max := congrArg Prod.fst heq
    exact hmax ▸ hrate r₀ hr₀
  · rw [if_neg happlies, ConfigIdx.resolve_set_other happlies]
    exact hbefore

theorem InStep.setGroupConfig {cfg : GroupConfig} (h : q.InStep)
    (hp : q.Propagates (.setGroupConfig cfg)) :
    (q.setGroupConfig cfg).InStep := by
  unfold Queue.setGroupConfig
  split
  · refine h.installConfig Int.one_pos ?_
    intro key g hg happlies
    obtain ⟨hcomplete, hlimiter, hentry⟩ := hp key g hg happlies
    have hkey : { cfg with quantum := 1 }.key = cfg.key := rfl
    have hcongr := ConfigIdx.entryOf_set_congr q.cfgIdx key hkey
    exact ⟨hcomplete, hlimiter, hcongr.trans hentry⟩
  · rename_i hpos
    exact h.installConfig (Int.not_le.mp hpos) hp

theorem InStep.deleteGroupConfig {key : Bytes} (h : q.InStep)
    (hp : q.Propagates (.deleteGroupConfig key)) :
    (q.deleteGroupConfig key).1.InStep := by
  intro k g hg
  obtain ⟨hexact, hwildcard⟩ := hp k g hg
  have hresolve : (q.deleteGroupConfig key).1.resolveConfig k = q.resolveConfig k := by
    rw [resolveConfig, resolveConfig]
    exact congrArg (Option.getD · _) (ConfigIdx.resolve_del hexact hwildcard)
  rw [hresolve]
  exact h k g hg

theorem InStep.publish {groupKey payload newID : Bytes} {now : Int} {r : Except QueueError Message}
    (h : q.InStep) (hq : q.publish groupKey payload newID now = .ok (q', r)) : q'.InStep := by
  have hcfg : q'.cfgIdx = q.cfgIdx := publishWithID_cfgIdx hq
  obtain ⟨g₀, hg₀, hcases⟩ := publishWithID_ok hq
  have hlike : g₀.LikeNew (q.resolveConfig groupKey) := by
    rcases groupFor_cases hg₀ with hl | ⟨-, hnew⟩
    · exact h groupKey g₀ hl
    · exact ⟨g₀, hnew, rfl, rfl, rfl⟩
  intro key g hg
  rw [resolveConfig_congr hcfg]
  by_cases hkey : key = groupKey
  · subst hkey
    rcases hcases with ⟨-, -, -, rfl⟩ | ⟨-, keyIdx, rfl⟩
    · cases (lookup_setGroup q key g₀).symm.trans hg
      exact hlike
    · cases (AList.lookup_insert _).symm.trans hg
      exact hlike
  · apply h key g
    rcases hcases with ⟨-, -, -, rfl⟩ | ⟨-, keyIdx, rfl⟩
    · exact (lookup_setGroup_ne q g₀ hkey).symm.trans hg
    · exact (AList.lookup_insert_ne hkey).symm.trans hg

/-- In every sequence of calls whose changes reach the active groups, an active group and a new one
with the same key never differ. -/
theorem configs_reach_active_groups {name ns : Bytes}
    (h : Reachable Queue.call Queue.Propagates (newQueue name ns) q) : q.InStep := by
  apply h.invariant
  · intro key g hg
    cases hg
  · intro q a q' hq hguard hcall
    cases a with
    | setGroupConfig cfg =>
      cases hcall
      exact hq.setGroupConfig hguard
    | deleteGroupConfig key =>
      cases hcall
      exact hq.deleteGroupConfig hguard
    | publish groupKey payload newID now =>
      obtain ⟨⟨q₁, r⟩, hpub, hret⟩ := bind_ok.mp hcall
      cases hret
      exact hq.publish hpub

end Queue

def completeConfig (parallelism : Int) : GroupConfig :=
  { defaultGroupConfig (str "g") with parallelism := parallelism }

theorem configs_reach_active_groups_sample :
    ∃ (q : Queue) (g : Group), q.groups.lookup (str "g") = some g ∧ g.cfg.parallelism = 3 ∧
      g.LikeNew (@Queue.resolveConfig literalMatch q (str "g")) := by
  obtain ⟨q, g, hq, hg, hparallelism⟩ : ∃ (q : Queue) (g : Group),
      Reachable (@Queue.call literalMatch) (@Queue.Propagates literalMatch) (newQueue [] []) q ∧
        q.groups.lookup (str "g") = some g ∧ g.cfg.parallelism = 3 := by
    refine ⟨_, _, .step (.step (.step .start (a := .setGroupConfig (completeConfig 2)) ?_ rfl)
      (a := .publish (str "g") [] (str "a") 0) trivial rfl)
        (a := .setGroupConfig (completeConfig 3)) ?_ rfl, rfl, rfl⟩
    · intro key g hg
      cases hg
    · intro key g hg happlies
      have hkey : str "g" = key := happlies
      subst hkey
      cases hg
      exact ⟨by decide, rfl, by decide +kernel⟩
  exact ⟨q, g, hg, hparallelism, @Queue.configs_reach_active_groups literalMatch q []
    [] hq (str "g") g hg⟩

def partialConfig : GroupConfig :=
  { defaultGroupConfig (str "g") with
    parallelism := 5, retry := ⟨0, .unset, 0, 0⟩, rateLimit := some ⟨1, 10⟩ }

/-- An active group takes the unset retry fields as they are, gets no limiter, and keeps the config
after it is deleted. -/
theorem active_group_differs_from_new : ∃ q q' g g₀ g₁,
    run (@Queue.call literalMatch) (newQueue [] [])
      [.publish (str "g") [] (str "a") 0, .setGroupConfig partialConfig] = .ok q ∧
    q.groups.lookup (str "g") = some g ∧
      newGroup (@Queue.resolveConfig literalMatch q (str "g")) = .ok g₀ ∧
    g.cfg.retry.maxAttempts = 0 ∧ g₀.cfg.retry.maxAttempts = 3 ∧ g.limiter = none ∧
      g₀.limiter.isSome ∧ @Queue.call literalMatch q (.deleteGroupConfig (str "g")) = .ok q' ∧
    q'.groups.lookup (str "g") = some g ∧
      newGroup (@Queue.resolveConfig literalMatch q' (str "g")) = .ok g₁ ∧
    g.cfg.parallelism = 5 ∧ g₁.cfg.parallelism = 1 :=
  ⟨_, _, _, _, _, rfl, rfl, rfl, rfl, rfl, rfl, rfl, rfl, rfl, rfl, rfl, rfl⟩

end Octar
