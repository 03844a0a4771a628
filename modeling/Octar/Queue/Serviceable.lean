import Octar.Queue.DrainRound

namespace Octar

open Go

def GroupConfig.Admits (cfg : GroupConfig) : Prop := ∀ r, cfg.rateLimit = some r → 1 ≤ r.max

theorem GroupConfig.Admits.rateOk {cfg : GroupConfig} (h : cfg.Admits) : cfg.RateOk := by
  intro r hr
  have hmax := h r hr
  omega

def LiveOp.configures : LiveOp → Bool
  | .setGroupConfig _ | .deleteGroupConfig _ => true
  | _ => false

theorem LiveOp.configure_eq {op : LiveOp} (h : op.configures = false) (ci : ConfigIdx) :
    op.configure ci = ci := by
  cases op with
  | setGroupConfig | deleteGroupConfig => cases h
  | _ => rfl

namespace Group

structure Serviceable (g : Group) : Prop where
  lined : g.Lined
  limiter : ∀ l ∈ g.limiter, 1 ≤ l.max

variable {g g' : Group} {ord : RangeOrder} {now : Int}

theorem Serviceable.ofNewGroup {cfg : GroupConfig} (hcfg : cfg.Admits) (h : newGroup cfg = .ok g) :
    g.Serviceable := by
  refine ⟨.ofNewGroup h, ?_⟩
  obtain ⟨limiter, hl, hret⟩ := bind_ok.mp h
  cases hret
  intro l hmem
  have hrate : cfg.withDefaults.rateLimit = cfg.rateLimit := rfl
  rw [hrate] at hl
  cases hr : cfg.rateLimit with
  | none =>
    rw [hr] at hl
    cases hl
    cases hmem
  | some r =>
    rw [hr, groupLimiter, newSlidingWindowLimiter] at hl
    split at hl
    · cases hl
    · cases hl
      cases hmem
      exact hcfg r hr

theorem Serviceable.frees (h : g.Serviceable) (hf : Frees g g') (hlined : g'.Lined) :
    g'.Serviceable :=
  ⟨hlined, hf.limiter ▸ h.limiter⟩

theorem Serviceable.promoteDelayed (h : g.Serviceable) (ord : RangeOrder) (now : Int) :
    (g.promoteDelayed ord now).1.Serviceable :=
  h.frees (promoteDelayed_frees g ord now) (h.lined.promoteDelayed ord now)

theorem lasting_serviceable : Lasting Serviceable where
  complete id h := h.frees (complete_frees _ id) (lasting_lined.complete id h.lined)
  fail h hfail := h.frees (fail_frees hfail) (h.lined.fail hfail)
  returnToPending id h := h.frees (returnToPending_frees _ id) (h.lined.returnToPending id)
  promoteDelayed ord now h := h.promoteDelayed ord now
  nextDispatchable h hd :=
  ⟨lasting_lined.nextDispatchable h.lined hd, h.lined.poll_max hd h.limiter⟩
  settings cfg deficit quantum h := ⟨lasting_lined.settings cfg deficit quantum h.lined, h.limiter⟩

theorem Serviceable.promoteNext_total (h : g.Serviceable) (ord : RangeOrder) (now : Int) :
    ∃ r, (g.promoteDelayed ord now).1.next now = .ok r := by
  have hpromoted := h.promoteDelayed ord now
  obtain ⟨r, hr⟩ := hpromoted.lined.poll_total (permit_total hpromoted.limiter now)
  exact ⟨_, bind_ok.mpr ⟨r, hr, rfl⟩⟩

end Group

namespace Queue

variable [PathMatch] {q q' : Queue} {op : LiveOp}

structure Serviceable (q : Queue) : Prop where
  groups : q.EachGroup Group.Serviceable
  attempts : q.Each fun x => 0 ≤ x.2.attempts
  admits : ∀ key, (q.resolveConfig key).Admits

omit [PathMatch] in
theorem attempts_closed : Closed fun x => 0 ≤ x.2.attempts where
  expired h := h
  due h := h
  leased _ h := h
  retried _ _ h := Int.add_nonneg h Int.one_nonneg

theorem EachGroup.exec_total (h : q.EachGroup Group.Serviceable)
    (hrate : ∀ key, (q.resolveConfig key).RateOk)
    (hattempts : q.EachGroup fun g => ∀ id m, g.processing.get? id = some m → -1 ≤ m.attempts)
    (op : LiveOp) :
    ∃ r, q.exec op = .ok r := by
  cases op with
  | publish key payload id now | publishWithID key id payload now =>
    obtain ⟨g, hg⟩ : ∃ g, q.groupFor key = .ok g := by
      unfold groupFor
      cases q.groups.lookup key with
      | some g => exact ⟨g, rfl⟩
      | none => exact Group.newGroup_total.mpr (hrate key)
    obtain ⟨r, hr⟩ := publishWithID_total hg id payload now
    exact ⟨_, bind_ok.mpr ⟨r, hr, rfl⟩⟩
  | tryDispatchOne key ord now =>
    rw [Queue.exec, tryDispatchOne]
    cases hl : q.groups.lookup key with
    | none => exact ⟨_, rfl⟩
    | some g =>
      obtain ⟨r, hr⟩ := (h key g hl).promoteNext_total ord now
      exact ⟨_, bind_ok.mpr ⟨_, bind_ok.mpr ⟨r, hr, rfl⟩, rfl⟩⟩
  | drainGroup key ord now =>
    rw [Queue.exec, drainGroup]
    cases hl : q.groups.lookup key with
    | none => exact ⟨_, rfl⟩
    | some g =>
      have hg := h key g hl
      obtain ⟨r, hr⟩ := hg.lined.drainRound_total hg.limiter ord now
      exact ⟨_, bind_ok.mpr ⟨_, bind_ok.mpr ⟨r, hr, rfl⟩, rfl⟩⟩
  | completeAndNext key id ord now =>
    rw [Queue.exec, completeAndNext]
    cases hl : q.groups.lookup key with
    | none => exact ⟨_, rfl⟩
    | some g =>
      have hcomplete := Group.lasting_serviceable.complete id (h key g hl)
      obtain ⟨r, hr⟩ := hcomplete.promoteNext_total ord now
      exact ⟨_, bind_ok.mpr ⟨_, bind_ok.mpr ⟨r, hr, rfl⟩, rfl⟩⟩
  | fail key id errMsg now =>
    rw [Queue.exec, fail]
    cases hl : q.groups.lookup key with
    | none => exact ⟨_, rfl⟩
    | some g =>
      obtain ⟨r, hr⟩ := g.fail_total id errMsg now (hattempts key g hl id)
      exact ⟨_, bind_ok.mpr ⟨_, bind_ok.mpr ⟨r, hr, rfl⟩, rfl⟩⟩
  | failAndNext key id errMsg ord now =>
    rw [Queue.exec, failAndNext]
    cases hl : q.groups.lookup key with
    | none => exact ⟨_, rfl⟩
    | some g =>
      obtain ⟨⟨g₁, dlq⟩, hf⟩ := g.fail_total id errMsg now (hattempts key g hl id)
      have hfail := Group.lasting_serviceable.fail (h key g hl) hf
      obtain ⟨r, hr⟩ := hfail.promoteNext_total ord now
      exact ⟨_, bind_ok.mpr ⟨_, bind_ok.mpr ⟨_, hf, bind_ok.mpr ⟨r, hr, rfl⟩⟩, rfl⟩⟩
  | complete | returnToPending | sweepExpiredLeases | setGroupConfig | deleteGroupConfig =>
    exact ⟨_, rfl⟩

theorem Serviceable.exec_total (h : q.Serviceable) (op : LiveOp) : ∃ r, q.exec op = .ok r := by
  apply h.groups.exec_total (fun key => (h.admits key).rateOk)
  intro key g hl id m hm
  have hattempts : 0 ≤ m.attempts := ((h.attempts key g hl).leases id m hm).2
  omega

theorem Serviceable.exec (h : q.Serviceable) (hop : op.configures = false) {r : Reply}
    (hexec : q.exec op = .ok (q', r)) : q'.Serviceable := by
  have hcfg : q'.cfgIdx = q.cfgIdx := (exec_cfgIdx hexec).trans (LiveOp.configure_eq hop _)
  refine ⟨?_, ?_, fun key => resolveConfig_congr hcfg key ▸ h.admits key⟩
  · apply h.groups.exec hexec
    · intro key g hnew
      exact .ofNewGroup (h.admits key) hnew
    · intro g m _ hg
      exact ⟨hg.lined.enqueue m, hg.limiter⟩
    · intro key a _ g g' os hg hact
      exact Group.lasting_serviceable.act hg hact
  · exact (h.attempts.exec attempts_closed (fun _ _ _ _ _ => Int.le_refl 0) hexec).1

end Queue

theorem WatchedRun.run_total [PathMatch] {s : WatchedRun} {ops : List LiveOp}
    (h : s.queue.Serviceable) (hops : ∀ op ∈ ops, op.configures = false) :
    ∃ s', run WatchedRun.step s ops = .ok s' := by
  have hall : ∃ s', run WatchedRun.step s ops = .ok s' ∧ s'.queue.Serviceable := by
    apply Run.total (motive := fun s : WatchedRun => s.queue.Serviceable) _ h
    intro s hs op hop
    obtain ⟨⟨q', r⟩, hexec⟩ := hs.exec_total op
    exact ⟨_, bind_ok.mpr ⟨_, hexec, rfl⟩, hs.exec (hops op hop) hexec⟩
  obtain ⟨s', hrun, -⟩ := hall
  exact ⟨s', hrun⟩

end Octar
