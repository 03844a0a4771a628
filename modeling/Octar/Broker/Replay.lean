import Octar.Broker.RecoveryLaws

namespace Octar

open Go

def recordsOf (key id : Bytes) (events : List (Event × Int)) : List EventType :=
  events.filterMap fun e => if e.1.group = key ∧ e.1.msgID = id then some e.1.type else none

def PublishedOnce (events : List (Event × Int)) : Prop :=
  events.Pairwise fun a b => b.1.type = .publish → a.1.msgID ≠ b.1.msgID

instance (events : List (Event × Int)) : Decidable (PublishedOnce events) :=
  inferInstanceAs (Decidable (List.Pairwise _ _))

def replayPhases (maxAttempts : Int) (p : Option (Loc × Int)) (records : List EventType) :
    Option (Loc × Int) := records.foldl (fun p t => replayPhase maxAttempts t p) p

@[simp] theorem replayPhases_nil (n : Int) (p : Option (Loc × Int)) : replayPhases n p [] = p := rfl

@[simp] theorem replayPhases_cons (n : Int) (p : Option (Loc × Int)) (t : EventType)
    (l : List EventType) :
    replayPhases n p (t :: l) = replayPhases n (replayPhase n t p) l := rfl

namespace Queue

variable [PathMatch]

theorem dispatch_effect {q : Queue} (hr : q.Restoring) (e : Event) (now : Int)
    (hdepth : e.type = .publish → (q.resolveConfig e.group).maxPending ≤ 0)
    (hfresh : e.type = .publish → q.phase e.group e.msgID = none) :
    (∀ q', q.dispatch e now = .ok q' → Effect restored q q' e.group e.msgID
        (replayPhase (q.maxAttempts e.group) e.type (q.phase e.group e.msgID))) ∧
      ((∃ q', q.dispatch e now = .ok q') ↔
        (e.type = .publish → (q.resolveConfig e.group).RateOk)) := by
  unfold dispatch
  cases ht : e.type with
  | publish =>
    obtain ⟨heff, htotal⟩ := onPublish_effect hr e now (hdepth ht) (hfresh ht)
    exact ⟨heff, htotal.trans ⟨fun h _ => h, fun h => h rfl⟩⟩
  | lease =>
    obtain ⟨q₁, b, hq₁, heff⟩ := replayLease_effect hr e.group e.msgID now
    have hok : q.onLease e now = .ok q₁ := bind_ok.mpr ⟨(q₁, b), hq₁, rfl⟩
    refine ⟨?_, fun _ h => (nomatch h), fun _ => ⟨q₁, hok⟩⟩
    intro q' h
    rw [hok] at h
    cases h
    exact heff
  | ack =>
    refine ⟨?_, fun _ h => (nomatch h), fun _ => ⟨_, rfl⟩⟩
    intro q' h
    cases h
    exact onACK_effect hr e
  | nack =>
    obtain ⟨q₁, hok, heff⟩ := onNACK_effect hr e now
    refine ⟨?_, fun _ h => (nomatch h), fun _ => ⟨q₁, hok⟩⟩
    intro q' h
    rw [hok] at h
    cases h
    exact heff
  | expire =>
    refine ⟨?_, fun _ h => (nomatch h), fun _ => ⟨_, rfl⟩⟩
    intro q' h
    cases h
    exact complete_effect hr e.group e.msgID
  | unknown code =>
    refine ⟨?_, fun _ h => (nomatch h), fun _ => ⟨_, rfl⟩⟩
    intro q' h
    cases h
    exact .same hr rfl

end Queue

theorem replay_spec [PathMatch] {q : Queue} {events : List (Event × Int)} (hr : q.Restoring)
    (hdepth : ∀ e ∈ events, e.1.type = .publish → (q.resolveConfig e.1.group).maxPending ≤ 0)
    (honce : PublishedOnce events)
    (hfresh : ∀ e ∈ events, e.1.type = .publish → q.phase e.1.group e.1.msgID = none) :
    (∀ q', replayEvents q events = .ok q' → q'.cfgIdx = q.cfgIdx ∧ q'.Restoring ∧
        ∀ key id, q'.phase key id =
          replayPhases (q.maxAttempts key) (q.phase key id) (recordsOf key id events)) ∧
      ((∃ q', replayEvents q events = .ok q') ↔
        ∀ e ∈ events, e.1.type = .publish → (q.resolveConfig e.1.group).RateOk) := by
  induction events generalizing q with
  | nil =>
    refine ⟨?_, fun _ e he => (nomatch he), fun _ => ⟨q, rfl⟩⟩
    intro q' h
    cases h
    exact ⟨rfl, hr, fun _ _ => rfl⟩
  | cons e events ih =>
    obtain ⟨hhead, hpub⟩ := List.pairwise_cons.mp honce
    obtain ⟨heff, htotal⟩ := Queue.dispatch_effect hr e.1 e.2 (hdepth e List.mem_cons_self)
      (hfresh e List.mem_cons_self)
    have hrest : ∀ q₁, q.dispatch e.1 e.2 = .ok q₁ → _ := fun q₁ h₁ =>
      have heff₁ := heff q₁ h₁
      ih (q := q₁) heff₁.all
        (fun e' he' => heff₁.resolveConfig _ ▸ hdepth e' (List.mem_cons_of_mem _ he')) hpub
        (fun e' he' ht => by
          rw [heff₁.phase, if_neg fun h => hhead e' he' ht h.2.symm]
          exact hfresh e' (List.mem_cons_of_mem _ he') ht)
    constructor
    · intro q' h
      obtain ⟨q₁, h₁, h₂⟩ := Run.run_cons_ok.mp h
      have heff₁ := heff q₁ h₁
      obtain ⟨hcfg, hres, hphase⟩ := (hrest q₁ h₁).1 q' h₂
      refine ⟨hcfg.trans heff₁.cfgIdx, hres, ?_⟩
      intro key id
      rw [hphase, heff₁.phase, Queue.maxAttempts, heff₁.resolveConfig]
      by_cases hk : e.1.group = key ∧ e.1.msgID = id
      · obtain ⟨rfl, rfl⟩ := hk
        simp [recordsOf, Queue.maxAttempts]
      · rw [if_neg fun h => hk ⟨h.1.symm, h.2.symm⟩]
        simp [recordsOf, hk, Queue.maxAttempts]
    · constructor
      · rintro ⟨q', h⟩ e' he' ht
        obtain ⟨q₁, h₁, h₂⟩ := Run.run_cons_ok.mp h
        rcases List.mem_cons.mp he' with rfl | he'
        · exact htotal.mp ⟨q₁, h₁⟩ ht
        · exact (heff q₁ h₁).resolveConfig _ ▸ (hrest q₁ h₁).2.mp ⟨q', h₂⟩ e' he' ht
      · intro hrate
        obtain ⟨q₁, h₁⟩ := htotal.mpr (hrate e List.mem_cons_self)
        obtain ⟨q', h₂⟩ := (hrest q₁ h₁).2.mpr fun e' he' ht =>
          (heff q₁ h₁).resolveConfig _ ▸ hrate e' (List.mem_cons_of_mem _ he') ht
        exact ⟨q', Run.run_cons_ok.mpr ⟨q₁, h₁, h₂⟩⟩

end Octar
