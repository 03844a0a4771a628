import Octar.Broker.Replay

namespace Octar

open Go

def ExpiredWhileLeased (records : List EventType) : Prop :=
  (records.dropWhile (· ≠ .lease)).find? (fun t => t = .nack ∨ t = .expire) = some .expire

instance (records : List EventType) : Decidable (ExpiredWhileLeased records) :=
  inferInstanceAs (Decidable (_ = _))

theorem replayPhases_fixed {n : Int} {p : Option (Loc × Int)} {records : List EventType}
    (hfix : ∀ t ≠ .publish, replayPhase n t p = p) (hp : .publish ∉ records) :
    replayPhases n p records = p := by
  induction records with
  | nil => rfl
  | cons t records ih =>
    obtain ⟨ht, hrest⟩ := not_or.mp (List.mem_cons.not.mp hp)
    rw [replayPhases_cons, hfix t (Ne.symm ht)]
    exact ih hrest

theorem replayPhases_none {n : Int} {records : List EventType} (hp : .publish ∉ records) :
    replayPhases n none records = none :=
  replayPhases_fixed (fun t ht => by cases t <;> first | rfl | exact absurd rfl ht) hp

theorem replayPhases_delayed {n a : Int} {records : List EventType} (hp : .publish ∉ records) :
    replayPhases n (some (.delayed, a)) records = some (.delayed, a) :=
  replayPhases_fixed (fun t ht => by cases t <;> first | rfl | exact absurd rfl ht) hp

theorem replayPhases_processing {n : Int} {records : List EventType} (hp : .publish ∉ records)
    (ha : .ack ∉ records) (hn : records.count .nack < n) :
    replayPhases n (some (.processing, 0)) records ≠ none ↔
      records.find? (fun t => t = .nack ∨ t = .expire) ≠ some .expire := by
  induction records with
  | nil => simp
  | cons t records ih =>
    obtain ⟨hpt, hp'⟩ := not_or.mp (List.mem_cons.not.mp hp)
    obtain ⟨hat, ha'⟩ := not_or.mp (List.mem_cons.not.mp ha)
    cases t with
    | publish => exact absurd rfl hpt
    | ack => exact absurd rfl hat
    | lease | unknown =>
      rw [List.count_cons_of_ne (by simp)] at hn
      simpa [replayPhase] using ih hp' ha' hn
    | nack =>
      rw [List.count_cons_self] at hn
      have hlt : 1 < n := by omega
      simp [replayPhase, hlt, replayPhases_delayed hp']
    | expire => simp [replayPhase, replayPhases_none hp']

theorem replayPhases_ready {n : Int} {records : List EventType} (hp : .publish ∉ records)
    (ha : .ack ∉ records) (hn : records.count .nack < n) :
    replayPhases n (some (.ready, 0)) records ≠ none ↔ ¬ ExpiredWhileLeased records := by
  induction records with
  | nil => simp [ExpiredWhileLeased]
  | cons t records ih =>
    obtain ⟨hpt, hp'⟩ := not_or.mp (List.mem_cons.not.mp hp)
    obtain ⟨hat, ha'⟩ := not_or.mp (List.mem_cons.not.mp ha)
    cases t with
    | publish => exact absurd rfl hpt
    | ack => exact absurd rfl hat
    | lease =>
      rw [List.count_cons_of_ne (by simp)] at hn
      simpa [replayPhase, ExpiredWhileLeased] using replayPhases_processing hp' ha' hn
    | nack =>
      rw [List.count_cons_self] at hn
      simpa [replayPhase, ExpiredWhileLeased] using ih hp' ha' (by omega)
    | expire | unknown =>
      rw [List.count_cons_of_ne (by simp)] at hn
      simpa [replayPhase, ExpiredWhileLeased] using ih hp' ha' hn

theorem recordsOf_published {events : List (Event × Int)} (honce : PublishedOnce events)
    {e : Event × Int}
    (he : e ∈ events) (ht : e.1.type = .publish) :
    ∃ records, recordsOf e.1.group e.1.msgID events = .publish :: records ∧ .publish ∉ records := by
  induction events with
  | nil => cases he
  | cons e' events ih =>
    obtain ⟨hhead, honce⟩ := List.pairwise_cons.mp honce
    rcases List.mem_cons.mp he with rfl | he
    · refine ⟨recordsOf e.1.group e.1.msgID events, by simp [recordsOf, ht], ?_⟩
      intro hmem
      obtain ⟨e₂, he₂, hsome⟩ := List.mem_filterMap.mp hmem
      split at hsome
      · rename_i hk
        exact hhead e₂ he₂ (Option.some.inj hsome) hk.2.symm
      · cases hsome
    · obtain ⟨records, hr, hp⟩ := ih honce he
      refine ⟨records, ?_, hp⟩
      have hne : ¬ (e'.1.group = e.1.group ∧ e'.1.msgID = e.1.msgID) := fun h => hhead e he ht h.2
      rw [← hr]
      simp [recordsOf, hne]

def Unacked [PathMatch] (q : Queue) (events : List (Event × Int)) (e : Event) : Prop :=
  e.type = .publish ∧ .ack ∉ recordsOf e.group e.msgID events ∧
    (recordsOf e.group e.msgID events).count .nack < q.maxAttempts e.group

instance [PathMatch] (q : Queue) (events : List (Event × Int)) (e : Event) :
    Decidable (Unacked q events e) :=
  inferInstanceAs (Decidable (_ ∧ _ ∧ _))

theorem phase_of_empty {q : Queue} (h : q.groups = ∅) (key id : Bytes) : q.phase key id = none :=
  Queue.phase_none (by rw [h]; rfl) id

/-- A replay keeps every unacknowledged message exactly if it does not panic and no such message
has its lease expired in the log. -/
theorem replay_keeps_unacked_iff [PathMatch] {q : Queue} {events : List (Event × Int)}
    (hempty : q.groups = ∅)
    (hdepth : ∀ e ∈ events, e.1.type = .publish → (q.resolveConfig e.1.group).maxPending ≤ 0)
    (honce : PublishedOnce events) :
    (∃ q', replayEvents q events = .ok q' ∧
      ∀ e ∈ events, Unacked q events e.1 → q'.Holds e.1.group e.1.msgID) ↔
    (∀ e ∈ events, e.1.type = .publish → (q.resolveConfig e.1.group).RateOk) ∧
      ∀ e ∈ events, Unacked q events e.1 →
        ¬ ExpiredWhileLeased (recordsOf e.1.group e.1.msgID events) := by
  obtain ⟨hphase, htotal⟩ := replay_spec (.ofEmpty hempty) hdepth honce
    (fun e _ _ => phase_of_empty hempty _ _)
  have hkept : ∀ q', replayEvents q events = .ok q' → ∀ e ∈ events, Unacked q events e.1 →
      (q'.Holds e.1.group e.1.msgID ↔
        ¬ ExpiredWhileLeased (recordsOf e.1.group e.1.msgID events)) := by
    intro q' h e he hu
    obtain ⟨records, hr, hp⟩ := recordsOf_published honce he hu.1
    obtain ⟨-, hack, hnack⟩ := hu
    rw [hr, List.count_cons_of_ne (by simp)] at hnack
    rw [hr, List.mem_cons, not_or] at hack
    rw [Queue.holds_iff_phase, (hphase q' h).2.2, phase_of_empty hempty, hr, replayPhases_cons]
    exact replayPhases_ready hp hack.2 hnack
  constructor
  · rintro ⟨q', h, hholds⟩
    exact ⟨htotal.mp ⟨q', h⟩, fun e he hu => (hkept q' h e he hu).mp (hholds e he hu)⟩
  · rintro ⟨hrate, hexp⟩
    obtain ⟨q', h⟩ := htotal.mpr hrate
    exact ⟨q', h, fun e he hu => (hkept q' h e he hu).mpr (hexp e he hu)⟩

def unlimitedQueue : Queue :=
  @Queue.setGroupConfig literalMatch (newQueue [] [])
    { defaultGroupConfig (str "g") with maxPending := 0 }

def record (type : EventType) : Event × Int :=
  ({ type := type, ns := [], queue := [], group := str "g", msgID := str "a",
     payload := [], seq := 0, timestamp := 0 }, 0)

theorem replay_keeps_unacked_sample :
    ∃ q', @replayEvents literalMatch unlimitedQueue [record .publish, record .lease, record .nack] =
    .ok q' ∧
      ∀ e ∈ [record .publish, record .lease, record .nack],
        @Unacked literalMatch unlimitedQueue [record .publish, record .lease, record .nack] e.1 →
          q'.Holds e.1.group e.1.msgID :=
  (@replay_keeps_unacked_iff literalMatch unlimitedQueue _ rfl (by decide) (by decide)).mpr
    ⟨by decide, by decide⟩

/-- The message whose lease expired is unacknowledged, and gone after the replay. -/
theorem replay_drops_expired_lease :
    ∃ q', @replayEvents literalMatch unlimitedQueue
        [record .publish, record .lease, record .expire] = .ok q' ∧
      @Unacked literalMatch unlimitedQueue [record .publish, record .lease, record .expire]
        (record .publish).1 ∧
      ¬ q'.Holds (str "g") (str "a") := by
  refine ⟨_, rfl, by decide, ?_⟩
  rw [Queue.holds_iff_phase]
  decide

end Octar
