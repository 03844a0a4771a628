import Octar.Broker.Recovery
import Octar.Queue.Phase

namespace Octar

open Go

namespace Queue

theorem findFrom_some {id : Bytes} {l : List (Option Message)} {i j : Nat} {m : Message}
    (h : findFrom id l i = some (j, m)) : ∃ k, j = i + k ∧ l[k]? = some (some m) ∧ m.id = id := by
  induction l generalizing i with
  | nil => cases h
  | cons slot l ih =>
    have hnext : findFrom id l (i + 1) = some (j, m) →
        ∃ k, j = i + k ∧ (slot :: l)[k]? = some (some m) ∧ m.id = id := by
      intro h
      obtain ⟨k, hj, hk, hid⟩ := ih h
      exact ⟨k + 1, by omega, by simpa using hk, hid⟩
    cases slot with
    | none => exact hnext h
    | some m' =>
      simp only [findFrom] at h
      split at h
      · rename_i hid
        cases h
        exact ⟨0, rfl, rfl, hid⟩
      · exact hnext h

theorem findFrom_none {id : Bytes} {l : List (Option Message)} {i : Nat}
    (h : findFrom id l i = none) :
    ∀ m ∈ l.reduceOption, m.id ≠ id := by
  induction l generalizing i with
  | nil => simp
  | cons slot l ih =>
    cases slot with
    | none => simpa using ih h
    | some m' =>
      simp only [findFrom] at h
      split at h
      · cases h
      · rename_i hid
        intro m hm
        rw [List.reduceOption_cons_of_some, List.mem_cons] at hm
        rcases hm with rfl | hm
        · exact hid
        · exact ih h m hm

end Queue

theorem reduceOption_set_none {l : List (Option Message)} {i : Nat} {m : Message}
    (h : l[i]? = some (some m)) :
    (l.reduceOption : Multiset Message) =
      m ::ₘ ((l.set i none).reduceOption : Multiset Message) := by
  induction l generalizing i with
  | nil => simp at h
  | cons slot l ih =>
    cases i with
    | zero =>
      simp only [List.getElem?_cons_zero, Option.some.injEq] at h
      subst h
      simp
    | succ i =>
      simp only [List.getElem?_cons_succ] at h
      cases slot with
      | none => simpa using ih h
      | some m' =>
        simp only [List.reduceOption_cons_of_some, List.set_cons_succ, ← Multiset.cons_coe, ih h]
        exact Multiset.cons_swap _ _ _

namespace Group

theorem live_set {l : List (Option Message)} {head k : Nat} :
    (l.set (head + k) none).drop head = (l.drop head).set k none := by
  rw [List.drop_set, if_neg (by omega), Nat.add_sub_cancel_left]

theorem slots_clearReady {g : Group} {id : Bytes} {i : Nat} {m : Message}
    (h : Queue.findSlot g.ready g.readyHead id = some (i, m)) :
    m.id = id ∧ g.slots = (.ready, m) ::ₘ slots { g with ready := g.ready.set i none } := by
  obtain ⟨k, rfl, hk, hid⟩ := Queue.findFrom_some h
  refine ⟨hid, ?_⟩
  have hred := reduceOption_set_none hk
  rw [← live_set] at hred
  rw [slots, liveReady, hred, held_cons, Multiset.add_cons, Multiset.cons_add, Multiset.cons_add]
  rfl

structure Restored (g : Group) (cfg : GroupConfig) : Prop extends Wf g where
  cfg_eq : g.cfg = cfg.withDefaults
  rate_ok : cfg.RateOk
  urgent_empty : ∀ m, (.urgent, m) ∉ g.slots
  attempts_nonneg : ∀ x ∈ g.slots, 0 ≤ x.2.attempts

theorem Restored.findSlot_urgent {g : Group} {cfg : GroupConfig} (h : g.Restored cfg) (id : Bytes) :
    Queue.findSlot g.urgent g.urgentHead id = none := by
  cases hf : Queue.findSlot g.urgent g.urgentHead id with
  | none => rfl
  | some x =>
    obtain ⟨k, -, hk, -⟩ := Queue.findFrom_some hf
    have hm : x.2 ∈ g.liveUrgent.reduceOption :=
      List.reduceOption_mem_iff.mpr (List.mem_of_getElem? hk)
    exact absurd (by simpa [slots] using hm) (h.urgent_empty x.2)

theorem Restored.clearReady {g : Group} {cfg : GroupConfig} (h : g.Restored cfg) {id : Bytes}
    {i : Nat} {m : Message} (hf : Queue.findSlot g.ready g.readyHead id = some (i, m)) :
    Restored { g with ready := g.ready.set i none } cfg := by
  have hs := (slots_clearReady hf).2
  refine ⟨⟨h.urgentHead_le, ?_, h.urgent_full, h.allocated, h.keyed, ?_⟩, h.cfg_eq,
    h.rate_ok, ?_, ?_⟩
  · simpa using h.readyHead_le
  · have hd := h.distinct
    rw [ids, hs, Multiset.map_cons, Multiset.nodup_cons] at hd
    exact hd.2
  · intro m' hm'
    exact h.urgent_empty m' (hs ▸ Multiset.mem_cons_of_mem hm')
  · intro x hx
    exact h.attempts_nonneg x (hs ▸ Multiset.mem_cons_of_mem hx)

theorem Restored.findSlot_ready {g : Group} {cfg : GroupConfig} (h : g.Restored cfg) (id : Bytes) :
    Queue.findSlot g.ready g.readyHead id = none ↔ ∀ a, g.phase id ≠ some (.ready, a) := by
  constructor
  · intro hf a hp
    obtain ⟨m, hm, hid, -⟩ := (phase_eq_some h.distinct).mp hp
    have hm' : m ∈ g.liveReady.reduceOption := by simpa [slots] using hm
    exact Queue.findFrom_none hf m hm' hid
  · intro hp
    cases hf : Queue.findSlot g.ready g.readyHead id with
    | none => rfl
    | some x =>
      obtain ⟨hid, hs⟩ := slots_clearReady hf
      have hm : (.ready, x.2) ∈ g.slots := hs ▸ Multiset.mem_cons_self _ _
      exact absurd (hid ▸ phase_of_mem h.distinct hm) (hp _)

theorem Restored.lease {g : Group} {cfg : GroupConfig} (h : g.Restored cfg) {m : Message}
    (hfresh : m.id ∉ g.ids) (hattempts : 0 ≤ m.attempts) (now : Int) :
    ∃ g', g.lease m now = .ok (g', g.leased m now) ∧ g'.Restored cfg ∧
      g'.slots = (.processing, g.leased m now) ::ₘ g.slots := by
  have hlookup : g.processing.table.lookup m.id = none := by
    cases hl : g.processing.table.lookup m.id with
    | none => rfl
    | some m' => exact absurd (h.keyed _ _ hl ▸ mem_ids_of_lookup hl) hfresh
  have hslots :
      slots { g with processing := some (g.processing.table.insert m.id (g.leased m now)) } =
      (.processing, g.leased m now) ::ₘ g.slots := by
    rw [slots, inFlight, NilMap.table_some, Map.values_insert hlookup, held_cons, Multiset.add_cons]
    rfl
  refine ⟨_, ?_, ?_, hslots⟩
  · rw [Group.lease, NilMap.set_ok h.allocated]
    rfl
  · refine ⟨⟨h.urgentHead_le, h.readyHead_le, h.urgent_full, rfl, ?_, ?_⟩, h.cfg_eq,
      h.rate_ok, ?_, ?_⟩
    · intro id m' hl
      by_cases hid : id = m.id
      · subst hid
        rw [NilMap.table_some, AList.lookup_insert] at hl
        cases hl
        rfl
      · rw [NilMap.table_some, AList.lookup_insert_ne hid] at hl
        exact h.keyed id m' hl
    · rw [ids, hslots, Multiset.map_cons]
      exact Multiset.nodup_cons.mpr ⟨hfresh, h.distinct⟩
    · intro m' hm'
      rw [hslots] at hm'
      exact h.urgent_empty m' (by simpa using hm')
    · intro x hx
      rw [hslots, Multiset.mem_cons] at hx
      rcases hx with rfl | hx
      · exact hattempts
      · exact h.attempts_nonneg x hx

theorem Restored.enqueue {g : Group} {cfg : GroupConfig} (h : g.Restored cfg) {m : Message}
    (hfresh : m.id ∉ g.ids) (hattempts : 0 ≤ m.attempts) : (g.enqueue m).Restored cfg := by
  have hs : (g.enqueue m).slots = (.ready, m) ::ₘ g.slots := slots_appendReady g m h.readyHead_le
  refine ⟨enqueue_wf h.toWf hfresh, h.cfg_eq, h.rate_ok, ?_, ?_⟩
  · intro m' hm'
    rw [hs] at hm'
    exact h.urgent_empty m' (by simpa using hm')
  · intro x hx
    rw [hs, Multiset.mem_cons] at hx
    rcases hx with rfl | hx
    · exact hattempts
    · exact h.attempts_nonneg x hx

theorem Restored.release {g g' : Group} {cfg : GroupConfig} {m : Message}
    {kept : Option (Loc × Message)}
    (h : g.Restored cfg) (hr : Releases g g' m kept)
    (hk : ∀ x ∈ kept, x.1 ≠ .urgent ∧ 0 ≤ x.2.attempts) : g'.Restored cfg := by
  obtain ⟨rest, hg, hg'⟩ := hr.slots
  have hmem : ∀ x ∈ g'.slots, x ∈ kept ∨ x ∈ g.slots := by
    intro x hx
    rw [hg', Multiset.mem_add] at hx
    rcases hx with hx | hx
    · exact .inl (by simpa using hx)
    · exact .inr (hg ▸ Multiset.mem_cons_of_mem hx)
  refine ⟨hr.wf, hr.cfg.trans h.cfg_eq, h.rate_ok, ?_, ?_⟩
  · intro m' hm'
    rcases hmem _ hm' with hx | hx
    · exact (hk _ hx).1 rfl
    · exact h.urgent_empty m' hx
  · intro x hx
    rcases hmem x hx with hx | hx
    · exact (hk x hx).2
    · exact h.attempts_nonneg x hx

theorem Releases.phase {g g' : Group} {m : Message} {kept : Option (Loc × Message)}
    (h : Releases g g' m kept)
    (hw : g.Wf) (hk : ∀ x ∈ kept, x.2.id = m.id) (id : Bytes) :
    g'.phase id = if id = m.id then kept.map fun x => (x.1, x.2.attempts) else g.phase id := by
  obtain ⟨rest, hg, hg'⟩ := h.slots
  exact phase_of_move kept hg hg' hw.distinct h.wf.distinct hk id

theorem Releases.phase_old {g g' : Group} {m : Message} {kept : Option (Loc × Message)}
    (h : Releases g g' m kept) (hw : g.Wf) : g.phase m.id = some (.processing, m.attempts) := by
  obtain ⟨rest, hg, -⟩ := h.slots
  exact phase_of_mem hw.distinct (hg ▸ Multiset.mem_cons_self _ _)

theorem fail_releases {g g' : Group} {id errMsg : Bytes} {now : Int} {dlq : Option Message}
    (hw : g.Wf) (h : g.fail id errMsg now = .ok (g', dlq)) :
    g.processing.get? id = none ∧ g' = g ∨
      ∃ m kept, m.id = id ∧ Releases g g' m kept ∧
        (∀ x ∈ kept, x.1 = .delayed ∧ x.2.id = m.id ∧ x.2.groupKey = m.groupKey ∧
          x.2.attempts = m.attempts + 1) ∧
        (kept.map fun x => (x.1, x.2.attempts)) =
          if m.attempts + 1 < g.cfg.retry.maxAttempts then some (.delayed, m.attempts + 1)
          else none := by
  rcases fail_spec hw h with hnone | ⟨m, hid, ⟨hlt, delay, -, hrel⟩ | ⟨hge, hrel⟩⟩
  · exact .inl hnone
  · exact .inr ⟨m, _, hid, hrel, by simp [retried], by simp [retried, hlt]⟩
  · exact .inr ⟨m, none, hid, hrel, by simp, by simp [Int.not_lt.mpr hge]⟩

theorem Restored.fail_total {g : Group} {cfg : GroupConfig} (h : g.Restored cfg) (id errMsg : Bytes)
    (now : Int) : ∃ g' dlq, g.fail id errMsg now = .ok (g', dlq) := by
  obtain ⟨⟨g', dlq⟩, hf⟩ := Group.fail_total g id errMsg now (by
    intro m hl
    have hm : 0 ≤ m.attempts :=
      h.attempts_nonneg (.processing, m) (mem_inFlight.mp (Map.mem_values.mpr ⟨id, hl⟩))
    omega)
  exact ⟨g', dlq, hf⟩

theorem get?_eq_none_iff {g : Group} (h : g.Wf) (id : Bytes) :
    g.processing.get? id = none ↔ ∀ a, g.phase id ≠ some (.processing, a) := by
  constructor
  · intro hn a hp
    obtain ⟨m, hm, rfl, -⟩ := (phase_eq_some h.distinct).mp hp
    have hl : g.processing.get? m.id = some m := (mem_slots_processing h.keyed).mp hm
    rw [hn] at hl
    cases hl
  · intro hp
    cases hl : g.processing.get? id with
    | none => rfl
    | some m =>
      obtain rfl := h.keyed id m hl
      exact absurd (phase_of_mem h.distinct ((mem_slots_processing h.keyed).mpr hl)) (hp _)

end Group

/-- What the handlers make of one message, as a function of where it is.  A message in `delayed`
stays there for good: neither `ReplayLease` nor `RemoveMessage` looks there. -/
def replayPhase (maxAttempts : Int) : EventType → Option (Loc × Int) → Option (Loc × Int)
  | .publish, _ => some (.ready, 0)
  | .lease, some (.ready, a) => some (.processing, a)
  | .ack, some (.ready, _) => none
  | .ack, some (.processing, _) => none
  | .nack, some (.processing, a) => if a + 1 < maxAttempts then some (.delayed, a + 1) else none
  | .expire, some (.processing, _) => none
  | _, p => p

theorem replayPhase_expire_other {n : Int} {p : Option (Loc × Int)}
    (h : ∀ a, p ≠ some (.processing, a)) :
    replayPhase n .expire p = p := by
  match p with
  | none => rfl
  | some (.processing, a) => exact absurd rfl (h a)
  | some (.urgent, _) | some (.delayed, _) | some (.ready, _) => rfl

theorem replayPhase_ack_other {n : Int} {p : Option (Loc × Int)} (hr : ∀ a, p ≠ some (.ready, a))
    (hp : ∀ a, p ≠ some (.processing, a)) : replayPhase n .ack p = p := by
  match p with
  | none => rfl
  | some (.ready, a) => exact absurd rfl (hr a)
  | some (.processing, a) => exact absurd rfl (hp a)
  | some (.urgent, _) | some (.delayed, _) => rfl

theorem replayPhase_ack_expire (n n' n'' : Int) (p : Option (Loc × Int)) :
    replayPhase n .ack (replayPhase n' .expire p) = replayPhase n'' .ack p := by
  match p with
  | none => rfl
  | some (.urgent, _) | some (.ready, _) | some (.delayed, _) | some (.processing, _) => rfl

theorem replayPhase_nack_other {n : Int} {p : Option (Loc × Int)}
    (h : ∀ a, p ≠ some (.processing, a)) :
    replayPhase n .nack p = p := by
  match p with
  | none => rfl
  | some (.processing, a) => exact absurd rfl (h a)
  | some (.urgent, _) | some (.delayed, _) | some (.ready, _) => rfl

theorem replayPhase_lease_other {n : Int} {p : Option (Loc × Int)} (h : ∀ a, p ≠ some (.ready, a)) :
    replayPhase n .lease p = p := by
  match p with
  | none => rfl
  | some (.ready, a) => exact absurd rfl (h a)
  | some (.urgent, _) | some (.delayed, _) | some (.processing, _) => rfl

namespace Queue

abbrev restored (_ : Bytes) (cfg : GroupConfig) (g : Group) : Prop := g.Restored cfg

theorem restored_publishes : Publishes restored where
  wf h := h.toWf
  cfg_eq h := h.cfg_eq
  rate_ok h := h.rate_ok
  new h := by
    obtain ⟨hcfg, hslots, -, hw⟩ := Group.newGroup_ok h
    exact ⟨hw, hcfg, Group.newGroup_total.mp ⟨_, h⟩, by simp [hslots], by simp [hslots]⟩
  enqueue h hid hattempts _ := h.enqueue hid (Int.le_of_eq hattempts.symm)

abbrev Restoring [PathMatch] (q : Queue) : Prop := q.All restored

def maxAttempts [PathMatch] (q : Queue) (key : Bytes) : Int :=
  (q.resolveConfig key).withDefaults.retry.maxAttempts

variable [PathMatch]

theorem replayLease_effect {q : Queue} (hr : q.Restoring) (key id : Bytes) (now : Int) :
    ∃ q' b, q.replayLease key id now = .ok (q', b) ∧
      Effect restored q q' key id (replayPhase (q.maxAttempts key) .lease (q.phase key id)) := by
  unfold replayLease
  cases hl : q.groups.lookup key with
  | none =>
    exact ⟨q, false, rfl, .same hr (by rw [phase_none hl]; rfl)⟩
  | some g =>
    have hg := hr key g hl
    simp only [hg.findSlot_urgent]
    rw [phase_some hl]
    cases hf : findSlot g.ready g.readyHead id with
    | none =>
      refine ⟨q, false, rfl, .same hr ?_⟩
      rw [phase_some hl]
      exact replayPhase_lease_other ((hg.findSlot_ready id).mp hf)
    | some x =>
      obtain ⟨i, m⟩ := x
      obtain ⟨rfl, hs⟩ := Group.slots_clearReady hf
      have hclear := hg.clearReady hf
      have hmem : (.ready, m) ∈ g.slots := hs ▸ Multiset.mem_cons_self _ _
      have hfresh : m.id ∉ Group.ids { g with ready := g.ready.set i none } := by
        have hd := hg.distinct
        rw [Group.ids, hs, Multiset.map_cons, Multiset.nodup_cons] at hd
        exact hd.1
      obtain ⟨g', hlease, hg', hs'⟩ := hclear.lease hfresh (hg.attempts_nonneg _ hmem) now
      simp only [hlease]
      refine ⟨_, true, rfl, .ofGroup hr rfl rfl hg' ?_⟩
      intro i'
      rw [phase_some hl, Group.phase_of_mem hg.distinct hmem]
      exact Group.phase_of_move (some (.processing, g.leased m now)) hs
        (hs'.trans (toList_some_add _ _).symm) hg.distinct hg'.distinct (by simp) i'

theorem complete_effect {q : Queue} (hr : q.Restoring) (key id : Bytes) :
    Effect restored q (q.complete key id).1 key id
      (replayPhase (q.maxAttempts key) .expire (q.phase key id)) := by
  obtain ⟨hl, heq⟩ | ⟨g, hl, heq⟩ := complete_eq q key id
  all_goals rw [heq]
  · rw [phase_none hl]
    exact .same hr (phase_none hl id).symm
  · have hg := hr key g hl
    rw [phase_some hl]
    rcases Group.complete_spec hg.toWf id with ⟨hnone, heq⟩ | ⟨m, rfl, hrel, -⟩
    · rw [heq]
      exact .ofSelf hr hl rfl rfl
        (replayPhase_expire_other ((Group.get?_eq_none_iff hg.toWf id).mp hnone))
    · rw [hrel.phase_old hg.toWf]
      refine .ofGroup hr rfl rfl (hg.release hrel (by simp)) ?_
      intro i
      rw [phase_some hl]
      exact hrel.phase hg.toWf (by simp) i

theorem removeMessage_effect {q : Queue} (hr : q.Restoring) (key id : Bytes) :
    Effect restored q (q.removeMessage key id).1 key id
      (replayPhase (q.maxAttempts key) .ack (q.phase key id)) := by
  unfold removeMessage
  cases hl : q.groups.lookup key with
  | none => exact .same hr (by rw [phase_none hl]; rfl)
  | some g =>
    have hg := hr key g hl
    simp only [hg.findSlot_urgent]
    rw [phase_some hl]
    cases hf : findSlot g.ready g.readyHead id with
    | some x =>
      obtain ⟨rfl, hs⟩ := Group.slots_clearReady hf
      have hmem : (.ready, x.2) ∈ g.slots := hs ▸ Multiset.mem_cons_self _ _
      have hclear := hg.clearReady hf
      rw [Group.phase_of_mem hg.distinct hmem]
      refine .ofGroup hr rfl rfl hclear ?_
      intro i
      rw [phase_some hl]
      exact Group.phase_of_move none hs (by simp) hg.distinct hclear.distinct (by simp) i
    | none =>
      have hready := (hg.findSlot_ready id).mp hf
      cases hp : g.processing.get? id with
      | some m =>
        obtain rfl := hg.keyed id m hp
        have hrel := Group.release_dropped hg.toWf hp
        rw [hrel.phase_old hg.toWf]
        refine .ofGroup hr rfl rfl (hg.release hrel (by simp)) ?_
        intro i
        rw [phase_some hl]
        exact hrel.phase hg.toWf (by simp) i
      | none =>
        have hprocessing := (Group.get?_eq_none_iff hg.toWf id).mp hp
        exact .same hr ((replayPhase_ack_other hready hprocessing).trans (phase_some hl id).symm)

theorem complete_ok_phase {q q' : Queue} (hr : q.Restoring) {key id : Bytes} {u : Unit}
    (h : q.complete key id = (q', .ok u)) : ∃ a, q.phase key id = some (.processing, a) := by
  unfold complete at h
  cases hl : q.groups.lookup key with
  | none =>
    rw [hl] at h
    cases h
  | some g =>
    have hg := hr key g hl
    rw [phase_some hl]
    rcases Group.complete_spec hg.toWf id with ⟨-, heq⟩ | ⟨m, rfl, hrel, -⟩
    · simp only [hl, heq] at h
      cases h
    · exact ⟨m.attempts, hrel.phase_old hg.toWf⟩

theorem onACK_effect {q : Queue} (hr : q.Restoring) (e : Event) :
    Effect restored q (q.onACK e) e.group e.msgID
      (replayPhase (q.maxAttempts e.group) .ack (q.phase e.group e.msgID)) := by
  have hc := complete_effect hr e.group e.msgID
  unfold onACK
  split
  · rename_i heq
    obtain ⟨a, hp⟩ := complete_ok_phase hr heq
    rw [heq] at hc
    rw [hp] at hc ⊢
    exact hc
  · rename_i q₁ err heq
    rw [heq] at hc
    have hremove := removeMessage_effect hc.all e.group e.msgID
    rw [hc.phase, if_pos ⟨rfl, rfl⟩, replayPhase_ack_expire _ _ (q.maxAttempts e.group)] at hremove
    exact hc.trans hremove

theorem onNACK_effect {q : Queue} (hr : q.Restoring) (e : Event) (now : Int) :
    ∃ q', q.onNACK e now = .ok q' ∧ Effect restored q q' e.group e.msgID
      (replayPhase (q.maxAttempts e.group) .nack (q.phase e.group e.msgID)) := by
  unfold onNACK fail
  cases hl : q.groups.lookup e.group with
  | none =>
    have hremove : q.removeMessage e.group e.msgID = (q, false) := by simp only [removeMessage, hl]
    refine ⟨q, ?_, .same hr (by rw [phase_none hl]; rfl)⟩
    change Except.ok (q.removeMessage e.group e.msgID).1 = .ok q
    rw [hremove]
  | some g =>
    have hg := hr e.group g hl
    have hmax : q.maxAttempts e.group = g.cfg.retry.maxAttempts := by rw [maxAttempts, hg.cfg_eq]
    obtain ⟨g', dlq, hf⟩ := hg.fail_total e.msgID (str "replayed NACK") now
    refine ⟨q.setGroup e.group g', ?_, ?_⟩
    · simp only [hf]
      rfl
    rw [phase_some hl, hmax]
    rcases Group.fail_releases hg.toWf hf with ⟨hnone, rfl⟩ | ⟨m, kept, hid, hrel, hkept, hphase⟩
    · exact .ofSelf hr hl rfl rfl
        (replayPhase_nack_other ((Group.get?_eq_none_iff hg.toWf _).mp hnone))
    · have hm : 0 ≤ m.attempts := by
        obtain ⟨rest, hs, -⟩ := hrel.slots
        exact hg.attempts_nonneg (.processing, m) (hs ▸ Multiset.mem_cons_self _ _)
      have hg' : g'.Restored (q.resolveConfig e.group) := by
        apply hg.release hrel
        intro x hx
        obtain ⟨hloc, -, -, hattempts⟩ := hkept x hx
        exact ⟨by simp [hloc], by omega⟩
      rw [← hid, hrel.phase_old hg.toWf]
      refine .ofGroup hr rfl rfl hg' ?_
      intro i
      rw [phase_some hl, replayPhase, ← hphase]
      exact hrel.phase hg.toWf (fun x hx => (hkept x hx).2.1) i

theorem onPublish_effect {q : Queue} (hr : q.Restoring) (e : Event) (now : Int)
    (hdepth : (q.resolveConfig e.group).maxPending ≤ 0) (hfresh : q.phase e.group e.msgID = none) :
    (∀ q', q.onPublish e now = .ok q' → Effect restored q q' e.group e.msgID (some (.ready, 0))) ∧
      ((∃ q', q.onPublish e now = .ok q') ↔ (q.resolveConfig e.group).RateOk) := by
  obtain ⟨heff, htotal⟩ := publishWithID_effect restored_publishes hr e.payload now hdepth hfresh
  constructor
  · intro q' h
    obtain ⟨⟨q₁, r⟩, hp, hret⟩ := bind_ok.mp h
    cases hret
    exact (heff q' r hp).2
  · rw [← htotal]
    constructor
    · rintro ⟨q', h⟩
      obtain ⟨r, hp, -⟩ := bind_ok.mp h
      exact ⟨r, hp⟩
    · rintro ⟨r, hp⟩
      exact ⟨r.1, bind_ok.mpr ⟨r, hp, rfl⟩⟩

end Queue

end Octar
