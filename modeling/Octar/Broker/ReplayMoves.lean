import Octar.Broker.RecoveryLaws
import Octar.Broker.RestoreLaws
import Octar.Broker.SnapshotCrash
import Octar.Queue.Moves

namespace Octar

open Go

namespace Group

variable {P : Loc × Message → Prop} {g g' : Group}

theorem mem_live_set {l : List (Option Message)} {head i : Nat} {m : Message}
    (h : some m ∈ (l.set i none).drop head) : some m ∈ l.drop head := by
  rw [List.drop_set] at h
  split at h
  · exact h
  · rcases List.mem_or_eq_of_mem_set h with h | h
    · exact h
    · cases h

theorem Each.clearUrgent (h : g.Each P) (i : Nat) :
    { g with urgent := g.urgent.set i none }.Each P :=
  .ofContainers h.readyHead_le (fun m hm => h.urgent m (mem_live_set hm)) h.ready h.delayed h.leases

theorem Each.clearReady (h : g.Each P) (i : Nat) : { g with ready := g.ready.set i none }.Each P :=
  .ofContainers (by simpa using h.readyHead_le) h.urgent
    (fun m hm => h.ready m (mem_live_set hm)) h.delayed h.leases

theorem Each.lease (h : g.Each P) {m m' : Message} {now : Int}
    (hm : P (.processing, g.leased m now)) (hlease : g.lease m now = .ok (g', m')) : g'.Each P := by
  obtain ⟨-, -, rfl⟩ := lease_ok hlease
  refine .ofContainers h.readyHead_le h.urgent h.ready h.delayed ?_
  intro id m' hl
  rcases lookup_insert hl with hl | ⟨rfl, rfl⟩
  · exact h.leases id m' hl
  · exact ⟨rfl, hm⟩

theorem Each.ofImport {g₀ : Group} {gs : GroupState} (hurgent : gs.urgentMsgs = [])
    (hready : ∀ m ∈ gs.readyMsgs, P (.ready, m)) (hdelayed : ∀ m ∈ gs.delayedMsgs, P (.delayed, m))
    (hprocessing : ∀ id m, gs.processingMsgs.table.lookup id = some m → m.id = id ∧
      P (.processing, m)) :
    (importedGroup g₀ gs).Each P := by
  refine .ofContainers (Nat.zero_le _) ?_ ?_ ?_ hprocessing
  · intro m hm
    simp [importedGroup, Group.importState, liveUrgent, hurgent] at hm
  · intro m hm
    exact hready m (by simpa [importedGroup, Group.importState, liveReady] using hm)
  · intro m hm
    exact hdelayed m ((Heap.init_perm delayedLess gs.delayedMsgs).mem_iff.mp hm)

end Group

theorem restoreGroup_each {P : Loc × Message → Prop} {queueName ns : Bytes} {now : Int}
    {gs : GroupSnapshot}
    (h : ∀ ms ∈ gs.messages, ∀ loc, P (loc, messageForRecovery queueName ns gs.key ms))
    (g₀ : Group) :
    (importedGroup g₀ (restoreGroup queueName ns now gs)).Each P := by
  have hmem : ∀ m ∈ gs.messages.map (messageForRecovery queueName ns gs.key),
      ∀ loc, P (loc, m) := by
    intro m hm loc
    obtain ⟨ms, hms, rfl⟩ := List.mem_map.mp hm
    exact h ms hms loc
  rw [restoreGroup, foldl_restoreMessage]
  refine .ofImport rfl ?_ ?_ ?_
  · intro m hm
    exact hmem m (List.mem_of_mem_filter (List.nil_append _ ▸ hm)) _
  · intro m hm
    exact hmem m (List.mem_of_mem_filter (List.nil_append _ ▸ hm)) _
  · intro id m hl
    rcases lookup_foldl_restoreLease hl with hl | ⟨hm, hid, -⟩
    · cases hl
    · exact ⟨hid, hmem m hm _⟩

namespace Queue

variable {P : Loc × Message → Prop} {q q' : Queue}

theorem findSlot_mem {slots : List (Option Message)} {head i : Nat} {id : Bytes} {m : Message}
    (h : findSlot slots head id = some (i, m)) : some m ∈ slots.drop head := by
  obtain ⟨k, -, hk, -⟩ := findFrom_some h
  exact List.mem_of_getElem? hk

theorem Each.removeMessage (h : q.Each P) (key id : Bytes) : (q.removeMessage key id).1.Each P := by
  unfold Queue.removeMessage
  split
  · exact h
  · rename_i g hl
    have hg := h key g hl
    split
    · exact h.setGroup key (hg.clearUrgent _)
    · split
      · exact h.setGroup key (hg.clearReady _)
      · split
        · exact h.setGroup key (hg.delete id)
        · exact h

theorem Each.onACK (h : q.Each P) (e : Event) : (q.onACK e).Each P := by
  have hc := h.complete e.group e.msgID
  unfold Queue.onACK
  split
  all_goals
    rename_i heq
    rw [heq] at hc
  · exact hc
  · exact hc.removeMessage _ _

theorem Each.replayLease (hP : Closed P) (h : q.Each P) {key id : Bytes} {now : Int} {found : Bool}
    (hq : q.replayLease key id now = .ok (q', found)) : q'.Each P := by
  unfold Queue.replayLease at hq
  split at hq
  · cases hq
    exact h
  · rename_i g hl
    have hg := h key g hl
    split at hq
    · rename_i i m hf
      obtain ⟨⟨g', m'⟩, hlease, hret⟩ := bind_ok.mp hq
      cases hret
      have hm := hg.slots _ (Group.mem_slots_urgent.mpr (findSlot_mem hf))
      exact h.setGroup key ((hg.clearUrgent i).lease (hP.leased _ hm) hlease)
    · split at hq
      · rename_i i m hf
        obtain ⟨⟨g', m'⟩, hlease, hret⟩ := bind_ok.mp hq
        cases hret
        have hm := hg.slots _ (Group.mem_slots_ready.mpr (findSlot_mem hf))
        exact h.setGroup key ((hg.clearReady i).lease (hP.leased _ hm) hlease)
      · cases hq
        exact h

theorem Each.onNACK (hP : Closed P) (h : q.Each P) {e : Event} {now : Int}
    (hq : q.onNACK e now = .ok q') : q'.Each P := by
  obtain ⟨⟨q₁, r⟩, hf, hret⟩ := bind_ok.mp hq
  have hq₁ := h.fail hP hf
  cases r with
  | ok target =>
    cases hret
    exact hq₁
  | error err =>
    cases hret
    exact hq₁.removeMessage _ _

variable [PathMatch]

theorem Each.dispatch (hP : Closed P) (h : q.Each P) {e : Event} {now : Int}
    (hpub : e.type = .publish → P (.ready, newMessageAt q.name q.ns e.group e.payload now e.msgID))
    (hq : q.dispatch e now = .ok q') : q'.Each P := by
  unfold Queue.dispatch at hq
  split at hq
  · rename_i htype
    obtain ⟨⟨q₁, r⟩, hp, hret⟩ := bind_ok.mp hq
    cases hret
    exact h.publishWithID (hpub htype) hp
  · obtain ⟨⟨q₁, found⟩, hlease, hret⟩ := bind_ok.mp hq
    cases hret
    exact h.replayLease hP hlease
  · cases hq
    exact h.onACK e
  · exact h.onNACK hP hq
  · cases hq
    exact h.complete _ _
  · cases hq
    exact h

theorem Each.replayEvents (hP : Closed P) (h : q.Each P) {events : List (Event × Int)}
    (hpub : ∀ e ∈ events, e.1.type = .publish → ∀ queue ns,
      P (.ready, newMessageAt queue ns e.1.group e.1.payload e.2 e.1.msgID))
    (hq : Octar.replayEvents q events = .ok q') : q'.Each P := by
  induction events generalizing q with
  | nil =>
    cases hq
    exact h
  | cons e events ih =>
    obtain ⟨q₁, hq₁, hrun⟩ := Run.run_cons_ok.mp hq
    rw [List.forall_mem_cons] at hpub
    exact ih (h.dispatch hP (fun ht => hpub.1 ht _ _) hq₁) hpub.2 hrun

theorem Each.onSnapshot (h : q.Each P) {snap : Snapshot} {ord : RangeOrder} {now : Int}
    (hsnap : ∀ gs ∈ snap.groups, ∀ ms ∈ gs.messages, ∀ loc,
      P (loc, messageForRecovery q.name q.ns gs.key ms)) (hq : q.onSnapshot snap ord now = .ok q') :
    q'.Each P := by
  have hr := (onSnapshot_spec q snap ord now).1 q' hq
  intro key g hl
  cases hlast : lastGroup snap.groups key with
  | none =>
    rw [hr.kept key hlast] at hl
    exact h key g hl
  | some gs =>
    obtain ⟨g₀, -, hg⟩ := hr.restored key gs hlast
    rw [hg] at hl
    cases hl
    exact restoreGroup_each (hsnap gs (lastGroup_key hlast).1) g₀

end Queue

theorem restart_each [PathMatch] {P : Loc × Message → Prop} (hP : Closed P) {q₀ q : Queue}
    {ord : RangeOrder} {now : Int} {clock : Event → Int} {recovered : Option Snapshot × List Event}
    (h : q₀.Each P)
    (hsnap : ∀ snap ∈ recovered.1, ∀ gs ∈ snap.groups, ∀ ms ∈ gs.messages, ∀ loc queue ns,
      P (loc, messageForRecovery queue ns gs.key ms))
    (hpub : ∀ e ∈ recovered.2, e.type = .publish → ∀ queue ns now,
      P (.ready, newMessageAt queue ns e.group e.payload now e.msgID))
    (hq : restart q₀ ord now clock recovered = .ok q) : q.Each P := by
  have hreplay : ∀ {q₁ : Queue}, q₁.Each P →
      replayEvents q₁ (recovered.2.map fun e => (e, clock e)) = .ok q → q.Each P := by
    intro q₁ h₁ hrun
    refine h₁.replayEvents hP ?_ hrun
    intro e he htype queue ns
    obtain ⟨e', he', rfl⟩ := List.mem_map.mp he
    exact hpub e' he' htype queue ns _
  unfold restart at hq
  cases hs : recovered.1 with
  | none =>
    rw [hs] at hq
    exact hreplay h hq
  | some snap =>
    rw [hs] at hq
    obtain ⟨q₁, hq₁, hrun⟩ := bind_ok.mp hq
    exact hreplay (h.onSnapshot (fun gs hgs ms hms loc => hsnap snap hs gs hgs ms hms loc _ _) hq₁)
      hrun

end Octar
