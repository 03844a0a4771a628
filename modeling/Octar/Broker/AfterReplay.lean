import Octar.Broker.Replay
import Octar.Queue.Sequential
import Octar.Queue.Serviceable

namespace Octar

open Go

def Event.published (e : Event) : List (Bytes × Bytes) :=
  match e.type with
  | .publish => [(e.group, e.msgID)]
  | _ => []

theorem Event.published_eq_nil {e : Event} (h : e.type ≠ .publish) : e.published = [] := by
  unfold published
  split
  · rename_i ht
    exact absurd ht h
  · rfl

def publishedBy (events : List (Event × Int)) : List (Bytes × Bytes) :=
  events.flatMap fun e => e.1.published

def publishedIn (key : Bytes) (published : List (Bytes × Bytes)) : List Bytes :=
  (published.filter fun p => p.1 = key).map Prod.snd

theorem publishedIn_append (key : Bytes) (l l' : List (Bytes × Bytes)) :
    publishedIn key (l ++ l') = publishedIn key l ++ publishedIn key l' := by
  rw [publishedIn, List.filter_append, List.map_append]
  rfl

theorem reduceOption_set_sublist {α : Type} (l : List (Option α)) (i : Nat) :
    (l.set i none).reduceOption.Sublist l.reduceOption := by
  induction l generalizing i with
  | nil => exact List.Sublist.refl _
  | cons a l ih =>
    cases i with
    | zero =>
      cases a with
      | none => exact List.Sublist.refl _
      | some a => exact List.sublist_cons_self a _
    | succ i =>
      cases a with
      | none => exact ih i
      | some a => exact (ih i).cons_cons a

namespace Group

structure Replays (g g' : Group) : Prop where
  ready : g'.readyIDs.Sublist g.readyIDs
  limiter : g'.limiter = g.limiter

variable {g g' g'' : Group}

theorem Replays.refl (g : Group) : Replays g g := ⟨List.Sublist.refl _, rfl⟩

theorem Replays.trans (h : Replays g g') (h' : Replays g' g'') : Replays g g'' :=
  ⟨h'.ready.trans h.ready, h'.limiter.trans h.limiter⟩

theorem Replays.ofReady (hready : g'.ready = g.ready) (hhead : g'.readyHead = g.readyHead)
    (hlimiter : g'.limiter = g.limiter) : Replays g g' := by
  refine ⟨?_, hlimiter⟩
  rw [readyIDs, liveReady, hready, hhead]
  exact List.Sublist.refl _

theorem Replays.clearReady (g : Group) (i : Nat) :
    Replays g { g with ready := g.ready.set i none } := by
  refine ⟨List.Sublist.map _ ?_, rfl⟩
  rw [liveReady, List.drop_set]
  split
  · exact List.Sublist.refl _
  · exact reduceOption_set_sublist _ _

theorem Replays.lease {m m' : Message} {now : Int} (h : g.lease m now = .ok (g', m')) :
    Replays g g' := by
  obtain ⟨-, -, rfl⟩ := lease_ok h
  exact .ofReady rfl rfl rfl

theorem Replays.complete (g : Group) (id : Bytes) : Replays g (g.complete id).1 := by
  unfold Group.complete
  split
  · exact .refl g
  · exact .ofReady rfl rfl rfl

theorem Replays.fail {id errMsg : Bytes} {now : Int} {dlq : Option Message}
    (h : g.fail id errMsg now = .ok (g', dlq)) : Replays g g' := by
  cases fail_cases h with
  | absent none same letter =>
    subst same
    exact .refl _
  | retries m delay found more delayed put letter =>
    subst put
    exact .ofReady rfl rfl rfl
  | drops m found exhausted dropped letter =>
    subst dropped
    exact .ofReady rfl rfl rfl

end Group

namespace Queue

variable {q q' q'' : Queue} {key id : Bytes}

def Replays (q q' : Queue) : Prop :=
  ∀ key g', q'.groups.lookup key = some g' → ∃ g, q.groups.lookup key = some g ∧ g.Replays g'

theorem Replays.refl (q : Queue) : q.Replays q := fun _ g hg => ⟨g, hg, .refl g⟩

theorem Replays.trans (h : q.Replays q') (h' : q'.Replays q'') : q.Replays q'' := by
  intro key g'' hg''
  obtain ⟨g', hg', hr'⟩ := h' key g'' hg''
  obtain ⟨g, hg, hr⟩ := h key g' hg'
  exact ⟨g, hg, hr.trans hr'⟩

theorem Replays.setGroup {g g' : Group} (hl : q.groups.lookup key = some g) (h : g.Replays g') :
    q.Replays (q.setGroup key g') := by
  intro k g₁ hg₁
  by_cases hk : k = key
  · subst hk
    rw [lookup_setGroup] at hg₁
    cases hg₁
    exact ⟨g, hl, h⟩
  · rw [lookup_setGroup_ne q g' hk] at hg₁
    exact ⟨g₁, hg₁, .refl g₁⟩

theorem Replays.complete (q : Queue) (key id : Bytes) : q.Replays (q.complete key id).1 := by
  obtain ⟨-, heq⟩ | ⟨g, hl, heq⟩ := complete_eq q key id
  all_goals rw [heq]
  · exact .refl q
  · exact .setGroup hl (.complete g id)

theorem Replays.removeMessage (q : Queue) (key id : Bytes) :
    q.Replays (q.removeMessage key id).1 := by
  unfold Queue.removeMessage
  split
  · exact .refl q
  · rename_i g hl
    split
    · exact .setGroup hl (.ofReady rfl rfl rfl)
    · split
      · exact .setGroup hl (.clearReady g _)
      · split
        · exact .setGroup hl (.ofReady rfl rfl rfl)
        · exact .refl q

theorem Replays.onACK (q : Queue) (e : Event) : q.Replays (q.onACK e) := by
  have hcomplete := Replays.complete q e.group e.msgID
  unfold Queue.onACK
  split
  all_goals
    rename_i heq
    rw [heq] at hcomplete
  · exact hcomplete
  · exact hcomplete.trans (.removeMessage _ _ _)

theorem Replays.replayLease {now : Int} {found : Bool}
    (h : q.replayLease key id now = .ok (q', found)) :
    q.Replays q' := by
  unfold Queue.replayLease at h
  split at h
  · cases h
    exact .refl q
  · rename_i g hl
    split at h
    · rename_i i m hf
      obtain ⟨⟨g', m'⟩, hlease, hret⟩ := bind_ok.mp h
      cases hret
      have hclear : g.Replays { g with urgent := g.urgent.set i none } := .ofReady rfl rfl rfl
      exact .setGroup hl (hclear.trans (.lease hlease))
    · split at h
      · obtain ⟨⟨g', m'⟩, hlease, hret⟩ := bind_ok.mp h
        cases hret
        exact .setGroup hl ((Group.Replays.clearReady g _).trans (.lease hlease))
      · cases h
        exact .refl q

theorem Replays.onNACK {e : Event} {now : Int} (h : q.onNACK e now = .ok q') : q.Replays q' := by
  obtain ⟨⟨q₁, r⟩, hf, hret⟩ := bind_ok.mp h
  have hfail : q.Replays q₁ := by
    obtain ⟨-, rfl, -⟩ | ⟨g, g', dlq, hl, hg, -, rfl⟩ := fail_ok hf
    · exact .refl q₁
    · exact .setGroup hl (.fail hg)
  cases r with
  | ok target =>
    cases hret
    exact hfail
  | error err =>
    cases hret
    exact hfail.trans (.removeMessage _ _ _)

variable [PathMatch]

theorem Replays.dispatch {e : Event} {now : Int} (ht : e.type ≠ .publish)
    (h : q.dispatch e now = .ok q') :
    q.Replays q' := by
  unfold Queue.dispatch at h
  split at h
  · rename_i htype
    exact absurd htype ht
  · obtain ⟨⟨q₁, found⟩, hlease, hret⟩ := bind_ok.mp h
    cases hret
    exact .replayLease hlease
  · cases h
    exact .onACK q e
  · exact .onNACK h
  · cases h
    exact .complete q _ _
  · cases h
    exact .refl q

structure Replayed (published : List (Bytes × Bytes)) (q : Queue) : Prop where
  restoring : q.Restoring
  limiters : ∀ key g, q.groups.lookup key = some g → ∀ l ∈ g.limiter, 1 ≤ l.max
  held : ∀ key id, q.Holds key id → (key, id) ∈ published
  ready : ∀ key g, q.groups.lookup key = some g → g.readyIDs.Sublist (publishedIn key published)

variable {published : List (Bytes × Bytes)}

theorem Replayed.ofEmpty (h : q.groups = ∅) : q.Replayed [] := by
  have hnone : ∀ key g, q.groups.lookup key ≠ some g := by
    intro key g hg
    rw [h] at hg
    cases hg
  refine ⟨.ofEmpty h, ?_, ?_, ?_⟩
  · intro key g hg
    exact absurd hg (hnone key g)
  · rintro key id ⟨g, hg, -⟩
    exact absurd hg (hnone key g)
  · intro key g hg
    exact absurd hg (hnone key g)

theorem Replayed.groupFor {g : Group} (h : q.Replayed published)
    (hadmits : (q.resolveConfig key).Admits) (hg : q.groupFor key = .ok g) :
    g.Restored (q.resolveConfig key) ∧ (∀ l ∈ g.limiter, 1 ≤ l.max) ∧
      (∀ id ∈ g.ids, q.Holds key id) ∧ g.readyIDs.Sublist (publishedIn key published) := by
  refine ⟨(groupFor_all restored_publishes h.restoring hg).1, ?_⟩
  rcases groupFor_cases hg with hl | ⟨hl, hnew⟩
  · exact ⟨h.limiters key g hl, fun id hid => ⟨g, hl, hid⟩, h.ready key g hl⟩
  · obtain ⟨-, hslots, hready, -⟩ := Group.newGroup_ok hnew
    refine ⟨(Group.Serviceable.ofNewGroup hadmits hnew).limiter, ?_, ?_⟩
    · simp [Group.ids, hslots]
    · rw [Group.readyIDs, hready]
      exact List.nil_sublist _

theorem Replayed.insert {g : Group} {new : List (Bytes × Bytes)} (h : q.Replayed published)
    (hcfg : q'.cfgIdx = q.cfgIdx) (hgroups : q'.groups = q.groups.insert key g)
    (hg : g.Restored (q.resolveConfig key)) (hlimiter : ∀ l ∈ g.limiter, 1 ≤ l.max)
    (hids : ∀ id ∈ g.ids, q.Holds key id ∨ (key, id) ∈ new)
    (hready : g.readyIDs.Sublist (publishedIn key (published ++ new))) :
    q'.Replayed (published ++ new) ∧ ∀ k id, q'.Holds k id → q.Holds k id ∨ (k, id) ∈ new := by
  have hlookup : ∀ k g', q'.groups.lookup k = some g' → k = key ∧ g' = g ∨
      q.groups.lookup k = some g' := by
    intro k g' hl
    rw [hgroups] at hl
    by_cases hk : k = key
    · subst hk
      rw [AList.lookup_insert] at hl
      exact .inl ⟨rfl, (Option.some.inj hl).symm⟩
    · rw [AList.lookup_insert_ne hk] at hl
      exact .inr hl
  have hholds : ∀ k id, q'.Holds k id → q.Holds k id ∨ (k, id) ∈ new := by
    rintro k id ⟨g', hl, hid⟩
    rcases hlookup k g' hl with ⟨rfl, rfl⟩ | hl
    · exact hids id hid
    · exact .inl ⟨g', hl, hid⟩
  refine ⟨⟨h.restoring.insert hcfg hgroups hg, ?_, ?_, ?_⟩, hholds⟩
  · intro k g' hl
    rcases hlookup k g' hl with ⟨rfl, rfl⟩ | hl
    · exact hlimiter
    · exact h.limiters k g' hl
  · intro k id hid
    rcases hholds k id hid with hid | hid
    · exact List.mem_append_left _ (h.held k id hid)
    · exact List.mem_append_right _ hid
  · intro k g' hl
    rcases hlookup k g' hl with ⟨rfl, rfl⟩ | hl
    · exact hready
    · rw [publishedIn_append]
      exact (h.ready k g' hl).trans (List.sublist_append_left _ _)

theorem Replayed.onPublish (h : q.Replayed published) {e : Event}
    (hadmits : (q.resolveConfig e.group).Admits) (hfresh : (e.group, e.msgID) ∉ published)
    (now : Int) :
    ∃ q', q.onPublish e now = .ok q' ∧ q'.cfgIdx = q.cfgIdx ∧
      q'.Replayed (published ++ [(e.group, e.msgID)]) ∧
      ∀ key id, q'.Holds key id → q.Holds key id ∨ (key, id) ∈ [(e.group, e.msgID)] := by
  obtain ⟨g, hg⟩ := (groupFor_total restored_publishes h.restoring e.group).mpr hadmits.rateOk
  obtain ⟨hrestored, hlimiter, hids, hready⟩ := h.groupFor hadmits hg
  obtain ⟨⟨q', r⟩, hq'⟩ := publishWithID_total hg e.msgID e.payload now
  refine ⟨q', bind_ok.mpr ⟨_, hq', rfl⟩, publishWithID_cfgIdx hq', ?_⟩
  have hmine : publishedIn e.group (published ++ [(e.group, e.msgID)]) =
      publishedIn e.group published ++ [e.msgID] := by
    simp [publishedIn]
  obtain ⟨g', hg', hcases⟩ := publishWithID_ok hq'
  cases hg.symm.trans hg'
  rcases hcases with ⟨-, -, -, rfl⟩ | ⟨-, keyIdx, rfl⟩
  · apply h.insert (publishWithID_cfgIdx hq') rfl hrestored hlimiter
    · exact fun id hid => .inl (hids id hid)
    · rw [hmine]
      exact hready.trans (List.sublist_append_left _ _)
  · have hnew : e.msgID ∉ g.ids := fun hid => hfresh (h.held _ _ (hids _ hid))
    apply h.insert (publishWithID_cfgIdx hq') rfl (hrestored.enqueue hnew (Int.le_refl 0)) hlimiter
    · intro id hid
      rw [Group.ids, Group.enqueue, Group.slots_appendReady g _ hrestored.readyHead_le,
        Multiset.map_cons, Multiset.mem_cons] at hid
      rcases hid with rfl | hid
      · exact .inr (List.mem_singleton.mpr rfl)
      · exact .inl (hids id hid)
    · rw [Group.readyIDs_enqueue hrestored.readyHead_le, hmine]
      exact hready.append_right _

omit [PathMatch] in
theorem replayPhase_unpublished {n : Int} {t : EventType} (ht : t ≠ .publish) :
    replayPhase n t none = none := by
  cases t with
  | publish => exact absurd rfl ht
  | _ => rfl

theorem Replayed.dispatch (h : q.Replayed published) (e : Event) (now : Int)
    (hadmits : (q.resolveConfig e.group).Admits) (hfresh : ∀ p ∈ e.published, p ∉ published) :
    ∃ q', q.dispatch e now = .ok q' ∧ q'.cfgIdx = q.cfgIdx ∧
      q'.Replayed (published ++ e.published) ∧
      ∀ key id, q'.Holds key id → q.Holds key id ∨ (key, id) ∈ e.published := by
  by_cases ht : e.type = .publish
  · have hnew : e.published = [(e.group, e.msgID)] := by rw [Event.published, ht]
    rw [hnew] at hfresh ⊢
    obtain ⟨q', hq', hrest⟩ := h.onPublish hadmits (hfresh _ (List.mem_singleton.mpr rfl)) now
    exact ⟨q', by rw [Queue.dispatch, ht]; exact hq', hrest⟩
  · rw [Event.published_eq_nil ht, List.append_nil]
    obtain ⟨heff, htotal⟩ :=
      dispatch_effect h.restoring e now (fun h => absurd h ht) fun h => absurd h ht
    obtain ⟨q', hq'⟩ := htotal.mpr fun h => absurd h ht
    have heff := heff q' hq'
    have hreplays := Replays.dispatch ht hq'
    have hholds : ∀ key id, q'.Holds key id → q.Holds key id := by
      intro key id hid
      rw [holds_iff_phase, heff.phase] at hid
      rw [holds_iff_phase]
      split at hid
      · rename_i heq
        obtain ⟨rfl, rfl⟩ := heq
        intro hnone
        rw [hnone] at hid
        exact hid (replayPhase_unpublished ht)
      · exact hid
    refine ⟨q', hq', heff.cfgIdx,
      ⟨heff.all, ?_, fun key id hid => h.held key id (hholds key id hid), ?_⟩,
      fun key id hid => .inl (hholds key id hid)⟩
    · intro key g' hg'
      obtain ⟨g, hg, hr⟩ := hreplays key g' hg'
      exact hr.limiter ▸ h.limiters key g hg
    · intro key g' hg'
      obtain ⟨g, hg, hr⟩ := hreplays key g' hg'
      exact hr.ready.trans (h.ready key g hg)

theorem Replayed.replayEvents (h : q.Replayed published)
    (hadmits : ∀ key, (q.resolveConfig key).Admits) (events : List (Event × Int))
    (hids : ((published ++ publishedBy events).map Prod.snd).Nodup) :
    ∃ q', replayEvents q events = .ok q' ∧ q'.cfgIdx = q.cfgIdx ∧
      q'.Replayed (published ++ publishedBy events) ∧
      ∀ key id, q'.Holds key id → q.Holds key id ∨ (key, id) ∈ publishedBy events := by
  induction events generalizing q published with
  | nil =>
    refine ⟨q, rfl, rfl, ?_, fun key id hid => .inl hid⟩
    rw [publishedBy, List.flatMap_nil, List.append_nil]
    exact h
  | cons e events ih =>
    have hsplit : publishedBy (e :: events) = e.1.published ++ publishedBy events :=
      List.flatMap_cons
    rw [hsplit, ← List.append_assoc] at hids ⊢
    have hfresh : ∀ p ∈ e.1.published, p ∉ published := by
      intro p hp hmem
      rw [List.map_append, List.map_append] at hids
      exact List.disjoint_of_nodup_append hids.of_append_left (List.mem_map_of_mem hmem)
        (List.mem_map_of_mem hp)
    obtain ⟨q₁, hq₁, hcfg₁, h₁, hholds₁⟩ := h.dispatch e.1 e.2 (hadmits _) hfresh
    obtain ⟨q', hq', hcfg', h', hholds'⟩ :=
      ih h₁ (fun key => resolveConfig_congr hcfg₁ key ▸ hadmits key) hids
    refine ⟨q', Run.run_cons_ok.mpr ⟨q₁, hq₁, hq'⟩, hcfg'.trans hcfg₁, h', ?_⟩
    intro key id hid
    rw [List.mem_append]
    rcases hholds' key id hid with hid | hid
    · exact (hholds₁ key id hid).imp (fun h => h) .inl
    · exact .inr (.inr hid)

theorem Replayed.serviceable (h : q.Replayed published)
    (hadmits : ∀ key, (q.resolveConfig key).Admits) :
    q.Serviceable := by
  refine ⟨?_, ?_, hadmits⟩
  · intro key g hg
    exact ⟨(h.restoring key g hg).toWf.lined, h.limiters key g hg⟩
  · intro key g hg
    have hr := h.restoring key g hg
    exact ⟨hr.readyHead_le, hr.keyed, hr.attempts_nonneg⟩

def readyIDs (q : Queue) (key : Bytes) : List Bytes := (q.groups.lookup key).elim [] Group.readyIDs

def TakenOut (q : Queue) (events : List (Event × Int)) (key id : Bytes) : Prop :=
  ∃ before e after q₁ q₂, events = before ++ e :: after ∧ Octar.replayEvents q before = .ok q₁ ∧
    q₁.dispatch e.1 e.2 = .ok q₂ ∧ q₁.Holds key id ∧ ¬ q₂.Holds key id

theorem TakenOut.gone {events : List (Event × Int)} (h : q.TakenOut events key id)
    (hempty : q.groups = ∅) (hadmits : ∀ key, (q.resolveConfig key).Admits)
    (hids : ((publishedBy events).map Prod.snd).Nodup)
    (hq' : Octar.replayEvents q events = .ok q') :
    (key, id) ∈ publishedBy events ∧ ∀ k, ¬ q'.Holds k id := by
  obtain ⟨before, e, after, q₁, q₂, rfl, hq₁, hq₂, hheld, hgone⟩ := h
  have hsplit : publishedBy (before ++ e :: after) = publishedBy before ++ e.1.published ++
      publishedBy after := by
    simp [publishedBy]
  rw [hsplit] at hids
  obtain ⟨q₁', hq₁', hcfg₁, h₁, -⟩ := (Replayed.ofEmpty hempty).replayEvents hadmits before (by
    rw [List.append_assoc] at hids
    exact hids.sublist ((List.sublist_append_left _ _).map _))
  cases hq₁.symm.trans hq₁'
  rw [List.nil_append] at h₁
  have hadmits₁ : ∀ key, (q₁.resolveConfig key).Admits :=
    fun key => resolveConfig_congr hcfg₁ key ▸ hadmits key
  obtain ⟨q₂', hq₂', hcfg₂, h₂, -⟩ := h₁.dispatch e.1 e.2 (hadmits₁ _) (by
    intro p hp hmem
    rw [List.map_append, List.map_append] at hids
    exact List.disjoint_of_nodup_append hids.of_append_left (List.mem_map_of_mem hmem)
      (List.mem_map_of_mem hp))
  cases hq₂.symm.trans hq₂'
  obtain ⟨q₃, hq₃, -, h₃, hholds⟩ :=
    h₂.replayEvents (fun key => resolveConfig_congr hcfg₂ key ▸ hadmits₁ key) after hids
  have hrun : Octar.replayEvents q (before ++ e :: after) = .ok q₃ :=
    Run.run_append_ok.mpr ⟨q₁, hq₁, Run.run_cons_ok.mpr ⟨q₂, hq₂, hq₃⟩⟩
  cases hq'.symm.trans hrun
  -- its one publication stands before the record that took it out
  have hmem : (key, id) ∈ publishedBy before ++ e.1.published :=
    List.mem_append_left _ (h₁.held key id hheld)
  refine ⟨hsplit ▸ List.mem_append_left _ hmem, ?_⟩
  intro k hheld'
  cases List.inj_on_of_nodup_map hids (h₃.held k id hheld') (List.mem_append_left _ hmem) rfl
  rcases hholds key id hheld' with hback | hagain
  · exact hgone hback
  · rw [List.map_append] at hids
    exact List.disjoint_of_nodup_append hids (List.mem_map_of_mem hmem) (List.mem_map_of_mem hagain)

end Queue

theorem firsts_prefix {out waiting handed ready : List Bytes} (hout : out.Nodup)
    (h : out ++ waiting = firstOrder (out ++ handed) ready) :
    (handed.filter fun id => id ∉ out).eraseDups <+: waiting := by
  rw [firstOrder, List.eraseDups_append, eraseDups_eq_self hout, List.append_assoc] at h
  have hremove : handed.removeAll out = handed.filter fun id => id ∉ out := by
    apply List.filter_congr
    intro id _
    simp
  rw [List.append_cancel_left h, hremove]
  exact List.prefix_append _ _

namespace Group

theorem Wf.inOrder {g : Group} (h : g.Wf) : ∃ out os, g.InOrder os ∧ handedIDs os = out ∧
    publishedIDs os = out ++ g.readyIDs ∧ g.ids = (out ++ g.readyIDs : List Bytes) := by
  obtain ⟨out, hout⟩ : ∃ out : List Bytes, (out : Multiset Bytes) = g.outIDs := Quot.exists_rep _
  have hids : g.ids = (out ++ g.readyIDs : List Bytes) := by
    rw [ids_eq_out, ← hout, Multiset.coe_add]
  have hnodup : (out ++ g.readyIDs).Nodup := by
    rw [← Multiset.coe_nodup, ← hids]
    exact h.distinct
  have hhanded : handedIDs (out.map (·, .published) ++ out.map (·, .handed 0 0) ++
      g.readyIDs.map (·, .published)) = out := by
    simp [handedIDs, idsOfKind_append, idsOfKind_map, Occurrence.isHanded]
  have hpublished : publishedIDs (out.map (·, .published) ++ out.map (·, .handed 0 0) ++
      g.readyIDs.map (·, .published)) = out ++ g.readyIDs := by
    simp [publishedIDs, idsOfKind_append, idsOfKind_map, Occurrence.isPublished]
  refine ⟨out, _, ⟨h, ?_, ?_⟩, hhanded, hpublished, hids⟩
  · intro x hx hloc
    rw [hhanded, ← Multiset.mem_coe]
    exact hout ▸ mem_outIDs hx hloc
  · rw [hpublished, hhanded, firstOrder, eraseDups_eq_self hnodup.of_append_left]
    congr 1
    symm
    apply List.filter_eq_self.mpr
    intro id hid
    simpa using fun hmem => List.disjoint_of_nodup_append hnodup hmem hid

end Group

structure Explains (q : Queue) (key : Bytes) (out : List Bytes) (os : List (Bytes × Occurrence)) :
    Prop where
  present : ∀ g, q.groups.lookup key = some g → g.InOrder os
  absent : q.groups.lookup key = none → os = []
  handed : handedIDs os = out
  published : publishedIDs os = out ++ q.readyIDs key
  distinct : (out ++ q.readyIDs key).Nodup
  holds : ∀ id ∈ out ++ q.readyIDs key, q.Holds key id

theorem exists_explains {q : Queue} {key : Bytes} (hwf : ∀ g, q.groups.lookup key = some g → g.Wf) :
    ∃ out os, Explains q key out os := by
  cases hl : q.groups.lookup key with
  | none =>
    have hready : q.readyIDs key = [] := by rw [Queue.readyIDs, hl]; rfl
    refine ⟨[], [], fun g hg => (nomatch hl.symm.trans hg), fun _ => rfl, rfl, ?_, ?_, ?_⟩
    all_goals rw [hready]
    · rfl
    · exact List.nodup_nil
    · simp
  | some g =>
    obtain ⟨out, os, horder, hhanded, hpublished, hids⟩ := (hwf g hl).inOrder
    have hready : q.readyIDs key = g.readyIDs := by rw [Queue.readyIDs, hl]; rfl
    rw [← hready] at hpublished hids
    refine ⟨out, os, ?_, fun h => (nomatch hl.symm.trans h), hhanded, hpublished, ?_, ?_⟩
    · intro g' hg'
      cases hl.symm.trans hg'
      exact horder
    · rw [← Multiset.coe_nodup, ← hids]
      exact (hwf g hl).distinct
    · intro id hid
      exact ⟨g, hl, by rwa [hids, Multiset.mem_coe]⟩

theorem Explains.handed_from [PathMatch] {q : Queue} {key : Bytes} {out : List Bytes}
    {os : List (Bytes × Occurrence)} {s : WatchedRun} {ops : List LiveOp}
    (hexplains : Explains q key out os)
    (hids : (out ++ q.readyIDs key ++ ops.filterMap LiveOp.publishID).Nodup)
    (h : run WatchedRun.step ⟨q, []⟩ ops = .ok s) :
    let line := q.readyIDs key ++ publishedIDs (happeningsOf key s.history)
    (out ++ line).Nodup ∧ (∀ id ∈ handedIDs (happeningsOf key s.history), id ∈ out ++ line) ∧
      ((handedIDs (happeningsOf key s.history)).filter fun id => id ∉ out).eraseDups <+: line := by
  intro line
  have hseen : happeningsOf key (happened key os) = os := by rw [happeningsOf_happened, if_pos rfl]
  have hstart : (⟨q, happened key os⟩ : WatchedRun).Follows key
      (fun _ => True) Group.InOrder ops := by
    refine ⟨trivial, ?_, ?_, ?_⟩
    · rw [hseen, show idsOfKind Occurrence.isPublished os = _ from hexplains.published]
      exact hids
    · intro hnone o ho
      rw [hseen, hexplains.absent hnone] at ho
      cases ho
    · rw [hseen]
      exact hexplains.present
  have hrun := WatchedRun.run_append_history h (happened key os)
  rw [List.append_nil] at hrun
  have hfollows := hstart.run (inOrder_invariant ops key) hrun
  have hhistory : happeningsOf key (happened key os ++ s.history) =
      os ++ happeningsOf key s.history := by
    rw [happeningsOf_append, hseen]
  have hpublished : publishedIDs (os ++ happeningsOf key s.history) = out ++ line := by
    rw [publishedIDs, idsOfKind_append, ← List.append_assoc, ← hexplains.published]
    rfl
  have hhanded : handedIDs (os ++ happeningsOf key s.history) =
      out ++ handedIDs (happeningsOf key s.history) := by
    rw [handedIDs, idsOfKind_append, ← hexplains.handed]
    rfl
  have hdistinct : (out ++ line).Nodup := by
    have hfresh := hfollows.fresh.of_append_left
    rw [hhistory] at hfresh
    exact hpublished ▸ hfresh
  refine ⟨hdistinct, ?_⟩
  cases hl : s.queue.groups.lookup key with
  | none =>
    have hreturned := hfollows.absent hl
    rw [hhistory] at hreturned
    have hnone : handedIDs (happeningsOf key s.history) = [] :=
      idsOfKind_returned rfl fun o ho => hreturned o (List.mem_append_right _ ho)
    rw [hnone]
    exact ⟨by simp, List.nil_prefix⟩
  | some g =>
    have horder := hfollows.present g hl
    rw [hhistory] at horder
    refine ⟨?_, ?_⟩
    · intro id hid
      rw [← hpublished]
      apply horder.handed_subset
      rw [hhanded]
      exact List.mem_append_right _ hid
    · have heq := horder.order
      rw [hpublished, hhanded] at heq
      exact firsts_prefix hdistinct.of_append_left heq

/-- A log that publishes every identifier once is replayed on a queue without groups, and the queue
is then used.  Nothing panics, no message that a record took out is handed out, and the messages
that wait in `ready` after the replay and those that are published later are handed out for the
first time in the order of their publishing. -/
theorem live_after_replay [PathMatch] {q : Queue} {events : List (Event × Int)} {ops : List LiveOp}
    (hempty : q.groups = ∅) (hadmits : ∀ key, (q.resolveConfig key).Admits)
    (hids : ((publishedBy events).map Prod.snd ++ ops.filterMap LiveOp.publishID).Nodup)
    (hops : ∀ op ∈ ops, op.configures = false) :
    ∃ q' s, replayEvents q events = .ok q' ∧ run WatchedRun.step ⟨q', []⟩ ops = .ok s ∧
      (∀ key id, q.TakenOut events key id → ∀ key', id ∉ handedIDs (happeningsOf key' s.history)) ∧
      ∀ key, (q'.readyIDs key).Sublist (publishedIn key (publishedBy events)) ∧
        let line := q'.readyIDs key ++ publishedIDs (happeningsOf key s.history)
        ((handedIDs (happeningsOf key s.history)).filter fun id => id ∈ line).eraseDups <+:
          line := by
  obtain ⟨q', hq', hcfg, hreplayed, -⟩ :=
    (Queue.Replayed.ofEmpty hempty).replayEvents hadmits events hids.of_append_left
  rw [List.nil_append] at hreplayed
  have hadmits' : ∀ key, (q'.resolveConfig key).Admits :=
    fun key => Queue.resolveConfig_congr hcfg key ▸ hadmits key
  obtain ⟨s, hs⟩ := WatchedRun.run_total (s := ⟨q', []⟩) (hreplayed.serviceable hadmits') hops
  have hold : ∀ key id, q'.Holds key id → id ∉ ops.filterMap LiveOp.publishID := by
    intro key id hid hmem
    exact List.disjoint_of_nodup_append hids (List.mem_map_of_mem (hreplayed.held key id hid)) hmem
  have hexplains : ∀ key, ∃ out os, Explains q' key out os ∧
      (out ++ q'.readyIDs key ++ ops.filterMap LiveOp.publishID).Nodup := by
    intro key
    obtain ⟨out, os, hexplains⟩ := exists_explains fun g hg => (hreplayed.restoring key g hg).toWf
    refine ⟨out, os, hexplains, hexplains.distinct.append hids.of_append_right ?_⟩
    intro id hid
    exact hold key id (hexplains.holds id hid)
  refine ⟨q', s, hq', hs, ?_, ?_⟩
  · intro key id htaken key' hid
    obtain ⟨out, os, hexplains, hnodup⟩ := hexplains key'
    have hmem := (hexplains.handed_from hnodup hs).2.1 id hid
    rw [← List.append_assoc] at hmem
    obtain ⟨hpublished, hgone⟩ := htaken.gone hempty hadmits hids.of_append_left hq'
    rcases List.mem_append.mp hmem with hmem | hmem
    · exact hgone key' (hexplains.holds id hmem)
    · have hlive :=
        (WatchedRun.published_subset hs key' id hmem).resolve_left
          (by simp [happeningsOf, idsOfKind])
      exact List.disjoint_of_nodup_append hids (List.mem_map_of_mem hpublished) hlive
  · intro key
    obtain ⟨out, os, hexplains, hnodup⟩ := hexplains key
    obtain ⟨hdistinct, hhanded, hfirst⟩ := hexplains.handed_from hnodup hs
    refine ⟨?_, ?_⟩
    · cases hl : q'.groups.lookup key with
      | none =>
        rw [Queue.readyIDs, hl]
        exact List.nil_sublist _
      | some g =>
        rw [Queue.readyIDs, hl]
        exact hreplayed.ready key g hl
    · -- what is handed out is out already, or in the line
      intro line
      have hfilter : (handedIDs (happeningsOf key s.history)).filter (fun id => id ∈ line) =
          (handedIDs (happeningsOf key s.history)).filter fun id => id ∉ out := by
        apply List.filter_congr
        intro id hid
        have hmem := List.mem_append.mp (hhanded id hid)
        have hdisjoint : id ∈ out → id ∉ line :=
          fun h h' => List.disjoint_of_nodup_append hdistinct h h'
        apply decide_eq_decide.mpr
        exact ⟨fun h h' => hdisjoint h' h, fun h => hmem.resolve_left h⟩
      rw [hfilter]
      exact hfirst

def throttledQueue : Queue :=
  @Queue.setGroupConfig literalMatch (newQueue [] [])
    { defaultGroupConfig (str "g") with
      parallelism := 10, quantum := 10, rateLimit := some ⟨5, 1000⟩ }

def logRecord (type : EventType) (id : Bytes) : Event × Int :=
  ({ type := type, ns := [], queue := [], group := str "g", msgID := id, payload := [], seq := 0,
     timestamp := 0 }, 0)

def holedLog : List (Event × Int) :=
  [logRecord .publish (str "a"), logRecord .publish (str "b"), logRecord .publish (str "c"),
    logRecord .lease (str "a"), logRecord .nack (str "a"), logRecord .ack (str "b")]

def resumedOps : List LiveOp :=
  [.publishWithID (str "g") (str "d") [] 1, .drainGroup (str "g") .inOrder 2,
    .drainGroup (str "g") .inOrder 10000000000]

theorem live_after_replay_sample :
    ∃ q' s, @replayEvents literalMatch throttledQueue holedLog = .ok q' ∧
    run (@WatchedRun.step literalMatch) ⟨q', []⟩ resumedOps = .ok s ∧
    @Queue.TakenOut literalMatch throttledQueue holedLog (str "g") (str "b") ∧
    str "b" ∉ handedIDs (happeningsOf (str "g") s.history) ∧
    q'.readyIDs (str "g") ++ publishedIDs (happeningsOf (str "g") s.history) = [str "c", str "d"] ∧
    ((handedIDs (happeningsOf (str "g") s.history)).filter fun id => id ∈
      [str "c", str "d"]).eraseDups <+:
      [str "c", str "d"] := by
  have hadmits : ∀ key, (@Queue.resolveConfig literalMatch throttledQueue key).Admits := by
    intro key r hr
    by_cases hkey : key = str "g"
    · subst hkey
      cases hr
      decide
    · have hnone : throttledQueue.cfgIdx.exact.lookup key = none := AList.lookup_insert_ne hkey
      unfold Queue.resolveConfig ConfigIdx.resolve at hr
      rw [hnone] at hr
      cases hr
  have htaken : @Queue.TakenOut literalMatch throttledQueue holedLog (str "g") (str "b") := by
    refine ⟨holedLog.take 5, logRecord .ack (str "b"), [], _, _, rfl, rfl, rfl, ?_, ?_⟩
    · rw [Queue.holds_iff_phase]
      decide +kernel
    · rw [Queue.holds_iff_phase]
      decide +kernel
  obtain ⟨q', s, hq', hs, hgone, hfirst⟩ :=
    @live_after_replay literalMatch throttledQueue holedLog resumedOps rfl
    hadmits (by decide) (by decide)
  have hline : q'.readyIDs (str "g") ++ publishedIDs (happeningsOf (str "g") s.history) =
      [str "c", str "d"] := by
    cases hq'
    cases hs
    decide +kernel
  obtain ⟨-, hfirst⟩ := hfirst (str "g")
  rw [hline] at hfirst
  exact ⟨q', s, hq', hs, htaken, hgone _ _ htaken _, hline, hfirst⟩

end Octar
