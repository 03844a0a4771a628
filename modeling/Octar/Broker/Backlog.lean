import Octar.Broker.RestoreLaws
import Octar.Queue.Phase
import Octar.Storage.Export

namespace Octar

open Go

namespace Group

structure Backlog (g : Group) (cfg : GroupConfig) : Prop where
  maxPending : g.cfg.maxPending = cfg.maxPending
  rate_ok : cfg.RateOk
  urgent : g.urgent = []
  urgentHead : g.urgentHead = 0
  readyHead : g.readyHead = 0
  ready_full : none ∉ g.ready
  idle : g.processing.table = ∅
  pending : ∀ m ∈ g.ready.reduceOption ++ g.delayed, m.state = .pending

variable {g : Group} {cfg : GroupConfig}

theorem Backlog.ids_eq (h : g.Backlog cfg) :
    g.ids = ((g.ready.reduceOption ++ g.delayed).map Message.id : List Bytes) := by
  simp [ids, slots, held, liveUrgent, liveReady, inFlight, h.urgent, h.readyHead, h.idle,
    Function.comp_def, ← Multiset.coe_add]

theorem Backlog.pendingCount_eq (h : g.Backlog cfg) : g.pendingCount = g.ids.card := by
  have hlen := length_reduceOption_of_full h.ready_full
  rw [h.ids_eq, pendingCount, h.urgent, h.urgentHead, h.readyHead]
  simp [hlen]

theorem Backlog.ofNewGroup (h : newGroup cfg = .ok g) : g.Backlog cfg ∧ g.ids = 0 := by
  have hrate := newGroup_total.mp ⟨g, h⟩
  obtain ⟨limiter, -, hret⟩ := bind_ok.mp h
  cases hret
  refine ⟨⟨rfl, hrate, rfl, rfl, rfl, by simp, rfl, by simp [List.reduceOption]⟩, ?_⟩
  rfl

theorem Backlog.enqueue (h : g.Backlog cfg) {m : Message} (hm : m.state = .pending) :
    (g.enqueue m).Backlog cfg ∧ (g.enqueue m).ids = m.id ::ₘ g.ids := by
  have hready : (g.enqueue m).ready.reduceOption = g.ready.reduceOption ++ [m] := by
    simp [Group.enqueue, List.reduceOption_append]
  have hb : (g.enqueue m).Backlog cfg := by
    refine ⟨h.maxPending, h.rate_ok, h.urgent, h.urgentHead, h.readyHead, ?_, h.idle, ?_⟩
    · simpa [Group.enqueue] using h.ready_full
    · intro m' hm'
      rw [hready] at hm'
      have hold := h.pending m'
      change m' ∈ g.ready.reduceOption ++ [m] ++ g.delayed at hm'
      simp only [List.mem_append, List.mem_singleton] at hm' hold
      rcases hm' with (hm' | rfl) | hm'
      · exact hold (.inl hm')
      · exact hm
      · exact hold (.inr hm')
  refine ⟨hb, ?_⟩
  rw [hb.ids_eq, h.ids_eq, hready]
  change (((g.ready.reduceOption ++ [m]) ++ g.delayed).map Message.id : Multiset Bytes) = _
  rw [Multiset.cons_coe, Multiset.coe_eq_coe, List.append_assoc, List.singleton_append,
    List.map_append, List.map_cons, List.map_append]
  exact List.perm_middle

end Group

def GroupConfig.Fits (cfg : GroupConfig) (n : Nat) : Prop :=
  cfg.maxPending ≤ 0 ∨ (n : Int) ≤ cfg.maxPending

theorem GroupConfig.Fits.mono {cfg : GroupConfig} {n k : Nat} (h : cfg.Fits n) (hk : k ≤ n) :
    cfg.Fits k := by
  rcases h with h | h
  · exact .inl h
  · exact .inr (by omega)

def idsOf (key : Bytes) (events : List Event) : Multiset Bytes :=
  ((events.filter fun e => e.group = key).map Event.msgID : List Bytes)

@[simp] theorem idsOf_nil (key : Bytes) : idsOf key [] = 0 := rfl

@[simp] theorem idsOf_append (key : Bytes) (l l' : List Event) :
    idsOf key (l ++ l') = idsOf key l + idsOf key l' := by
  simp [idsOf]

theorem idsOf_cons (key : Bytes) (e : Event) (l : List Event) :
    idsOf key (e :: l) = (if e.group = key then {e.msgID} else 0) + idsOf key l := by
  by_cases h : e.group = key
  · simp [idsOf, h]
  · simp [idsOf, h]

theorem idsOf_perm {l l' : List Event} (h : l.Perm l') (key : Bytes) : idsOf key l = idsOf key l' :=
  Multiset.coe_eq_coe.mpr ((h.filter _).map _)

theorem mem_idsOf {key id : Bytes} {l : List Event} :
    id ∈ idsOf key l ↔ ∃ e ∈ l, e.group = key ∧ e.msgID = id := by
  simp [idsOf, and_assoc]

namespace Queue

def idsAt (q : Queue) (key : Bytes) : Multiset Bytes := ((q.groups.lookup key).map Group.ids).getD 0

theorem idsAt_some {q : Queue} {key : Bytes} {g : Group} (h : q.groups.lookup key = some g) :
    q.idsAt key = g.ids := by
  simp [idsAt, h]

theorem idsAt_none {q : Queue} {key : Bytes} (h : q.groups.lookup key = none) :
    q.idsAt key = 0 := by
  simp [idsAt, h]

theorem holds_iff_idsAt {q : Queue} {key id : Bytes} : q.Holds key id ↔ id ∈ q.idsAt key := by
  rw [Holds, idsAt]
  cases q.groups.lookup key with
  | none => simp
  | some g => simp

theorem idsAt_of_empty {q : Queue} (h : q.groups = ∅) (key : Bytes) : q.idsAt key = 0 :=
  idsAt_none (by rw [h]; rfl)

abbrev backlog (_ : Bytes) (cfg : GroupConfig) (g : Group) : Prop := g.Backlog cfg

variable [PathMatch] {q q' : Queue}

structure Adds (q : Queue) (events : List Event) (q' : Queue) : Prop where
  cfgIdx : q'.cfgIdx = q.cfgIdx
  all : q'.All backlog
  ids : ∀ key, q'.idsAt key = q.idsAt key + idsOf key events

theorem Adds.refl (h : q.All backlog) : Adds q [] q := ⟨rfl, h, by simp⟩

theorem Adds.trans {q₁ : Queue} {l l' : List Event} (h : Adds q l q₁) (h' : Adds q₁ l' q') :
    Adds q (l ++ l') q' := by
  refine ⟨h'.cfgIdx.trans h.cfgIdx, h'.all, ?_⟩
  intro key
  rw [h'.ids, h.ids, idsOf_append, add_assoc]

theorem Adds.perm {l l' : List Event} (h : Adds q l q') (hl : l.Perm l') : Adds q l' q' :=
  ⟨h.cfgIdx, h.all, fun key => idsOf_perm hl key ▸ h.ids key⟩

theorem groupFor_backlog (hq : q.All backlog) {key : Bytes} (hrate : (q.resolveConfig key).RateOk) :
    ∃ g, q.groupFor key = .ok g ∧ g.Backlog (q.resolveConfig key) ∧ g.ids = q.idsAt key := by
  unfold groupFor
  cases hl : q.groups.lookup key with
  | some g => exact ⟨g, rfl, hq key g hl, (idsAt_some hl).symm⟩
  | none =>
    obtain ⟨g, hg⟩ := Group.newGroup_total.mpr hrate
    obtain ⟨hb, hids⟩ := Group.Backlog.ofNewGroup hg
    exact ⟨g, hg, hb, hids.trans (idsAt_none hl).symm⟩

theorem publishWithID_backlog (hq : q.All backlog) (e : Event) (now : Int)
    (hrate : (q.resolveConfig e.group).RateOk)
    (hfits : (q.resolveConfig e.group).Fits ((q.idsAt e.group).card + 1)) :
    ∃ q', q.publishWithID e.group e.msgID e.payload now =
        .ok (q', .ok (newMessageAt q.name q.ns e.group e.payload now e.msgID)) ∧ Adds q [e] q' := by
  obtain ⟨g, hg, hb, hids⟩ := groupFor_backlog hq hrate
  obtain ⟨⟨q', r⟩, h⟩ := publishWithID_total hg e.msgID e.payload now
  obtain ⟨g', hg', hcases⟩ := publishWithID_ok h
  cases hg.symm.trans hg'
  rcases hcases with ⟨hpos, hfull, -⟩ | ⟨rfl, keyIdx, rfl⟩
  · rw [hb.pendingCount_eq, hb.maxPending, hids] at hfull
    rw [hb.maxPending] at hpos
    rcases hfits with hf | hf
    · exact absurd hpos (Int.not_lt.mpr hf)
    · push_cast at hf
      omega
  · obtain ⟨hb', hids'⟩ :=
      hb.enqueue (m := newMessageAt q.name q.ns e.group e.payload now e.msgID) rfl
    refine ⟨_, h, rfl, hq.insert rfl rfl hb', ?_⟩
    intro key
    rw [idsOf_cons, idsOf_nil, add_zero]
    by_cases hk : e.group = key
    · subst hk
      rw [if_pos rfl, idsAt_some (AList.lookup_insert _), hids', hids, Multiset.add_comm,
        Multiset.singleton_add]
      rfl
    · rw [if_neg hk, add_zero, idsAt, idsAt, AList.lookup_insert_ne (Ne.symm hk)]

theorem Adds.fits {e : Event} {l : List Event} (h : Adds q [e] q') {key : Bytes} :
    (q'.idsAt key).card + (idsOf key l).card = (q.idsAt key).card + (idsOf key (e :: l)).card := by
  rw [h.ids, idsOf_cons key e l, idsOf_cons key e [], idsOf_nil, add_zero, Multiset.card_add,
    Multiset.card_add, Nat.add_assoc]

theorem replay_adds {events : List (Event × Int)} (hq : q.All backlog)
    (hpub : ∀ e ∈ events, e.1.type = .publish)
    (hrate : ∀ e ∈ events, (q.resolveConfig e.1.group).RateOk)
    (hfits : ∀ e ∈ events, (q.resolveConfig e.1.group).Fits
      ((q.idsAt e.1.group).card + (idsOf e.1.group (events.map Prod.fst)).card)) :
    ∃ q', replayEvents q events = .ok q' ∧ Adds q (events.map Prod.fst) q' := by
  induction events generalizing q with
  | nil => exact ⟨q, rfl, .refl hq⟩
  | cons e events ih =>
    rw [List.forall_mem_cons] at hpub hrate hfits
    have hroom : (q.resolveConfig e.1.group).Fits ((q.idsAt e.1.group).card + 1) := by
      apply hfits.1.mono
      rw [List.map_cons, idsOf_cons, if_pos rfl, Multiset.card_add, Multiset.card_singleton]
      omega
    obtain ⟨q₁, hq₁, hadds⟩ := publishWithID_backlog hq e.1 e.2 hrate.1 hroom
    have hdispatch : q.dispatch e.1 e.2 = .ok q₁ := by
      rw [dispatch, hpub.1]
      exact bind_ok.mpr ⟨_, hq₁, rfl⟩
    have hcfg := resolveConfig_congr hadds.cfgIdx
    obtain ⟨q', hrun, hadds'⟩ := ih hadds.all hpub.2
      (fun e' he' => hcfg e'.1.group ▸ hrate.2 e' he')
      (fun e' he' => by
        rw [hcfg, hadds.fits]
        exact hfits.2 e' he')
    exact ⟨q', Run.run_cons_ok.mpr ⟨q₁, hdispatch, hrun⟩, hadds.trans hadds'⟩

end Queue

theorem lastGroup_convert (ord : RangeOrder) (state : QueueState) (key : Bytes) :
    lastGroup (convertQueueStateToSnapshot ord state) key =
      (state.groups.lookup key).map (groupSnapshot ord key) := by
  have hd : ((convertQueueStateToSnapshot ord state).reverse.map GroupSnapshot.key).Nodup := by
    rw [List.map_reverse, List.nodup_reverse, convertQueueStateToSnapshot, List.map_map]
    exact (List.perm_nodupKeys (ord.perm _)).mpr state.groups.nodupKeys
  apply Option.ext
  intro gs
  rw [lastGroup, find?_key_eq_some hd, Option.map_eq_some_iff]
  simp only [List.mem_reverse, convertQueueStateToSnapshot, List.mem_map, RangeOrder.mem_pick]
  constructor
  · rintro ⟨⟨e, he, rfl⟩, rfl⟩
    exact ⟨e.2, AList.mem_lookup_iff.mpr he, rfl⟩
  · rintro ⟨st, hst, rfl⟩
    exact ⟨⟨⟨key, st⟩, AList.mem_lookup_iff.mp hst, rfl⟩, rfl⟩

theorem restoreGroup_backlog {g : Group} {cfg : GroupConfig} (h : g.Backlog cfg) (ord : RangeOrder)
    (queueName ns key : Bytes) (now : Int) :
    ∃ msgs : List Message, (∀ m ∈ msgs, m.state = .pending) ∧
      msgs.map Message.id = (g.ready.reduceOption ++ g.delayed).map Message.id ∧
      restoreGroup queueName ns now (groupSnapshot ord key g.exportState) =
        { key := key, parallelism := int32 g.cfg.parallelism, quantum := int32 g.quantum,
          readyMsgs := msgs.filter fun m => m.scheduledAt ≤ now, urgentMsgs := [],
          delayedMsgs := msgs.filter fun m => now < m.scheduledAt, processingMsgs := none } := by
  have hmsgs : g.exportState.messages ord = g.ready.reduceOption ++ g.delayed := by
    simp [GroupState.messages, Group.exportState, h.urgent, h.readyHead, h.idle, List.reduceOption]
  let msgs :=
    ((g.ready.reduceOption ++ g.delayed).map messageSnapshot).map
      (messageForRecovery queueName ns key)
  have hpending : ∀ m ∈ msgs, m.state = .pending := by
    intro m hm
    obtain ⟨ms, hms, rfl⟩ := List.mem_map.mp hm
    obtain ⟨m₀, hm₀, rfl⟩ := List.mem_map.mp hms
    simp only [messageForRecovery, messageSnapshot, h.pending m₀ hm₀]
    rfl
  have hidle : msgs.foldl restoreLease none = none := by
    cases hf : msgs.foldl restoreLease none with
    | none => rfl
    | some t =>
      have hsome := (isSome_foldl_restoreLease msgs none).mp (by rw [hf]; rfl)
      obtain ⟨m, hm, hs⟩ := hsome.resolve_left (by simp)
      rw [hpending m hm] at hs
      cases hs
  refine ⟨msgs, hpending, by simp [msgs, Function.comp_def, messageForRecovery, messageSnapshot,
    newMessageAt], ?_⟩
  rw [restoreGroup, foldl_restoreMessage, groupSnapshot, hmsgs]
  simp only [List.nil_append]
  rw [hidle]
  congr 1
  · exact List.filter_congr fun m hm => by simp [hpending m hm]
  · exact List.filter_congr fun m hm => by simp [hpending m hm]

theorem importedGroup_backlog {g : Group} {cfg : GroupConfig} {key : Bytes}
    {parallelism quantum now : Int}
    {msgs : List Message} (hg : newGroup (importConfig cfg key parallelism) = .ok g)
    (hpending : ∀ m ∈ msgs, m.state = .pending) {g' : Group}
    (hg' : g' = importedGroup g
      { key := key, parallelism := parallelism, quantum := quantum,
        readyMsgs := msgs.filter fun m => m.scheduledAt ≤ now, urgentMsgs := [],
        delayedMsgs := msgs.filter fun m => now < m.scheduledAt, processingMsgs := none }) :
    g'.Backlog cfg ∧ g'.ids = (msgs.map Message.id : List Bytes) := by
  obtain ⟨hcfg, -, -, -⟩ := Group.newGroup_ok hg
  have hrate : (importConfig cfg key parallelism).RateOk := Group.newGroup_total.mp ⟨g, hg⟩
  have hperm : g'.delayed.Perm (msgs.filter fun m => now < m.scheduledAt) := by
    subst hg'
    exact Heap.init_perm delayedLess _
  have hready : g'.ready.reduceOption = msgs.filter fun m => m.scheduledAt ≤ now := by
    subst hg'
    exact reduceOption_map_some _
  have hall : (g'.ready.reduceOption ++ g'.delayed).Perm msgs := by
    rw [hready]
    refine (List.Perm.append_left _ hperm).trans ?_
    have hsplit := List.filter_append_perm (fun m : Message => decide (m.scheduledAt ≤ now)) msgs
    simpa only [← decide_not, Int.not_le] using hsplit
  have hb : g'.Backlog cfg := by
    have hstate : ∀ m ∈ g'.ready.reduceOption ++ g'.delayed, m.state = .pending :=
      fun m hm => hpending m (hall.mem_iff.mp hm)
    subst hg'
    refine ⟨?_, hrate, rfl, rfl, rfl, ?_, rfl, hstate⟩
    · change g.cfg.maxPending = _
      rw [hcfg]
      rfl
    · change none ∉ List.map some _
      simp
  exact ⟨hb, hb.ids_eq.trans (Multiset.coe_eq_coe.mpr (hall.map _))⟩

theorem Queue.onSnapshot_backlog [PathMatch] {q₀ q : Queue} (hempty : q₀.groups = ∅)
    (hq : q.All Queue.backlog) (hcfg : q.cfgIdx = q₀.cfgIdx) {snap : Snapshot} {ord : RangeOrder}
    (hsnap : snap.groups = convertQueueStateToSnapshot ord q.exportState) (ord' : RangeOrder)
    (now : Int) :
    ∃ q', q₀.onSnapshot snap ord' now = .ok q' ∧ q'.cfgIdx = q₀.cfgIdx ∧ q'.All Queue.backlog ∧
      ∀ key, q'.idsAt key = q.idsAt key := by
  have hlast : ∀ key, lastGroup snap.groups key =
      (q.groups.lookup key).map fun g => groupSnapshot ord key g.exportState := by
    intro key
    rw [hsnap, lastGroup_convert, Queue.exportState, Map.lookup_mapTo, Option.map_map]
    rfl
  have hresolve := Queue.resolveConfig_congr hcfg
  obtain ⟨hspec, htotal⟩ := q₀.onSnapshot_spec snap ord' now
  obtain ⟨q', hq'⟩ := htotal.mpr (by
    intro gs hgs
    obtain ⟨gs', hgs'⟩ := Option.isSome_iff_exists.mp (lastGroup_isSome hgs)
    rw [hlast] at hgs'
    obtain ⟨g, hl, -⟩ := Option.map_eq_some_iff.mp hgs'
    rw [← hresolve]
    exact (hq _ g hl).rate_ok)
  have hres := hspec q' hq'
  have hgroup : ∀ key g, q.groups.lookup key = some g →
      ∃ g', q'.groups.lookup key = some g' ∧ g'.Backlog (q₀.resolveConfig key) ∧
        g'.ids = g.ids := by
    intro key g hl
    obtain ⟨g₀, hg₀, hl'⟩ := hres.restored key _ (by rw [hlast, hl]; rfl)
    have hb := hq key g hl
    obtain ⟨msgs, hpending, hids, heq⟩ := restoreGroup_backlog hb ord q₀.name q₀.ns key now
    obtain ⟨hb', hids'⟩ := importedGroup_backlog hg₀ hpending (congrArg (importedGroup g₀) heq)
    exact ⟨_, hl', hb', by rw [hids', hids, hb.ids_eq]⟩
  have hnone : ∀ key, q.groups.lookup key = none → q'.groups.lookup key = none := by
    intro key hl
    rw [hres.kept key (by rw [hlast, hl]; rfl), hempty]
    rfl
  refine ⟨q', hq', hres.cfgIdx, ?_, ?_⟩
  · intro key g' hl'
    rw [Queue.resolveConfig_congr hres.cfgIdx]
    cases hl : q.groups.lookup key with
    | none =>
      rw [hnone key hl] at hl'
      cases hl'
    | some g =>
      obtain ⟨g₁, hl₁, hb, -⟩ := hgroup key g hl
      cases hl₁.symm.trans hl'
      exact hb
  · intro key
    cases hl : q.groups.lookup key with
    | none => rw [Queue.idsAt_none hl, Queue.idsAt_none (hnone key hl)]
    | some g =>
      obtain ⟨g₁, hl₁, -, hids⟩ := hgroup key g hl
      rw [Queue.idsAt_some hl, Queue.idsAt_some hl₁, hids]

end Octar
