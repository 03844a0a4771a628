import Octar.Broker.Backlog
import Octar.Queue.Conservation
import Octar.Queue.Moves

namespace Octar

open Go

structure Stored where
  inProcessing : Bool
  id : Bytes
  payload : Bytes
  attempts : Int
  lastError : Bytes
  createdAt : Int
  scheduledAt : Int
  deriving DecidableEq, Repr

def stored (inProcessing : Bool) (m : Message) : Stored :=
  ⟨inProcessing, m.id, m.payload, m.attempts, m.lastError, m.createdAt, m.scheduledAt⟩

def cutTimes (m : Message) : Message :=
  { m with createdAt := int64 m.createdAt, scheduledAt := int64 m.scheduledAt }

def TimesFit (m : Message) : Prop := FitsInt64 m.createdAt ∧ FitsInt64 m.scheduledAt

def Group.contents (g : Group) : Multiset Stored :=
  g.slots.map fun x => stored (x.1 = .processing) x.2

structure Regular (x : Loc × Message) : Prop where
  state : x.2.state = if x.1 = .processing then .processing else .pending
  attempts : 0 ≤ x.2.attempts

theorem Regular.closed : Closed Regular where
  expired h := ⟨rfl, h.attempts⟩
  due h := ⟨h.state, h.attempts⟩
  leased _ h := ⟨rfl, h.attempts⟩
  retried _ _ h := ⟨rfl, Int.add_nonneg h.attempts Int.one_nonneg⟩

def restored (queueName ns key : Bytes) (m : Message) : Message :=
  messageForRecovery queueName ns key (messageSnapshot m)

theorem restored_state {x : Loc × Message} (h : Regular x) (queueName ns key : Bytes) :
    (restored queueName ns key x.2).state = x.2.state := by
  change MessageState.ofInt8 x.2.state.toInt8 = _
  rw [h.state]
  split <;> rfl

theorem stored_restored {x : Loc × Message} (h : Regular x) (hlt : x.2.attempts < 2 ^ 31)
    (queueName ns key : Bytes) :
    stored ((restored queueName ns key x.2).state = .processing) (restored queueName ns key x.2) =
      stored (x.1 = .processing) (cutTimes x.2) := by
  have hattempts : int32 x.2.attempts = x.2.attempts := by
    apply Int.bmod_eq_of_le
    · exact Int.le_trans (by decide) h.attempts
    · exact hlt
  have hloc : x.2.state = .processing ↔ x.1 = .processing := by
    rw [h.state]
    split <;> simp [*]
  have hflag : decide ((restored queueName ns key x.2).state = .processing) =
      decide (x.1 = .processing) := by
    rw [restored_state h]
    exact decide_eq_decide.mpr hloc
  rw [hflag]
  simp only [stored, restored, messageForRecovery, newMessageAt, messageSnapshot, hattempts,
    cutTimes]

theorem values_foldl_restoreLease {msgs : List Message} {p : NilMap Bytes Message}
    (hd : ((msgs.filter fun m => m.state = .processing).map Message.id).Nodup)
    (hp : ∀ m ∈ msgs, m.state = .processing → p.table.lookup m.id = none) :
    Map.values (msgs.foldl restoreLease p).table =
      Map.values p.table + (msgs.filter fun m => m.state = .processing : List Message) := by
  induction msgs generalizing p with
  | nil => simp
  | cons m msgs ih =>
    rw [List.forall_mem_cons] at hp
    by_cases hs : m.state = .processing
    · rw [List.filter_cons_of_pos (by simpa using hs)] at hd ⊢
      obtain ⟨hm, hd⟩ := List.nodup_cons.mp hd
      have hrest : ∀ m' ∈ msgs, m'.state = .processing →
          (restoreLease p m).table.lookup m'.id = none := by
        intro m' hm' hs'
        have hne : m'.id ≠ m.id := fun heq =>
          hm (heq ▸ List.mem_map_of_mem (List.mem_filter.mpr ⟨hm', by simpa using hs'⟩))
        rw [restoreLease, if_pos hs, NilMap.table_some, AList.lookup_insert_ne hne]
        exact hp.2 m' hm' hs'
      rw [List.foldl_cons, ih hd hrest, restoreLease, if_pos hs, NilMap.table_some,
        Map.values_insert (hp.1 hs), ← Multiset.cons_coe, Multiset.cons_add, Multiset.add_cons]
    · rw [List.filter_cons_of_neg (by simpa using hs)] at hd ⊢
      have hskip : restoreLease p m = p := if_neg hs
      rw [List.foldl_cons, hskip]
      exact ih hd hp.2

namespace Group

variable {g g₀ : Group}

theorem messages_exportState (g : Group) (ord : RangeOrder) :
    (g.exportState.messages ord : Multiset Message) = g.slots.map Prod.snd := by
  have hleases : ((ord.pick g.processing.table.entries).map Sigma.snd : Multiset Message) =
      g.inFlight := Multiset.coe_eq_coe.mpr ((ord.perm _).map _)
  have hsnd : ∀ (loc : Loc) (ms : Multiset Message), (held loc ms).map Prod.snd = ms := by
    intro loc ms
    simp [held]
  rw [slots, Multiset.map_add, Multiset.map_add, Multiset.map_add, hsnd, hsnd, hsnd, hsnd,
    ← hleases]
  simp only [GroupState.messages, exportState, NilMap.table_some, ← Multiset.coe_add, liveUrgent,
    liveReady]
  abel

theorem nodup_inFlight (h : ∀ id m, g.processing.table.lookup id = some m → m.id = id) :
    (g.inFlight.map Message.id).Nodup := by
  have hkeys : (g.processing.table.entries.map Sigma.snd).map Message.id =
      g.processing.table.entries.keys := by
    rw [List.map_map]
    exact List.map_congr_left fun e he => h e.1 e.2 (AList.mem_lookup_iff.mpr he)
  change ((g.processing.table.entries.map Sigma.snd).map Message.id).Nodup
  rw [hkeys]
  exact g.processing.table.nodupKeys

theorem contents_importedGroup {msgs : List Message} {key : Bytes} {parallelism quantum now : Int}
    (hstate : ∀ m ∈ msgs, m.state = .pending ∨ m.state = .processing)
    (hd : ((msgs.filter fun m => m.state = .processing).map Message.id).Nodup) :
    (importedGroup g₀ (msgs.foldl (restoreMessage now)
      { key := key, parallelism := parallelism, quantum := quantum, readyMsgs := [],
        urgentMsgs := [], delayedMsgs := [], processingMsgs := none })).contents =
      (msgs.map fun m => stored (m.state = .processing) m : List Stored) := by
  have hleases := values_foldl_restoreLease (p := none) hd fun _ _ _ => rfl
  have hdelayed := Multiset.coe_eq_coe.mpr (Heap.init_perm delayedLess
    (msgs.filter fun m => decide (m.state = .pending ∧ now < m.scheduledAt)))
  have hslots : ∀ (gs : GroupState), gs.urgentMsgs = [] → (importedGroup g₀ gs).slots =
      held .ready gs.readyMsgs + held .delayed (Heap.init delayedLess gs.delayedMsgs) +
        held .processing (Map.values gs.processingMsgs.table) := by
    intro gs hu
    simp [slots, importedGroup, importState, liveUrgent, liveReady, inFlight, hu, held]
  rw [contents, foldl_restoreMessage, hslots _ rfl, hleases]
  simp only [List.nil_append, hdelayed, Multiset.map_add]
  -- every message is in exactly one of the three parts
  clear hd hleases hdelayed hslots
  induction msgs with
  | nil => rfl
  | cons m msgs ih =>
    rw [List.forall_mem_cons] at hstate
    have ih := ih hstate.2
    rw [List.map_cons, ← Multiset.cons_coe, ← ih]
    rcases hstate.1 with hs | hs
    · by_cases hn : now < m.scheduledAt
      · simp [hs, hn, Int.not_le.mpr hn, ← Multiset.cons_coe]
      · simp [hs, hn, Int.not_lt.mp hn, ← Multiset.cons_coe]
    · simp [hs, ← Multiset.cons_coe]

theorem filter_processing (g : Group) :
    g.slots.filter (fun x => x.1 = .processing) = held .processing g.inFlight := by
  simp [slots, held, Multiset.filter_map]

theorem filter_exportState (h : g.Each Regular) (ord : RangeOrder) :
    ((g.exportState.messages ord).filter fun m => m.state = .processing : Multiset Message) =
      g.inFlight := by
  have hloc : ∀ x ∈ g.slots, x.2.state = .processing ↔ x.1 = .processing := by
    intro x hx
    rw [(h.slots x hx).state]
    split <;> simp [*]
  rw [← Multiset.filter_coe, messages_exportState, Multiset.filter_map]
  calc (g.slots.filter ((fun m => m.state = .processing) ∘ Prod.snd)).map Prod.snd
    _ = (g.slots.filter fun x => x.1 = .processing).map Prod.snd :=
      congrArg (Multiset.map Prod.snd) (Multiset.filter_congr hloc)
    _ = g.inFlight := by simp [filter_processing, held]

theorem contents_restored (h : g.Each Regular) (hlt : ∀ x ∈ g.slots, x.2.attempts < 2 ^ 31)
    (ord : RangeOrder) (queueName ns key : Bytes) (now : Int) :
    (importedGroup g₀ (restoreGroup queueName ns now
      (groupSnapshot ord key g.exportState))).contents =
      g.slots.map fun x => stored (x.1 = .processing) (cutTimes x.2) := by
  have hexport := g.messages_exportState ord
  have hmem : ∀ m ∈ g.exportState.messages ord, ∃ x ∈ g.slots, x.2 = m := by
    intro m hm
    rw [← Multiset.mem_coe, hexport, Multiset.mem_map] at hm
    exact hm
  have hstate : ∀ m ∈ g.exportState.messages ord,
      (restored queueName ns key m).state = m.state ∧
        (m.state = .pending ∨ m.state = .processing) := by
    intro m hm
    obtain ⟨x, hx, rfl⟩ := hmem m hm
    refine ⟨restored_state (h.slots x hx) queueName ns key, ?_⟩
    rw [(h.slots x hx).state]
    split <;> simp
  rw [restoreGroup, groupSnapshot, List.map_map]
  change (importedGroup g₀
    (((g.exportState.messages ord).map (restored queueName ns key)).foldl _ _)).contents = _
  rw [contents_importedGroup]
  · rw [List.map_map, ← Multiset.map_coe, hexport, Multiset.map_map]
    exact Multiset.map_congr rfl fun x hx => stored_restored (h.slots x hx)
      (hlt x hx) queueName ns key
  · intro m hm
    obtain ⟨m₀, hm₀, rfl⟩ := List.mem_map.mp hm
    rw [(hstate m₀ hm₀).1]
    exact (hstate m₀ hm₀).2
  · have hfilter : (g.exportState.messages ord).filter
        ((fun m => decide (m.state = .processing)) ∘ restored queueName ns key) =
        (g.exportState.messages ord).filter fun m => m.state = .processing :=
      List.filter_congr fun m hm => by rw [Function.comp, (hstate m hm).1]
    rw [List.filter_map, List.map_map, hfilter]
    change (Multiset.map Message.id
      ((g.exportState.messages ord).filter fun m => m.state = .processing : List Message)).Nodup
    rw [filter_exportState h]
    exact nodup_inFlight h.keyed

theorem cutTimes_contents (g : Group) :
    g.slots.map (fun x => stored (x.1 = .processing) (cutTimes x.2)) = g.contents ↔
      ∀ x ∈ g.slots, TimesFit x.2 := by
  constructor
  · -- what comes back fits, so what was there fits
    intro h x hx
    have hmem : stored (x.1 = .processing) x.2 ∈ g.contents :=
      Multiset.mem_map_of_mem (fun x : Loc × Message => stored (x.1 = .processing) x.2) hx
    rw [← h] at hmem
    obtain ⟨y, -, hy⟩ := Multiset.mem_map.mp hmem
    have hcreated : int64 y.2.createdAt = x.2.createdAt := congrArg Stored.createdAt hy
    have hscheduled : int64 y.2.scheduledAt = x.2.scheduledAt := congrArg Stored.scheduledAt hy
    exact ⟨hcreated ▸ fitsInt64_int64 _, hscheduled ▸ fitsInt64_int64 _⟩
  · intro h
    refine Multiset.map_congr rfl fun x hx => ?_
    obtain ⟨hcreated, hscheduled⟩ := h x hx
    rw [cutTimes, int64_eq_self.mpr hcreated, int64_eq_self.mpr hscheduled]

end Group

theorem Queue.onSnapshot_keyIdx [PathMatch] {q q' : Queue} {snap : Snapshot} {ord : RangeOrder}
    {now : Int} (h : q.onSnapshot snap ord now = .ok q') :
    q'.keyIdx.Pairwise (· < ·) ∧ ∀ key, key ∈ q'.keyIdx ↔ (lastGroup snap.groups key).isSome := by
  obtain ⟨q₁, -, hret⟩ := bind_ok.mp h
  cases hret
  let entries := (restoreState q.name q.ns now snap.groups).groups.entries
  have hkeys : ((ord.pick entries).map Sigma.snd).map GroupState.key =
      (ord.pick entries).map Sigma.fst := by
    rw [List.map_map]
    refine List.map_congr_left fun e he => ?_
    obtain ⟨gs, hgs, heq⟩ := entries_restoreState.mp (ord.mem_pick.mp he)
    rw [Function.comp, ← heq, restoreGroup_key, (lastGroup_key hgs).2]
  have hd : ((ord.pick entries).map Sigma.fst).Nodup :=
    (List.perm_nodupKeys (ord.perm entries)).mpr
      (restoreState q.name q.ns now snap.groups).groups.nodupKeys
  refine ⟨pairwise_insertionSort (hkeys ▸ hd), ?_⟩
  intro key
  rw [List.mem_insertionSort, hkeys, Option.isSome_iff_exists, List.mem_map]
  simp only [RangeOrder.mem_pick]
  constructor
  · rintro ⟨e, he, rfl⟩
    obtain ⟨gs, hgs, -⟩ := entries_restoreState.mp he
    exact ⟨gs, hgs⟩
  · rintro ⟨gs, hgs⟩
    exact ⟨⟨key, _⟩, entries_restoreState.mpr ⟨gs, hgs, rfl⟩, rfl⟩

def Queue.SameMessages (q q' : Queue) : Prop :=
  (∀ key, (q'.groups.lookup key).map Group.contents = (q.groups.lookup key).map Group.contents) ∧
    q'.keyIdx.Pairwise (· < ·) ∧ ∀ key, key ∈ q'.keyIdx ↔ (q'.groups.lookup key).isSome

/-- Export, snapshot and import keep the messages of a queue that live operations reach, with the
same groups, the same messages in and out of processing and a key index that lists the groups, if
and only if the times of all its messages are int64 nanoseconds. -/
theorem export_import_preserves_iff [PathMatch] {name ns : Bytes} {ops : List LiveOp} {s : LiveRun}
    (hrun : runLive name ns ops = .ok s)
    (hattempts : ∀ key g, s.queue.groups.lookup key = some g →
      ∀ x ∈ g.slots, x.2.attempts < 2 ^ 31)
    (segmentID walSeq : Nat) (timestamp now : Int) (ord ord' : RangeOrder) :
    let groups := convertQueueStateToSnapshot ord s.queue.exportState
    ∃ q', (newQueue name ns).onSnapshot ⟨segmentID, walSeq, timestamp, groups⟩ ord' now = .ok q' ∧
      (s.queue.SameMessages q' ↔
        ∀ key g, s.queue.groups.lookup key = some g → ∀ x ∈ g.slots, TimesFit x.2) := by
  intro groups
  have hregular : s.queue.Each Regular :=
    runLive_each Regular.closed (fun _ _ _ _ _ _ => ⟨rfl, Int.le_refl 0⟩) hrun
  have hlast : ∀ key, lastGroup groups key =
      (s.queue.groups.lookup key).map fun g => groupSnapshot ord key g.exportState := by
    intro key
    rw [lastGroup_convert, Queue.exportState, Map.lookup_mapTo, Option.map_map]
    rfl
  obtain ⟨hspec, htotal⟩ :=
    (newQueue name ns).onSnapshot_spec ⟨segmentID, walSeq, timestamp, groups⟩ ord' now
  -- the default config has no rate limit, so no group of the snapshot makes `newGroup` panic
  obtain ⟨q', hq'⟩ : ∃ q',
      (newQueue name ns).onSnapshot ⟨segmentID, walSeq, timestamp, groups⟩ ord' now = .ok q' := by
    rw [htotal]
    intro gs _ r hr
    cases hr
  have hres := hspec q' hq'
  obtain ⟨hsorted, hkeys⟩ := Queue.onSnapshot_keyIdx hq'
  have hgroups : ∀ key, (q'.groups.lookup key).map Group.contents =
      (s.queue.groups.lookup key).map fun g =>
        g.slots.map fun x => stored (x.1 = .processing) (cutTimes x.2) := by
    intro key
    cases hl : s.queue.groups.lookup key with
    | none =>
      rw [hres.kept key (by rw [hlast, hl]; rfl)]
      rfl
    | some g =>
      obtain ⟨g₀, -, hl'⟩ := hres.restored key _ (by rw [hlast, hl]; rfl)
      rw [hl', Option.map_some, Option.map_some,
        Group.contents_restored (hregular key g hl) (hattempts key g hl)]
  have hindex : ∀ key, key ∈ q'.keyIdx ↔ (q'.groups.lookup key).isSome := by
    intro key
    have hsome := congrArg Option.isSome (hgroups key)
    rw [Option.isSome_map, Option.isSome_map] at hsome
    rw [hkeys, hlast, Option.isSome_map, hsome]
  refine ⟨q', hq', ?_, ?_⟩
  · rintro ⟨hsame, -⟩ key g hl
    have hkey := hsame key
    rw [hgroups, hl] at hkey
    exact g.cutTimes_contents.mp (Option.some.inj hkey)
  · intro hfit
    refine ⟨fun key => ?_, hsorted, hindex⟩
    rw [hgroups]
    cases hl : s.queue.groups.lookup key with
    | none => rfl
    | some g => exact congrArg some (g.cutTimes_contents.mpr (hfit key g hl))

theorem export_import_preserves_sample :
    ∃ s q', @runLive literalMatch [] [] sampleOps = .ok s ∧
      @Queue.onSnapshot literalMatch (newQueue [] [])
        ⟨1, 0, 0, convertQueueStateToSnapshot .inOrder s.queue.exportState⟩ .inOrder 5 = .ok q' ∧
      ((s.queue.groups.lookup (str "g")).map fun g => g.contents.card) = some 1 ∧
      s.queue.SameMessages q' := by
  obtain ⟨s, hs, hslots, hcard⟩ : ∃ s, @runLive literalMatch [] [] sampleOps = .ok s ∧
      (∀ e ∈ s.queue.groups.entries, ∀ x ∈ e.2.slots, x.2.attempts < 2 ^ 31 ∧ TimesFit x.2) ∧
      ((s.queue.groups.lookup (str "g")).map fun g => g.contents.card) = some 1 :=
    ⟨_, rfl, by unfold TimesFit; decide +kernel, by decide +kernel⟩
  have hsmall : ∀ key g, s.queue.groups.lookup key = some g →
      ∀ x ∈ g.slots, x.2.attempts < 2 ^ 31 ∧ TimesFit x.2 :=
    fun key g hl => hslots ⟨key, g⟩ (AList.mem_lookup_iff.mp hl)
  obtain ⟨q', hq', hsame⟩ := @export_import_preserves_iff literalMatch [] [] sampleOps s hs
    (fun key g hl x hx => (hsmall key g hl x hx).1) 1 0 0 5 .inOrder .inOrder
  exact ⟨s, q', hs, hq', hcard, hsame.mpr fun key g hl x hx => (hsmall key g hl x hx).2⟩

def longLease : List LiveOp :=
  [.setGroupConfig { defaultGroupConfig (str "g") with leaseTimeout := 9000000000000000000 },
    .publishWithID (str "g") (str "a") [] 1000000000000000000,
    .tryDispatchOne (str "g") .inOrder 1000000000000000000]

/-- A lease of 2500000 hours ends after the last moment of an int64 clock, and comes back as one
that has ended centuries ago. -/
theorem long_lease_is_restored_as_over :
    ∃ s q' g g' m m', @runLive literalMatch [] [] longLease = .ok s ∧
      @Queue.onSnapshot literalMatch (newQueue [] [])
        ⟨1, 0, 0, convertQueueStateToSnapshot .inOrder s.queue.exportState⟩ .inOrder
        1000000000000000001 = .ok q' ∧
      s.queue.groups.lookup (str "g") = some g ∧ g.processing.get? (str "a") = some m ∧
      m.scheduledAt = 10000000000000000000 ∧
      q'.groups.lookup (str "g") = some g' ∧ g'.processing.get? (str "a") = some m' ∧
      m'.scheduledAt = 10000000000000000000 - 2 ^ 64 ∧ g'.contents ≠ g.contents := by
  refine ⟨_, _, _, _, _, _, rfl, rfl, rfl, rfl, rfl, rfl, rfl, rfl, ?_⟩
  decide +kernel

end Octar
