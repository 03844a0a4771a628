import Octar.Broker.ExportImport
import Octar.Queue.DrainRound

namespace Octar

open Go

section Merge

variable {α κ : Type} {key : α → κ} {p : α → Bool} {urgent ready rest : List α}

theorem nil_of_prefix_swap (hkeys : ((urgent ++ ready).map key).Nodup)
    (h : (urgent ++ ready).map key <+: (ready ++ rest).map key) : urgent = [] ∨ ready = [] := by
  cases urgent with
  | nil => exact .inl rfl
  | cons u urgent =>
    cases ready with
    | nil => exact .inr rfl
    | cons r ready =>
      have heq : key u = key r := by
        obtain ⟨tail, htail⟩ := h
        exact (List.cons.inj htail).1
      rw [List.cons_append, List.map_cons, List.nodup_cons] at hkeys
      refine absurd ?_ hkeys.1
      rw [heq]
      exact List.mem_map_of_mem (List.mem_append_right _ List.mem_cons_self)

theorem filter_merged (h : ∀ a ∈ urgent ++ ready, p a = true) :
    (ready ++ urgent ++ rest).filter p = ready ++ (urgent ++ rest.filter p) := by
  rw [List.filter_append, List.filter_append, List.append_assoc,
    List.filter_eq_self.mpr fun a ha => h a (List.mem_append_right _ ha),
    List.filter_eq_self.mpr fun a ha => h a (List.mem_append_left _ ha)]

theorem append_swap (h : urgent = [] ∨ ready = []) : ready ++ urgent = urgent ++ ready := by
  rcases h with rfl | rfl
  · exact List.append_nil _
  · exact (List.append_nil _).symm

theorem of_line_survives (hkeys : ((urgent ++ ready ++ rest).map key).Nodup)
    (h : (urgent ++ ready).map key <+: ((ready ++ urgent ++ rest).filter p).map key) :
    (∀ a ∈ urgent ++ ready, p a = true) ∧ (urgent = [] ∨ ready = []) := by
  have hpass : ∀ a ∈ urgent ++ ready, p a = true := by
    intro a ha
    obtain ⟨b, hb, heq⟩ := List.mem_map.mp (h.subset (List.mem_map_of_mem ha))
    obtain ⟨hb, hp⟩ := List.mem_filter.mp hb
    have hmem : b ∈ urgent ++ ready ++ rest :=
      (List.perm_append_comm.append_right rest).mem_iff.mp hb
    rw [List.inj_on_of_nodup_map hkeys (List.mem_append_left _ ha) hmem heq.symm]
    exact hp
  refine ⟨hpass, ?_⟩
  rw [filter_merged hpass] at h
  refine nil_of_prefix_swap ?_ h
  rw [List.map_append] at hkeys
  exact hkeys.of_append_left

end Merge

namespace Group

def KeepsLine (now : Int) (g : Group) : Prop :=
  (∀ m ∈ g.line, int64 m.scheduledAt ≤ now) ∧
    (g.liveUrgent.reduceOption = [] ∨ g.liveReady.reduceOption = [])

instance (now : Int) (g : Group) : Decidable (g.KeepsLine now) :=
  inferInstanceAs (Decidable (_ ∧ _))

variable {g : Group}

theorem line_importedGroup (g₀ : Group) (h : g.Each Regular) (ord : RangeOrder)
    (queueName ns key : Bytes) (now : Int) :
    (importedGroup g₀ (restoreGroup queueName ns now (groupSnapshot ord key g.exportState))).line =
      ((g.liveReady.reduceOption ++ g.liveUrgent.reduceOption ++ g.delayed).filter fun m =>
        int64 m.scheduledAt ≤ now).map (restored queueName ns key) := by
  have hready :
      (importedGroup g₀ (restoreGroup queueName ns now
        (groupSnapshot ord key g.exportState))).line =
      ((g.exportState.messages ord).map (restored queueName ns key)).filter fun m =>
        m.state = .pending ∧ m.scheduledAt ≤ now := by
    rw [restoreGroup, groupSnapshot, List.map_map, foldl_restoreMessage]
    simp only [line, liveUrgent, liveReady, importedGroup, importState, List.drop_zero,
      reduceOption_map_some, List.nil_append]
    rfl
  have hpending : ∀ m ∈ g.liveReady.reduceOption ++ g.liveUrgent.reduceOption ++ g.delayed,
      (restored queueName ns key m).state = .pending := by
    intro m hm
    obtain ⟨loc, hx, hloc⟩ : ∃ loc, (loc, m) ∈ g.slots ∧ loc ≠ .processing := by
      rcases List.mem_append.mp hm with hm | hm
      · rcases List.mem_append.mp hm with hm | hm
        · exact ⟨.ready, by simp [slots, hm], by decide⟩
        · exact ⟨.urgent, by simp [slots, hm], by decide⟩
      · exact ⟨.delayed, by simp [slots, hm], by decide⟩
    have hregular := h.slots _ hx
    rw [restored_state hregular queueName ns key, hregular.state, if_neg hloc]
  have hleased : ∀ m ∈ (ord.pick g.processing.table.entries).map Sigma.snd,
      (restored queueName ns key m).state = .processing := by
    intro m hm
    obtain ⟨e, he, rfl⟩ := List.mem_map.mp hm
    have hx : (.processing, e.2) ∈ g.slots := by
      apply mem_inFlight.mp
      exact Map.mem_values.mpr ⟨e.1, AList.mem_lookup_iff.mpr (ord.mem_pick.mp he)⟩
    have hregular := h.slots _ hx
    rw [restored_state hregular queueName ns key, hregular.state, if_pos rfl]
  rw [hready, GroupState.messages, List.map_append, List.filter_append, List.filter_map,
    List.filter_map]
  have hnone : ((ord.pick g.processing.table.entries).map Sigma.snd).filter
      ((fun m => decide (m.state = .pending ∧ m.scheduledAt ≤ now)) ∘ restored queueName ns key) =
        [] := by
    apply List.filter_eq_nil_iff.mpr
    intro m hm
    simp [hleased m hm]
  have hsome : (g.liveReady.reduceOption ++ g.liveUrgent.reduceOption ++ g.delayed).filter
      ((fun m => decide (m.state = .pending ∧ m.scheduledAt ≤ now)) ∘ restored queueName ns key) =
      (g.liveReady.reduceOption ++ g.liveUrgent.reduceOption ++ g.delayed).filter fun m =>
        int64 m.scheduledAt ≤ now := by
    apply List.filter_congr
    intro m hm
    simp only [Function.comp, hpending m hm, true_and]
    rfl
  exact (congrArg₂ (· ++ ·) (congrArg _ hsome) (congrArg _ hnone)).trans (List.append_nil _)

theorem nodup_line (h : g.ids.Nodup) :
    ((g.liveUrgent.reduceOption ++ g.liveReady.reduceOption ++ g.delayed).map
      Message.id).Nodup := by
  rw [ids_eq, Multiset.coe_add, Multiset.coe_add, ← List.map_append, ← List.map_append] at h
  exact Multiset.coe_nodup.mp (Multiset.nodup_of_le (Multiset.le_add_right _ _) h)

section Restored

variable {g' : Group} {queueName ns key : Bytes} {now : Int}
  (hline : g'.line = ((g.liveReady.reduceOption ++ g.liveUrgent.reduceOption ++ g.delayed).filter
    fun m => int64 m.scheduledAt ≤ now).map (restored queueName ns key))
include hline

theorem KeepsLine.line_eq (h : g.KeepsLine now) : g'.line =
    (g.line ++ g.delayed.filter fun m => int64 m.scheduledAt ≤ now).map
      (restored queueName ns key) := by
  obtain ⟨hdue, hnil⟩ := h
  rw [hline, filter_merged fun m hm => decide_eq_true (hdue m hm), ← List.append_assoc,
    append_swap hnil]
  rfl

theorem prefix_iff_keepsLine (hids : g.ids.Nodup) :
    g.line.map (restored queueName ns key) <+: g'.line ↔ g.KeepsLine now := by
  constructor
  · intro h
    have hmapped := h.map Message.id
    rw [hline, List.map_map, List.map_map] at hmapped
    obtain ⟨hdue, hnil⟩ := of_line_survives (nodup_line hids) hmapped
    exact ⟨fun m hm => of_decide_eq_true (hdue m hm), hnil⟩
  · intro h
    rw [h.line_eq hline, List.map_append]
    exact List.prefix_append _ _

theorem line_eq_iff (hids : g.ids.Nodup) : g'.line = g.line.map (restored queueName ns key) ↔
    g.KeepsLine now ∧ ∀ m ∈ g.delayed, now < int64 m.scheduledAt := by
  have hlate : g.delayed.filter (fun m => int64 m.scheduledAt ≤ now) = [] ↔
      ∀ m ∈ g.delayed, now < int64 m.scheduledAt := by
    simp only [List.filter_eq_nil_iff, decide_eq_true_eq, Int.not_le]
  rw [← hlate]
  constructor
  · intro heq
    have hkeeps : g.KeepsLine now := (prefix_iff_keepsLine hline hids).mp (heq ▸ List.prefix_refl _)
    rw [hkeeps.line_eq hline, List.map_append] at heq
    exact ⟨hkeeps, List.map_eq_nil_iff.mp (List.append_right_eq_self.mp heq)⟩
  · rintro ⟨hkeeps, hnone⟩
    rw [hkeeps.line_eq hline, hnone, List.append_nil]

end Restored

end Group

/-- After export, snapshot and import the line of a group is followed by the retries that are due by
then, if it was one list and due itself. With distinct identifiers it is not even a part of the
restored line otherwise. -/
theorem restored_line_iff [PathMatch] {name ns : Bytes} {ops : List LiveOp} {s : LiveRun}
    (hrun : runLive name ns ops = .ok s) (segmentID walSeq : Nat) (timestamp now : Int)
    (ord ord' : RangeOrder) :
    ∃ q', (newQueue name ns).onSnapshot
        ⟨segmentID, walSeq, timestamp, convertQueueStateToSnapshot ord s.queue.exportState⟩
          ord' now = .ok q' ∧
      ∀ key g, s.queue.groups.lookup key = some g → ∃ g', q'.groups.lookup key = some g' ∧
        (g.KeepsLine now →
          g'.line = (g.line ++ g.delayed.filter fun m => int64 m.scheduledAt ≤ now).map
          (restored name ns key)) ∧
        ((ops.filterMap LiveOp.publishID).Nodup →
          (g.line.map (restored name ns key) <+: g'.line ↔ g.KeepsLine now) ∧
          (g'.line = g.line.map (restored name ns key) ↔
            g.KeepsLine now ∧ ∀ m ∈ g.delayed, now < int64 m.scheduledAt)) := by
  have hregular : s.queue.Each Regular :=
    runLive_each Regular.closed (fun _ _ _ _ _ _ => ⟨rfl, Int.le_refl 0⟩) hrun
  have hlast : ∀ key, lastGroup (convertQueueStateToSnapshot ord s.queue.exportState) key =
      (s.queue.groups.lookup key).map fun g => groupSnapshot ord key g.exportState := by
    intro key
    rw [lastGroup_convert, Queue.exportState, Map.lookup_mapTo, Option.map_map]
    rfl
  obtain ⟨hspec, htotal⟩ := (newQueue name ns).onSnapshot_spec
    ⟨segmentID, walSeq, timestamp, convertQueueStateToSnapshot ord s.queue.exportState⟩ ord' now
  obtain ⟨q', hq'⟩ : ∃ q', (newQueue name ns).onSnapshot ⟨segmentID, walSeq, timestamp,
      convertQueueStateToSnapshot ord s.queue.exportState⟩ ord' now = .ok q' := by
    rw [htotal]
    intro gs _ r hr
    cases hr
  refine ⟨q', hq', ?_⟩
  intro key g hg
  obtain ⟨g₀, -, hl⟩ := (hspec q' hq').restored key _ (by rw [hlast, hg]; rfl)
  have hline := Group.line_importedGroup g₀ (hregular key g hg) ord name ns key now
  refine ⟨_, hl, fun hkeeps => hkeeps.line_eq hline, ?_⟩
  intro hids
  have hdistinct : g.ids.Nodup := ((LiveRun.runLive_balanced hids hrun).sound key g hg).distinct
  exact ⟨Group.prefix_iff_keepsLine hline hdistinct, Group.line_eq_iff hline hdistinct⟩

def linesAround (ops : List LiveOp) (now : Int) : Option (List Bytes × List Bytes) :=
  match @runLive literalMatch [] [] ops with
  | .error _ => none
  | .ok s =>
    match @Queue.onSnapshot literalMatch (newQueue [] [])
        ⟨1, 0, 0, convertQueueStateToSnapshot .inOrder s.queue.exportState⟩ .inOrder now with
    | .error _ => none
    | .ok q' => do
      let g ← s.queue.groups.lookup (str "g")
      let g' ← q'.groups.lookup (str "g")
      return (g.line.map Message.id, g'.line.map Message.id)

def twoPublished : List LiveOp :=
  [.publishWithID (str "g") (str "a") [] 0, .publishWithID (str "g") (str "b") [] 0]

theorem restored_line_iff_sample : ∃ s, @runLive literalMatch [] [] twoPublished = .ok s ∧
    ∃ q', @Queue.onSnapshot literalMatch (newQueue [] [])
        ⟨1, 0, 0, convertQueueStateToSnapshot .inOrder s.queue.exportState⟩ .inOrder 2 = .ok q' ∧
      ∃ g g', s.queue.groups.lookup (str "g") = some g ∧ q'.groups.lookup (str "g") = some g' ∧
        g.line.map Message.id = [str "a", str "b"] ∧
          g'.line = g.line.map (restored [] [] (str "g")) := by
  obtain ⟨s, hs, g, hg, hline, hkeeps, hlate⟩ : ∃ s,
      @runLive literalMatch [] [] twoPublished = .ok s ∧
      ∃ g, s.queue.groups.lookup (str "g") = some g ∧ g.line.map Message.id = [str "a", str "b"] ∧
        g.KeepsLine 2 ∧ ∀ m ∈ g.delayed, 2 < int64 m.scheduledAt :=
    ⟨_, rfl, _, rfl, by decide +kernel, by decide +kernel, by decide +kernel⟩
  obtain ⟨q', hq', hlines⟩ :=
    @restored_line_iff literalMatch [] [] twoPublished s hs 1 0 0 2 .inOrder .inOrder
  obtain ⟨g', hg', -, hiff⟩ := hlines (str "g") g hg
  exact ⟨s, hs, q', hq', g, g', hg, hg', hline, (hiff (by decide)).2.mpr ⟨hkeeps, hlate⟩⟩

/-- A message that was handed out and returned is the first in line. A restore before the end of the
lease it no longer has does not find it eligible, a later one puts it last. -/
theorem returned_message_loses_its_place :
    let ops :=
  twoPublished ++ [LiveOp.tryDispatchOne (str "g") .inOrder 1, .returnToPending (str "g") (str "a")]
    linesAround ops 2 = some ([str "a", str "b"], [str "b"]) ∧
      linesAround ops (2 ^ 50) = some ([str "a", str "b"], [str "b", str "a"]) := by
  decide +kernel

end Octar
