import Octar.Lib.Lease
import Octar.Queue.Moves
import Octar.Queue.Phase

/-! Each message of a group lives the life of a leased item. -/

namespace Octar

open Go

inductive Occurrence
  | published
  | handed (now lease : Int)
  | returned
  | failed (now attempt delay : Int)
  | settled
  deriving DecidableEq, Repr

def Occurrence.event : Occurrence → Lease.Event Int
  | .published => .published
  | .handed now lease => .handed now lease
  | .returned => .returned
  | .failed now _ delay => .failed now delay
  | .settled => .settled

def seen (id : Bytes) (os : List (Bytes × Occurrence)) : List (Lease.Event Int) :=
  (os.filter fun o => o.1 = id).map fun o => o.2.event

@[simp] theorem seen_nil (id : Bytes) : seen id [] = [] := rfl

theorem seen_cons (id : Bytes) (o : Occurrence) (os : List (Bytes × Occurrence)) :
    seen id ((id, o) :: os) = o.event :: seen id os := by
  simp [seen]

theorem seen_append (id : Bytes) (os os' : List (Bytes × Occurrence)) :
    seen id (os ++ os') = seen id os ++ seen id os' := by
  rw [seen, List.filter_append, List.map_append]
  rfl

theorem seen_map (id id' : Bytes) (os : List Occurrence) :
    seen id' (os.map (Prod.mk id)) = if id' = id then os.map Occurrence.event else [] := by
  rw [seen, List.filter_map]
  split
  · rename_i h
    subst h
    simp [Function.comp_def]
  · rename_i h
    simp [Function.comp_def, Ne.symm h]

def placeOf : Loc × Message → Lease.Place Int
  | (.urgent, _) | (.ready, _) => .waiting
  | (.delayed, m) => .delayed m.scheduledAt
  | (.processing, m) => .leased m.scheduledAt

theorem Group.Promoted.step {now : Int} {x y : Loc × Message} (h : Promoted now x y) :
    placeOf x = placeOf y ∨ Lease.Step now (some (placeOf x)) [] (some (placeOf y)) := by
  cases h with
  | same => exact .inl rfl
  | expired h => exact .inr (.expire h)
  | due h => exact .inr (.due h)

theorem Group.Promoted.id_eq {now : Int} {x y : Loc × Message} (h : Promoted now x y) :
    y.2.id = x.2.id := by
  cases h <;> rfl

namespace Group

def place (g : Group) (id : Bytes) : Option (Lease.Place Int) := (g.slotOf id).map placeOf

def completes (g : Group) (id : Bytes) : List (Bytes × Occurrence) :=
  match g.processing.get? id with
  | some _ => [(id, .settled)]
  | none => []

def fails (g : Group) (id : Bytes) (now : Int) : List (Bytes × Occurrence) :=
  match g.processing.get? id with
  | some m =>
    if m.attempts + 1 < g.cfg.retry.maxAttempts then
      match g.retryDelay (m.attempts + 1) with
      | .ok delay => [(id, .failed now (m.attempts + 1) delay)]
      | .error _ => []
    else [(id, .settled)]
  | none => []

def hands (g : Group) (now : Int) (batch : List Message) : List (Bytes × Occurrence) :=
  batch.map fun m => (m.id, .handed now g.cfg.leaseTimeout)

theorem published_notMem_completes (g : Group) (id id' : Bytes) :
    (id', .published) ∉ g.completes id := by
  unfold completes
  split <;> simp

theorem published_notMem_fails (g : Group) (id : Bytes) (now : Int) (id' : Bytes) :
    (id', .published) ∉ g.fails id now := by
  unfold fails
  split
  · split
    · split <;> simp
    · simp
  · simp

theorem published_notMem_hands (g : Group) (now : Int) (batch : List Message) (id' : Bytes) :
    (id', .published) ∉ g.hands now batch := by
  simp [hands]

structure Carries (now : Int) (g g' : Group) (os : List (Bytes × Occurrence)) : Prop where
  wf : g'.Wf
  cfg : g'.cfg = g.cfg
  life : ∀ id history, Lease.Life now (g.place id) history →
    Lease.Life now (g'.place id) (history ++ seen id os)

variable {g g' g₁ : Group} {now : Int} {id : Bytes} {m : Message}

theorem Carries.trans {os os' : List (Bytes × Occurrence)} (h : Carries now g g₁ os)
    (h' : Carries now g₁ g' os') : Carries now g g' (os ++ os') := by
  refine ⟨h'.wf, h'.cfg.trans h.cfg, ?_⟩
  intro id history hl
  rw [seen_append, ← List.append_assoc]
  exact h'.life id _ (h.life id history hl)

theorem Carries.ofStep (hw' : g'.Wf) (hcfg : g'.cfg = g.cfg)
    (h : ∀ id, g'.place id = g.place id ∨ Lease.Step now (g.place id) [] (g'.place id)) :
    Carries now g g' [] := by
  refine ⟨hw', hcfg, ?_⟩
  intro id history hl
  rw [seen_nil]
  rcases h id with heq | hstep
  · rw [heq, List.append_nil]
    exact hl
  · exact hl.step hstep

theorem Carries.ofSlots (hw : g.Wf) (hw' : g'.Wf) (hcfg : g'.cfg = g.cfg) (h : g'.slots = g.slots) :
    Carries now g g' [] := by
  refine .ofStep hw' hcfg fun id => .inl ?_
  have hslot : g'.slotOf id = g.slotOf id := by
    apply Option.ext
    intro x
    rw [slotOf_eq_some hw.distinct, slotOf_eq_some hw'.distinct, h]
  rw [place, hslot, place]

theorem Carries.ofMove (new : Option (Loc × Message)) (os : List Occurrence) (hw' : g'.Wf)
    (hcfg : g'.cfg = g.cfg) (hslot : ∀ id', g'.slotOf id' = if id' = id then new else g.slotOf id')
    (hstep : Lease.Step now (g.place id) (os.map Occurrence.event) (new.map placeOf)) :
    Carries now g g' (os.map (Prod.mk id)) := by
  refine ⟨hw', hcfg, ?_⟩
  intro id' history hl
  rw [seen_map, place, hslot]
  split
  · rename_i h
    subst h
    exact hl.step hstep
  · rw [List.append_nil]
    exact hl

theorem place_of_mem (hw : g.Wf) {x : Loc × Message} (hx : x ∈ g.slots) :
    g.place x.2.id = some (placeOf x) := by
  rw [place, (slotOf_eq_some hw.distinct).mpr ⟨hx, rfl⟩, Option.map_some]

theorem Releases.carries {kept : Option (Loc × Message)} (h : Releases g g' m kept)
    (os : List Occurrence) (hw : g.Wf) (hkept : ∀ x ∈ kept, x.2.id = m.id)
    (hstep : Lease.Step now (some (.leased m.scheduledAt)) (os.map Occurrence.event)
      (kept.map placeOf)) :
    Carries now g g' (os.map (Prod.mk m.id)) := by
  obtain ⟨rest, hg, hg'⟩ := h.slots
  have hm : (.processing, m) ∈ g.slots := hg ▸ Multiset.mem_cons_self _ _
  refine .ofMove kept os h.wf h.cfg (slotOf_of_move kept hg hg' hw.distinct h.wf.distinct hkept) ?_
  rw [place_of_mem hw hm]
  exact hstep

theorem complete_carries (hw : g.Wf) (id : Bytes) :
    Carries now g (g.complete id).1 (g.completes id) := by
  rcases complete_spec hw id with ⟨hnone, heq⟩ | ⟨m, rfl, hr, -⟩
  · rw [completes, hnone, heq]
    exact .ofSlots hw hw rfl rfl
  · rw [completes, hr.lookup hw]
    exact hr.carries [.settled] hw (by simp) .settle

theorem fail_carries {errMsg : Bytes} {dlq : Option Message} (hw : g.Wf)
    (h : g.fail id errMsg now = .ok (g', dlq)) : Carries now g g' (g.fails id now) := by
  rcases fail_spec hw h with ⟨hnone, rfl⟩ | ⟨m, rfl, ⟨hlt, delay, hdelay, hr⟩ | ⟨hge, hr⟩⟩
  · rw [fails, hnone]
    exact .ofSlots hw hw rfl rfl
  · rw [fails, hr.lookup hw]
    simp only [if_pos hlt, hdelay]
    exact hr.carries [.failed now (m.attempts + 1) delay] hw (by simp [retried]) (.fail delay)
  · rw [fails, hr.lookup hw]
    simp only [if_neg (Int.not_lt.mpr hge)]
    exact hr.carries [.settled] hw (by simp) .settle

theorem returnToPending_carries (hw : g.Wf) (id : Bytes) :
    Carries now g (g.returnToPending id) [(id, .returned)] := by
  rcases returnToPending_spec hw id with ⟨-, heq⟩ | ⟨m, rfl, hr⟩
  · rw [heq]
    refine Carries.ofMove (g.slotOf id) [.returned] hw rfl ?_ .giveBackNothing
    intro id'
    split
    · rename_i h
      rw [h]
    · rfl
  · exact hr.carries [.returned] hw (by simp) .giveBack

theorem returnToPending_expires (hw : g.Wf)
    (hexpired : ∀ m, g.processing.get? id = some m → m.scheduledAt < now) :
    Carries now g (g.returnToPending id) [] := by
  rcases returnToPending_spec hw id with ⟨-, heq⟩ | ⟨m, rfl, hr⟩
  · rw [heq]
    exact .ofSlots hw hw rfl rfl
  · exact hr.carries [] hw (by simp) (.expire (hexpired m (hr.lookup hw)))

theorem foldl_returnToPending_expires (hw : g.Wf) {l : List Bytes}
    (hexpired : ∀ id ∈ l, ∀ m, g.processing.get? id = some m → m.scheduledAt < now) :
    Carries now g (l.foldl returnToPending g) [] := by
  induction l generalizing g with
  | nil => exact .ofSlots hw hw rfl rfl
  | cons id l ih =>
    have h := returnToPending_expires hw (hexpired id List.mem_cons_self)
    refine h.trans (ih h.wf ?_)
    -- what is leased after the first return was leased before
    intro id' hid' m hm
    refine hexpired id' (List.mem_cons_of_mem _ hid') m ?_
    rw [returnToPending] at hm
    split at hm
    · exact hm
    · exact (lookup_delete hm).1

theorem sweepGroup_carries (hw : g.Wf) (ord : RangeOrder) (now : Int) :
    Carries now g (Queue.sweepGroup ord now g) [] := by
  apply foldl_returnToPending_expires hw
  intro id hid m hm
  obtain ⟨e, he, hsome⟩ := List.mem_filterMap.mp hid
  split at hsome
  · rename_i hlt
    cases hsome
    have hentry : e ∈ g.processing.table.entries := by simpa using he
    have hlook : g.processing.table.lookup e.1 = some e.2 := AList.mem_lookup_iff.mpr hentry
    cases Option.some.inj (hm.symm.trans hlook)
    exact hlt
  · cases hsome

theorem promoteDelayed_carries (hw : g.Wf) (ord : RangeOrder) (now : Int) :
    Carries now g (g.promoteDelayed ord now).1 [] := by
  obtain ⟨expired, due, h⟩ := promoteDelayed_spec g ord now
  have hs := h.serves hw
  refine .ofStep hs.wf h.cfg fun id => ?_
  cases hy : (g.promoteDelayed ord now).1.slotOf id with
  | none =>
    have hx : g.slotOf id = none := slotOf_eq_none.mpr (hs.ids ▸ slotOf_eq_none.mp hy)
    rw [place, hy, place, hx]
    exact .inl rfl
  | some y =>
    obtain ⟨hmem, rfl⟩ := (slotOf_eq_some hs.wf.distinct).mp hy
    obtain ⟨x, hx, hxy⟩ := h.mem hmem
    have hplace := place_of_mem hw hx
    rw [← hxy.id_eq] at hplace
    rw [place_of_mem hs.wf hmem, hplace]
    exact hxy.step.imp_left fun heq => congrArg some heq.symm

theorem inFlight_lease (hw : g.Wf) {loc : Loc} {m : Message} (hm : (loc, m) ∈ g.slots)
    (hloc : loc ≠ .processing)
    (hp : g'.processing = some (g.processing.table.insert m.id (g.leased m now))) :
    g'.inFlight = g.leased m now ::ₘ g.inFlight := by
  rw [inFlight, hp, NilMap.table_some, Map.values_insert (hw.lookup_none hm hloc)]
  rfl

theorem Dispatches.slots {d : Dispatch} (h : Dispatches now g g' d) (hw : g.Wf) :
    d.msg = none ∧ g'.slots = g.slots ∨
      ∃ loc m rest, d.msg = some (g.leased m now) ∧ placeOf (loc, m) = .waiting ∧
        g.slots = (loc, m) ::ₘ rest ∧ g'.slots = (.processing, g.leased m now) ::ₘ rest := by
  cases h with
  | urgent m msg urgent ready processing allocated frame =>
    have hm : (.urgent, m) ∈ g.slots := mem_slots_urgent.mpr (urgent ▸ List.mem_cons_self)
    refine .inr ⟨.urgent, m, held .urgent g'.liveUrgent.reduceOption +
      held .ready g.liveReady.reduceOption +
      held .delayed g.delayed + held .processing g.inFlight, msg, rfl, ?_, ?_⟩
    · rw [Group.slots, urgent, List.reduceOption_cons_of_some, ← Multiset.cons_coe, held_cons]
      simp only [Multiset.cons_add]
    · rw [Group.slots, ready, frame.delayed, inFlight_lease hw hm (by decide) processing, held_cons,
        Multiset.add_cons]
  | ready m k msg urgent urgent' ready processing allocated frame =>
    have hm : (.ready, m) ∈ g.slots :=
      mem_slots_ready.mpr (ready ▸ List.mem_append_right _ List.mem_cons_self)
    refine .inr ⟨.ready, m, held .urgent g.liveUrgent.reduceOption +
      held .ready g'.liveReady.reduceOption +
      held .delayed g.delayed + held .processing g.inFlight, msg, rfl, ?_, ?_⟩
    · rw [Group.slots, ready, reduceOption_replicate_none, List.reduceOption_cons_of_some,
        ← Multiset.cons_coe, held_cons]
      simp only [Multiset.cons_add, Multiset.add_cons]
    · rw [Group.slots, urgent', urgent, frame.delayed, inFlight_lease hw hm (by decide) processing,
        held_cons, Multiset.add_cons]
  | refused msg urgent ready processing frame =>
    have hr : g'.liveReady.reduceOption = g.liveReady.reduceOption := by
      rcases ready with h | ⟨h, hn⟩
      · rw [h]
      · rw [h, reduceOption_eq_nil hn]
        rfl
    refine .inl ⟨msg, ?_⟩
    rw [Group.slots, urgent, hr, frame.delayed, inFlight, processing]
    rfl

theorem nextDispatchable_carries {d : Dispatch} (hw : g.Wf)
    (h : g.nextDispatchable now = .ok (g', d)) :
    Carries now g g' (g.hands now d.msg.toList) := by
  have hdisp := nextDispatchable_ok h hw.readyHead_le
  have hs := hdisp.serves hw
  rcases hdisp.slots hw with ⟨hmsg, hslots⟩ | ⟨loc, m, rest, hmsg, hplace, hg, hg'⟩
  · rw [hmsg]
    exact .ofSlots hw hs.wf hs.cfg hslots
  · have hm : (loc, m) ∈ g.slots := hg ▸ Multiset.mem_cons_self _ _
    have hslot := slotOf_of_move (some (.processing, g.leased m now)) hg
      (hg'.trans (toList_some_add _ _).symm) hw.distinct hs.wf.distinct (by simp)
    rw [hmsg]
    refine Carries.ofMove _ [.handed now g.cfg.leaseTimeout] hs.wf hs.cfg hslot ?_
    rw [leased_id, place_of_mem hw hm, hplace]
    exact .hand g.cfg.leaseTimeout

theorem hands_congr (hcfg : g'.cfg = g.cfg) (now : Int) (batch : List Message) :
    g'.hands now batch = g.hands now batch := by
  rw [hands, hcfg, hands]

theorem promoteNext_carries {ord : RangeOrder} {msg : Option Message} (hw : g.Wf)
    (h : (g.promoteDelayed ord now).1.next now = .ok (g', msg)) :
    Carries now g g' (g.hands now msg.toList) := by
  have hp := promoteDelayed_carries hw ord now
  obtain ⟨⟨g₁, d⟩, hd, hret⟩ := bind_ok.mp h
  cases hret
  have hn := nextDispatchable_carries hp.wf hd
  rw [hands_congr hp.cfg] at hn
  exact hp.trans hn

theorem Carries.setCounters {os : List (Bytes × Occurrence)} (h : Carries now g g' os)
    (deficit quantum : Int) :
    Carries now g { g' with deficit := deficit, quantum := quantum } os :=
  ⟨⟨h.wf.urgentHead_le, h.wf.readyHead_le, h.wf.urgent_full, h.wf.allocated,
    h.wf.keyed, h.wf.distinct⟩, h.cfg, h.life⟩

theorem drainRound_carries {ord : RangeOrder} {r : DrainResult} (hw : g.Wf)
    (h : g.drainRound ord now = .ok (g', r)) :
    Carries now g g' (g.hands now (r.ready.getD [])) := by
  refine drainRound_induct (motive := fun g' batch => Carries now g g' (g.hands now batch)) ?_ ?_
    (promoteDelayed_carries hw ord now) h
  · intro g₁ g₂ d batch hb hd
    have hn := nextDispatchable_carries hb.wf hd
    rw [hands_congr hb.cfg] at hn
    rw [hands, List.map_append]
    exact hb.trans hn
  · intro g₁ batch deficit quantum hb
    exact hb.setCounters deficit quantum

theorem enqueue_life (hw : g.Wf) (hfresh : m.id ∉ g.ids) (id : Bytes)
    {history : List (Lease.Event Int)} (hnew : id = m.id → .published ∉ history)
    (hl : Lease.Life now (g.place id) history) :
    Lease.Life now ((g.enqueue m).place id) (history ++ seen id [(m.id, .published)]) := by
  have hslots : (g.enqueue m).slots = (.ready, m) ::ₘ g.slots :=
    slots_appendReady g m hw.readyHead_le
  have hslot := slotOf_of_add hslots hw.distinct (enqueue_wf hw hfresh).distinct hfresh id
  have hseen := seen_map m.id id [.published]
  rw [List.map_singleton] at hseen
  rw [hseen, place, hslot]
  split
  · rename_i h
    have hnone := hl.place_eq_none (hnew h)
    rw [hnone] at hl
    exact hl.publish (hnew h)
  · rw [List.append_nil]
    exact hl

end Group

end Octar
