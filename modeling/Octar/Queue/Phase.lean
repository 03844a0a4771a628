import Octar.Queue.LiveLaws

/-! Where a group has one particular message, and with how many attempts. -/

namespace Octar

open Go

theorem find?_key_eq_some {α κ : Type} [DecidableEq κ] {l : List α} {key : α → κ}
    (h : (l.map key).Nodup)
    {k : κ} {a : α} : l.find? (fun b => key b = k) = some a ↔ a ∈ l ∧ key a = k := by
  constructor
  · intro hf
    exact ⟨List.mem_of_find?_eq_some hf, by simpa using List.find?_some hf⟩
  · rintro ⟨ha, rfl⟩
    cases hf : l.find? fun b => decide (key b = key a) with
    | none => exact absurd (by simp) (List.find?_eq_none.mp hf a ha)
    | some b =>
      have hb := List.mem_of_find?_eq_some hf
      have hk : key b = key a := by simpa using List.find?_some hf
      rw [List.inj_on_of_nodup_map h hb ha hk]

theorem toList_some_add {α : Type} (a : α) (s : Multiset α) :
    ((some a).toList : Multiset α) + s = a ::ₘ s := by
  rw [Option.toList_some, Multiset.coe_singleton, Multiset.singleton_add]

namespace Group

def slotList (g : Group) : List (Loc × Message) :=
  g.liveUrgent.reduceOption.map (Prod.mk .urgent) ++ g.liveReady.reduceOption.map
    (Prod.mk .ready) ++
    g.delayed.map (Prod.mk .delayed) ++ g.processing.table.entries.map fun e => (.processing, e.2)

theorem coe_slotList (g : Group) : (g.slotList : Multiset (Loc × Message)) = g.slots := by
  simp [slotList, slots, held, inFlight, Map.values, ← Multiset.coe_add, Function.comp_def,
    add_assoc]

def slotOf (g : Group) (id : Bytes) : Option (Loc × Message) :=
  g.slotList.find? fun x => x.2.id = id

theorem slotOf_eq_some {g : Group} (hd : g.ids.Nodup) {id : Bytes} {x : Loc × Message} :
    g.slotOf id = some x ↔ x ∈ g.slots ∧ x.2.id = id := by
  have hl : (g.slotList.map fun x => x.2.id).Nodup := by
    rw [ids, ← coe_slotList] at hd
    exact hd
  rw [slotOf, find?_key_eq_some hl, ← coe_slotList, Multiset.mem_coe]

theorem slotOf_eq_none {g : Group} {id : Bytes} : g.slotOf id = none ↔ id ∉ g.ids := by
  simp only [slotOf, List.find?_eq_none, ids, ← coe_slotList, Multiset.map_coe, Multiset.mem_coe,
    List.mem_map, decide_eq_true_eq, not_exists, not_and]

theorem slotOf_of_swap {g g' : Group} {rest : Multiset (Loc × Message)}
    (old new : Option (Loc × Message)) (id : Bytes) (hg : g.slots = old.toList + rest)
    (hg' : g'.slots = new.toList + rest) (hd : g.ids.Nodup) (hd' : g'.ids.Nodup)
    (hold : ∀ x ∈ old, x.2.id = id) (hnew : ∀ x ∈ new, x.2.id = id)
    (hrest : ∀ x ∈ rest, x.2.id ≠ id) (id' : Bytes) :
    g'.slotOf id' = if id' = id then new else g.slotOf id' := by
  split
  · rename_i h
    subst h
    cases new with
    | none =>
      apply slotOf_eq_none.mpr
      rw [ids, hg', Multiset.mem_map]
      rintro ⟨x, hx, hid⟩
      exact hrest x (by simpa using hx) hid
    | some x =>
      apply (slotOf_eq_some hd').mpr
      exact ⟨hg' ▸ by simp, hnew x rfl⟩
  · rename_i hne
    -- away from `id` both groups hold `rest`
    have hmem : ∀ {g₁ : Group} {o : Option (Loc × Message)}, g₁.slots = o.toList + rest →
        (∀ x ∈ o, x.2.id = id) → ∀ x : Loc × Message, x.2.id = id' → (x ∈ g₁.slots ↔ x ∈ rest) := by
      intro g₁ o hs ho x hx
      rw [hs, Multiset.mem_add]
      constructor
      · rintro (hx' | hx')
        · exact absurd (hx ▸ ho x (by simpa using hx')) hne
        · exact hx'
      · exact .inr
    apply Option.ext
    intro x
    rw [slotOf_eq_some hd, slotOf_eq_some hd']
    constructor
    · rintro ⟨hx, hid⟩
      exact ⟨(hmem hg hold x hid).mpr ((hmem hg' hnew x hid).mp hx), hid⟩
    · rintro ⟨hx, hid⟩
      exact ⟨(hmem hg' hnew x hid).mpr ((hmem hg hold x hid).mp hx), hid⟩

theorem slotOf_of_move {g g' : Group} {rest : Multiset (Loc × Message)} {loc : Loc} {m : Message}
    (new : Option (Loc × Message)) (hg : g.slots = (loc, m) ::ₘ rest)
    (hg' : g'.slots = new.toList + rest) (hd : g.ids.Nodup) (hd' : g'.ids.Nodup)
    (hnew : ∀ x ∈ new, x.2.id = m.id) (id' : Bytes) :
    g'.slotOf id' = if id' = m.id then new else g.slotOf id' := by
  have hold : g.slots = (some (loc, m)).toList + rest := by
    rw [hg, toList_some_add]
  have hrest : ∀ x ∈ rest, x.2.id ≠ m.id := by
    intro x hx hid
    rw [ids, hg, Multiset.map_cons, Multiset.nodup_cons] at hd
    exact hd.1 (Multiset.mem_map.mpr ⟨x, hx, hid⟩)
  exact slotOf_of_swap (some (loc, m)) new m.id hold hg' hd hd' (by simp) hnew hrest id'

theorem slotOf_of_add {g g' : Group} {loc : Loc} {m : Message}
    (hg' : g'.slots = (loc, m) ::ₘ g.slots) (hd : g.ids.Nodup) (hd' : g'.ids.Nodup)
    (hfresh : m.id ∉ g.ids) (id' : Bytes) :
    g'.slotOf id' = if id' = m.id then some (loc, m) else g.slotOf id' := by
  have hnew : g'.slots = (some (loc, m)).toList + g.slots := by
    rw [hg', toList_some_add]
  have hrest : ∀ x ∈ g.slots, x.2.id ≠ m.id := fun x hx hid => hfresh (hid ▸ mem_ids_of_mem hx)
  exact slotOf_of_swap none (some (loc, m)) m.id (by simp) hnew hd hd' (by simp) (by simp) hrest id'

def phase (g : Group) (id : Bytes) : Option (Loc × Int) :=
  (g.slotList.find? fun x => x.2.id = id).map fun x => (x.1, x.2.attempts)

theorem phase_eq_map (g : Group) (id : Bytes) :
    g.phase id = (g.slotOf id).map fun x => (x.1, x.2.attempts) := rfl

theorem phase_eq_some {g : Group} (hd : g.ids.Nodup) {id : Bytes} {loc : Loc} {a : Int} :
    g.phase id = some (loc, a) ↔ ∃ m, (loc, m) ∈ g.slots ∧ m.id = id ∧ m.attempts = a := by
  simp only [phase_eq_map, Option.map_eq_some_iff, slotOf_eq_some hd]
  constructor
  · rintro ⟨⟨loc', m⟩, ⟨hm, hid⟩, heq⟩
    cases heq
    exact ⟨m, hm, hid, rfl⟩
  · rintro ⟨m, hm, hid, rfl⟩
    exact ⟨(loc, m), ⟨hm, hid⟩, rfl⟩

theorem phase_eq_none {g : Group} {id : Bytes} : g.phase id = none ↔ id ∉ g.ids := by
  rw [phase_eq_map, Option.map_eq_none_iff, slotOf_eq_none]

theorem phase_of_mem {g : Group} (hd : g.ids.Nodup) {loc : Loc} {m : Message}
    (h : (loc, m) ∈ g.slots) :
    g.phase m.id = some (loc, m.attempts) := (phase_eq_some hd).mpr ⟨m, h, rfl, rfl⟩

theorem phase_of_move {g g' : Group} {rest : Multiset (Loc × Message)} {loc : Loc} {m : Message}
    (new : Option (Loc × Message)) (hg : g.slots = (loc, m) ::ₘ rest)
    (hg' : g'.slots = new.toList + rest) (hd : g.ids.Nodup) (hd' : g'.ids.Nodup)
    (hnew : ∀ x ∈ new, x.2.id = m.id) (id' : Bytes) :
    g'.phase id' = if id' = m.id then new.map fun x => (x.1, x.2.attempts) else g.phase id' := by
  rw [phase_eq_map, slotOf_of_move new hg hg' hd hd' hnew, apply_ite (Option.map _), ← phase_eq_map]

theorem phase_of_add {g g' : Group} {loc : Loc} {m : Message}
    (hg' : g'.slots = (loc, m) ::ₘ g.slots) (hd : g.ids.Nodup) (hd' : g'.ids.Nodup)
    (hfresh : m.id ∉ g.ids) (id' : Bytes) :
    g'.phase id' = if id' = m.id then some (loc, m.attempts) else g.phase id' := by
  rw [phase_eq_map, slotOf_of_add hg' hd hd' hfresh, apply_ite (Option.map _), ← phase_eq_map]
  rfl

end Group

namespace Queue

def phase (q : Queue) (key id : Bytes) : Option (Loc × Int) :=
  (q.groups.lookup key).bind fun g => g.phase id

theorem phase_some {q : Queue} {key : Bytes} {g : Group} (h : q.groups.lookup key = some g)
    (id : Bytes) :
    q.phase key id = g.phase id := by
  rw [phase, h, Option.bind_some]

theorem phase_none {q : Queue} {key : Bytes} (h : q.groups.lookup key = none) (id : Bytes) :
    q.phase key id = none := by
  rw [phase, h, Option.bind_none]

def Holds (q : Queue) (key id : Bytes) : Prop := ∃ g, q.groups.lookup key = some g ∧ id ∈ g.ids

theorem holds_iff_phase {q : Queue} {key id : Bytes} : q.Holds key id ↔ q.phase key id ≠ none := by
  rw [Holds, phase]
  cases q.groups.lookup key with
  | none => simp
  | some g => simp [Group.phase_eq_none]

theorem phase_setGroup (q : Queue) (key : Bytes) (g : Group) (key' id : Bytes) :
    (q.setGroup key g).phase key' id = if key' = key then g.phase id else q.phase key' id := by
  split
  · rename_i h
    subst h
    exact phase_some (AList.lookup_insert _) id
  · rename_i h
    rw [phase, phase, setGroup, AList.lookup_insert_ne h]

def All [PathMatch] (I : Bytes → GroupConfig → Group → Prop) (q : Queue) : Prop :=
  ∀ key g, q.groups.lookup key = some g → I key (q.resolveConfig key) g

structure Effect [PathMatch] (I : Bytes → GroupConfig → Group → Prop) (q q' : Queue)
    (key id : Bytes) (new : Option (Loc × Int)) : Prop where
  cfgIdx : q'.cfgIdx = q.cfgIdx
  all : q'.All I
  phase : ∀ k i, q'.phase k i = if k = key ∧ i = id then new else q.phase k i

section Effect

variable [PathMatch] {I : Bytes → GroupConfig → Group → Prop} {q q' : Queue} {key id : Bytes}
  {new : Option (Loc × Int)}

theorem resolveConfig_congr (h : q'.cfgIdx = q.cfgIdx) (k : Bytes) :
    q'.resolveConfig k = q.resolveConfig k := by
  rw [resolveConfig, resolveConfig, h]

theorem Effect.same (hr : q.All I) (hnew : new = q.phase key id) : Effect I q q key id new := by
  refine ⟨rfl, hr, ?_⟩
  intro k i
  split
  · rename_i h
    rw [h.1, h.2, hnew]
  · rfl

theorem All.ofEmpty (h : q.groups = ∅) : q.All I := by
  intro key g hl
  rw [h] at hl
  cases hl

theorem All.insert (hr : q.All I) {g : Group} (hcfg : q'.cfgIdx = q.cfgIdx)
    (hgroups : q'.groups = q.groups.insert key g) (hg : I key (q.resolveConfig key) g) :
    q'.All I := by
  intro k g' hl
  rw [hgroups] at hl
  rw [resolveConfig_congr hcfg]
  by_cases hk : k = key
  · subst hk
    rw [AList.lookup_insert] at hl
    cases hl
    exact hg
  · rw [AList.lookup_insert_ne hk] at hl
    exact hr k g' hl

theorem Effect.ofGroup (hr : q.All I) {g : Group} (hcfg : q'.cfgIdx = q.cfgIdx)
    (hgroups : q'.groups = q.groups.insert key g) (hg : I key (q.resolveConfig key) g)
    (hphase : ∀ i, g.phase i = if i = id then new else q.phase key i) :
    Effect I q q' key id new := by
  refine ⟨hcfg, hr.insert hcfg hgroups hg, ?_⟩
  intro k i
  have hset : q'.phase k i = (q.setGroup key g).phase k i := by
    rw [Queue.phase, hgroups]
    rfl
  rw [hset, phase_setGroup]
  by_cases hk : k = key
  · subst hk
    simp [hphase]
  · simp [hk]

theorem Effect.ofSelf (hr : q.All I) {g : Group} (hl : q.groups.lookup key = some g)
    (hcfg : q'.cfgIdx = q.cfgIdx) (hgroups : q'.groups = q.groups.insert key g)
    (hnew : new = g.phase id) :
    Effect I q q' key id new := by
  refine .ofGroup hr hcfg hgroups (hr key g hl) ?_
  intro i
  rw [phase_some hl]
  split
  · rename_i hi
    rw [hi, hnew]
  · rfl

theorem Effect.trans {q₁ q₂ : Queue} {p p' : Option (Loc × Int)} (h : Effect I q q₁ key id p)
    (h' : Effect I q₁ q₂ key id p') : Effect I q q₂ key id p' := by
  refine ⟨h'.cfgIdx.trans h.cfgIdx, h'.all, ?_⟩
  intro k i
  rw [h'.phase, h.phase]
  split <;> rfl

theorem Effect.resolveConfig (h : Effect I q q' key id new) (k : Bytes) :
    q'.resolveConfig k = q.resolveConfig k := resolveConfig_congr h.cfgIdx k

structure Publishes (I : Bytes → GroupConfig → Group → Prop) : Prop where
  wf : ∀ {key cfg g}, I key cfg g → g.Wf
  cfg_eq : ∀ {key cfg g}, I key cfg g → g.cfg = cfg.withDefaults
  rate_ok : ∀ {key cfg g}, I key cfg g → cfg.RateOk
  new : ∀ {key cfg g}, newGroup cfg = .ok g → I key cfg g
  enqueue : ∀ {key cfg g} {m : Message}, I key cfg g → m.id ∉ g.ids → m.attempts = 0 →
    m.groupKey = key →
    I key cfg (g.enqueue m)

theorem groupFor_all (hI : Publishes I) (hr : q.All I) {g : Group} (h : q.groupFor key = .ok g) :
    I key (q.resolveConfig key) g ∧ ∀ id, g.phase id = q.phase key id := by
  rcases groupFor_cases h with hl | ⟨hl, hnew⟩
  · exact ⟨hr key g hl, fun id => (phase_some hl id).symm⟩
  · obtain ⟨-, hslots, -, -⟩ := Group.newGroup_ok hnew
    refine ⟨hI.new hnew, ?_⟩
    intro id
    rw [phase_none hl]
    apply Group.phase_eq_none.mpr
    simp [Group.ids, hslots]

theorem groupFor_total (hI : Publishes I) (hr : q.All I) (key : Bytes) :
    (∃ g, q.groupFor key = .ok g) ↔ (q.resolveConfig key).RateOk := by
  unfold groupFor
  cases hl : q.groups.lookup key with
  | some g => exact ⟨fun _ => hI.rate_ok (hr key g hl), fun _ => ⟨g, rfl⟩⟩
  | none => exact Group.newGroup_total

theorem publishWithID_effect (hI : Publishes I) (hr : q.All I) (payload : Bytes) (now : Int)
    (hdepth : (q.resolveConfig key).maxPending ≤ 0) (hfresh : q.phase key id = none) :
    (∀ q' r, q.publishWithID key id payload now = .ok (q', r) →
        r = .ok (newMessageAt q.name q.ns key payload now id) ∧
        Effect I q q' key id (some (.ready, 0))) ∧
      ((∃ r, q.publishWithID key id payload now = .ok r) ↔ (q.resolveConfig key).RateOk) := by
  constructor
  · intro q' r h
    obtain ⟨g, hg, hcases⟩ := publishWithID_ok h
    obtain ⟨hIg, hphase⟩ := groupFor_all hI hr hg
    rcases hcases with ⟨hpos, -, -⟩ | ⟨rfl, keyIdx, rfl⟩
    · rw [hI.cfg_eq hIg] at hpos
      exact absurd hpos (Int.not_lt.mpr hdepth)
    · have hw := hI.wf hIg
      have hid : id ∉ g.ids := Group.phase_eq_none.mp ((hphase id).trans hfresh)
      have henq := hI.enqueue (m := newMessageAt q.name q.ns key payload now id) hIg hid rfl rfl
      refine ⟨rfl, .ofGroup hr rfl rfl henq ?_⟩
      intro i
      rw [← hphase]
      exact Group.phase_of_add (Group.slots_appendReady g _ hw.readyHead_le) hw.distinct
        (hI.wf henq).distinct hid i
  · rw [← groupFor_total hI hr]
    constructor
    · rintro ⟨⟨q', r⟩, h⟩
      obtain ⟨g, hg, -⟩ := publishWithID_ok h
      exact ⟨g, hg⟩
    · rintro ⟨g, hg⟩
      exact publishWithID_total hg id payload now

end Effect

end Queue

end Octar
