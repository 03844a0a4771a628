import Octar.Queue.Group
import Mathlib.Data.List.ReduceOption
import Mathlib.Data.Multiset.Filter
import Mathlib.Algebra.Order.Group.Multiset
import Mathlib.Tactic.Abel

namespace Octar

open Go

inductive Loc
  | urgent | ready | delayed | processing
  deriving DecidableEq, Repr

def held (loc : Loc) (ms : Multiset Message) : Multiset (Loc × Message) := ms.map (Prod.mk loc)

@[simp] theorem held_cons (loc : Loc) (m : Message) (ms : Multiset Message) :
    held loc (m ::ₘ ms) = (loc, m) ::ₘ held loc ms := Multiset.map_cons _ _ _

@[simp] theorem held_add (loc : Loc) (ms ms' : Multiset Message) :
    held loc (ms + ms') = held loc ms + held loc ms' := Multiset.map_add _ _ _

@[simp] theorem mem_held {loc loc' : Loc} {m : Message} {ms : Multiset Message} :
    (loc, m) ∈ held loc' ms ↔ loc = loc' ∧ m ∈ ms := by
  simp only [held, Multiset.mem_map, Prod.mk.injEq]
  constructor
  · rintro ⟨_, hm, rfl, rfl⟩
    exact ⟨rfl, hm⟩
  · rintro ⟨rfl, hm⟩
    exact ⟨m, hm, rfl, rfl⟩

@[simp] theorem reduceOption_map_some {α : Type} (l : List α) : (l.map some).reduceOption = l := by
  simp [List.reduceOption, List.filterMap_map]

namespace Group

def liveUrgent (g : Group) : List (Option Message) := g.urgent.drop g.urgentHead

def liveReady (g : Group) : List (Option Message) := g.ready.drop g.readyHead

def inFlight (g : Group) : Multiset Message := Map.values g.processing.table

def slots (g : Group) : Multiset (Loc × Message) :=
  held .urgent g.liveUrgent.reduceOption + held .ready g.liveReady.reduceOption +
    held .delayed g.delayed + held .processing g.inFlight

def bodies (g : Group) : Multiset Message := g.slots.map fun s => s.2.body

def ids (g : Group) : Multiset Bytes := g.slots.map fun s => s.2.id

theorem bodies_eq (g : Group) :
    g.bodies = (g.liveUrgent.reduceOption.map Message.body : Multiset Message) +
      (g.liveReady.reduceOption.map Message.body : Multiset Message) +
      (g.delayed.map Message.body : Multiset Message) + g.inFlight.map Message.body := by
  simp [bodies, slots, held, Multiset.map_map, Function.comp_def]

theorem ids_eq_bodies (g : Group) : g.ids = g.bodies.map Message.id := by
  simp [ids, bodies, Multiset.map_map, Function.comp_def]

/-- What the code relies on in every state: the heads point into their slices, `urgent` has no
hole, `processing` is allocated and keyed by the messages' own identifiers, and no identifier
occurs twice.  Holes in `ready` are allowed: replay makes them. -/
structure Wf (g : Group) : Prop where
  urgentHead_le : g.urgentHead ≤ g.urgent.length
  readyHead_le : g.readyHead ≤ g.ready.length
  urgent_full : none ∉ g.liveUrgent
  allocated : g.processing.isSome
  keyed : ∀ id m, g.processing.table.lookup id = some m → m.id = id
  distinct : g.ids.Nodup

theorem ids_eq (g : Group) : g.ids = (g.liveUrgent.reduceOption.map Message.id : Multiset Bytes) +
    (g.liveReady.reduceOption.map Message.id : Multiset Bytes) +
      (g.delayed.map Message.id : Multiset Bytes) + g.inFlight.map Message.id := by
  simp [ids, slots, held, Multiset.map_map, Function.comp_def]

theorem mem_slots_processing {g : Group}
    (hk : ∀ id m, g.processing.table.lookup id = some m → m.id = id)
    {m : Message} : (.processing, m) ∈ g.slots ↔ g.processing.table.lookup m.id = some m := by
  simp only [slots, Multiset.mem_add, mem_held, reduceCtorEq, false_and, false_or, true_and,
    inFlight, Map.mem_values]
  constructor
  · rintro ⟨k, h⟩
    rwa [hk k m h]
  · exact fun h => ⟨m.id, h⟩

theorem mem_inFlight {g : Group} {m : Message} : m ∈ g.inFlight ↔ (.processing, m) ∈ g.slots := by
  simp [slots]

theorem mem_ids_of_mem {g : Group} {loc : Loc} {m : Message} (h : (loc, m) ∈ g.slots) :
    m.id ∈ g.ids :=
  Multiset.mem_map.mpr ⟨_, h, rfl⟩

theorem mem_ids_of_lookup {g : Group} {id : Bytes} {m : Message}
    (h : g.processing.table.lookup id = some m) : m.id ∈ g.ids := by
  have hm : (.processing, m) ∈ g.slots := by
    simp only [slots, Multiset.mem_add, mem_held, true_and]
    exact .inr (Map.mem_values.mpr ⟨id, h⟩)
  exact mem_ids_of_mem hm

structure Promotes (now : Int) (g g' : Group) (expired due : List Message) : Prop where
  cfg : g'.cfg = g.cfg
  limiter : g'.limiter = g.limiter
  deficit : g'.deficit = g.deficit
  quantum : g'.quantum = g.quantum
  urgentHead : g'.urgentHead = g.urgentHead
  readyHead : g'.readyHead = g.readyHead
  urgent : g'.urgent = g.urgent ++ expired.map fun m => some { m with state := .pending }
  ready : g'.ready = g.ready ++ due.map some
  delayed : (g.delayed : Multiset Message) = due + g'.delayed
  inFlight : g.inFlight = expired + g'.inFlight
  lookup : ∀ id, g'.processing.table.lookup id =
    (g.processing.table.lookup id).filter fun m => ¬ m.scheduledAt < now
  allocated : g'.processing.isSome = g.processing.isSome
  expired_lt : ∀ m ∈ expired, m.scheduledAt < now
  due_le : ∀ m ∈ due, m.scheduledAt ≤ now

def expiredEntries (now : Int) (l : List (Sigma fun _ : Bytes => Message)) :
    List (Sigma fun _ : Bytes => Message) := l.filter fun e => e.2.scheduledAt < now

theorem foldl_expireLease (now : Int) (l : List (Sigma fun _ : Bytes => Message))
    (s : Group × Int) :
    (l.foldl (expireLease now) s).1 =
      { s.1 with
        processing := s.1.processing.deleteAll (expiredEntries now l)
        urgent := s.1.urgent ++
          (expiredEntries now l).map fun e => some { e.2 with state := .pending } } := by
  induction l generalizing s with
  | nil => simp [expiredEntries, NilMap.deleteAll]
  | cons e l ih =>
    rw [List.foldl_cons, ih]
    by_cases he : e.2.scheduledAt < now
    · simp [expireLease, expiredEntries, he, NilMap.deleteAll]
    · simp [expireLease, expiredEntries, he]

theorem promoteDue_spec (now : Int) (n : Nat) (s : Group × Int) :
    ∃ due delayed : List Message,
      (promoteDue now n s).1 = { s.1 with delayed := delayed, ready := s.1.ready ++ due.map some } ∧
      (s.1.delayed : Multiset Message) = due + delayed ∧ ∀ m ∈ due, m.scheduledAt ≤ now := by
  induction n generalizing s with
  | zero => exact ⟨[], s.1.delayed, by simp [promoteDue], by simp, by simp⟩
  | succ n ih =>
    simp only [promoteDue]
    split
    · exact ⟨[], s.1.delayed, by simp, by simp, by simp⟩
    · rename_i msg rest hd
      split
      · exact ⟨[], s.1.delayed, by simp, by simp, by simp⟩
      · rename_i hdue
        obtain ⟨due, delayed, hg, hm, hle⟩ := ih
          ({ s.1 with
            delayed := Heap.pop delayedLess s.1.delayed, ready := s.1.ready ++ [some msg] }, s.2)
        have hpop := Multiset.coe_eq_coe.mpr (Heap.pop_perm delayedLess msg rest)
        refine ⟨msg :: due, delayed, ?_, ?_, ?_⟩
        · rw [hg]
          simp
        · simp only [hd] at hm
          rw [hd, ← hpop, ← Multiset.cons_coe, hm, ← Multiset.cons_coe, Multiset.cons_add]
        · intro m hmem
          rcases List.mem_cons.mp hmem with rfl | hmem
          · omega
          · exact hle m hmem

theorem filter_lookup {now : Int} {o : Option Message} :
    o.filter (fun m => ¬ m.scheduledAt < now) =
      match o with
      | some m => if m.scheduledAt < now then none else some m
      | none => none := by
  cases o with
  | none => rfl
  | some m =>
    by_cases h : m.scheduledAt < now
    · simp [Option.filter_some, h]
    · simp [Option.filter_some, h, Int.not_lt.mp h]

theorem filter_of_split {α : Type} {p : α → Prop} [DecidablePred p] {s t u : Multiset α}
    (h : s = t + u) (ht : ∀ a ∈ t, p a) (hu : ∀ a ∈ u, ¬ p a) :
    t = s.filter p ∧ u = s.filter fun a => ¬ p a := by
  subst h
  rw [Multiset.filter_add, Multiset.filter_add, Multiset.filter_eq_self.mpr ht,
    Multiset.filter_eq_nil.mpr hu, Multiset.filter_eq_self.mpr hu,
    Multiset.filter_eq_nil.mpr fun a ha => not_not.mpr (ht a ha), add_zero, zero_add]
  exact ⟨rfl, rfl⟩

structure Expires (now : Int) (g g' : Group) (expired : List Message) : Prop where
  expired_eq : (expired : Multiset Message) = g.inFlight.filter fun m => m.scheduledAt < now
  kept : g'.inFlight = g.inFlight.filter fun m => ¬ m.scheduledAt < now
  lookup : ∀ id, g'.processing.table.lookup id =
    (g.processing.table.lookup id).filter fun m => ¬ m.scheduledAt < now
  allocated : g'.processing.isSome = g.processing.isSome
  moved : g' = { g with
    urgent := g.urgent ++ expired.map fun m => some { m with state := .pending }
    processing := g'.processing }

theorem lookup_expiredEntries {now : Int} {g : Group} {l : List (Sigma fun _ : Bytes => Message)}
    (hl : l.Perm g.processing.table.entries) {e : Sigma fun _ : Bytes => Message}
    (he : e ∈ expiredEntries now l) :
    g.processing.table.lookup e.1 = some e.2 :=
  AList.mem_lookup_iff.mpr (hl.mem_iff.mp (List.mem_filter.mp he).1)

theorem nodupKeys_expiredEntries {now : Int} {g : Group} {l : List (Sigma fun _ : Bytes => Message)}
    (hl : l.Perm g.processing.table.entries) : (expiredEntries now l).NodupKeys :=
  ((List.perm_nodupKeys hl).mpr g.processing.table.nodupKeys).sublist List.filter_sublist

theorem lookup_deleteAll_expiredEntries (now : Int) {g : Group}
    {l : List (Sigma fun _ : Bytes => Message)} (hl : l.Perm g.processing.table.entries)
    (id : Bytes) :
    (g.processing.deleteAll (expiredEntries now l)).table.lookup id =
      (g.processing.table.lookup id).filter fun m => ¬ m.scheduledAt < now := by
  rw [NilMap.lookup_deleteAll, filter_lookup]
  split
  · rename_i hid
    obtain ⟨m, hm⟩ := List.exists_of_mem_keys hid
    have hlt : m.scheduledAt < now := by simpa using (List.mem_filter.mp hm).2
    simp [lookup_expiredEntries hl hm, hlt]
  · rename_i hid
    cases hlook : g.processing.table.lookup id with
    | none => simp
    | some m =>
      have hnot : ¬ m.scheduledAt < now := by
        intro hlt
        apply hid
        apply List.mem_keys_of_mem (s := ⟨id, m⟩)
        apply List.mem_filter.mpr
        exact ⟨hl.mem_iff.mpr (AList.mem_lookup_iff.mp hlook), by simpa using hlt⟩
      simp [hnot]

theorem expires_of_perm {now : Int} {g g' : Group} {l : List (Sigma fun _ : Bytes => Message)}
    (hl : l.Perm g.processing.table.entries)
    (hg' : g' = { g with
      processing := g.processing.deleteAll (expiredEntries now l)
      urgent := g.urgent ++
        (expiredEntries now l).map fun e => some { e.2 with state := .pending } }) :
    Expires now g g' ((expiredEntries now l).map Sigma.snd) := by
  subst hg'
  have hlookup := lookup_deleteAll_expiredEntries now hl
  have hmem : ∀ e ∈ expiredEntries now l, g.processing.table.lookup e.1 = some e.2 :=
    fun e he => lookup_expiredEntries hl he
  have hvalues := NilMap.values_deleteAll (nodupKeys_expiredEntries hl) hmem
  have hexpired : ∀ m ∈ ((expiredEntries now l).map Sigma.snd : Multiset Message),
      m.scheduledAt < now := by
    intro m hm
    obtain ⟨e, he, rfl⟩ := List.mem_map.mp hm
    simpa using (List.mem_filter.mp he).2
  have hleft : ∀ m ∈ Map.values (g.processing.deleteAll (expiredEntries now l)).table,
      ¬ m.scheduledAt < now := by
    intro m hm
    obtain ⟨id, hid⟩ := Map.mem_values.mp hm
    rw [hlookup] at hid
    exact of_decide_eq_true (Option.filter_eq_some_iff.mp hid).2
  obtain ⟨hgone, hkept⟩ := filter_of_split hvalues hexpired hleft
  exact ⟨hgone, hkept, hlookup, NilMap.isSome_deleteAll _ _, by simp⟩

theorem promoteDelayed_spec (g : Group) (ord : RangeOrder) (now : Int) :
    ∃ expired due, Promotes now g (g.promoteDelayed ord now).1 expired due := by
  let l := ord.pick g.processing.table.entries
  let s := l.foldl (expireLease now) (g, zeroTime)
  have hs := expires_of_perm (ord.perm _) (foldl_expireLease now l (g, zeroTime))
  obtain ⟨due, delayed, hg, hm, hle⟩ := promoteDue_spec now s.1.delayed.length s
  refine ⟨(expiredEntries now l).map Sigma.snd, due, ?_⟩
  change Promotes now g (promoteDue now s.1.delayed.length s).1 _ due
  have hdelayed : s.1.delayed = g.delayed := by rw [hs.moved]
  rw [hg]
  constructor
  case delayed =>
    rw [← hdelayed]
    exact hm
  case inFlight =>
    change _ = _ + s.1.inFlight
    rw [hs.expired_eq, hs.kept, Multiset.filter_add_not]
  case lookup => exact hs.lookup
  case allocated => exact hs.allocated
  case expired_lt =>
    intro m hm
    rw [← Multiset.mem_coe, hs.expired_eq] at hm
    exact (Multiset.mem_filter.mp hm).2
  case due_le => exact hle
  all_goals
    simp only
    rw [hs.moved]

def leased (g : Group) (m : Message) (now : Int) : Message :=
  { m with state := .processing, scheduledAt := now + g.cfg.leaseTimeout }

theorem lease_ok {g g' : Group} {m m' : Message} {now : Int} (h : g.lease m now = .ok (g', m')) :
    m' = g.leased m now ∧ g.processing.isSome ∧
      g' = { g with processing := some (g.processing.table.insert m.id (g.leased m now)) } := by
  unfold lease at h
  obtain ⟨p, hp, hr⟩ := bind_ok.mp h
  cases hr
  cases hg : g.processing with
  | none => rw [hg] at hp; cases hp
  | some t => rw [hg] at hp; cases hp; exact ⟨rfl, rfl, rfl⟩

theorem live_cons {l : List (Option Message)} {i : Nat} {slot : Option Message}
    (h : l[i]? = some slot) :
    l.drop i = slot :: (l.set i none).drop (i + 1) := by
  obtain ⟨hi, rfl⟩ := List.getElem?_eq_some_iff.mp h
  rw [List.drop_eq_getElem_cons hi, List.drop_set_of_lt (by omega)]

theorem popReady_spec (n : Nat) (g : Group) (hn : g.ready.length - g.readyHead ≤ n)
    (hh : g.readyHead ≤ g.ready.length) :
    ∃ ready readyHead, (popReady n g).1 = { g with ready := ready, readyHead := readyHead } ∧
      readyHead ≤ ready.length ∧
      match (popReady n g).2 with
      | some m => ∃ k, g.liveReady = List.replicate k none ++ some m :: ready.drop readyHead
      | none => ∀ slot ∈ g.liveReady, slot = none := by
  induction n generalizing g with
  | zero =>
    refine ⟨g.ready, g.readyHead, rfl, hh, ?_⟩
    intro slot hs
    rw [liveReady, List.drop_of_length_le (by omega)] at hs
    cases hs
  | succ n ih =>
    simp only [popReady]
    cases hslot : g.ready[g.readyHead]? with
    | none =>
      refine ⟨g.ready, g.readyHead, rfl, hh, ?_⟩
      intro slot hs
      rw [liveReady, List.drop_of_length_le (List.getElem?_eq_none_iff.mp hslot)] at hs
      cases hs
    | some slot =>
      have hlt : g.readyHead < g.ready.length := (List.getElem?_eq_some_iff.mp hslot).1
      have hlive := live_cons hslot
      cases slot with
      | some m =>
        exact ⟨g.ready.set g.readyHead none, g.readyHead + 1, rfl,
          by simpa [Nat.succ_le_iff] using hlt, 0, hlive⟩
      | none =>
        obtain ⟨ready, readyHead, hg, hle, hmsg⟩ := ih
          { g with ready := g.ready.set g.readyHead none, readyHead := g.readyHead + 1 }
          (by simp; omega) (by simpa [Nat.succ_le_iff] using hlt)
        refine ⟨ready, readyHead, hg, hle, ?_⟩
        simp only
        split at hmsg
        · obtain ⟨k, hk⟩ := hmsg
          refine ⟨k + 1, ?_⟩
          rw [liveReady, hlive, List.replicate_succ, List.cons_append]
          exact congrArg _ hk
        · intro slot hs
          rw [liveReady, hlive] at hs
          rcases List.mem_cons.mp hs with rfl | hs
          · rfl
          · exact hmsg slot hs

structure SameFrame (g g' : Group) : Prop where
  cfg : g'.cfg = g.cfg
  deficit : g'.deficit = g.deficit
  quantum : g'.quantum = g.quantum
  delayed : g'.delayed = g.delayed
  urgentHead_le : g.urgentHead ≤ g.urgent.length → g'.urgentHead ≤ g'.urgent.length
  readyHead_le : g.readyHead ≤ g.ready.length → g'.readyHead ≤ g'.ready.length

/-- What a successful `nextDispatchable` did: leased the first urgent message, leased the first
ready one, or handed nothing out. -/
inductive Dispatches (now : Int) (g g' : Group) (d : Dispatch) : Prop
  | urgent (m : Message) (msg : d.msg = some (g.leased m now))
      (urgent : g.liveUrgent = some m :: g'.liveUrgent) (ready : g'.liveReady = g.liveReady)
      (processing : g'.processing = some (g.processing.table.insert m.id (g.leased m now)))
      (allocated : g.processing.isSome) (frame : SameFrame g g')
  | ready (m : Message) (k : Nat) (msg : d.msg = some (g.leased m now))
      (urgent : g.liveUrgent = []) (urgent' : g'.liveUrgent = [])
      (ready : g.liveReady = List.replicate k none ++ some m :: g'.liveReady)
      (processing : g'.processing = some (g.processing.table.insert m.id (g.leased m now)))
      (allocated : g.processing.isSome) (frame : SameFrame g g')
  | refused (msg : d.msg = none)
      (urgent : g'.liveUrgent = g.liveUrgent)
      (ready : g'.liveReady = g.liveReady ∨ g'.liveReady = [] ∧ ∀ slot ∈ g.liveReady, slot = none)
      (processing : g'.processing = g.processing) (frame : SameFrame g g')

theorem takeWaiting_ok {g g' : Group} {d : Dispatch} {now : Int}
    (h : g.takeWaiting now = .ok (g', d)) (hr : g.readyHead ≤ g.ready.length) :
    Dispatches now g g' d := by
  unfold takeWaiting at h
  split at h
  · rename_i hlt
    split at h
    · rename_i msg hslot
      obtain ⟨⟨g₁, m₁⟩, hlease, hret⟩ := bind_ok.mp h
      cases hret
      obtain ⟨rfl, halloc, rfl⟩ := lease_ok hlease
      exact .urgent msg rfl (live_cons hslot) rfl rfl halloc
        ⟨rfl, rfl, rfl, rfl, fun _ => by simpa [Nat.succ_le_iff] using hlt, id⟩
    · cases h
  · rename_i hlt
    have hurgent : g.liveUrgent = [] := List.drop_of_length_le (by omega)
    obtain ⟨ready, readyHead, hg, hle, hmsg⟩ := popReady_spec (g.ready.length - g.readyHead)
      { g with urgent := [], urgentHead := 0 } (Nat.le_refl _) hr
    simp only at h
    split at h
    · rename_i g₁ m₁ hpop
      obtain ⟨⟨g₂, m₂⟩, hlease, hret⟩ := bind_ok.mp h
      cases hret
      rw [hpop] at hg hmsg
      simp only at hg hmsg
      subst hg
      obtain ⟨k, hk⟩ := hmsg
      obtain ⟨rfl, halloc, rfl⟩ := lease_ok hlease
      exact .ready m₁ k rfl hurgent rfl hk rfl halloc
        ⟨rfl, rfl, rfl, rfl, fun _ => Nat.le_refl _, fun _ => hle⟩
    · rename_i g₁ hpop
      rw [hpop] at hg hmsg
      simp only at hg hmsg
      subst hg
      cases h
      exact .refused rfl hurgent.symm (.inr ⟨rfl, hmsg⟩) rfl
        ⟨rfl, rfl, rfl, rfl, fun _ => Nat.le_refl _, fun _ => Nat.le_refl _⟩

theorem nextDispatchable_ok {g g' : Group} {d : Dispatch} {now : Int}
    (h : g.nextDispatchable now = .ok (g', d)) (hr : g.readyHead ≤ g.ready.length) :
    Dispatches now g g' d := by
  have hsame : ∀ l, SameFrame g { g with limiter := l } :=
    fun _ => ⟨rfl, rfl, rfl, rfl, id, id⟩
  unfold nextDispatchable at h
  split at h
  · cases h
    exact .refused rfl rfl (.inl rfl) rfl ⟨rfl, rfl, rfl, rfl, id, id⟩
  · split at h
    · exact takeWaiting_ok h hr
    · obtain ⟨⟨l, allowed, wakeAt⟩, -, h⟩ := bind_ok.mp h
      simp only at h
      split at h
      · cases takeWaiting_ok h hr with
        | urgent m msg urgent ready processing allocated frame =>
          exact .urgent m msg urgent ready processing allocated
            ⟨frame.1, frame.2, frame.3, frame.4, frame.5, frame.6⟩
        | ready m k msg urgent urgent' ready processing allocated frame =>
          exact .ready m k msg urgent urgent' ready processing allocated
            ⟨frame.1, frame.2, frame.3, frame.4, frame.5, frame.6⟩
        | refused msg urgent ready processing frame =>
          exact .refused msg urgent ready processing
            ⟨frame.1, frame.2, frame.3, frame.4, frame.5, frame.6⟩
      · cases h
        exact .refused rfl rfl (.inl rfl) rfl (hsame _)

theorem Wf.lookup_none {g : Group} (h : g.Wf) {loc : Loc} {m : Message} (hm : (loc, m) ∈ g.slots)
    (hloc : loc ≠ .processing) : g.processing.table.lookup m.id = none := by
  cases hl : g.processing.table.lookup m.id with
  | none => rfl
  | some m' =>
    have hid := h.keyed _ _ hl
    have hm' : (.processing, m') ∈ g.slots := (mem_slots_processing h.keyed).mpr (hid ▸ hl)
    have heq := Multiset.inj_on_of_nodup_map h.distinct _ hm _ hm' hid.symm
    exact absurd (congrArg Prod.fst heq) hloc

structure Serves (g g' : Group) (batch : List Message) : Prop where
  cfg : g'.cfg = g.cfg
  bodies : g'.bodies = g.bodies
  leased : ∀ m ∈ g'.inFlight, m.id ∈ batch.map Message.id ∨ m.id ∈ g.inFlight.map Message.id
  batch_mem : ∀ m ∈ batch, m.body ∈ g.bodies
  ready_full : none ∉ g.liveReady → none ∉ g'.liveReady
  wf : g'.Wf

theorem Serves.ids {g g' : Group} {batch : List Message} (h : Serves g g' batch) :
    g'.ids = g.ids := by
  rw [ids_eq_bodies, ids_eq_bodies, h.bodies]

theorem Serves.refl {g : Group} (hw : g.Wf) : Serves g g [] :=
  ⟨rfl, rfl, fun _ hm => .inr (Multiset.mem_map_of_mem _ hm), by simp, id, hw⟩

theorem Serves.trans {g g₁ g₂ : Group} {b b' : List Message} (h : Serves g g₁ b)
    (h' : Serves g₁ g₂ b') :
    Serves g g₂ (b ++ b') where
  cfg := h'.cfg.trans h.cfg
  bodies := h'.bodies.trans h.bodies
  leased := by
    intro m hm
    rw [List.map_append, List.mem_append]
    rcases h'.leased m hm with hb | hf
    · exact .inl (.inr hb)
    · obtain ⟨m₁, hm₁, hid⟩ := Multiset.mem_map.mp hf
      rcases h.leased m₁ hm₁ with hb | hf
      · exact .inl (.inl (hid ▸ hb))
      · exact .inr (hid ▸ hf)
  batch_mem := by
    intro m hm
    rcases List.mem_append.mp hm with hm | hm
    · exact h.batch_mem m hm
    · exact h.bodies ▸ h'.batch_mem m hm
  ready_full := fun hr => h'.ready_full (h.ready_full hr)
  wf := h'.wf

theorem Promotes.serves {now : Int} {g g' : Group} {expired due : List Message}
    (h : Promotes now g g' expired due) (hw : g.Wf) : Serves g g' [] := by
  have hu : g'.liveUrgent = g.liveUrgent ++ expired.map fun m =>
      some { m with state := .pending } := by
    rw [liveUrgent, h.urgent, h.urgentHead, List.drop_append_of_le_length hw.urgentHead_le,
      liveUrgent]
  have hr : g'.liveReady = g.liveReady ++ due.map some := by
    rw [liveReady, h.ready, h.readyHead, List.drop_append_of_le_length hw.readyHead_le, liveReady]
  have hexp : (expired.map fun m => some { m with state := .pending }).reduceOption.map
      Message.body = expired.map Message.body := by
    simp [List.reduceOption, List.filterMap_map, Function.comp_def, Message.body]
  have hbodies : g'.bodies = g.bodies := by
    rw [bodies_eq, bodies_eq, hu, hr, h.inFlight, List.reduceOption_append,
      List.reduceOption_append, reduceOption_map_some, List.map_append, List.map_append, hexp,
      ← Multiset.map_coe _ g.delayed, h.delayed]
    simp only [Multiset.map_add, Multiset.map_coe, ← Multiset.coe_add]
    abel
  have hids : g'.ids = g.ids := by rw [ids_eq_bodies, ids_eq_bodies, hbodies]
  refine ⟨h.cfg, hbodies, ?_, by simp, ?_, ?_⟩
  · intro m hm
    rw [h.inFlight, Multiset.map_add, Multiset.mem_add]
    exact .inr (.inr (Multiset.mem_map_of_mem _ hm))
  · simp [hr]
  · refine ⟨?_, ?_, ?_, h.allocated ▸ hw.allocated, ?_, hids ▸ hw.distinct⟩
    · rw [h.urgentHead, h.urgent, List.length_append]
      exact Nat.le_add_right_of_le hw.urgentHead_le
    · rw [h.readyHead, h.ready, List.length_append]
      exact Nat.le_add_right_of_le hw.readyHead_le
    · simp [hu, hw.urgent_full]
    · intro id m hm
      rw [h.lookup] at hm
      exact hw.keyed id m (Option.eq_some_of_filter_eq_some hm)

@[simp] theorem leased_body (g : Group) (m : Message) (now : Int) :
    (g.leased m now).body = m.body := rfl

@[simp] theorem leased_id (g : Group) (m : Message) (now : Int) : (g.leased m now).id = m.id := rfl

theorem reduceOption_replicate_none (k : Nat) (l : List (Option Message)) :
    (List.replicate k none ++ l).reduceOption = l.reduceOption := by
  simp [List.reduceOption_append, List.reduceOption_replicate_none]

theorem reduceOption_eq_nil {l : List (Option Message)} (h : ∀ slot ∈ l, slot = none) :
    l.reduceOption = [] := by
  simpa [List.reduceOption, List.filterMap_eq_nil_iff] using h

theorem serves_of_lease {g g' : Group} {m : Message} (loc : Loc) {now : Int} (hw : g.Wf)
    (hm : (loc, m) ∈ g.slots) (hloc : loc ≠ .processing) (hframe : SameFrame g g')
    (hp : g'.processing = some (g.processing.table.insert m.id (g.leased m now)))
    (hurgent : none ∉ g'.liveUrgent) (hready : none ∉ g.liveReady → none ∉ g'.liveReady)
    (hwait : (g.liveUrgent.reduceOption : Multiset Message) +
      (g.liveReady.reduceOption : Multiset Message) =
        m ::ₘ ((g'.liveUrgent.reduceOption : Multiset Message) +
          (g'.liveReady.reduceOption : Multiset Message))) :
    Serves g g' [g.leased m now] := by
  have hin : g'.inFlight = g.leased m now ::ₘ g.inFlight := by
    rw [inFlight, hp]
    exact Map.values_insert (hw.lookup_none hm hloc)
  have hbodies : g'.bodies = g.bodies := by
    have hmap := congrArg (Multiset.map Message.body) hwait
    rw [Multiset.map_cons, Multiset.map_add, Multiset.map_add, Multiset.map_coe, Multiset.map_coe,
      Multiset.map_coe, Multiset.map_coe] at hmap
    rw [bodies_eq, bodies_eq, hmap, hin, hframe.delayed, Multiset.map_cons, leased_body,
      Multiset.cons_add, Multiset.cons_add, Multiset.add_cons]
  refine ⟨hframe.cfg, hbodies, ?_, ?_, hready, ?_⟩
  · intro m' hm'
    rw [hin, Multiset.mem_cons] at hm'
    rcases hm' with rfl | hm'
    · exact .inl (by simp)
    · exact .inr (Multiset.mem_map_of_mem _ hm')
  · intro m' hm'
    obtain rfl := List.mem_singleton.mp hm'
    exact Multiset.mem_map_of_mem (fun x => x.2.body) hm
  · refine ⟨hframe.urgentHead_le hw.urgentHead_le, hframe.readyHead_le hw.readyHead_le, hurgent,
      by simp [hp], ?_, ?_⟩
    · intro id m' hl
      rw [hp, NilMap.table_some] at hl
      by_cases hid : id = m.id
      · subst hid
        rw [AList.lookup_insert] at hl
        cases hl
        rfl
      · rw [AList.lookup_insert_ne hid] at hl
        exact hw.keyed id m' hl
    · rw [ids_eq_bodies, hbodies, ← ids_eq_bodies]
      exact hw.distinct

theorem Dispatches.serves {now : Int} {g g' : Group} {d : Dispatch} (h : Dispatches now g g' d)
    (hw : g.Wf) : Serves g g' d.msg.toList := by
  cases h with
  | urgent m msg urgent ready processing allocated frame =>
    rw [msg]
    apply serves_of_lease .urgent hw _ (by decide) frame processing
    · intro hn
      exact hw.urgent_full (urgent ▸ List.mem_cons_of_mem _ hn)
    · rw [ready]
      exact id
    · rw [urgent, ready, List.reduceOption_cons_of_some, ← Multiset.cons_coe, Multiset.cons_add]
    · simp [slots, urgent]
  | ready m k msg urgent urgent' ready processing allocated frame =>
    rw [msg]
    apply serves_of_lease .ready hw _ (by decide) frame processing
    · simp [urgent']
    · intro hf hn
      exact hf (by simp [ready, hn])
    · rw [urgent, urgent', ready, reduceOption_replicate_none, List.reduceOption_cons_of_some,
        ← Multiset.cons_coe, Multiset.add_cons]
    · simp [slots, ready, reduceOption_replicate_none]
  | refused msg urgent ready processing frame =>
    have hr : g'.liveReady.reduceOption = g.liveReady.reduceOption := by
      rcases ready with h | ⟨h, hn⟩
      · rw [h]
      · rw [h, reduceOption_eq_nil hn]
        rfl
    have hin : g'.inFlight = g.inFlight := by rw [inFlight, processing, inFlight]
    have hbodies : g'.bodies = g.bodies := by
      rw [bodies_eq, bodies_eq, urgent, hr, frame.delayed, hin]
    rw [msg]
    refine ⟨frame.cfg, hbodies, ?_, by simp, ?_, ?_⟩
    · intro m hm
      exact .inr (Multiset.mem_map_of_mem _ (hin ▸ hm))
    · rcases ready with h | ⟨h, -⟩
      · rw [h]
        exact id
      · simp [h]
    · refine ⟨frame.urgentHead_le hw.urgentHead_le, frame.readyHead_le hw.readyHead_le,
        urgent ▸ hw.urgent_full, processing ▸ hw.allocated, processing ▸ hw.keyed, ?_⟩
      rw [ids_eq_bodies, hbodies, ← ids_eq_bodies]
      exact hw.distinct

theorem promoteDelayed_serves {g : Group} (hw : g.Wf) (ord : RangeOrder) (now : Int) :
    Serves g (g.promoteDelayed ord now).1 [] := by
  obtain ⟨expired, due, h⟩ := promoteDelayed_spec g ord now
  exact h.serves hw

theorem nextDispatchable_serves {g g' : Group} {d : Dispatch} {now : Int} (hw : g.Wf)
    (h : g.nextDispatchable now = .ok (g', d)) : Serves g g' d.msg.toList :=
  (nextDispatchable_ok h hw.readyHead_le).serves hw

theorem next_serves {g g' : Group} {msg : Option Message} {now : Int} (hw : g.Wf)
    (h : g.next now = .ok (g', msg)) : Serves g g' msg.toList := by
  obtain ⟨⟨g₁, d⟩, hd, hr⟩ := bind_ok.mp h
  cases hr
  exact nextDispatchable_serves hw hd

theorem promote_next_serves {g g' : Group} {msg : Option Message} {ord : RangeOrder} {now : Int}
    (hw : g.Wf) (h : (g.promoteDelayed ord now).1.next now = .ok (g', msg)) :
    Serves g g' msg.toList :=
  have hp := promoteDelayed_serves hw ord now
  hp.trans (next_serves hp.wf h)

theorem Serves.setCounters {g g' : Group} {batch : List Message} (h : Serves g g' batch)
    (deficit quantum : Int) : Serves g { g' with deficit := deficit, quantum := quantum } batch :=
  ⟨h.cfg, h.bodies, h.leased, h.batch_mem, h.ready_full,
    ⟨h.wf.urgentHead_le, h.wf.readyHead_le, h.wf.urgent_full, h.wf.allocated, h.wf.keyed,
      h.wf.distinct⟩⟩

theorem drainRest_ready (g : Group) (ready : List Message) (wakeAt : Int) :
    (g.drainRest ready wakeAt).ready = some ready := by
  unfold drainRest
  split
  · rfl
  · split <;> rfl

section Drain

variable {now : Int} {motive : Group → List Message → Prop}
  (hnext : ∀ {g g' : Group} {d : Dispatch} {batch : List Message}, motive g batch →
    g.nextDispatchable now = .ok (g', d) → motive g' (batch ++ d.msg.toList))
  (hcounters : ∀ {g : Group} {batch : List Message} (deficit quantum : Int), motive g batch →
    motive { g with deficit := deficit, quantum := quantum } batch)

include hnext hcounters

theorem drainLoop_induct {n : Nat} {g : Group} {batch : List Message} {s : DrainState}
    (h : motive g batch) (hs : drainLoop now n g batch = .ok s) : motive s.group s.batch := by
  induction n generalizing g batch with
  | zero =>
    cases hs
    exact h
  | succ n ih =>
    obtain ⟨⟨g₁, d⟩, hd, hr⟩ := bind_ok.mp hs
    have h₁ := hnext h hd
    cases hm : d.msg with
    | some msg =>
      simp only [hm] at hr h₁
      exact ih (hcounters (g₁.deficit - 1) g₁.quantum h₁) hr
    | none =>
      simp only [hm] at hr h₁
      cases hr
      simpa using h₁

theorem drainRound_induct {g g' : Group} {ord : RangeOrder} {r : DrainResult}
    (h : motive (g.promoteDelayed ord now).1 []) (hd : g.drainRound ord now = .ok (g', r)) :
    motive g' (r.ready.getD []) := by
  unfold drainRound at hd
  simp only at hd
  split at hd
  · cases hd
    exact h
  · obtain ⟨s, hs, hr⟩ := bind_ok.mp hd
    have hloop := drainLoop_induct hnext hcounters (hcounters _ _ h) hs
    split at hr
    all_goals cases hr
    · rwa [drainRest_ready]
    · exact hloop
    · exact hloop
    · rwa [drainRest_ready]

end Drain

theorem drainRound_serves {g g' : Group} {ord : RangeOrder} {now : Int} {r : DrainResult}
    (hw : g.Wf) (h : g.drainRound ord now = .ok (g', r)) : Serves g g' (r.ready.getD []) :=
  drainRound_induct (motive := Serves g) (fun hs hd => hs.trans (nextDispatchable_serves hs.wf hd))
    (fun deficit quantum hs => hs.setCounters deficit quantum) (promoteDelayed_serves hw ord now) h

theorem drop_append_singleton {l : List (Option Message)} {i : Nat} {slot : Option Message}
    (h : i ≤ l.length) : (l ++ [slot]).drop i = l.drop i ++ [slot] :=
  List.drop_append_of_le_length h

theorem held_append_singleton (loc : Loc) (l : List (Option Message)) (m : Message) :
    held loc (l ++ [some m]).reduceOption = (loc, m) ::ₘ held loc l.reduceOption := by
  rw [List.reduceOption_append, ← Multiset.coe_add, Multiset.add_comm, held_add]
  rfl

theorem slots_appendUrgent (g : Group) (m : Message) (h : g.urgentHead ≤ g.urgent.length) :
    slots { g with urgent := g.urgent ++ [some m] } = (.urgent, m) ::ₘ g.slots := by
  rw [slots, liveUrgent, drop_append_singleton h, held_append_singleton]
  simp only [Multiset.cons_add]
  rfl

theorem slots_appendReady (g : Group) (m : Message) (h : g.readyHead ≤ g.ready.length) :
    slots { g with ready := g.ready ++ [some m] } = (.ready, m) ::ₘ g.slots := by
  rw [slots, liveReady, drop_append_singleton h, held_append_singleton]
  simp only [Multiset.cons_add, Multiset.add_cons]
  rfl

theorem slots_pushDelayed (g : Group) (m : Message) :
    slots { g with delayed := Heap.push delayedLess g.delayed m } = (.delayed, m) ::ₘ g.slots := by
  have hpush : (Heap.push delayedLess g.delayed m : Multiset Message) =
      m ::ₘ (g.delayed : Multiset Message) :=
    Multiset.coe_eq_coe.mpr (Heap.push_perm delayedLess g.delayed m)
  rw [slots, hpush, held_cons]
  simp only [Multiset.cons_add, Multiset.add_cons]
  rfl

theorem inFlight_deleteLease (g : Group) {id : Bytes} {m : Message}
    (h : g.processing.get? id = some m) :
    g.inFlight = m ::ₘ inFlight { g with processing := g.processing.delete id } := by
  rw [inFlight, Map.values_erase h, inFlight, NilMap.table_delete]

theorem slots_deleteLease (g : Group) {id : Bytes} {m : Message}
    (h : g.processing.get? id = some m) :
    g.slots = (.processing, m) ::ₘ slots { g with processing := g.processing.delete id } := by
  rw [slots, inFlight_deleteLease g h, held_cons, Multiset.add_cons]
  rfl

structure Releases (g g' : Group) (m : Message) (kept : Option (Loc × Message)) : Prop where
  cfg : g'.cfg = g.cfg
  slots : ∃ rest, g.slots = (.processing, m) ::ₘ rest ∧ g'.slots = kept.toList + rest
  ready : g'.liveReady = g.liveReady
  wf : g'.Wf

theorem release_dropped {g : Group} (hw : g.Wf) {id : Bytes} {m : Message}
    (h : g.processing.get? id = some m) :
    Releases g { g with processing := g.processing.delete id } m none := by
  have hslots := slots_deleteLease g h
  refine ⟨rfl, ⟨_, hslots, ?_⟩, rfl, ?_⟩
  · simp
  · refine ⟨hw.urgentHead_le, hw.readyHead_le, hw.urgent_full, ?_, ?_, ?_⟩
    · simpa using hw.allocated
    · intro id' m' hl
      rw [NilMap.table_delete] at hl
      by_cases heq : id' = id
      · subst heq
        simp at hl
      · rw [AList.lookup_erase_ne heq] at hl
        exact hw.keyed id' m' hl
    · have hd := hw.distinct
      rw [ids, hslots, Multiset.map_cons] at hd
      exact (Multiset.nodup_cons.mp hd).2

theorem Releases.put {g g₁ g₂ : Group} {loc : Loc} {m m' : Message} (h : Releases g g₁ m none)
    (hid : m'.id = m.id) (hcfg : g₂.cfg = g₁.cfg) (hslots : g₂.slots = (loc, m') ::ₘ g₁.slots)
    (hp : g₂.processing = g₁.processing) (hready : g₂.liveReady = g₁.liveReady)
    (hu : g₂.urgentHead ≤ g₂.urgent.length) (hr : g₂.readyHead ≤ g₂.ready.length)
    (hfull : none ∉ g₂.liveUrgent) (hw : g.Wf) : Releases g g₂ m (some (loc, m')) := by
  obtain ⟨rest, hb, hb₁⟩ := h.slots
  have hrest : g₁.slots = rest := by simpa using hb₁
  refine ⟨hcfg.trans h.cfg, ⟨rest, hb, by simp [hslots, hrest]⟩, hready.trans h.ready, ?_⟩
  refine ⟨hu, hr, hfull, hp ▸ h.wf.allocated, hp ▸ h.wf.keyed, ?_⟩
  have hd := hw.distinct
  rw [ids, hb, Multiset.map_cons] at hd
  rw [ids, hslots, hrest, Multiset.map_cons, hid]
  exact hd

theorem complete_spec {g : Group} (hw : g.Wf) (id : Bytes) :
    g.processing.get? id = none ∧ g.complete id = (g, none) ∨
      ∃ m, m.id = id ∧ Releases g (g.complete id).1 m none ∧
        (g.complete id).2 = some { m with state := .done } := by
  unfold complete
  cases hl : g.processing.get? id with
  | none => exact .inl ⟨rfl, rfl⟩
  | some m => exact .inr ⟨m, hw.keyed id m hl, release_dropped hw hl, rfl⟩

theorem returnToPending_spec {g : Group} (hw : g.Wf) (id : Bytes) :
    g.processing.get? id = none ∧ g.returnToPending id = g ∨
      ∃ m, m.id = id ∧ Releases g (g.returnToPending id) m
        (some (.urgent, { m with state := .pending })) := by
  unfold returnToPending
  cases hl : g.processing.get? id with
  | none => exact .inl ⟨rfl, rfl⟩
  | some m =>
    have h := release_dropped hw hl
    refine .inr ⟨m, hw.keyed id m hl, h.put rfl rfl ?_ rfl rfl ?_ hw.readyHead_le ?_ hw⟩
    · exact slots_appendUrgent { g with processing := g.processing.delete id } _ hw.urgentHead_le
    · exact Nat.le_trans hw.urgentHead_le (by simp)
    · rw [liveUrgent, drop_append_singleton hw.urgentHead_le]
      simpa [liveUrgent] using hw.urgent_full

def retried (m : Message) (errMsg : Bytes) (at_ : Int) : Message :=
  { m with lastError := errMsg, attempts := m.attempts + 1, scheduledAt := at_, state := .pending }

inductive Failed (id errMsg : Bytes) (now : Int) (g g' : Group) (dlq : Option Message) : Prop
  | absent (none : g.processing.get? id = none) (same : g' = g) (letter : dlq = .none)
  | retries (m : Message) (delay : Int) (found : g.processing.get? id = some m)
    (more : m.attempts + 1 < g.cfg.retry.maxAttempts)
    (delayed : g.retryDelay (m.attempts + 1) = .ok delay)
    (put : g' = { g with
        processing := g.processing.delete id
        delayed := Heap.push delayedLess g.delayed (retried m errMsg (now + delay)) })
    (letter : dlq = .none)
  | drops (m : Message) (found : g.processing.get? id = some m)
    (exhausted : g.cfg.retry.maxAttempts ≤ m.attempts + 1)
    (dropped : g' = { g with processing := g.processing.delete id })
    (letter : dlq = (g.cfg.dlq.filter DLQConfig.enabled).map fun _ =>
      { m with lastError := errMsg, attempts := m.attempts + 1, state := .dlq })

theorem fail_cases {g g' : Group} {id errMsg : Bytes} {now : Int} {dlq : Option Message}
    (h : g.fail id errMsg now = .ok (g', dlq)) : Failed id errMsg now g g' dlq := by
  unfold fail at h
  cases hl : g.processing.get? id with
  | none =>
    rw [hl] at h
    cases h
    exact .absent hl rfl rfl
  | some m =>
    simp only [hl] at h
    split at h
    · rename_i hmore
      obtain ⟨delay, hdelay, hret⟩ := bind_ok.mp h
      cases hret
      exact .retries m delay hl hmore hdelay rfl rfl
    · rename_i hmore
      have hexhausted := Int.not_lt.mp hmore
      cases hdlq : g.cfg.dlq with
      | none =>
        simp only [hdlq] at h
        cases h
        exact .drops m hl hexhausted rfl (by rw [hdlq]; rfl)
      | some d =>
        simp only [hdlq] at h
        cases h
        refine .drops m hl hexhausted rfl ?_
        rw [hdlq, Option.filter_some]
        split
        · rfl
        · rfl

theorem fail_spec {g g' : Group} {id errMsg : Bytes} {now : Int} {dlq : Option Message} (hw : g.Wf)
    (h : g.fail id errMsg now = .ok (g', dlq)) :
    g.processing.get? id = none ∧ g' = g ∨
      ∃ m, m.id = id ∧
        (m.attempts + 1 < g.cfg.retry.maxAttempts ∧
            (∃ delay, g.retryDelay (m.attempts + 1) = .ok delay ∧
              Releases g g' m (some (.delayed, retried m errMsg (now + delay)))) ∨
          g.cfg.retry.maxAttempts ≤ m.attempts + 1 ∧ Releases g g' m none) := by
  cases fail_cases h with
  | absent none same letter => exact .inl ⟨none, same⟩
  | retries m delay found more delayed put letter =>
    subst put
    refine .inr ⟨m, hw.keyed id m found, .inl ⟨more, delay, delayed, ?_⟩⟩
    refine (release_dropped hw found).put rfl rfl ?_ rfl rfl hw.urgentHead_le hw.readyHead_le
      hw.urgent_full hw
    exact slots_pushDelayed { g with processing := g.processing.delete id }
      (retried m errMsg (now + delay))
  | drops m found exhausted dropped letter =>
    subst dropped
    exact .inr ⟨m, hw.keyed id m found, .inr ⟨exhausted, release_dropped hw found⟩⟩

theorem enqueue_wf {g : Group} (hw : g.Wf) {m : Message} (hm : m.id ∉ g.ids) :
    (g.enqueue m).Wf := by
  refine ⟨hw.urgentHead_le, Nat.le_trans hw.readyHead_le (by simp [enqueue]), hw.urgent_full,
    hw.allocated,
    hw.keyed, ?_⟩
  rw [ids, enqueue, slots_appendReady g m hw.readyHead_le, Multiset.map_cons]
  exact Multiset.nodup_cons.mpr ⟨hm, hw.distinct⟩

theorem newGroup_ok {cfg : GroupConfig} {g : Group} (h : newGroup cfg = .ok g) :
    g.cfg = cfg.withDefaults ∧ g.slots = 0 ∧ g.liveReady = [] ∧ g.Wf := by
  simp only [newGroup] at h
  obtain ⟨limiter, -, hr⟩ := bind_ok.mp h
  cases hr
  have hslots : slots
      { cfg := cfg.withDefaults, ready := [], readyHead := 0, urgent := [],
        urgentHead := 0, delayed := [], processing := some ∅, limiter := limiter, deficit := 0,
        quantum := cfg.withDefaults.quantum } = 0 := rfl
  refine ⟨rfl, hslots, rfl, Nat.le_refl _, Nat.le_refl _, List.not_mem_nil, rfl, ?_, ?_⟩
  · intro id m hl
    cases hl
  · rw [ids, hslots]
    exact Multiset.nodup_zero

theorem newGroup_total {cfg : GroupConfig} : (∃ g, newGroup cfg = .ok g) ↔ cfg.RateOk := by
  have hrate : cfg.withDefaults.rateLimit = cfg.rateLimit := rfl
  simp only [newGroup, hrate, GroupConfig.RateOk]
  cases hr : cfg.rateLimit with
  | none => exact ⟨fun _ r h => (nomatch h), fun _ => ⟨_, rfl⟩⟩
  | some r =>
    have hcap : rateLimitInitCap = 64 := rfl
    simp only [groupLimiter, newSlidingWindowLimiter]
    by_cases hneg : min r.max rateLimitInitCap < 0
    · rw [if_pos hneg]
      constructor
      · rintro ⟨g, hg⟩
        cases hg
      · intro h
        have hmax := h r rfl
        omega
    · rw [if_neg hneg]
      constructor
      · intro _ r' h
        cases h
        omega
      · exact fun _ => ⟨_, rfl⟩

theorem retryDelay_total (g : Group) {attempt : Int} (h : 0 ≤ attempt) :
    ∃ d, g.retryDelay attempt = .ok d := by
  unfold retryDelay
  split
  · rw [if_neg (Int.not_lt.mpr h)]
    exact ⟨_, rfl⟩
  · exact ⟨_, rfl⟩
  · exact ⟨_, rfl⟩

theorem fail_total (g : Group) (id errMsg : Bytes) (now : Int)
    (h : ∀ m, g.processing.get? id = some m → -1 ≤ m.attempts) :
    ∃ r, g.fail id errMsg now = .ok r := by
  unfold fail
  cases hl : g.processing.get? id with
  | none => exact ⟨_, rfl⟩
  | some m =>
    have hm := h m hl
    simp only
    split
    · obtain ⟨d, hd⟩ := retryDelay_total { g with processing := g.processing.delete id }
        (show 0 ≤ m.attempts + 1 by omega)
      rw [hd]
      exact ⟨_, rfl⟩
    · split <;> exact ⟨_, rfl⟩

theorem Releases.serves {g g' : Group} {loc : Loc} {m m' : Message}
    (h : Releases g g' m (some (loc, m')))
    (hloc : loc ≠ .processing) (hbody : m'.body = m.body) : Serves g g' [] := by
  obtain ⟨rest, hg, hg'⟩ := h.slots
  refine ⟨h.cfg, ?_, ?_, by simp, h.ready ▸ id, h.wf⟩
  · rw [bodies, bodies, hg, hg', Multiset.map_cons, ← hbody, Multiset.map_add]
    rfl
  · intro x hx
    rw [mem_inFlight, hg'] at hx
    have hx : (.processing, x) ∈ rest := by simpa [hloc.symm] using hx
    exact .inr (Multiset.mem_map_of_mem _ (mem_inFlight.mpr (hg ▸ Multiset.mem_cons_of_mem hx)))

theorem returnToPending_serves {g : Group} (hw : g.Wf) (id : Bytes) :
    Serves g (g.returnToPending id) [] := by
  rcases returnToPending_spec hw id with ⟨-, h⟩ | ⟨m, -, h⟩
  · rw [h]
    exact .refl hw
  · exact h.serves (by decide) rfl

theorem foldl_returnToPending_serves {g : Group} (hw : g.Wf) (l : List Bytes) :
    Serves g (l.foldl returnToPending g) [] := by
  induction l generalizing g with
  | nil => exact .refl hw
  | cons id l ih =>
    have h := returnToPending_serves hw id
    exact h.trans (ih h.wf)

def origins (g : Group) : Multiset Message := g.bodies.map Message.origin

theorem ids_eq_origins (g : Group) : g.ids = g.origins.map Message.id := by
  rw [ids_eq_bodies, origins, Multiset.map_map]
  rfl

theorem Serves.origins {g g' : Group} {batch : List Message} (h : Serves g g' batch) :
    g'.origins = g.origins := congrArg (Multiset.map Message.origin) h.bodies

theorem origins_eq_slots (g : Group) : g.origins = g.slots.map fun x => x.2.origin := by
  rw [Group.origins, Group.bodies, Multiset.map_map]
  rfl

theorem Releases.origins {g g' : Group} {m : Message} {kept : Option (Loc × Message)}
    (h : Releases g g' m kept) :
    ∃ rest, g.origins = m.origin ::ₘ rest ∧
      g'.origins = (kept.map fun x => x.2.origin).toList + rest := by
  obtain ⟨rest, hg, hg'⟩ := h.slots
  refine ⟨rest.map fun x => x.2.origin, ?_, ?_⟩
  · rw [origins_eq_slots, hg, Multiset.map_cons]
  · rw [origins_eq_slots, hg', Multiset.map_add]
    cases kept <;> rfl

theorem Releases.lookup {g g' : Group} {m : Message} {kept : Option (Loc × Message)}
    (h : Releases g g' m kept) (hw : g.Wf) : g.processing.get? m.id = some m := by
  obtain ⟨rest, hg, -⟩ := h.slots
  exact (mem_slots_processing hw.keyed).mp (hg ▸ Multiset.mem_cons_self _ _)

end Group

end Octar
