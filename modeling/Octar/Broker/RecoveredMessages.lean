import Octar.Broker.Book
import Octar.Broker.RestoreLaws

namespace Octar

open Go

/-- The recovery of a queue from what its directory hands over; `q₀` is the queue with its group
configs, `clock` the time at which each record is replayed. -/
def restart [PathMatch] (q₀ : Queue) (ord : RangeOrder) (now : Int) (clock : Event → Int)
    (recovered : Option Snapshot × List Event) : Except Panic Queue := do
  let q ← match recovered.1 with
    | none => pure q₀
    | some snap => q₀.onSnapshot snap ord now
  replayEvents q (recovered.2.map fun e => (e, clock e))

/-- Of several leases of one message in a group the last one stays. -/
def GroupSnapshot.copies (gs : GroupSnapshot) (now : Int) (id : Bytes) : Copies where
  ready := (gs.messages.filter fun ms => ms.id = id ∧ MessageState.ofInt8 ms.state = .pending ∧
    ms.scheduledAt ≤ now).map fun ms => ms.attempts
  leased := (gs.messages.reverse.find? fun ms => ms.id = id ∧
    MessageState.ofInt8 ms.state = .processing).map fun ms => ms.attempts
  delayed := gs.messages.countP fun ms => ms.id = id ∧ MessageState.ofInt8 ms.state = .pending ∧
    now < ms.scheduledAt

def GroupSnapshot.Leaseless (gs : GroupSnapshot) : Prop :=
  ∀ ms ∈ gs.messages, MessageState.ofInt8 ms.state ≠ .processing

theorem lookup_restoreLease (msgs : List Message) (id : Bytes) :
    (msgs.foldl restoreLease none).table.lookup id =
      msgs.reverse.find? fun m => m.id = id ∧ m.state = .processing := by
  induction msgs using List.reverseRecOn with
  | nil => rfl
  | append_singleton msgs m ih =>
    rw [List.foldl_append, List.foldl_cons, List.foldl_nil, List.reverse_append,
      List.reverse_singleton, List.singleton_append, List.find?_cons, restoreLease]
    by_cases hs : m.state = .processing
    · by_cases hid : m.id = id
      · subst hid
        simp [hs]
      · simp [hs, hid, AList.lookup_insert_ne (Ne.symm hid), ih]
    · simp [hs, ih]

theorem copies_importedGroup (g : Group) (queueName ns : Bytes) (now : Int) (gs : GroupSnapshot)
    (id : Bytes) :
    (importedGroup g (restoreGroup queueName ns now gs)).copies id = gs.copies now id := by
  have hperm := Heap.init_perm delayedLess (restoreGroup queueName ns now gs).delayedMsgs
  have hready : (importedGroup g (restoreGroup queueName ns now gs)).liveReady.reduceOption =
      (restoreGroup queueName ns now gs).readyMsgs := reduceOption_map_some _
  rw [Group.copies, hready]
  change Copies.mk _ ((restoreGroup queueName ns now gs).processingMsgs.table.lookup id |>.map _)
    ((Heap.init delayedLess (restoreGroup queueName ns now gs).delayedMsgs).countP _) = _
  rw [hperm.countP_eq, restoreGroup, foldl_restoreMessage, lookup_restoreLease,
    GroupSnapshot.copies]
  simp only [List.nil_append, List.filter_filter, List.filter_map, List.map_map, ← List.map_reverse,
    List.find?_map, Option.map_map, List.countP_filter, List.countP_map, Function.comp_def,
    Bool.decide_and]
  rfl

theorem processing_importedGroup (g : Group) (queueName ns : Bytes) (now : Int)
    (gs : GroupSnapshot) :
    (importedGroup g (restoreGroup queueName ns now gs)).processing = none ↔ gs.Leaseless := by
  change (restoreGroup queueName ns now gs).processingMsgs = none ↔ _
  rw [restoreGroup, foldl_restoreMessage, ← Option.not_isSome_iff_eq_none,
    isSome_foldl_restoreLease]
  simp [GroupSnapshot.Leaseless, messageForRecovery]

theorem importedGroup_recovering {g : Group} {cfg : GroupConfig} {key : Bytes} {parallelism : Int}
    (hg : newGroup (importConfig cfg key parallelism) = .ok g) (queueName ns : Bytes) (now : Int)
    (gs : GroupSnapshot) :
    (importedGroup g (restoreGroup queueName ns now gs)).Recovering cfg := by
  obtain ⟨hcfg, -, -, -⟩ := Group.newGroup_ok hg
  have hrate : (importConfig cfg key parallelism).RateOk := Group.newGroup_total.mp ⟨g, hg⟩
  refine ⟨?_, ?_, hrate, ?_, rfl, rfl, ?_⟩
  · change g.cfg.retry = _
    rw [hcfg]
    rfl
  · change g.cfg.maxPending = _
    rw [hcfg]
    rfl
  · change List.map some (restoreGroup queueName ns now gs).urgentMsgs = []
    rw [restoreGroup, foldl_restoreMessage]
    rfl
  · intro id m hl
    change (restoreGroup queueName ns now gs).processingMsgs.table.lookup id = some m at hl
    rw [restoreGroup, foldl_restoreMessage] at hl
    rcases lookup_foldl_restoreLease hl with hl | ⟨-, hid, -⟩
    · cases hl
    · exact hid

def GroupSnapshot.book (gs : GroupSnapshot) (now : Int) : Book :=
  ⟨gs.messages.countP fun ms => MessageState.ofInt8 ms.state = .pending, gs.copies now⟩

theorem book_importedGroup (g : Group) (queueName ns : Bytes) (now : Int) (gs : GroupSnapshot) :
    (importedGroup g (restoreGroup queueName ns now gs)).book = gs.book now := by
  refine Book.ext ?_ (funext (copies_importedGroup g queueName ns now gs))
  have hperm := Heap.init_perm delayedLess (restoreGroup queueName ns now gs).delayedMsgs
  have hslots : (gs.book now).slots =
      (gs.messages.map (messageForRecovery queueName ns gs.key)).countP
      fun m => m.state = .pending := by
    rw [List.countP_map]
    rfl
  rw [hslots, List.countP_eq_countP_filter_add _ _ fun m => m.scheduledAt ≤ now]
  change (List.map some (restoreGroup queueName ns now gs).readyMsgs).length +
    (Heap.init delayedLess (restoreGroup queueName ns now gs).delayedMsgs).length = _
  rw [hperm.length_eq, List.length_map, restoreGroup, foldl_restoreMessage]
  simp only [List.nil_append, ← List.countP_eq_length_filter, List.countP_filter, Bool.decide_and,
    ← decide_not, Int.not_le]

def restoredGroup (snap : Option Snapshot) (key : Bytes) : Option GroupSnapshot :=
  snap.bind fun snap => lastGroup snap.groups key

def restoredBook (now : Int) (snap : Option Snapshot) (key : Bytes) : Book :=
  ((restoredGroup snap key).map fun gs => gs.book now).getD .empty

def RestoredLeaseless (snap : Option Snapshot) (key : Bytes) : Prop :=
  ∃ gs, restoredGroup snap key = some gs ∧ gs.Leaseless

namespace Queue

variable [PathMatch] {q₀ q : Queue}

structure Begins (q₀ : Queue) (now : Int) (snap : Option Snapshot) (q : Queue) : Prop where
  cfgIdx : q.cfgIdx = q₀.cfgIdx
  all : q.All recovering
  book : ∀ key, q.book key = restoredBook now snap key
  nil_iff : ∀ key, q.Leaseless key ↔ RestoredLeaseless snap key

theorem Begins.ofEmpty (hempty : q₀.groups = ∅) (now : Int) : q₀.Begins now none q₀ := by
  have hl : ∀ key, q₀.groups.lookup key = none := by simp [hempty]
  refine ⟨rfl, .ofEmpty hempty, fun key => book_of_lookup_none (hl key), ?_⟩
  intro key
  simp [Leaseless, RestoredLeaseless, restoredGroup, hl]

theorem Begins.onSnapshot (hempty : q₀.groups = ∅) (snap : Snapshot) (ord : RangeOrder)
    (now : Int) :
    Gives (∃ gs ∈ snap.groups, ¬ (q₀.resolveConfig gs.key).RateOk) (q₀.Begins now (some snap))
      (q₀.onSnapshot snap ord now) := by
  obtain ⟨hspec, htotal⟩ := q₀.onSnapshot_spec snap ord now
  cases h : q₀.onSnapshot snap ord now with
  | error p =>
    by_contra hstops
    obtain ⟨q, hq⟩ := htotal.mpr fun gs hgs => by_contra fun hrate => hstops ⟨gs, hgs, hrate⟩
    rw [hq] at h
    cases h
  | ok q =>
    have hrate := htotal.mp ⟨q, h⟩
    have hres := hspec q h
    have hlookup : ∀ key, restoredGroup (some snap) key = none ∧ q.groups.lookup key = none ∨
        ∃ gs g, restoredGroup (some snap) key = some gs ∧
          newGroup (importConfig (q₀.resolveConfig key) key gs.parallelism) = .ok g ∧
          q.groups.lookup key = some (importedGroup g (restoreGroup q₀.name q₀.ns now gs)) := by
      intro key
      cases hlast : lastGroup snap.groups key with
      | none =>
        refine .inl ⟨hlast, ?_⟩
        rw [hres.kept key hlast, hempty]
        rfl
      | some gs =>
        obtain ⟨g, hg, hl⟩ := hres.restored key gs hlast
        exact .inr ⟨gs, g, hlast, hg, hl⟩
    refine ⟨?_, hres.cfgIdx, ?_, ?_, ?_⟩
    · rintro ⟨gs, hgs, hneg⟩
      exact hneg (hrate gs hgs)
    · intro key g' hl'
      rw [resolveConfig_congr hres.cfgIdx]
      rcases hlookup key with ⟨-, hl⟩ | ⟨gs, g, -, hg, hl⟩
      · rw [hl] at hl'
        cases hl'
      · cases hl.symm.trans hl'
        exact importedGroup_recovering hg q₀.name q₀.ns now gs
    · intro key
      rcases hlookup key with ⟨hlast, hl⟩ | ⟨gs, g, hlast, -, hl⟩
      · rw [book_of_lookup_none hl, restoredBook, hlast]
        rfl
      · rw [(shows_of_lookup hl).book, book_importedGroup, restoredBook, hlast]
        rfl
    · intro key
      rcases hlookup key with ⟨hlast, hl⟩ | ⟨gs, g, hlast, -, hl⟩
      · simp [Leaseless, RestoredLeaseless, hl, hlast]
      · rw [(shows_of_lookup hl).nil_iff, processing_importedGroup, RestoredLeaseless, hlast]
        simp

/-- The message is still there when the entries of its group in the snapshot have gone through the
records of the group. -/
def KeepsCopy (q₀ : Queue) (now : Int) (recovered : Option Snapshot × List Event) (key id : Bytes) :
    Prop :=
  ((restoredBook now recovered.1 key).after (q₀.resolveConfig key) key recovered.2).copies id ≠
    .empty

instance (q₀ : Queue) (now : Int) (recovered : Option Snapshot × List Event) (key id : Bytes) :
    Decidable (q₀.KeepsCopy now recovered key id) := inferInstanceAs (Decidable (_ ≠ _))

def Crashes (q₀ : Queue) (now : Int) (recovered : Option Snapshot × List Event) : Prop :=
  (∃ snap ∈ recovered.1, ∃ gs ∈ snap.groups, ¬ (q₀.resolveConfig gs.key).RateOk) ∨
    q₀.StopsIn (RestoredLeaseless recovered.1) (restoredBook now recovered.1) recovered.2

def Agrees (q₀ : Queue) (now : Int) (recovered recovered' : Option Snapshot × List Event) : Prop :=
  (q₀.Crashes now recovered ↔ q₀.Crashes now recovered') ∧
    (¬ q₀.Crashes now recovered →
      ∀ key id, q₀.KeepsCopy now recovered key id ↔ q₀.KeepsCopy now recovered' key id)

theorem Agrees.refl (q₀ : Queue) (now : Int) (recovered : Option Snapshot × List Event) :
    q₀.Agrees now recovered recovered := ⟨Iff.rfl, fun _ _ _ => Iff.rfl⟩

variable {now : Int} {snap : Option Snapshot}

theorem Begins.replay (h : q₀.Begins now snap q) (records : List Event) (clock : Event → Int) :
    Gives (q₀.StopsIn (RestoredLeaseless snap) (restoredBook now snap) records)
      (fun q' => ∀ key id, q'.Holds key id ↔ q₀.KeepsCopy now (snap, records) key id)
      (replayEvents q (records.map fun e => (e, clock e))) := by
  have hfst : (records.map fun e => (e, clock e)).map Prod.fst = records := by
    simp [Function.comp_def]
  have hresolve := resolveConfig_congr h.cfgIdx
  have hbook : q.book = restoredBook now snap := funext h.book
  have hleaseless : q.Leaseless = RestoredLeaseless snap :=
    funext fun key => propext (h.nil_iff key)
  have hreplay := replay_books h.all (records.map fun e => (e, clock e))
  rw [hfst, stopsIn_congr hresolve, hbook, hleaseless] at hreplay
  refine hreplay.imp Iff.rfl ?_
  rintro q' ⟨hall, hafter⟩ key id
  rw [holds_iff_book hall, hafter, hresolve, KeepsCopy]

end Queue

def SameMessages : Except Panic Queue → Except Panic Queue → Prop
  | .ok q, .ok q' => ∀ key id, q.Holds key id ↔ q'.Holds key id
  | .error _, .error _ => True
  | _, _ => False

end Octar
