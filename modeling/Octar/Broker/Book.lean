import Octar.Broker.Replay
import Mathlib.Logic.Function.Basic

namespace Octar

open Go

/-- Where a group has the copies of one message: the attempts of those in `ready`, in their order,
the attempts of the one under lease, and how many wait for a retry.  There can be several, because
a snapshot can hold a message whose PUBLISH record comes behind it. -/
@[ext] structure Copies where
  ready : List Int
  leased : Option Int
  delayed : Nat
  deriving DecidableEq

def Copies.empty : Copies := ⟨[], none, 0⟩

theorem Copies.ne_empty {c : Copies} :
    c ≠ empty ↔ c.ready ≠ [] ∨ c.leased ≠ none ∨ c.delayed ≠ 0 := by
  rw [ne_eq, Copies.ext_iff, not_and_or, not_and_or]
  rfl

/-- A group during a replay, message by message.  `slots` is what counts against `maxPending`: a
slot of `ready` that a handler has emptied still does. -/
@[ext] structure Book where
  slots : Nat
  copies : Bytes → Copies

namespace Book

def empty : Book := ⟨0, fun _ => .empty⟩

def put (b : Book) (id : Bytes) (c : Copies) (n : Nat) : Book :=
  ⟨b.slots + n, Function.update b.copies id c⟩

/-- What the handler of a record makes of its group.  `ReplayLease` and `RemoveMessage` take the
first copy in `ready`, and nothing takes one out of `delayed`. -/
def replay (cfg : GroupConfig) (b : Book) (e : Event) : Book :=
  let c := b.copies e.msgID
  match e.type with
  | .publish =>
    if 0 < cfg.maxPending ∧ cfg.maxPending ≤ b.slots then b
    else b.put e.msgID { c with ready := c.ready ++ [0] } 1
  | .lease =>
    match c.ready with
    | [] => b
    | a :: rest => b.put e.msgID { c with ready := rest, leased := some a } 0
  | .ack =>
    match c.leased with
    | none => b.put e.msgID { c with ready := c.ready.tail } 0
    | some _ => b.put e.msgID { c with leased := none } 0
  | .nack =>
    match c.leased with
    | none => b
    | some a =>
      if a + 1 < cfg.withDefaults.retry.maxAttempts then
        b.put e.msgID { c with leased := none, delayed := c.delayed + 1 } 1
      else b.put e.msgID { c with leased := none } 0
  | .expire => b.put e.msgID { c with leased := none } 0
  | .unknown _ => b

def after (cfg : GroupConfig) (key : Bytes) (b : Book) (records : List Event) : Book :=
  records.foldl (fun b e => if e.group = key then b.replay cfg e else b) b

@[simp] theorem after_nil (cfg : GroupConfig) (key : Bytes) (b : Book) : b.after cfg key [] = b :=
  rfl

theorem after_cons (cfg : GroupConfig) (key : Bytes) (b : Book) (e : Event) (records : List Event) :
    b.after cfg key (e :: records) =
      (if e.group = key then b.replay cfg e else b).after cfg key records := rfl

variable {b : Book} {id : Bytes}

theorem copies_put (b : Book) (id : Bytes) (c : Copies) (n : Nat) (i : Bytes) :
    (b.put id c n).copies i = if i = id then c else b.copies i := Function.update_apply ..

@[simp] theorem copies_put_self (b : Book) (id : Bytes) (c : Copies) (n : Nat) :
    (b.put id c n).copies id = c := Function.update_self ..

@[simp] theorem put_put (b : Book) (id : Bytes) (c c' : Copies) (n n' : Nat) :
    (b.put id c n).put id c' n' = b.put id c' (n + n') := by
  simp [put, Nat.add_assoc]

theorem put_same {c : Copies} (h : c = b.copies id) : b.put id c 0 = b := by
  subst h
  simp [put]

end Book

namespace Queue

theorem findFrom_first {id : Bytes} {l : List (Option Message)} {i j : Nat} {m : Message}
    (h : findFrom id l i = some (j, m)) :
    ∃ k, j = i + k ∧ m.id = id ∧
      l.reduceOption.filter (fun m => m.id = id) =
        m :: (l.set k none).reduceOption.filter (fun m => m.id = id) ∧
      ∀ id' ≠ id, (l.set k none).reduceOption.filter (fun m => m.id = id') =
        l.reduceOption.filter fun m => m.id = id' := by
  induction l generalizing i with
  | nil => cases h
  | cons slot l ih =>
    cases slot with
    | none =>
      obtain ⟨k, hj, hid, hfirst, hother⟩ := ih h
      exact ⟨k + 1, by omega, hid, by simpa using hfirst, by simpa using hother⟩
    | some m' =>
      simp only [findFrom] at h
      split at h
      · rename_i hid
        cases h
        refine ⟨0, rfl, hid, by simp [hid], ?_⟩
        intro id' hne
        simp [hid, Ne.symm hne]
      · rename_i hid
        obtain ⟨k, hj, hm, hfirst, hother⟩ := ih h
        refine ⟨k + 1, by omega, hm, by simpa [hid] using hfirst, ?_⟩
        intro id' hne
        simp [List.filter_cons, hother id' hne]

end Queue

namespace Group

def copies (g : Group) (id : Bytes) : Copies where
  ready := (g.liveReady.reduceOption.filter fun m => m.id = id).map Message.attempts
  leased := (g.processing.get? id).map Message.attempts
  delayed := g.delayed.countP fun m => m.id = id

def book (g : Group) : Book := ⟨g.ready.length + g.delayed.length, g.copies⟩

@[simp] theorem copies_book (g : Group) : g.book.copies = g.copies := rfl

structure Recovering (g : Group) (cfg : GroupConfig) : Prop where
  retry : g.cfg.retry = cfg.withDefaults.retry
  maxPending : g.cfg.maxPending = cfg.maxPending
  rate_ok : cfg.RateOk
  urgent : g.urgent = []
  urgentHead : g.urgentHead = 0
  readyHead : g.readyHead = 0
  keyed : ∀ id m, g.processing.get? id = some m → m.id = id

structure Books (g g' : Group) (cfg : GroupConfig) (b : Book) : Prop where
  recovering : g'.Recovering cfg
  book : g'.book = b
  nil_iff : g'.processing = none ↔ g.processing = none

variable {g g' : Group} {cfg : GroupConfig} {id : Bytes}

theorem Books.trans {g₁ : Group} {b b' : Book} (h : g.Books g₁ cfg b)
    (h' : g₁.Books g' cfg b') :
    g.Books g' cfg b' :=
  ⟨h'.recovering, h'.book, h'.nil_iff.trans h.nil_iff⟩

theorem Books.copies_self {b : Book} {c : Copies} {n : Nat}
    (h : g.Books g' cfg (b.put id c n)) :
    g'.copies id = c := by
  have hbook := congrArg (fun b => b.copies id) h.book
  simpa using hbook

theorem Recovering.same (h : g.Recovering cfg) : g.Books g cfg g.book := ⟨h, rfl, Iff.rfl⟩

theorem Recovering.pendingCount_eq (h : g.Recovering cfg) : g.pendingCount = g.book.slots := by
  rw [pendingCount, h.urgent, h.urgentHead, h.readyHead, book]
  push_cast
  simp

theorem Recovering.findSlot_urgent (h : g.Recovering cfg) (id : Bytes) :
    Queue.findSlot g.urgent g.urgentHead id = none := by
  rw [h.urgent, Queue.findSlot, List.drop_nil]
  rfl

theorem Recovering.mem_ids (h : g.Recovering cfg) : id ∈ g.ids ↔ g.copies id ≠ .empty := by
  have hurgent : g.liveUrgent = [] := by rw [liveUrgent, h.urgent, List.drop_nil]
  have hids : id ∈ g.ids ↔ (∃ m ∈ g.liveReady.reduceOption, m.id = id) ∨
      (∃ m ∈ g.delayed, m.id = id) ∨ ∃ m ∈ g.inFlight, m.id = id := by
    simp [ids, slots, hurgent, or_assoc, held]
  have hready : (∃ m ∈ g.liveReady.reduceOption, m.id = id) ↔ (g.copies id).ready ≠ [] := by
    simp [copies]
  have hdelayed : (∃ m ∈ g.delayed, m.id = id) ↔ (g.copies id).delayed ≠ 0 := by
    simp [copies, List.countP_eq_zero]
  have hleased : (∃ m ∈ g.inFlight, m.id = id) ↔ (g.copies id).leased ≠ none := by
    rw [copies, ne_eq, Option.map_eq_none_iff, ← ne_eq, Option.ne_none_iff_exists']
    constructor
    · rintro ⟨m, hm, rfl⟩
      obtain ⟨id', hl⟩ := Map.mem_values.mp hm
      exact ⟨m, (h.keyed id' m hl).symm ▸ hl⟩
    · rintro ⟨m, hl⟩
      exact ⟨m, Map.mem_values.mpr ⟨id, hl⟩, h.keyed id m hl⟩
  rw [hids, hready, hdelayed, hleased, Copies.ne_empty]
  exact or_congr_right or_comm

theorem Recovering.ofNewGroup (h : newGroup cfg = .ok g) :
    g.Recovering cfg ∧ g.book = .empty ∧ g.processing ≠ none := by
  have hrate := newGroup_total.mp ⟨g, h⟩
  obtain ⟨limiter, -, hret⟩ := bind_ok.mp h
  cases hret
  refine ⟨⟨rfl, rfl, hrate, rfl, rfl, rfl, ?_⟩, rfl, by simp⟩
  intro id m hl
  cases hl

theorem book_eq_put {c : Copies} {n : Nat}
    (hslots : g'.ready.length + g'.delayed.length = g.ready.length + g.delayed.length + n)
    (hself : g'.copies id = c) (hother : ∀ i ≠ id, g'.copies i = g.copies i) :
    g'.book = g.book.put id c n := by
  refine Book.ext hslots (funext fun i => ?_)
  rw [Book.copies_put]
  split
  · rename_i hi
    rw [hi]
    exact hself
  · rename_i hi
    exact hother i hi

theorem Recovering.enqueue (h : g.Recovering cfg) {m : Message} (hattempts : m.attempts = 0) :
    g.Books (g.enqueue m) cfg (g.book.put m.id
      { g.copies m.id with ready := (g.copies m.id).ready ++ [0] } 1) := by
  have hready : (g.enqueue m).liveReady.reduceOption = g.liveReady.reduceOption ++ [m] := by
    simp [liveReady, Group.enqueue, h.readyHead, List.reduceOption_append]
  refine ⟨⟨h.retry, h.maxPending, h.rate_ok, h.urgent, h.urgentHead, h.readyHead, h.keyed⟩,
    book_eq_put ?_ ?_ ?_, Iff.rfl⟩
  · simp only [Group.enqueue, List.length_append, List.length_singleton]
    omega
  · rw [copies, hready, List.filter_append, List.map_append]
    simp [copies, hattempts, Group.enqueue]
  · intro i hi
    rw [copies, hready, List.filter_append, List.map_append]
    simp [copies, Ne.symm hi, Group.enqueue]

theorem copies_ready_eq_nil (hf : Queue.findSlot g.ready g.readyHead id = none) :
    (g.copies id).ready = [] := by
  rw [copies, List.map_eq_nil_iff, List.filter_eq_nil_iff]
  intro m hm
  simpa using Queue.findFrom_none hf m hm

theorem Recovering.clearReady (h : g.Recovering cfg) {i : Nat} {m : Message}
    (hf : Queue.findSlot g.ready g.readyHead id = some (i, m)) :
    m.id = id ∧ ∃ rest, (g.copies id).ready = m.attempts :: rest ∧
      g.Books { g with ready := g.ready.set i none } cfg
        (g.book.put id { g.copies id with ready := rest } 0) := by
  obtain ⟨k, rfl, hid, hfirst, hother⟩ := Queue.findFrom_first hf
  rw [← live_set] at hfirst
  simp only [← live_set] at hother
  refine ⟨hid, (copies { g with ready := g.ready.set (g.readyHead + k) none } id).ready, ?_,
    ⟨⟨h.retry, h.maxPending, h.rate_ok, h.urgent, h.urgentHead, h.readyHead, h.keyed⟩,
      book_eq_put ?_ rfl ?_, Iff.rfl⟩⟩
  · rw [copies, liveReady, hfirst, List.map_cons]
    rfl
  · simp
  · intro i hi
    have hsame := hother i hi
    simp only [copies, liveReady] at hsame ⊢
    rw [hsame]

theorem Recovering.setProcessing (h : g.Recovering cfg) {p : NilMap Bytes Message}
    (slot : Option Message)
    (hget : ∀ i, p.get? i = if i = id then slot else g.processing.get? i)
    (hslot : ∀ m ∈ slot, m.id = id) (hnil : p = none ↔ g.processing = none) :
    g.Books { g with processing := p } cfg
      (g.book.put id { g.copies id with leased := slot.map Message.attempts } 0) := by
  refine ⟨⟨h.retry, h.maxPending, h.rate_ok, h.urgent, h.urgentHead, h.readyHead, ?_⟩,
    book_eq_put rfl ?_ ?_, hnil⟩
  · intro i m hl
    rw [hget] at hl
    split at hl
    · rename_i hi
      rw [hi, hslot m hl]
    · exact h.keyed i m hl
  · rw [copies, hget, if_pos rfl]
    rfl
  · intro i hi
    rw [copies, hget, if_neg hi]
    rfl

theorem Recovering.lease (h : g.Recovering cfg) (m : Message) (now : Int)
    (hsome : g.processing ≠ none) :
    ∃ g', g.lease m now = .ok (g', g.leased m now) ∧
      g.Books g' cfg (g.book.put m.id { g.copies m.id with leased := some m.attempts } 0) := by
  refine ⟨{ g with processing := some (g.processing.table.insert m.id (g.leased m now)) }, ?_, ?_⟩
  · rw [Group.lease, NilMap.set_ok (Option.isSome_iff_ne_none.mpr hsome)]
    rfl
  · refine h.setProcessing (some (g.leased m now)) ?_ ?_ ?_
    · intro i
      rw [NilMap.get?, NilMap.table_some]
      split
      · rename_i hi
        rw [hi, AList.lookup_insert]
      · rename_i hi
        rw [AList.lookup_insert_ne hi]
        rfl
    · intro m' hm'
      cases hm'
      rfl
    · exact ⟨fun hnone => absurd hnone (by simp), fun hnone => absurd hnone hsome⟩

theorem Recovering.release (h : g.Recovering cfg) (id : Bytes) :
    g.Books { g with processing := g.processing.delete id } cfg
      (g.book.put id { g.copies id with leased := none } 0) := by
  refine h.setProcessing none ?_ (by simp) (by simp [NilMap.delete])
  intro i
  rw [NilMap.get?, NilMap.table_delete]
  split
  · rename_i hi
    rw [hi, AList.lookup_erase]
  · rename_i hi
    rw [AList.lookup_erase_ne hi]
    rfl

theorem Recovering.pushDelayed (h : g.Recovering cfg) (m : Message) :
    g.Books { g with delayed := Heap.push delayedLess g.delayed m } cfg
      (g.book.put m.id { g.copies m.id with delayed := (g.copies m.id).delayed + 1 } 1) := by
  have hperm := Heap.push_perm delayedLess g.delayed m
  refine ⟨⟨h.retry, h.maxPending, h.rate_ok, h.urgent, h.urgentHead, h.readyHead, h.keyed⟩,
    book_eq_put ?_ ?_ ?_, Iff.rfl⟩
  · simp only [hperm.length_eq, List.length_cons]
    omega
  · rw [copies, hperm.countP_eq, List.countP_cons_of_pos (by simp)]
    rfl
  · intro i hi
    rw [copies, hperm.countP_eq, List.countP_cons_of_neg (by simp [Ne.symm hi])]
    rfl

theorem Recovering.complete (h : g.Recovering cfg) (id : Bytes) :
    g.Books (g.complete id).1 cfg (g.book.put id { g.copies id with leased := none } 0) ∧
      ((g.complete id).2 = none ↔ (g.copies id).leased = none) := by
  unfold Group.complete
  cases hl : g.processing.get? id with
  | none =>
    have hleased : (g.copies id).leased = none := by rw [copies, hl]; rfl
    refine ⟨?_, by simp [hleased]⟩
    rw [Book.put_same (by rw [← hleased]; rfl)]
    exact h.same
  | some m => exact ⟨h.release id, by simp [copies, hl]⟩

theorem retryDelay_ok_iff (g : Group) (attempt : Int) :
    (∃ d, g.retryDelay attempt = .ok d) ↔ (g.cfg.retry.backoff = .exponential → 0 ≤ attempt) := by
  constructor
  · rintro ⟨d, hd⟩ hexp
    by_contra hneg
    rw [retryDelay, hexp] at hd
    simp only [Int.not_le.mp hneg, if_true] at hd
    cases hd
  · intro hattempt
    by_cases hexp : g.cfg.retry.backoff = .exponential
    · exact retryDelay_total g (hattempt hexp)
    · unfold retryDelay
      split
      · rename_i heq
        exact absurd heq hexp
      · exact ⟨_, rfl⟩
      · exact ⟨_, rfl⟩

end Group

def GroupConfig.ShiftsBack (cfg : GroupConfig) (c : Copies) : Prop :=
  cfg.withDefaults.retry.backoff = .exponential ∧
    ∃ a ∈ c.leased, a + 1 < 0 ∧ a + 1 < cfg.withDefaults.retry.maxAttempts

namespace Group

variable {g : Group} {cfg : GroupConfig} {e : Event} {errMsg : Bytes} {now : Int}

theorem Recovering.fail_ok (h : g.Recovering cfg) (ht : e.type = .nack) {g' : Group}
    {dlq : Option Message} (hf : g.fail e.msgID errMsg now = .ok (g', dlq)) :
    ¬ cfg.ShiftsBack (g.copies e.msgID) ∧ g.Books g' cfg (g.book.replay cfg e) := by
  have hrel := h.release e.msgID
  have hleased {m : Message} (found : g.processing.get? e.msgID = some m) :
      (g.copies e.msgID).leased = some m.attempts := by
    rw [copies, found]
    rfl
  simp only [Book.replay, ht, copies_book]
  cases fail_cases hf with
  | absent none same letter =>
    have hnone : (g.copies e.msgID).leased = Option.none := by rw [copies, none]; rfl
    simp only [hnone]
    rw [same]
    refine ⟨?_, h.same⟩
    rintro ⟨-, a, ha, -⟩
    rw [hnone] at ha
    cases ha
  | retries m delay found more delayed put letter =>
    have hpush := hrel.recovering.pushDelayed (retried m errMsg (now + delay))
    have hid : (retried m errMsg (now + delay)).id = e.msgID := h.keyed e.msgID m found
    have hdelay := (g.retryDelay_ok_iff _).mp ⟨delay, delayed⟩
    rw [h.retry] at more hdelay
    rw [hid, hrel.copies_self, hrel.book, Book.put_put] at hpush
    simp only [hleased found, more, if_true]
    rw [put]
    refine ⟨?_, hrel.trans hpush⟩
    rintro ⟨hexp, a, ha, hneg, -⟩
    cases (hleased found).symm.trans ha
    exact Int.not_le.mpr hneg (hdelay hexp)
  | drops m found exhausted dropped letter =>
    rw [h.retry] at exhausted
    simp only [hleased found, Int.not_lt.mpr exhausted, if_false]
    rw [dropped]
    refine ⟨?_, hrel⟩
    rintro ⟨-, a, ha, -, hmore⟩
    cases (hleased found).symm.trans ha
    exact Int.not_lt.mpr exhausted hmore

theorem Recovering.fail_error (h : g.Recovering cfg) {id : Bytes} {p : Panic}
    (hf : g.fail id errMsg now = .error p) : cfg.ShiftsBack (g.copies id) := by
  unfold Group.fail at hf
  cases hl : g.processing.get? id with
  | none =>
    rw [hl] at hf
    cases hf
  | some m =>
    have hleased : (g.copies id).leased = some m.attempts := by rw [copies, hl]; rfl
    simp only [hl] at hf
    by_cases hmore : m.attempts + 1 < g.cfg.retry.maxAttempts
    · by_contra hshift
      have hattempt : g.cfg.retry.backoff = .exponential → 0 ≤ m.attempts + 1 := by
        intro hexp
        by_contra hneg
        exact hshift ⟨h.retry ▸ hexp, m.attempts, hleased, Int.not_le.mp hneg, h.retry ▸ hmore⟩
      obtain ⟨d, hd⟩ :=
        (retryDelay_ok_iff { g with processing := g.processing.delete id } _).mpr hattempt
      simp only [hmore, if_true, hd] at hf
      cases hf
    · simp only [hmore, if_false] at hf
      cases hd : g.cfg.dlq <;> simp only [hd] at hf <;> cases hf

end Group

namespace Queue

abbrev recovering (_ : Bytes) (cfg : GroupConfig) (g : Group) : Prop := g.Recovering cfg

def book (q : Queue) (key : Bytes) : Book := ((q.groups.lookup key).map Group.book).getD .empty

def Leaseless (q : Queue) (key : Bytes) : Prop :=
  ∃ g, q.groups.lookup key = some g ∧ g.processing = none

structure Shows (q : Queue) (key : Bytes) (g : Group) : Prop where
  book : q.book key = g.book
  nil_iff : q.Leaseless key ↔ g.processing = none

variable {q q' : Queue} {key : Bytes} {g g' : Group}

theorem shows_of_lookup (h : q.groups.lookup key = some g) : q.Shows key g :=
  ⟨by rw [book, h]; rfl, by simp [Leaseless, h]⟩

theorem book_of_lookup_none (h : q.groups.lookup key = none) : q.book key = .empty := by
  rw [book, h]
  rfl

def Gives (stops : Prop) (P : Queue → Prop) : Except Panic Queue → Prop
  | .ok q => ¬ stops ∧ P q
  | .error _ => stops

theorem Gives.imp {stops stops' : Prop} {P P' : Queue → Prop} {r : Except Panic Queue}
    (h : Gives stops P r) (hs : stops ↔ stops') (hP : ∀ q, P q → P' q) : Gives stops' P' r := by
  cases r with
  | ok q => exact ⟨fun h' => h.1 (hs.mpr h'), hP q h.2⟩
  | error p => exact hs.mp h

variable [PathMatch]

structure Books (q q' : Queue) (key : Bytes) (b : Book) : Prop where
  cfgIdx : q'.cfgIdx = q.cfgIdx
  all : q'.All recovering
  book : ∀ k, q'.book k = if k = key then b else q.book k
  nil_iff : ∀ k, q'.Leaseless k ↔ q.Leaseless k

theorem holds_iff_book (hq : q.All recovering) {id : Bytes} :
    q.Holds key id ↔ (q.book key).copies id ≠ .empty := by
  rw [Holds, book]
  cases hl : q.groups.lookup key with
  | none => simp [Book.empty]
  | some g => simpa using (hq key g hl).mem_ids

theorem Books.same (hq : q.All recovering) {b : Book} (hb : b = q.book key) :
    q.Books q key b := by
  refine ⟨rfl, hq, ?_, fun _ => Iff.rfl⟩
  intro k
  split
  · rename_i h
    rw [h, hb]
  · rfl

theorem Books.trans {q₁ : Queue} {b b' : Book} (h : q.Books q₁ key b)
    (h' : q₁.Books q' key b') : q.Books q' key b' := by
  refine ⟨h'.cfgIdx.trans h.cfgIdx, h'.all, ?_, fun k => (h'.nil_iff k).trans (h.nil_iff k)⟩
  intro k
  rw [h'.book, h.book]
  split <;> rfl

theorem Books.ofGroup {b : Book} (hq : q.All recovering) (hs : q.Shows key g)
    (hcfg : q'.cfgIdx = q.cfgIdx) (hgroups : q'.groups = q.groups.insert key g')
    (h : g.Books g' (q.resolveConfig key) b) : q.Books q' key b := by
  have hs' : q'.Shows key g' := shows_of_lookup (by rw [hgroups, AList.lookup_insert])
  have hother : ∀ k ≠ key, q'.groups.lookup k = q.groups.lookup k := by
    intro k hk
    rw [hgroups, AList.lookup_insert_ne hk]
  refine ⟨hcfg, hq.insert hcfg hgroups h.recovering, ?_, ?_⟩
  · intro k
    by_cases hk : k = key
    · subst hk
      rw [if_pos rfl, hs'.book, h.book]
    · rw [if_neg hk, Queue.book, hother k hk]
      rfl
  · intro k
    by_cases hk : k = key
    · subst hk
      rw [hs'.nil_iff, h.nil_iff, hs.nil_iff]
    · rw [Leaseless, hother k hk]
      rfl

theorem shows_of_groupFor (hq : q.All recovering) (h : q.groupFor key = .ok g) :
    g.Recovering (q.resolveConfig key) ∧ q.Shows key g := by
  rcases groupFor_cases h with hl | ⟨hl, hnew⟩
  · exact ⟨hq key g hl, shows_of_lookup hl⟩
  · obtain ⟨hg, hbook, hsome⟩ := Group.Recovering.ofNewGroup hnew
    refine ⟨hg, ⟨?_, ?_⟩⟩
    · rw [book_of_lookup_none hl, hbook]
    · simp [Leaseless, hl, hsome]

theorem groupFor_ok_iff (hq : q.All recovering) (key : Bytes) :
    (∃ g, q.groupFor key = .ok g) ↔ (q.resolveConfig key).RateOk := by
  unfold groupFor
  cases hl : q.groups.lookup key with
  | some g => exact ⟨fun _ => (hq key g hl).rate_ok, fun _ => ⟨g, rfl⟩⟩
  | none => exact Group.newGroup_total

variable {e : Event}

theorem onPublish_books (hq : q.All recovering) (ht : e.type = .publish) (now : Int) :
    Gives (¬ (q.resolveConfig e.group).RateOk)
      (fun q' => q.Books q' e.group ((q.book e.group).replay (q.resolveConfig e.group) e))
      (q.onPublish e now) := by
  cases h : q.onPublish e now with
  | ok q' =>
    obtain ⟨⟨q₁, r⟩, hp, hret⟩ := bind_ok.mp h
    cases hret
    obtain ⟨g, hg, hcases⟩ := publishWithID_ok hp
    obtain ⟨hrec, hs⟩ := shows_of_groupFor hq hg
    refine ⟨not_not_intro hrec.rate_ok, ?_⟩
    simp only [Book.replay, ht, hs.book]
    rw [hrec.pendingCount_eq, hrec.maxPending] at hcases
    rcases hcases with ⟨hpos, hfull, -, rfl⟩ | ⟨rfl, keyIdx, rfl⟩
    · rw [if_pos ⟨hpos, hfull⟩]
      exact .ofGroup hq hs rfl rfl hrec.same
    · have hroom := (publishWithID_accepts_iff hg e.msgID e.payload now).mp ⟨_, _, hp⟩
      rw [hrec.pendingCount_eq, hrec.maxPending] at hroom
      rw [if_neg fun hfull => Int.not_lt.mpr hfull.2 (hroom hfull.1)]
      exact .ofGroup hq hs rfl rfl (hrec.enqueue rfl)
  | error p =>
    intro hrate
    obtain ⟨g, hg⟩ := (groupFor_ok_iff hq e.group).mpr hrate
    obtain ⟨r, hp⟩ := publishWithID_total hg e.msgID e.payload now
    have hok : q.onPublish e now = .ok r.1 := bind_ok.mpr ⟨r, hp, rfl⟩
    rw [hok] at h
    cases h

theorem onLease_books (hq : q.All recovering) (ht : e.type = .lease) (now : Int) :
    Gives (q.Leaseless e.group ∧ ((q.book e.group).copies e.msgID).ready ≠ [])
      (fun q' => q.Books q' e.group ((q.book e.group).replay (q.resolveConfig e.group) e))
      (q.onLease e now) := by
  -- without a copy in `ready` the queue stays as it is
  have hskip (hready : ((q.book e.group).copies e.msgID).ready = []) :
      ¬ (q.Leaseless e.group ∧ ((q.book e.group).copies e.msgID).ready ≠ []) ∧
        q.Books q e.group ((q.book e.group).replay (q.resolveConfig e.group) e) :=
    ⟨fun h => h.2 hready, .same hq (by simp only [Book.replay, ht, hready])⟩
  unfold onLease replayLease
  cases hl : q.groups.lookup e.group with
  | none => exact hskip (by rw [book_of_lookup_none hl]; rfl)
  | some g =>
    have hg := hq e.group g hl
    have hs := shows_of_lookup hl
    simp only [hg.findSlot_urgent]
    cases hf : findSlot g.ready g.readyHead e.msgID with
    | none =>
      refine hskip ?_
      rw [hs.book]
      exact Group.copies_ready_eq_nil hf
    | some x =>
      obtain ⟨hid, rest, hready, hclear⟩ := hg.clearReady hf
      simp only [Book.replay, ht, hs.book, Group.copies_book, hready]
      by_cases hnone : g.processing = none
      · have hlease : Group.lease { g with ready := g.ready.set x.1 none } x.2 now =
            .error .nilMapWrite := by
          rw [Group.lease, hnone]
          rfl
        simp only [hlease]
        exact ⟨hs.nil_iff.mpr hnone, by simp⟩
      · obtain ⟨g', hlease, hbooks⟩ := hclear.recovering.lease x.2 now hnone
        rw [hid, hclear.copies_self, hclear.book, Book.put_put] at hbooks
        simp only [hlease]
        exact ⟨fun h => hnone (hs.nil_iff.mp h.1), .ofGroup hq hs rfl rfl (hclear.trans hbooks)⟩

theorem complete_books (hq : q.All recovering) (key id : Bytes) :
    q.Books (q.complete key id).1 key
        ((q.book key).put id { (q.book key).copies id with leased := none } 0) ∧
      ((q.complete key id).2.toOption = none ↔ ((q.book key).copies id).leased = none) := by
  unfold complete
  cases hl : q.groups.lookup key with
  | none =>
    rw [book_of_lookup_none hl]
    exact ⟨.same hq ((Book.put_same rfl).trans (book_of_lookup_none hl).symm), iff_of_true rfl rfl⟩
  | some g =>
    have hs := shows_of_lookup hl
    obtain ⟨hbooks, hnone⟩ := (hq key g hl).complete id
    have hq₁ : q.Books (q.setGroup key (g.complete id).1) key _ := .ofGroup hq hs rfl rfl hbooks
    simp only [hs.book, Group.copies_book]
    cases hc : g.complete id with
    | mk g' done =>
      rw [hc] at hq₁ hnone
      cases done with
      | none => exact ⟨hq₁, iff_of_true rfl (hnone.mp rfl)⟩
      | some m =>
        exact ⟨hq₁, iff_of_false (by simp [Except.toOption]) fun h => by simp [h] at hnone⟩

theorem onExpire_books (hq : q.All recovering) (ht : e.type = .expire) :
    q.Books (q.onExpire e) e.group ((q.book e.group).replay (q.resolveConfig e.group) e) := by
  simp only [Book.replay, ht]
  exact (complete_books hq e.group e.msgID).1

theorem removeMessage_books (hq : q.All recovering) (key id : Bytes)
    (hleased : ((q.book key).copies id).leased = none) :
    q.Books (q.removeMessage key id).1 key ((q.book key).put id
      { (q.book key).copies id with ready := ((q.book key).copies id).ready.tail } 0) := by
  unfold removeMessage
  cases hl : q.groups.lookup key with
  | none => exact .same hq (Book.put_same (by rw [book_of_lookup_none hl]; rfl))
  | some g =>
    have hg := hq key g hl
    have hs := shows_of_lookup hl
    simp only [hs.book, Group.copies_book] at hleased ⊢
    simp only [hg.findSlot_urgent]
    cases hf : findSlot g.ready g.readyHead id with
    | some x =>
      obtain ⟨-, rest, hready, hclear⟩ := hg.clearReady hf
      rw [hready, List.tail_cons]
      exact .ofGroup hq hs rfl rfl hclear
    | none =>
      have hget : g.processing.get? id = none := by simpa [Group.copies] using hleased
      have hready := Group.copies_ready_eq_nil hf
      simp only [hget]
      refine .same hq ((Book.put_same ?_).trans hs.book.symm)
      rw [hready, List.tail_nil, ← hready]
      rfl

theorem onACK_books (hq : q.All recovering) (ht : e.type = .ack) :
    q.Books (q.onACK e) e.group ((q.book e.group).replay (q.resolveConfig e.group) e) := by
  obtain ⟨hbooks, hnone⟩ := complete_books hq e.group e.msgID
  simp only [Book.replay, ht]
  unfold onACK
  cases hc : q.complete e.group e.msgID with
  | mk q₁ r =>
    rw [hc] at hbooks hnone
    cases r with
    | ok u =>
      obtain ⟨a, hleased⟩ :=
        Option.ne_none_iff_exists'.mp (hnone.not.mp (by simp [Except.toOption]))
      simp only [hleased]
      exact hbooks
    | error err =>
      have hleased := hnone.mp rfl
      have hbook : q₁.book e.group = q.book e.group := by
        rw [hbooks.book, if_pos rfl]
        exact Book.put_same (by rw [← hleased])
      have hremove := removeMessage_books hbooks.all e.group e.msgID (by rw [hbook, hleased])
      rw [hbook] at hremove
      simp only [hleased] at hremove ⊢
      exact hbooks.trans hremove

theorem onNACK_books (hq : q.All recovering) (ht : e.type = .nack) (now : Int) :
    Gives ((q.resolveConfig e.group).ShiftsBack ((q.book e.group).copies e.msgID))
      (fun q' => q.Books q' e.group ((q.book e.group).replay (q.resolveConfig e.group) e))
      (q.onNACK e now) := by
  unfold onNACK fail
  cases hl : q.groups.lookup e.group with
  | none =>
    have hremove : q.removeMessage e.group e.msgID = (q, false) := by simp only [removeMessage, hl]
    have hok : q.Books q e.group ((q.book e.group).replay (q.resolveConfig e.group) e) := by
      refine .same hq ?_
      rw [book_of_lookup_none hl]
      simp only [Book.replay, ht]
      rfl
    rw [book_of_lookup_none hl] at hok ⊢
    change Gives _ _ (.ok (q.removeMessage e.group e.msgID).1)
    rw [hremove]
    refine ⟨?_, hok⟩
    rintro ⟨-, a, ha, -⟩
    cases ha
  | some g =>
    have hs := shows_of_lookup hl
    have hg := hq e.group g hl
    rw [hs.book]
    cases hf : g.fail e.msgID (str "replayed NACK") now with
    | error p =>
      simp only [hf]
      exact hg.fail_error hf
    | ok r =>
      obtain ⟨hgoes, hbooks⟩ := hg.fail_ok ht hf
      simp only [hf]
      exact ⟨hgoes, .ofGroup hq hs rfl rfl hbooks⟩

/-- The records at which a replay panics: a group whose rate limit is negative cannot be made, a
group that a snapshot has restored without leases has no map to put a lease in, and `retryDelay`
can shift by a negative number. -/
def Stops (q : Queue) (leaseless : Bytes → Prop) (b : Book) (e : Event) : Prop :=
  match e.type with
  | .publish => ¬ (q.resolveConfig e.group).RateOk
  | .lease => leaseless e.group ∧ (b.copies e.msgID).ready ≠ []
  | .nack => (q.resolveConfig e.group).ShiftsBack (b.copies e.msgID)
  | _ => False

def StopsIn (q : Queue) (leaseless : Bytes → Prop) (b : Bytes → Book) (records : List Event) :
    Prop :=
  ∃ earlier e later, records = earlier ++ e :: later ∧
    q.Stops leaseless ((b e.group).after (q.resolveConfig e.group) e.group earlier) e

theorem stopsIn_congr (hresolve : ∀ key, q'.resolveConfig key = q.resolveConfig key)
    {leaseless : Bytes → Prop} {b : Bytes → Book} {records : List Event} :
    q'.StopsIn leaseless b records = q.StopsIn leaseless b records := by
  simp only [StopsIn, Stops, hresolve]

theorem not_stopsIn_nil (leaseless : Bytes → Prop) (b : Bytes → Book) :
    ¬ q.StopsIn leaseless b [] := by
  rintro ⟨earlier, e, later, heq, -⟩
  cases earlier <;> cases heq

theorem stopsIn_cons {leaseless : Bytes → Prop} {b b' : Bytes → Book} {records : List Event}
    (hb : ∀ key, b' key = if e.group = key then (b key).replay (q.resolveConfig key) e else b key) :
    q.StopsIn leaseless b (e :: records) ↔
      q.Stops leaseless (b e.group) e ∨ q.StopsIn leaseless b' records := by
  constructor
  · rintro ⟨earlier, e', later, heq, hstops⟩
    cases earlier with
    | nil =>
      cases heq
      exact .inl hstops
    | cons e₁ earlier =>
      cases heq
      refine .inr ⟨earlier, e', later, rfl, ?_⟩
      rwa [Book.after_cons, ← hb] at hstops
  · rintro (hstops | ⟨earlier, e', later, rfl, hstops⟩)
    · exact ⟨[], e, records, rfl, hstops⟩
    · refine ⟨e :: earlier, e', later, rfl, ?_⟩
      rwa [Book.after_cons, ← hb]

theorem dispatch_books (hq : q.All recovering) (e : Event) (now : Int) :
    Gives (q.Stops q.Leaseless (q.book e.group) e)
      (fun q' => q.Books q' e.group ((q.book e.group).replay (q.resolveConfig e.group) e))
      (q.dispatch e now) := by
  unfold dispatch Stops
  cases ht : e.type with
  | publish => exact onPublish_books hq ht now
  | lease => exact onLease_books hq ht now
  | ack => exact ⟨not_false, onACK_books hq ht⟩
  | nack => exact onNACK_books hq ht now
  | expire => exact ⟨not_false, onExpire_books hq ht⟩
  | unknown code => exact ⟨not_false, .same hq (by simp only [Book.replay, ht])⟩

/-- A replay takes every group through its own records, and panics exactly at a record that
`Stops` it. -/
theorem replay_books (hq : q.All recovering) (events : List (Event × Int)) :
    Gives (q.StopsIn q.Leaseless q.book (events.map Prod.fst))
      (fun q' => q'.All recovering ∧
        ∀ key, q'.book key = (q.book key).after (q.resolveConfig key) key (events.map Prod.fst))
      (replayEvents q events) := by
  induction events generalizing q with
  | nil => exact ⟨not_stopsIn_nil _ _, hq, fun _ => rfl⟩
  | cons e events ih =>
    have hstep := dispatch_books hq e.1 e.2
    rw [List.map_cons, replayEvents, Run.run_cons]
    cases hd : q.dispatch e.1 e.2 with
    | error p =>
      rw [hd] at hstep
      exact (stopsIn_cons fun _ => rfl).mpr (.inl hstep)
    | ok q₁ =>
      rw [hd] at hstep
      obtain ⟨hgoes, hbooks⟩ := hstep
      have hbook : ∀ key, q₁.book key =
          if e.1.group = key then (q.book key).replay (q.resolveConfig key) e.1
          else q.book key := by
        intro key
        rw [hbooks.book]
        by_cases hkey : key = e.1.group
        · rw [if_pos hkey, if_pos hkey.symm, hkey]
        · rw [if_neg hkey, if_neg (Ne.symm hkey)]
      have hresolve := resolveConfig_congr hbooks.cfgIdx
      have hleaseless : q₁.Leaseless = q.Leaseless := funext fun k => propext (hbooks.nil_iff k)
      have hrest := ih hbooks.all
      rw [hleaseless, stopsIn_congr hresolve] at hrest
      refine hrest.imp ?_ ?_
      · rw [stopsIn_cons hbook, or_iff_right hgoes]
      · rintro q' ⟨hall, hafter⟩
        refine ⟨hall, ?_⟩
        intro key
        rw [hafter, hresolve, hbook, Book.after_cons]

end Queue

end Octar
