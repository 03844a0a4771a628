import Octar.Lib.HeapOrder
import Octar.Queue.LeaseSweep

namespace Octar

open Go

theorem delayedLess_eq_false {a b : Message} : delayedLess b a = false ↔
    a.scheduledAt < b.scheduledAt ∨ a.scheduledAt = b.scheduledAt ∧ a.id ≤ b.id := by
  unfold delayedLess
  split
  · rename_i heq
    simp [heq]
  · rename_i hne
    rw [decide_eq_false_iff_not]
    omega

theorem orders_delayedLess : Heap.Orders delayedLess where
  asymm := by
    intro a b hlt
    rw [delayedLess_eq_false]
    unfold delayedLess at hlt
    split at hlt
    · rename_i heq
      exact .inr ⟨heq, List.le_of_lt (of_decide_eq_true hlt)⟩
    · exact .inl (of_decide_eq_true hlt)
  trans := by
    intro a b c hab hbc
    rw [delayedLess_eq_false] at *
    rcases hab with hab | ⟨hab, hid⟩
    · rcases hbc with hbc | ⟨hbc, -⟩
      · exact .inl (hab.trans hbc)
      · exact .inl (hbc ▸ hab)
    · rcases hbc with hbc | ⟨hbc, hid'⟩
      · exact .inl (hab ▸ hbc)
      · exact .inr ⟨hab.trans hbc, List.le_trans hid hid'⟩

structure Wakes (times : Multiset Int) (wakeAt : Int) : Prop where
  zero : wakeAt = zeroTime ↔ times = 0
  earliest : times ≠ 0 → wakeAt ∈ times ∧ ∀ t ∈ times, wakeAt ≤ t

namespace Wakes

variable {times more : Multiset Int} {w t : Int}

theorem none : Wakes 0 zeroTime := ⟨⟨fun _ => rfl, fun _ => rfl⟩, fun h => absurd rfl h⟩

theorem cons (h : Wakes times w) (ht : t ≠ zeroTime) : Wakes (t ::ₘ times) (earlierWake w t) := by
  unfold earlierWake
  by_cases htimes : times = 0
  · have hw : isZero w = true := beq_iff_eq.mpr (h.zero.mpr htimes)
    rw [if_pos (.inl hw), htimes]
    exact ⟨by simp [ht], fun _ => by simp⟩
  · obtain ⟨hmem, hle⟩ := h.earliest htimes
    have hw : w ≠ zeroTime := fun hw => htimes (h.zero.mp hw)
    have hzero : ¬ isZero w = true := fun hz => hw (beq_iff_eq.mp hz)
    split
    · rename_i hlt
      have hlt : t < w := hlt.resolve_left hzero
      refine ⟨by simp [ht], fun _ => ⟨Multiset.mem_cons_self t times, ?_⟩⟩
      intro t' ht'
      rcases Multiset.mem_cons.mp ht' with rfl | ht'
      · exact Int.le_refl _
      · exact Int.le_trans (Int.le_of_lt hlt) (hle t' ht')
    · rename_i hlt
      rw [not_or] at hlt
      refine ⟨by simp [hw], fun _ => ⟨Multiset.mem_cons_of_mem hmem, ?_⟩⟩
      intro t' ht'
      rcases Multiset.mem_cons.mp ht' with rfl | ht'
      · omega
      · exact hle t' ht'

theorem later (h : Wakes (t ::ₘ times) w) (hmore : ∀ t' ∈ more, t ≤ t') :
    Wakes (t ::ₘ times + more) w := by
  have hne : t ::ₘ times ≠ 0 := Multiset.cons_ne_zero
  obtain ⟨hmem, hle⟩ := h.earliest hne
  have hw : w ≠ zeroTime := fun hw => hne (h.zero.mp hw)
  refine ⟨by simp [hw], fun _ => ⟨Multiset.mem_add.mpr (.inl hmem), ?_⟩⟩
  intro t' ht'
  rcases Multiset.mem_add.mp ht' with ht' | ht'
  · exact hle t' ht'
  · exact Int.le_trans (hle t (Multiset.mem_cons_self t times)) (hmore t' ht')

end Wakes

namespace Group

variable {g g' : Group} {now : Int}

structure Promotion (now : Int) (g g' : Group) (wakeAt : Int) (expired due : List Message) :
    Prop where
  expired_eq : (expired : Multiset Message) = g.inFlight.filter fun m => m.scheduledAt < now
  due_eq : (due : Multiset Message) = (g.delayed : Multiset Message).filter fun m =>
    m.scheduledAt ≤ now
  inOrder : due.Pairwise fun a b =>
    a.scheduledAt < b.scheduledAt ∨ a.scheduledAt = b.scheduledAt ∧ a.id ≤ b.id
  moved : g' = { g with
    urgent := g.urgent ++ expired.map fun m => some { m with state := .pending }
    ready := g.ready ++ due.map some
    delayed := g'.delayed
    processing := g'.processing }
  leases : ∀ id, g'.processing.get? id = (g.processing.get? id).filter fun m =>
    ¬ m.scheduledAt < now
  delayed : (g'.delayed : Multiset Message) = (g.delayed : Multiset Message).filter fun m =>
    now < m.scheduledAt
  heap : Heap.IsHeap delayedLess g'.delayed
  wakes : (∀ m ∈ g'.inFlight + g'.delayed, m.scheduledAt ≠ zeroTime) →
    Wakes ((g'.inFlight + g'.delayed).map Message.scheduledAt) wakeAt

/-- What the second loop takes from the heap comes in order, what it leaves is not due, and the root
of that is the time it stops for. -/
structure Due (now : Int) (s s' : Group × Int) (due : List Message) : Prop where
  ready : s'.1.ready = s.1.ready ++ due.map some
  taken : ∀ m ∈ due, m ∈ s.1.delayed
  inOrder : due.Pairwise fun a b => delayedLess b a = false
  heap : Heap.IsHeap delayedLess s'.1.delayed
  late : ∀ m ∈ s'.1.delayed, now < m.scheduledAt
  wakeAt : s'.2 = s'.1.delayed.head?.elim s.2 fun m => earlierWake s.2 m.scheduledAt

theorem promoteDue_due {n : Nat} {s : Group × Int} (hn : s.1.delayed.length ≤ n)
    (hheap : Heap.IsHeap delayedLess s.1.delayed) : ∃ due, Due now s (promoteDue now n s) due := by
  induction n generalizing s with
  | zero =>
    have hnil : s.1.delayed = [] := List.eq_nil_of_length_eq_zero (Nat.le_zero.mp hn)
    refine ⟨[], by simp [promoteDue], by simp, .nil, hheap, ?_, by simp [promoteDue, hnil]⟩
    simp [promoteDue, hnil]
  | succ n ih =>
    simp only [promoteDue]
    split
    · rename_i hnil
      exact ⟨[], by simp, by simp, .nil, hheap, by simp [hnil], by simp [hnil]⟩
    · rename_i msg rest hdelayed
      rw [hdelayed] at hheap
      have hfirst := hheap.root_first orders_delayedLess
      split
      · rename_i hlate
        refine ⟨[], by simp, by simp, .nil, hdelayed ▸ hheap, ?_, by simp [hdelayed]⟩
        intro m hm
        have hle := delayedLess_eq_false.mp (hfirst m (hdelayed ▸ hm))
        omega
      · have hperm := Heap.pop_perm delayedLess msg rest
        have hmem : ∀ m ∈ Heap.pop delayedLess (msg :: rest), m ∈ msg :: rest :=
          fun m hm => hperm.mem_iff.mp (List.mem_cons_of_mem msg hm)
        have hlength : (Heap.pop delayedLess s.1.delayed).length ≤ n := by
          have hlength := hperm.length_eq
          rw [hdelayed] at hn ⊢
          simp only [List.length_cons] at hn hlength
          omega
        obtain ⟨due, hdue⟩ := ih
          (s :=
            ({ s.1 with
              delayed := Heap.pop delayedLess s.1.delayed, ready := s.1.ready ++ [some msg] }, s.2))
          hlength (hdelayed ▸ hheap.pop orders_delayedLess)
        refine ⟨msg :: due, ?_, ?_, ?_, hdue.heap, hdue.late, hdue.wakeAt⟩
        · rw [hdue.ready]
          simp
        · intro m hm
          rw [hdelayed]
          rcases List.mem_cons.mp hm with rfl | hm
          · exact List.mem_cons_self
          · exact hmem m (hdelayed ▸ hdue.taken m hm)
        · refine List.pairwise_cons.mpr ⟨?_, hdue.inOrder⟩
          intro m hm
          exact hfirst m (hmem m (hdelayed ▸ hdue.taken m hm))

theorem foldl_expireLease_wakes (l : List (Sigma fun _ : Bytes => Message)) {s : Group × Int}
    {times : Multiset Int} (hl : ∀ e ∈ l, ¬ e.2.scheduledAt < now → e.2.scheduledAt ≠ zeroTime)
    (hs : Wakes times s.2) :
    Wakes (((l.map Sigma.snd : Multiset Message).filter fun m => ¬ m.scheduledAt < now).map
      Message.scheduledAt + times) (l.foldl (expireLease now) s).2 := by
  induction l generalizing s times with
  | nil => simpa using hs
  | cons e l ih =>
    obtain ⟨he, hl⟩ := List.forall_mem_cons.mp hl
    rw [List.foldl_cons, List.map_cons, ← Multiset.cons_coe]
    by_cases hlt : e.2.scheduledAt < now
    · have hkept : (expireLease now s e).2 = s.2 := by rw [expireLease, if_pos hlt]
      rw [Multiset.filter_cons_of_neg (p := fun m : Message => ¬ m.scheduledAt < now) _
        (not_not.mpr hlt)]
      exact ih hl (hkept ▸ hs)
    · have hkept : (expireLease now s e).2 = earlierWake s.2 e.2.scheduledAt := by
        rw [expireLease, if_neg hlt]
      rw [Multiset.filter_cons_of_pos (p := fun m : Message => ¬ m.scheduledAt < now) _ hlt,
        Multiset.map_cons, Multiset.cons_add, ← Multiset.add_cons]
      apply ih hl
      rw [hkept]
      exact hs.cons (he hlt)

theorem Due.wakes {s s' : Group × Int} {due : List Message} {times : Multiset Int}
    (h : Due now s s' due) (hs : Wakes times s.2)
    (hroot : ∀ m ∈ s'.1.delayed, m.scheduledAt ≠ zeroTime) :
    Wakes (times + (s'.1.delayed : Multiset Message).map Message.scheduledAt) s'.2 := by
  have hwakeAt := h.wakeAt
  have hheap := h.heap
  cases hdelayed : s'.1.delayed with
  | nil =>
    rw [hdelayed] at hwakeAt
    rw [hwakeAt]
    simpa using hs
  | cons m rest =>
    rw [hdelayed] at hwakeAt hheap hroot
    rw [hwakeAt, ← Multiset.cons_coe, Multiset.map_cons, Multiset.add_cons, ← Multiset.cons_add]
    apply (hs.cons (hroot m List.mem_cons_self)).later
    intro t ht
    obtain ⟨m', hm', rfl⟩ := Multiset.mem_map.mp ht
    have hle :=
      delayedLess_eq_false.mp (hheap.root_first orders_delayedLess m' (List.mem_cons_of_mem m hm'))
    omega

theorem promoteDelayed_due (hheap : Heap.IsHeap delayedLess g.delayed) (ord : RangeOrder)
    (now : Int) :
    ∃ due, Due now ((ord.pick g.processing.table.entries).foldl (expireLease now) (g, zeroTime))
      (g.promoteDelayed ord now) due := by
  apply promoteDue_due (Nat.le_refl _)
  rw [foldl_expireLease]
  exact hheap

/-- Promotion is exact: the expired leases go to the end of `urgent`, what is due goes to the end of
`ready` in the order of the heap, the rest stays, and the result is the time of the first of the
rest. -/
theorem promoteDelayed_exact (hheap : Heap.IsHeap delayedLess g.delayed) (ord : RangeOrder)
    (now : Int) :
    ∃ expired due, Promotion now g (g.promoteDelayed ord now).1 (g.promoteDelayed ord now).2
      expired due := by
  let l := ord.pick g.processing.table.entries
  let s := l.foldl (expireLease now) (g, zeroTime)
  have hl : l.Perm g.processing.table.entries := ord.perm _
  have hs := expires_of_perm hl (foldl_expireLease now l (g, zeroTime))
  have hdelayed : s.1.delayed = g.delayed := by rw [hs.moved]
  obtain ⟨due, delayed, hmoved, hsplit, hle⟩ := promoteDue_spec now s.1.delayed.length s
  change (g.promoteDelayed ord now).1 = _ at hmoved
  obtain ⟨due', hdue⟩ := promoteDelayed_due hheap ord now
  have hsame : due' = due := by
    have hready := hdue.ready
    rw [hmoved] at hready
    exact (List.map_injective_iff.mpr (Option.some_injective _)
      (List.append_cancel_left hready)).symm
  subst hsame
  have hlate : ∀ m ∈ (g.promoteDelayed ord now).1.delayed, ¬ m.scheduledAt ≤ now :=
    fun m hm => Int.not_le.mpr (hdue.late m hm)
  have hdelayed' : (g.promoteDelayed ord now).1.delayed = delayed := by rw [hmoved]
  rw [hdelayed, ← hdelayed'] at hsplit
  obtain ⟨hgone, hkept⟩ := filter_of_split hsplit hle hlate
  have hinFlight : (g.promoteDelayed ord now).1.inFlight = s.1.inFlight := by rw [hmoved]; rfl
  refine ⟨(expiredEntries now l).map Sigma.snd, due', hs.expired_eq, hgone,
    hdue.inOrder.imp delayedLess_eq_false.mp, ?_, ?_, ?_, hdue.heap, ?_⟩
  · rw [hmoved, hs.moved]
  · rw [hmoved]
    exact hs.lookup
  · simpa only [Int.not_le] using hkept
  · intro hzero
    -- the order of the walk over the leases does not matter
    have hvalues : (l.map Sigma.snd : Multiset Message) = g.inFlight :=
      Multiset.coe_eq_coe.mpr (hl.map Sigma.snd)
    have hl : ∀ e ∈ l, ¬ e.2.scheduledAt < now → e.2.scheduledAt ≠ zeroTime := by
      intro e he hlt
      apply hzero
      rw [hinFlight, hs.kept, Multiset.mem_add, Multiset.mem_filter, ← hvalues]
      exact .inl ⟨List.mem_map_of_mem he, hlt⟩
    have hwakes : Wakes _ s.2 := foldl_expireLease_wakes l hl Wakes.none
    rw [hvalues, ← hs.kept, add_zero] at hwakes
    rw [Multiset.map_add, hinFlight]
    exact hdue.wakes hwakes fun m hm => hzero m (Multiset.mem_add.mpr (.inr hm))

def leasedAtZero : Group where
  cfg := defaultGroupConfig (str "g")
  ready := []
  readyHead := 0
  urgent := []
  urgentHead := 0
  delayed := []
  processing :=
    some ((∅ : Map Bytes Message).insert (str "a")
      (newMessageAt [] [] (str "g") [] zeroTime (str "a")))
  limiter := none
  deficit := 0
  quantum := 1

/-- The zero time is returned although a message is left. -/
theorem promoteDelayed_zero_deadline :
    (leasedAtZero.promoteDelayed .inOrder zeroTime).2 = zeroTime ∧
    (leasedAtZero.promoteDelayed .inOrder zeroTime).1.processing.len = 1 := by
  decide +kernel

def promotable : Group :=
  let msg (id : String) (t : Int) : Message := newMessageAt [] [] (str "g") [] t (str id)
  { leasedAtZero with
    delayed := [msg "c" 4, msg "d" 9]
    processing := some (((∅ : Map Bytes Message).insert (str "a") (msg "a" 3)).insert
      (str "b") (msg "b" 7)) }

theorem promoteDelayed_exact_promotable : Heap.IsHeap delayedLess promotable.delayed ∧
    ∃ expired due, Promotion 5 promotable (promotable.promoteDelayed .inOrder 5).1
      (promotable.promoteDelayed .inOrder 5).2 expired due := by
  have hheap : Heap.IsHeap delayedLess promotable.delayed :=
    Heap.isHeap_init orders_delayedLess promotable.delayed
  exact ⟨hheap, promoteDelayed_exact hheap .inOrder 5⟩

theorem heap_ofNewGroup {cfg : GroupConfig} (h : newGroup cfg = .ok g) :
    Heap.IsHeap delayedLess g.delayed := by
  simp only [newGroup] at h
  obtain ⟨limiter, -, hret⟩ := bind_ok.mp h
  cases hret
  exact Heap.isHeap_init orders_delayedLess []

theorem lasting_heap : Lasting fun g => Heap.IsHeap delayedLess g.delayed where
  complete id h := by
    unfold Group.complete
    split
    · exact h
    · exact h
  fail h hfail := by
    cases fail_cases hfail with
    | absent none same letter => exact same ▸ h
    | retries m delay found more delayed put letter =>
      subst put
      exact h.push orders_delayedLess _
    | drops m found exhausted dropped letter =>
      subst dropped
      exact h
  returnToPending id h := by
    unfold Group.returnToPending
    split
    · exact h
    · exact h
  promoteDelayed ord now h := by
    obtain ⟨due, hdue⟩ := promoteDelayed_due h ord now
    exact hdue.heap
  nextDispatchable h hnext := by
    rw [(nextDispatchable_frame hnext).2]
    exact h
  settings _ _ _ h := h

end Group

namespace Queue

variable [PathMatch] {q q' : Queue}

def Heaps (q : Queue) : Prop := q.EachGroup fun g => Heap.IsHeap delayedLess g.delayed

theorem Heaps.take {step : QueueStep} (h : q.Heaps) (htake : q.take step = .ok q') : q'.Heaps := by
  cases step with
  | live op =>
    obtain ⟨⟨q₁, r⟩, hexec, hret⟩ := bind_ok.mp htake
    cases hret
    apply h.exec hexec
    · intro key g hnew
      exact Group.heap_ofNewGroup hnew
    · intro g m _ hg
      exact hg
    · intro key a _ g g' os hg hact
      exact Group.lasting_heap.act hg hact
  | importState ord state =>
    apply importState_induct htake _ (fun _ _ hq => hq) h
    intro q gs g hq _ key g' hg'
    by_cases hkey : key = gs.key
    · subst hkey
      rw [lookup_setGroup] at hg'
      cases hg'
      exact Heap.isHeap_init orders_delayedLess gs.delayedMsgs
    · rw [lookup_setGroup_ne _ _ hkey] at hg'
      exact hq key g' hg'

theorem heaps_run {name ns : Bytes} {steps : List QueueStep}
    (h : Go.run Queue.take (newQueue name ns) steps = .ok q) : q.Heaps := by
  apply Run.induct (motive := fun q _ => q.Heaps) _ _ h
  · intro q step _ q' hq htake
    exact hq.take htake
  · intro key g hg
    cases hg

end Queue

end Octar
