import Octar.Broker.Backlog
import Octar.Broker.LoggedRun

namespace Octar

open Go

structure Request where
  group : Bytes
  msgID : Bytes
  payload : Bytes
  deriving DecidableEq

structure SnapshotJob where
  seq : Nat
  segmentID : Nat
  state : Option QueueState

/-- A queue with its log.  A publisher is in `flushed` when its record is durable, in `enqueued`
when `PublishWithID` has accepted its message, and in `acked` when it has been sent `PUBLISH_OK`. -/
structure Node where
  queue : Queue
  seq : Nat
  segmentID : Nat
  log : List Event
  flushed : List Event
  enqueued : List Message
  acked : List Message
  job : Option SnapshotJob
  saved : Option Snapshot

inductive Action
  | flush (batch : List Request)
  | enqueue (msgID : Bytes) (now : Int)
  | publishOK (msgID : Bytes)
  | rotate
  | readSeq
  | exportState
  | writeFile (ord : RangeOrder) (now : Int)

namespace Node

def start (q₀ : Queue) : Node := ⟨q₀, 0, 0, [], [], [], [], none, none⟩

def records (s : Node) (batch : List Request) : List Event :=
  stamp s.seq (batch.map fun r => s.queue.event .publish r.group r.msgID r.payload)

def step [PathMatch] (s : Node) : Action → Except Panic Node
  | .flush batch =>
    .ok { s with
      seq := s.seq + batch.length
      log := s.log ++ s.records batch
      flushed := s.flushed ++ s.records batch }
  | .enqueue msgID now =>
    match s.flushed.find? fun e => e.msgID = msgID with
    | none => .ok s
    | some e => do
      let (q, r) ← s.queue.publishWithID e.group e.msgID e.payload now
      return { s with
        queue := q
        flushed := s.flushed.erase e
        enqueued := s.enqueued ++ (Reply.published r).accepted }
  | .publishOK msgID =>
    match s.enqueued.find? fun m => m.id = msgID with
    | none => .ok s
    | some m => .ok { s with enqueued := s.enqueued.erase m, acked := s.acked ++ [m] }
  | .rotate => .ok { s with segmentID := s.segmentID + 1 }
  | .readSeq => .ok { s with job := s.job.or (some ⟨s.seq, s.segmentID, none⟩) }
  | .exportState =>
    .ok { s with
      job := s.job.map fun j => { j with state := j.state.or (some s.queue.exportState) } }
  | .writeFile ord now =>
    match s.job with
    | some ⟨seq, segmentID, some state⟩ =>
      .ok { s with
        job := none
        saved := some ⟨segmentID, seq, now, convertQueueStateToSnapshot ord state⟩ }
    | _ => .ok s

/-- Restart after a crash: `q₀` is the queue with its group configs, `clock` the time at which each
record is replayed.  `FindLatestSnapshot` starts from the number 0 and takes a larger one only, so
the snapshot of segment 0 is never loaded. -/
def recover [PathMatch] (s : Node) (q₀ : Queue) (ord : RangeOrder) (now : Int)
    (clock : Event → Int) : Except Panic Queue :=
  match s.saved.filter fun snap => 0 < snap.segmentID with
  | none => replayEvents q₀ (s.log.map fun e => (e, clock e))
  | some snap => do
    let q ← q₀.onSnapshot snap ord now
    replayEvents q ((s.log.filter fun e => snap.walSeq < e.seq).map fun e => (e, clock e))

def Aligned (s : Node) (seq : Nat) : Prop :=
  ∀ e ∈ s.log, e.seq ≤ seq ↔ s.queue.Holds e.group e.msgID

/-- The steps under which no message is lost or doubled: identifiers are new, every group can be
made and has room for all its records, and a state is exported behind segment 0 when it is
`Aligned`. -/
def Admits [PathMatch] (s : Node) : Action → Prop
  | .flush batch =>
    ((s.log ++ s.records batch).map Event.msgID).Nodup ∧
      ∀ r ∈ batch, (s.queue.resolveConfig r.group).RateOk ∧
        (s.queue.resolveConfig r.group).Fits (idsOf r.group (s.log ++ s.records batch)).card
  | .exportState => ∀ j ∈ s.job, j.state = none → 0 < j.segmentID → s.Aligned j.seq
  | _ => True

theorem seq_records {s : Node} {batch : List Request} {e : Event} (he : e ∈ s.records batch) :
    s.seq < e.seq := by
  have hmem := List.mem_map_of_mem (f := Event.seq) he
  rw [records, map_seq_stamp, List.mem_range'_1] at hmem
  omega

theorem mem_records {s : Node} {batch : List Request} {e : Event} (he : e ∈ s.records batch) :
    e.type = .publish ∧ ∃ r ∈ batch, r.group = e.group := by
  have hmem := List.mem_map_of_mem (f := fun e => (e.type, e.group)) he
  rw [records, map_stamp (fun _ _ => rfl), List.map_map] at hmem
  obtain ⟨r, hr, heq⟩ := List.mem_map.mp hmem
  obtain ⟨htype, hgroup⟩ := Prod.mk.inj heq
  exact ⟨htype.symm, r, hr, hgroup⟩

section Invariant

variable [PathMatch] {q₀ : Queue} {s : Node}

def Exported (q₀ : Queue) (log : List Event) (seq : Nat) (state : QueueState) : Prop :=
  ∃ q, state = q.exportState ∧ q₀.Adds (log.filter fun e => e.seq ≤ seq) q

structure Inv (q₀ : Queue) (s : Node) : Prop where
  memory : ∃ stored, q₀.Adds stored s.queue ∧ s.log.Perm (stored ++ s.flushed)
  seqs : s.log.map Event.seq = List.range' 1 s.seq
  ids : (s.log.map Event.msgID).Nodup
  publishes : ∀ e ∈ s.log, e.type = .publish
  rate_ok : ∀ e ∈ s.log, (q₀.resolveConfig e.group).RateOk
  fits : ∀ e ∈ s.log, (q₀.resolveConfig e.group).Fits (idsOf e.group s.log).card
  confirmed : ∀ m ∈ s.enqueued ++ s.acked, ∃ e ∈ s.log, e.group = m.groupKey ∧ e.msgID = m.id
  job : ∀ j ∈ s.job, j.seq ≤ s.seq ∧
    (0 < j.segmentID → ∀ state ∈ j.state, Exported q₀ s.log j.seq state)
  saved : ∀ snap ∈ s.saved, snap.walSeq ≤ s.seq ∧
    (0 < snap.segmentID → ∃ state ord, snap.groups = convertQueueStateToSnapshot ord state ∧
      Exported q₀ s.log snap.walSeq state)

theorem inv_start (hempty : q₀.groups = ∅) : Inv q₀ (start q₀) :=
  ⟨⟨[], .refl (.ofEmpty hempty), .nil⟩, rfl, .nil, by simp [start], by simp [start],
    by simp [start], by simp [start], by simp [start], by simp [start]⟩

theorem Inv.resolveConfig (h : Inv q₀ s) (key : Bytes) :
    s.queue.resolveConfig key = q₀.resolveConfig key := by
  obtain ⟨stored, hadds, -⟩ := h.memory
  exact Queue.resolveConfig_congr hadds.cfgIdx key

theorem Inv.exported (h : Inv q₀ s) (hempty : q₀.groups = ∅) {seq : Nat} (ha : s.Aligned seq) :
    Exported q₀ s.log seq s.queue.exportState := by
  obtain ⟨stored, hadds, hperm⟩ := h.memory
  have hlog := h.ids.of_map
  have hstored : stored.Nodup := (List.nodup_append'.mp (hperm.nodup_iff.mp hlog)).1
  have hsub : ∀ e ∈ stored, e ∈ s.log := fun e he => hperm.mem_iff.mpr (List.mem_append_left _ he)
  have hholds : ∀ e ∈ s.log, s.queue.Holds e.group e.msgID ↔ e ∈ stored := by
    intro e he
    rw [Queue.holds_iff_idsAt, hadds.ids, Queue.idsAt_of_empty hempty, zero_add, mem_idsOf]
    constructor
    · rintro ⟨e', he', -, hid⟩
      rwa [← List.inj_on_of_nodup_map h.ids (hsub e' he') he hid]
    · intro hmem
      exact ⟨e, hmem, rfl, rfl⟩
  refine ⟨s.queue, rfl, hadds.perm ?_⟩
  apply (List.perm_ext_iff_of_nodup hstored (hlog.filter _)).mpr
  intro e
  rw [List.mem_filter, decide_eq_true_eq]
  constructor
  · intro he
    exact ⟨hsub e he, (ha e (hsub e he)).mpr ((hholds e (hsub e he)).mpr he)⟩
  · rintro ⟨he, hseq⟩
    exact (hholds e he).mp ((ha e he).mp hseq)

theorem Exported.flush {batch : List Request} {seq : Nat} {state : QueueState} (hseq : seq ≤ s.seq)
    (h : Exported q₀ s.log seq state) : Exported q₀ (s.log ++ s.records batch) seq state := by
  obtain ⟨q, hq, hadds⟩ := h
  refine ⟨q, hq, ?_⟩
  have hnew : (s.records batch).filter (fun e => e.seq ≤ seq) = [] := by
    apply List.filter_eq_nil_iff.mpr
    intro e he
    have := seq_records he
    simp only [decide_eq_true_eq]
    omega
  rwa [List.filter_append, hnew, List.append_nil]

theorem Inv.flush {batch : List Request} {s' : Node} (h : Inv q₀ s) (hg : s.Admits (.flush batch))
    (hs : s.step (.flush batch) = .ok s') : Inv q₀ s' := by
  cases hs
  obtain ⟨stored, hadds, hperm⟩ := h.memory
  obtain ⟨hids, hbatch⟩ := hg
  simp only [h.resolveConfig] at hbatch
  refine ⟨⟨stored, hadds, ?_⟩, ?_, hids, ?_, ?_, ?_, ?_, ?_, ?_⟩
  · rw [← List.append_assoc]
    exact hperm.append_right _
  · rw [List.map_append, h.seqs, records, map_seq_stamp, List.length_map, Nat.add_comm s.seq 1]
    exact List.range'_append_1
  · intro e he
    rcases List.mem_append.mp he with he | he
    · exact h.publishes e he
    · exact (mem_records he).1
  · intro e he
    rcases List.mem_append.mp he with he | he
    · exact h.rate_ok e he
    · obtain ⟨-, r, hr, hgroup⟩ := mem_records he
      exact hgroup ▸ (hbatch r hr).1
  · intro e he
    by_cases hnew : ∃ r ∈ batch, r.group = e.group
    · obtain ⟨r, hr, hgroup⟩ := hnew
      exact hgroup ▸ (hbatch r hr).2
    · rcases List.mem_append.mp he with he | he
      · -- no record of the batch is in the group of `e`
        have hzero : idsOf e.group (s.records batch) = 0 := by
          apply Multiset.eq_zero_of_forall_notMem
          intro id hid
          obtain ⟨e', he', hgroup, -⟩ := mem_idsOf.mp hid
          obtain ⟨-, r, hr, hr'⟩ := mem_records he'
          exact hnew ⟨r, hr, hr'.trans hgroup⟩
        rw [idsOf_append, hzero, add_zero]
        exact h.fits e he
      · exact absurd (mem_records he).2 hnew
  · intro m hm
    obtain ⟨e, he, hkey⟩ := h.confirmed m hm
    exact ⟨e, List.mem_append_left _ he, hkey⟩
  · intro j hj
    obtain ⟨hseq, hstate⟩ := h.job j hj
    exact ⟨Nat.le_add_right_of_le hseq, fun hpos st hst => (hstate hpos st hst).flush hseq⟩
  · intro snap hsnap
    obtain ⟨hseq, hstate⟩ := h.saved snap hsnap
    refine ⟨Nat.le_add_right_of_le hseq, fun hpos => ?_⟩
    obtain ⟨state, ord, hgroups, hexp⟩ := hstate hpos
    exact ⟨state, ord, hgroups, hexp.flush hseq⟩

theorem Inv.enqueue {msgID : Bytes} {now : Int} {s' : Node} (h : Inv q₀ s) (hempty : q₀.groups = ∅)
    (hs : s.step (.enqueue msgID now) = .ok s') : Inv q₀ s' := by
  simp only [step] at hs
  split at hs
  · cases hs
    exact h
  · rename_i e hfind
    have hflushed := List.mem_of_find?_eq_some hfind
    obtain ⟨stored, hadds, hperm⟩ := h.memory
    have hlog : e ∈ s.log := hperm.mem_iff.mpr (List.mem_append_right _ hflushed)
    -- the record counts in the log, but not yet in memory
    have hfits : (s.queue.resolveConfig e.group).Fits ((s.queue.idsAt e.group).card + 1) := by
      rw [h.resolveConfig]
      apply (h.fits e hlog).mono
      have hpos : 0 < (idsOf e.group s.flushed).card :=
        Multiset.card_pos_iff_exists_mem.mpr ⟨e.msgID, mem_idsOf.mpr ⟨e, hflushed, rfl, rfl⟩⟩
      rw [hadds.ids, Queue.idsAt_of_empty hempty, zero_add, idsOf_perm hperm, idsOf_append,
        Multiset.card_add]
      omega
    obtain ⟨q, hq, hadd⟩ :=
      Queue.publishWithID_backlog hadds.all e now (h.resolveConfig _ ▸ h.rate_ok e hlog) hfits
    rw [hq] at hs
    cases hs
    refine ⟨⟨stored ++ [e], hadds.trans hadd, ?_⟩, h.seqs, h.ids, h.publishes, h.rate_ok, h.fits,
      ?_, h.job, h.saved⟩
    · rw [List.append_assoc, List.singleton_append]
      exact hperm.trans (List.Perm.append_left _ (List.perm_cons_erase hflushed))
    · intro m hm
      have hcases : m = newMessageAt s.queue.name s.queue.ns e.group e.payload now e.msgID ∨
          m ∈ s.enqueued ++ s.acked := by
        simp only [Reply.published, List.mem_append, List.mem_singleton] at hm ⊢
        tauto
      rcases hcases with rfl | hm
      · exact ⟨e, hlog, rfl, rfl⟩
      · exact h.confirmed m hm

theorem Inv.publishOK {msgID : Bytes} {s' : Node} (h : Inv q₀ s)
    (hs : s.step (.publishOK msgID) = .ok s') :
    Inv q₀ s' := by
  simp only [step] at hs
  split at hs
  · cases hs
    exact h
  · rename_i m hfind
    cases hs
    refine ⟨h.memory, h.seqs, h.ids, h.publishes, h.rate_ok, h.fits, ?_, h.job, h.saved⟩
    intro m' hm'
    apply h.confirmed
    have hm := List.mem_of_find?_eq_some hfind
    simp only [List.mem_append, List.mem_singleton] at hm' ⊢
    rcases hm' with hm' | hm' | rfl
    · exact .inl (List.mem_of_mem_erase hm')
    · exact .inr hm'
    · exact .inl hm

theorem Inv.readSeq {s' : Node} (h : Inv q₀ s) (hs : s.step .readSeq = .ok s') : Inv q₀ s' := by
  cases hs
  refine ⟨h.memory, h.seqs, h.ids, h.publishes, h.rate_ok, h.fits, h.confirmed, ?_, h.saved⟩
  intro j hj
  cases hjob : s.job with
  | none =>
    simp only [hjob, Option.none_or, Option.mem_def, Option.some.injEq] at hj
    subst hj
    exact ⟨Nat.le_refl _, by simp⟩
  | some j' =>
    simp only [hjob, Option.some_or, Option.mem_def, Option.some.injEq] at hj
    subst hj
    exact h.job j' hjob

theorem Inv.exportState {s' : Node} (h : Inv q₀ s) (hempty : q₀.groups = ∅)
    (hg : s.Admits .exportState) (hs : s.step .exportState = .ok s') : Inv q₀ s' := by
  cases hs
  refine ⟨h.memory, h.seqs, h.ids, h.publishes, h.rate_ok, h.fits, h.confirmed, ?_, h.saved⟩
  intro j' hj'
  obtain ⟨j, hj, rfl⟩ := Option.map_eq_some_iff.mp hj'
  obtain ⟨hseq, hstate⟩ := h.job j hj
  refine ⟨hseq, ?_⟩
  cases hold : j.state with
  | none =>
    intro hpos state hst
    simp only [Option.none_or, Option.mem_def, Option.some.injEq] at hst
    subst hst
    exact h.exported hempty (hg j hj hold hpos)
  | some state' =>
    intro hpos state hst
    simp only [Option.some_or, Option.mem_def, Option.some.injEq] at hst
    subst hst
    exact hstate hpos state' hold

theorem Inv.writeFile {ord : RangeOrder} {now : Int} {s' : Node} (h : Inv q₀ s)
    (hs : s.step (.writeFile ord now) = .ok s') : Inv q₀ s' := by
  simp only [step] at hs
  split at hs
  · rename_i seq segmentID state hjob
    cases hs
    obtain ⟨hseq, hstate⟩ := h.job _ hjob
    refine ⟨h.memory, h.seqs, h.ids, h.publishes, h.rate_ok, h.fits, h.confirmed, by simp, ?_⟩
    intro snap hsnap
    cases hsnap
    exact ⟨hseq, fun hpos => ⟨state, ord, rfl, hstate hpos state rfl⟩⟩
  · cases hs
    exact h

theorem Inv.step {a : Action} {s' : Node} (h : Inv q₀ s) (hempty : q₀.groups = ∅) (hg : s.Admits a)
    (hs : s.step a = .ok s') : Inv q₀ s' := by
  cases a with
  | flush batch => exact h.flush hg hs
  | enqueue msgID now => exact h.enqueue hempty hs
  | publishOK msgID => exact h.publishOK hs
  | rotate =>
    cases hs
    exact ⟨h.memory, h.seqs, h.ids, h.publishes, h.rate_ok, h.fits, h.confirmed, h.job, h.saved⟩
  | readSeq => exact h.readSeq hs
  | exportState => exact h.exportState hempty hg hs
  | writeFile ord now => exact h.writeFile hs

theorem Inv.recover (h : Inv q₀ s) (hempty : q₀.groups = ∅) (ord : RangeOrder) (now : Int)
    (clock : Event → Int) :
    ∃ q, s.recover q₀ ord now clock = .ok q ∧ ∀ key, q.idsAt key = idsOf key s.log := by
  -- replaying a part of the log onto a queue that has the rest
  have hreplay : ∀ {q : Queue} {l l' : List Event}, q₀.Adds l q → (l ++ l').Perm s.log →
      ∃ q', replayEvents q (l'.map fun e => (e, clock e)) = .ok q' ∧
        ∀ key, q'.idsAt key = idsOf key s.log := by
    intro q l l' hadds hperm
    have hmem : ∀ e ∈ l'.map (fun e => (e, clock e)), e.1 ∈ s.log := by
      intro e he
      obtain ⟨e', he', rfl⟩ := List.mem_map.mp he
      exact hperm.mem_iff.mp (List.mem_append_right _ he')
    have hresolve := Queue.resolveConfig_congr hadds.cfgIdx
    have hfst : (l'.map fun e => (e, clock e)).map Prod.fst = l' := by
      simp [Function.comp_def]
    have hsum : ∀ key, q.idsAt key + idsOf key l' = idsOf key s.log := by
      intro key
      rw [hadds.ids, Queue.idsAt_of_empty hempty, zero_add, ← idsOf_append, idsOf_perm hperm]
    obtain ⟨q', hq', hadds'⟩ := Queue.replay_adds hadds.all (fun e he => h.publishes _ (hmem e he))
      (fun e he => hresolve _ ▸ h.rate_ok _ (hmem e he))
      (fun e he => by
        rw [hfst, ← Multiset.card_add, hsum, hresolve]
        exact h.fits _ (hmem e he))
    refine ⟨q', hq', ?_⟩
    intro key
    rw [hadds'.ids, hfst, hsum]
  rw [Node.recover]
  cases hsaved : s.saved.filter fun snap => 0 < snap.segmentID with
  | none => exact hreplay (.refl (.ofEmpty hempty)) (.refl _)
  | some snap =>
    obtain ⟨hsome, hpos⟩ := Option.filter_eq_some_iff.mp hsaved
    obtain ⟨state, ord', hgroups, q, rfl, hadds⟩ := (h.saved snap hsome).2 (of_decide_eq_true hpos)
    obtain ⟨q', hq', hcfg, hall, hids⟩ :=
      Queue.onSnapshot_backlog hempty hadds.all hadds.cfgIdx hgroups ord now
    have hadds' : q₀.Adds (s.log.filter fun e => e.seq ≤ snap.walSeq) q' :=
      ⟨hcfg, hall, fun key => (hids key).trans (hadds.ids key)⟩
    have hsplit := List.filter_append_perm (fun e : Event => decide (e.seq ≤ snap.walSeq)) s.log
    simp only [← decide_not, Nat.not_le] at hsplit
    obtain ⟨q₁, hq₁, hfinal⟩ := hreplay hadds' hsplit
    exact ⟨q₁, bind_ok.mpr ⟨q', hq', hq₁⟩, hfinal⟩

end Invariant

end Node

/-- If every export of a run is aligned with the number its snapshot has read, a restart at any
point brings back each confirmed message exactly once. -/
theorem restart_recovers_confirmed [PathMatch] {q₀ : Queue} {s : Node} (hempty : q₀.groups = ∅)
    (hrun : Reachable Node.step Node.Admits (.start q₀) s) (ord : RangeOrder) (now : Int)
    (clock : Event → Int) :
    ∃ q, s.recover q₀ ord now clock = .ok q ∧
      ∀ m ∈ s.acked, ∀ key, (q.idsAt key).count m.id = if key = m.groupKey then 1 else 0 := by
  have h : s.Inv q₀ :=
    hrun.invariant (Node.inv_start hempty) fun s a s' h hg hs => h.step hempty hg hs
  obtain ⟨q, hq, hids⟩ := h.recover hempty ord now clock
  refine ⟨q, hq, ?_⟩
  intro m hm key
  obtain ⟨e, he, hgroup, hid⟩ := h.confirmed m (List.mem_append_right _ hm)
  rw [hids]
  split
  · rename_i hkey
    apply Multiset.count_eq_one_of_mem
    · exact Multiset.coe_nodup.mpr (h.ids.sublist (List.filter_sublist.map _))
    · exact mem_idsOf.mpr ⟨e, he, hgroup.trans hkey.symm, hid⟩
  · rename_i hkey
    apply Multiset.count_eq_zero_of_notMem
    intro hmem
    obtain ⟨e', he', hgroup', hid'⟩ := mem_idsOf.mp hmem
    have heq := List.inj_on_of_nodup_map h.ids he' he (hid'.trans hid.symm)
    exact hkey (by rw [← hgroup', heq, hgroup])

def flushA : Action := .flush [⟨str "g", str "a", []⟩]

def enqueueA : Action := .enqueue (str "a") 0

def publishOKA : Action := .publishOK (str "a")

def savedNode : Node :=
  { Node.start (newQueue [] []) with segmentID := 1, saved := some ⟨1, 0, 0, []⟩ }

theorem restart_recovers_confirmed_sample :
    ∃ s q, @Reachable _ _ _ (@Node.step literalMatch) (@Node.Admits literalMatch)
      (.start (newQueue [] [])) s ∧
      s.acked.map Message.id = [str "a"] ∧ s.saved.map Snapshot.segmentID = some 1 ∧
      @Node.recover literalMatch s (newQueue [] []) .inOrder 0 (fun _ => 0) = .ok q ∧
      ∀ m ∈ s.acked, ∀ key, (q.idsAt key).count m.id = if key = m.groupKey then 1 else 0 := by
  have hread : Reachable (@Node.step literalMatch) (@Node.Admits literalMatch)
      (.start (newQueue [] [])) _ :=
    Reachable.start.run (l := [.rotate, .readSeq]) (by simp [Node.Admits]) rfl
  have hsaved : Reachable (@Node.step literalMatch) (@Node.Admits literalMatch)
      (.start (newQueue [] [])) savedNode :=
    .step (a := .writeFile .inOrder 0)
      (.step (a := .exportState) hread (fun _ _ _ _ _ he => nomatch he) rfl) trivial rfl
  have hflush : @Node.Admits literalMatch savedNode flushA := by
    refine ⟨by decide, ?_⟩
    intro r hr
    obtain rfl := List.mem_singleton.mp hr
    exact ⟨by decide, .inr (by decide)⟩
  have hrun := (hsaved.step hflush rfl).run (l := [enqueueA, publishOKA])
    (by simp [enqueueA, publishOKA, Node.Admits]) rfl
  obtain ⟨q, hq, hcount⟩ :=
    @restart_recovers_confirmed literalMatch _ _ rfl hrun .inOrder 0 fun _ => 0
  exact ⟨_, q, hrun, rfl, rfl, hq, hcount⟩

/-- A snapshot that exports before the message is in memory loses it; one that exports after it
has come to memory, but has read its number before, doubles it. -/
theorem restart_loses_or_doubles :
    (∃ s q, @run _ _ _ (@Node.step literalMatch) (.start (newQueue [] []))
        [.rotate, flushA, .readSeq, .exportState, enqueueA, publishOKA,
          .writeFile .inOrder 0] = .ok s ∧
      @Node.recover literalMatch s (newQueue [] []) .inOrder 0 (fun _ => 0) = .ok q ∧
      s.acked.map Message.id = [str "a"] ∧ q.idsAt (str "g") = {}) ∧
    ∃ s q, @run _ _ _ (@Node.step literalMatch) (.start (newQueue [] []))
        [.rotate, .readSeq, flushA, enqueueA, publishOKA, .exportState,
          .writeFile .inOrder 0] = .ok s ∧
      @Node.recover literalMatch s (newQueue [] []) .inOrder 0 (fun _ => 0) = .ok q ∧
      s.acked.map Message.id = [str "a"] ∧ q.idsAt (str "g") = {str "a", str "a"} :=
  ⟨⟨_, _, rfl, rfl, rfl, rfl⟩, ⟨_, _, rfl, rfl, rfl, rfl⟩⟩

end Octar
