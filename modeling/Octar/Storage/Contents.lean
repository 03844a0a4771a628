import Octar.Storage.Rotation

namespace Octar

open Go

namespace Dir

variable {S : Type} {P : Event → Prop} {Q : S → Prop} {d : Dir S}

structure Only (P : Event → Prop) (Q : S → Prop) (d : Dir S) : Prop where
  log : ∀ name records, d.lookup name = some (.log records) → ∀ e ∈ records, P e
  snap : ∀ name content, d.lookup name = some (.snap content) → Q content

theorem Only.ofEmpty : Only P Q (∅ : Dir S) :=
  ⟨fun _ _ h => (nomatch h), fun _ _ h => (nomatch h)⟩

theorem Only.ofFiles {d' : Dir S} (h : d.Only P Q)
    (hfiles : ∀ name f, d'.lookup name = some f → d.lookup name = some f ∨
      (∀ records, f = .log records → ∀ e ∈ records, P e) ∧ ∀ content,
      f = .snap content → Q content) :
    d'.Only P Q := by
  constructor
  · intro name records hl
    rcases hfiles name _ hl with hold | ⟨hlog, -⟩
    · exact h.log name records hold
    · exact hlog records rfl
  · intro name content hl
    rcases hfiles name _ hl with hold | ⟨-, hsnap⟩
    · exact h.snap name content hold
    · exact hsnap content rfl

theorem Only.insert (h : d.Only P Q) (name : Bytes) {f : File S}
    (hlog : ∀ records, f = .log records → ∀ e ∈ records, P e)
    (hsnap : ∀ content, f = .snap content → Q content) :
    Only P Q (AList.insert name f d) := by
  refine h.ofFiles ?_
  intro name' f' hl
  by_cases hn : name' = name
  · subst hn
    rw [AList.lookup_insert] at hl
    cases hl
    exact .inr ⟨hlog, hsnap⟩
  · rw [AList.lookup_insert_ne hn] at hl
    exact .inl hl

theorem Only.create (h : d.Only P Q) (name : Bytes) {empty : File S}
    (hlog : ∀ records, empty = .log records → ∀ e ∈ records, P e)
    (hsnap : ∀ content, empty = .snap content → Q content) : (d.create name empty).Only P Q := by
  unfold Dir.create
  split
  · exact h
  · exact h.insert name hlog hsnap

theorem Only.createLog (h : d.Only P Q) (name : Bytes) : (d.create name (.log [])).Only P Q := by
  refine h.create _ ?_ ?_
  · intro records heq e he
    cases heq
    cases he
  · intro content heq
    cases heq

theorem Only.openSegment (h : d.Only P Q) (id : Nat) : (d.openSegment id).Only P Q := by
  refine (h.createLog _).create _ ?_ ?_
  all_goals
    intro content heq
    cases heq

theorem Only.appendRecords (h : d.Only P Q) (id : Nat) {records : List Event}
    (hrecords : ∀ e ∈ records, P e) :
    (d.appendRecords id records).Only P Q := by
  unfold Dir.appendRecords
  split
  · rename_i old hold
    refine h.insert _ ?_ ?_
    · intro all heq e he
      cases heq
      rcases List.mem_append.mp he with he | he
      · exact h.log _ old hold e he
      · exact hrecords e he
    · intro content heq
      cases heq
  · exact h

theorem Only.removeOldSegments (h : d.Only P Q) (snapSegID : Nat) :
    (d.removeOldSegments snapSegID).Only P Q := by
  refine h.ofFiles ?_
  intro name f hl
  rw [lookup_removeOldSegments] at hl
  split at hl
  · cases hl
  · exact .inl hl

theorem Only.loadSnapshot (h : d.Only P Q) {read : S → Option Snapshot} {path : Bytes}
    {snap : Snapshot} (hload : d.loadSnapshot read path = some snap) :
    ∃ content, Q content ∧ read content = some snap := by
  unfold Dir.loadSnapshot at hload
  split at hload
  · rename_i content hl
    exact ⟨content, h.snap path content hl, hload⟩
  · cases hload

theorem Only.recovered (h : d.Only P Q) (read : S → Option Snapshot) :
    (∀ snap ∈ (d.recovered read).1, ∃ content, Q content ∧ read content = some snap) ∧
      ∀ e ∈ (d.recovered read).2, P e := by
  constructor
  · intro snap hsnap
    obtain ⟨path, -, htry⟩ := Option.bind_eq_some_iff.mp hsnap
    unfold tryLoadSnapshot at htry
    split at htry
    · rename_i hload
      cases htry
      exact h.loadSnapshot hload
    · split at htry
      · exact h.loadSnapshot htry
      · cases htry
  · intro e he
    obtain ⟨name, -, hentry⟩ := List.mem_flatMap.mp he
    unfold replayEntry at hentry
    split at hentry
    · cases hentry
    · split at hentry
      · cases hentry
      · unfold replayFile at hentry
        split at hentry
        · rename_i records hl
          exact h.log name records hl e (List.mem_of_mem_filter hentry)
        · cases hentry

end Dir

namespace OpenWriter

variable {S : Type} {P : Event → Prop} {Q : S → Prop} {w : OpenWriter S}

theorem only_rotateSegment (h : w.dir.Only P Q) (result : OpenResult) :
    (w.rotateSegment result).dir.Only P Q := by
  cases result with
  | opened => exact Dir.Only.openSegment h _
  | logFails => exact h
  | idxFails => exact Dir.Only.createLog h _

theorem only_flushBatch (h : w.dir.Only P Q) {batch : List Event}
    (hbatch : ∀ e ∈ stamp w.seq batch, P e) :
    (w.flushBatch batch).dir.Only P Q := Dir.Only.appendRecords h _ hbatch

theorem only_writeSnapshot (h : w.dir.Only P Q) {encode : Snapshot → S}
    {groups : List GroupSnapshot} (hQ : ∀ segID seq now, Q (encode ⟨segID, seq, now, groups⟩))
    (now : Int) :
    (w.writeSnapshot encode groups now).dir.Only P Q := by
  unfold writeSnapshot
  split
  · refine Dir.Only.insert h _ ?_ ?_
    · intro records heq
      cases heq
    · intro content heq
      cases heq
      exact hQ _ _ _
  · exact h

theorem only_removeOldSegments (h : w.dir.Only P Q) : w.removeOldSegments.dir.Only P Q := by
  unfold removeOldSegments
  split
  · exact Dir.Only.removeOldSegments h _
  · exact h

end OpenWriter

end Octar
