import Octar.Storage.Directory

namespace Octar

open Go

structure QueueRecoveryInfo where
  snapshotPath : Option Bytes
  snapshotSeq : Nat
  snapshotSegID : Nat
  deriving DecidableEq, Repr

theorem flatMap_ite {α β : Type} (p : α → Prop) [DecidablePred p] (f : α → List β) (l : List α) :
    (l.flatMap fun a => if p a then f a else []) = (l.filter fun a => p a).flatMap f := by
  induction l with
  | nil => rfl
  | cons a l ih =>
    rw [List.flatMap_cons, ih, List.filter_cons]
    by_cases h : p a
    · simp [h]
    · simp [h]

namespace Dir

variable {S : Type}

section Recovery

variable (read : S → Option Snapshot) (d : Dir S)

def loadSnapshot (path : Bytes) : Option Snapshot :=
  match d.lookup path with
  | some (.snap content) => read content
  | _ => none

def tryLoadSnapshot (path : Bytes) : Option Snapshot :=
  match d.loadSnapshot read path with
  | some snap => some snap
  | none =>
    match sscanf Ext.snap.suffix path with
    | some (id + 1) => d.loadSnapshot read (fileName id .snap)
    | _ => none

def discover : QueueRecoveryInfo :=
  match d.findLatestSnapshot.1 with
  | none => ⟨none, 0, 0⟩
  | some path =>
    match d.loadSnapshot read path with
    | none => ⟨none, 0, 0⟩
    | some snap => ⟨some path, snap.walSeq, snap.segmentID⟩

def replayFile (name : Bytes) (startSeq : Nat) : List Event :=
  match d.lookup name with
  | some (.log records) => records.filter fun e => ¬ e.seq < startSeq
  | _ => []

def replayEntry (info : QueueRecoveryInfo) (name : Bytes) : List Event :=
  match sscanf Ext.log.suffix name with
  | none => []
  | some segID =>
    if info.snapshotPath.isSome ∧ segID < info.snapshotSegID then []
    else d.replayFile name (info.snapshotSeq + 1)

def replayFromSnapshot (info : QueueRecoveryInfo) : Option Snapshot × List Event :=
  (info.snapshotPath.bind (d.tryLoadSnapshot read), d.readDir.flatMap (d.replayEntry info))

def recovered : Option Snapshot × List Event := d.replayFromSnapshot read (d.discover read)

def logRecords : List Event := d.readDir.flatMap (d.replayEntry ⟨none, 0, 0⟩)

end Recovery

def Numbered (d : Dir S) (top : Nat) : Prop :=
  ∀ name f, d.lookup name = some f → ∃ id ≤ top, name = fileName id f.ext

def segmentIDs (d : Dir S) : List Nat := d.readDir.filterMap (sscanf Ext.log.suffix)

variable {d : Dir S} {top : Nat}

theorem Numbered.mono (h : d.Numbered top) {top' : Nat} (hle : top ≤ top') : d.Numbered top' := by
  intro name f hf
  obtain ⟨id, hid, hname⟩ := h name f hf
  exact ⟨id, Nat.le_trans hid hle, hname⟩

theorem Numbered.insert (h : d.Numbered top) {id : Nat} {f : File S} (hid : id ≤ top) :
    Dir.Numbered (d.insert (fileName id f.ext) f) top := by
  intro name f' hf'
  by_cases hname : name = fileName id f.ext
  · subst hname
    rw [AList.lookup_insert] at hf'
    cases hf'
    exact ⟨id, hid, rfl⟩
  · rw [AList.lookup_insert_ne hname] at hf'
    exact h name f' hf'

theorem Numbered.create (h : d.Numbered top) {id : Nat} {f : File S} (hid : id ≤ top) :
    (d.create (fileName id f.ext) f).Numbered top := by
  unfold Dir.create
  split
  · exact h
  · exact h.insert hid

theorem Numbered.openSegment (h : d.Numbered top) {id : Nat} (hid : id ≤ top) :
    (d.openSegment id).Numbered top :=
  (h.create (f := .log []) hid).create (f := .idx) hid

theorem Numbered.appendRecords (h : d.Numbered top) {id : Nat} (hid : id ≤ top)
    (records : List Event) :
    (d.appendRecords id records).Numbered top := by
  unfold Dir.appendRecords
  split
  · exact h.insert (f := .log _) hid
  · exact h

theorem Numbered.removeOldSegments (h : d.Numbered top) (segID : Nat) :
    (d.removeOldSegments segID).Numbered top := by
  intro name f hf
  rw [lookup_removeOldSegments] at hf
  split at hf
  · cases hf
  · exact h name f hf

theorem Numbered.of_sscanf (h : d.Numbered top) {ext : Ext} {name : Bytes} {id : Nat}
    (hname : name ∈ d.readDir)
    (hid : sscanf ext.suffix name = some id) : name = fileName id ext ∧ id ≤ top := by
  obtain ⟨f, hf⟩ := Option.isSome_iff_exists.mp (mem_readDir.mp hname)
  obtain ⟨id', hle, rfl⟩ := h name f hf
  obtain ⟨rfl, hext⟩ := sscanf_fileName_some hid
  exact ⟨by rw [hext], hle⟩

theorem Numbered.mem_segmentIDs (h : d.Numbered top) {id : Nat} :
    id ∈ d.segmentIDs ↔ (d.lookup (fileName id .log)).isSome := by
  rw [segmentIDs, List.mem_filterMap, ← mem_readDir]
  constructor
  · rintro ⟨name, hname, hid⟩
    exact (h.of_sscanf hname hid).1 ▸ hname
  · intro hname
    exact ⟨_, hname, sscanf_fileName_self id .log⟩

theorem pairwise_readDir (d : Dir S) : d.readDir.Pairwise (· < ·) :=
  pairwise_insertionSort d.nodupKeys

theorem Numbered.pairwise_segmentIDs (h : d.Numbered top) (htop : top < 10 ^ 9) :
    d.segmentIDs.Pairwise (· < ·) := by
  rw [segmentIDs, List.pairwise_filterMap]
  refine d.pairwise_readDir.imp_of_mem ?_
  intro a b ha hb hlt i hi j hj
  obtain ⟨rfl, hile⟩ := h.of_sscanf ha hi
  obtain ⟨rfl, -⟩ := h.of_sscanf hb hj
  by_contra hij
  rcases Nat.lt_or_eq_of_le (Nat.not_lt.mp hij) with hji | rfl
  · exact List.lt_asymm hlt (pad9_append_lt (Nat.lt_of_le_of_lt hile htop) hji _ _)
  · exact List.lt_irrefl _ hlt

theorem Numbered.replay (h : d.Numbered top) (info : QueueRecoveryInfo) :
    d.readDir.flatMap (d.replayEntry info) =
      d.segmentIDs.flatMap fun id =>
        if info.snapshotPath.isSome ∧ id < info.snapshotSegID then []
        else d.replayFile (fileName id .log) (info.snapshotSeq + 1) := by
  rw [segmentIDs, List.filterMap_eq_flatMap_toList, List.flatMap_assoc]
  apply List.flatMap_congr
  intro name hname
  unfold replayEntry
  cases hid : sscanf Ext.log.suffix name with
  | none => rfl
  | some id =>
    obtain ⟨rfl, -⟩ := h.of_sscanf hname hid
    simp

section Latest

variable {names : List Bytes} {best : Option Bytes × Nat}

end Latest

end Dir

end Octar
