import Octar.Lib.Decimal
import Octar.Storage.Event
import Mathlib.Data.List.Sort

namespace Octar

open Go

inductive Ext
  | log | idx | snap
  deriving DecidableEq, Repr

def Ext.suffix : Ext → Bytes
  | .log => str ".log"
  | .idx => str ".idx"
  | .snap => str ".snap"

def fileName (id : Nat) (ext : Ext) : Bytes := pad9 id ++ ext.suffix

theorem sscanf_fileName (literal : Bytes) (id : Nat) (ext : Ext) :
    sscanf literal (fileName id ext) = if literal.isPrefixOf ext.suffix then some id else none := by
  have hscan : scanUint (fileName id ext) = some (id, ext.suffix) := by
    cases ext <;> exact scanUint_pad9 id (by decide) _
  rw [sscanf, hscan]
  rfl

theorem sscanf_fileName_self (id : Nat) (ext : Ext) :
    sscanf ext.suffix (fileName id ext) = some id := by
  rw [sscanf_fileName, if_pos (by cases ext <;> decide)]

theorem sscanf_fileName_some {id id' : Nat} {ext ext' : Ext}
    (h : sscanf ext.suffix (fileName id' ext') = some id) :
    id' = id ∧ ext' = ext := by
  rw [sscanf_fileName, Option.ite_none_right_eq_some] at h
  refine ⟨Option.some.inj h.2, ?_⟩
  have hsuffix := h.1
  revert hsuffix
  cases ext <;> cases ext' <;> decide

theorem fileName_inj {id id' : Nat} {ext ext' : Ext} :
    fileName id ext = fileName id' ext' ↔ id = id' ∧ ext = ext' := by
  constructor
  · intro h
    have hscan := sscanf_fileName_self id' ext'
    rw [← h] at hscan
    exact sscanf_fileName_some hscan
  · rintro ⟨rfl, rfl⟩
    rfl

/-- A log file is the list of its records.  Nothing reads an index file, so it has no content here;
`S` is what a snapshot file contains. -/
inductive File (S : Type)
  | log (records : List Event)
  | idx
  | snap (content : S)

def File.ext {S : Type} : File S → Ext
  | .log _ => .log
  | .idx => .idx
  | .snap _ => .snap

abbrev Dir (S : Type) := Map Bytes (File S)

namespace Dir

variable {S : Type}

def readDir (d : Dir S) : List Bytes := d.keys.insertionSort (· ≤ ·)

def findLastSegmentID (d : Dir S) : Nat :=
  d.readDir.foldl (fun maxID name =>
    match sscanf Ext.log.suffix name with
    | some id => if maxID < id then id else maxID
    | none => maxID) 0

def newer (best : Option Bytes × Nat) (name : Bytes) : Option Bytes × Nat :=
  match sscanf Ext.snap.suffix name with
  | some seq => if best.2 < seq then (some name, seq) else best
  | none => best

def findLatestSnapshot (d : Dir S) : Option Bytes × Nat := d.readDir.foldl newer (none, 0)

def keepFrom (snapSegID : Nat) : Nat := if 1 < snapSegID then snapSegID - 1 else 0

def removeOldSegments (d : Dir S) (snapSegID : Nat) : Dir S :=
  d.readDir.foldl (fun d name =>
    match sscanf (str ".") name with
    | some id => if keepFrom snapSegID ≤ id then d else d.erase name
    | none => d) d

def create (d : Dir S) (name : Bytes) (empty : File S) : Dir S :=
  if (d.lookup name).isSome then d else d.insert name empty

def openSegment (d : Dir S) (id : Nat) : Dir S :=
  (d.create (fileName id .log) (.log [])).create (fileName id .idx) .idx

def appendRecords (d : Dir S) (id : Nat) (records : List Event) : Dir S :=
  match d.lookup (fileName id .log) with
  | some (.log old) => d.insert (fileName id .log) (.log (old ++ records))
  | _ => d

theorem mem_readDir {d : Dir S} {name : Bytes} : name ∈ d.readDir ↔ (d.lookup name).isSome := by
  rw [readDir, List.mem_insertionSort, ← AList.mem_keys, AList.lookup_isSome]

theorem lookup_create (d : Dir S) (name : Bytes) (empty : File S) (name' : Bytes) :
    (d.create name empty).lookup name' =
      if name' = name then some ((d.lookup name).getD empty) else d.lookup name' := by
  unfold create
  cases hl : d.lookup name with
  | some f =>
    rw [Option.isSome_some, if_pos rfl]
    split
    · rename_i h
      rw [h, hl]
      rfl
    · rfl
  | none =>
    rw [Option.isSome_none, if_neg (by decide)]
    split
    · rename_i h
      rw [h, AList.lookup_insert]
      rfl
    · rename_i h
      rw [AList.lookup_insert_ne h]

theorem lookup_foldl_erase (p : Bytes → Bool) (names : List Bytes) (d : Dir S) (name : Bytes) :
    (names.foldl (fun d name => if p name then d.erase name else d) d).lookup name =
      if name ∈ names ∧ p name then none else d.lookup name := by
  induction names generalizing d with
  | nil => simp
  | cons n names ih =>
    rw [List.foldl_cons, ih]
    by_cases hn : name = n
    · subst hn
      by_cases hp : p name = true
      · simp [hp]
      · simp [hp]
    · have hskip : (if p n then d.erase n else d).lookup name = d.lookup name := by
        split
        · exact AList.lookup_erase_ne hn
        · rfl
      rw [hskip]
      simp [hn]

theorem lookup_removeOldSegments (d : Dir S) (snapSegID : Nat) (name : Bytes) :
    (d.removeOldSegments snapSegID).lookup name =
      if (sscanf (str ".") name).any (fun id => id < keepFrom snapSegID) then none
      else d.lookup name := by
  have hfold : d.removeOldSegments snapSegID = d.readDir.foldl (fun d name =>
      if (sscanf (str ".") name).any (fun id => id < keepFrom snapSegID) then d.erase name
        else d) d := by
    unfold removeOldSegments
    congr 1
    funext d name
    cases sscanf (str ".") name with
    | none => rfl
    | some id =>
      by_cases h : keepFrom snapSegID ≤ id
      · simp [h, Nat.not_lt.mpr h]
      · simp [h, Nat.not_le.mp h]
  rw [hfold, lookup_foldl_erase]
  simp only [mem_readDir]
  cases hl : d.lookup name with
  | none => simp
  | some f => simp

theorem lookup_removeOldSegments_fileName (d : Dir S) (snapSegID id : Nat) (ext : Ext) :
    (d.removeOldSegments snapSegID).lookup (fileName id ext) =
      if id < keepFrom snapSegID then none else d.lookup (fileName id ext) := by
  have hdot : (str ".").isPrefixOf ext.suffix = true := by cases ext <;> decide
  rw [lookup_removeOldSegments, sscanf_fileName, hdot]
  simp

theorem lookup_appendRecords_ne (d : Dir S) (records : List Event) {id : Nat} {name : Bytes}
    (h : name ≠ fileName id .log) : (d.appendRecords id records).lookup name = d.lookup name := by
  unfold appendRecords
  split
  · exact AList.lookup_insert_ne h
  · rfl

theorem lookup_appendRecords_snap (d : Dir S) (id : Nat) (records : List Event) (id' : Nat) :
    (d.appendRecords id records).lookup (fileName id' .snap) = d.lookup (fileName id' .snap) :=
  lookup_appendRecords_ne d records (by simp [fileName_inj])

theorem lookup_openSegment_snap (d : Dir S) (id id' : Nat) :
    (d.openSegment id).lookup (fileName id' .snap) = d.lookup (fileName id' .snap) := by
  rw [openSegment, lookup_create, if_neg (by simp [fileName_inj]), lookup_create,
    if_neg (by simp [fileName_inj])]

theorem isSome_insert_snap {d : Dir S} {id segID : Nat} {f : File S}
    (h : (AList.lookup (fileName id .snap) (d.insert (fileName segID .snap) f)).isSome) :
    id = segID ∨ (d.lookup (fileName id .snap)).isSome := by
  by_cases hid : id = segID
  · exact .inl hid
  · have hne : fileName id .snap ≠ fileName segID .snap := fun h => hid (fileName_inj.mp h).1
    rw [AList.lookup_insert_ne hne] at h
    exact .inr h

theorem lookup_openSegment_ne (d : Dir S) {id : Nat} {name : Bytes}
    (h : ∀ ext, name ≠ fileName id ext) :
    (d.openSegment id).lookup name = d.lookup name := by
  rw [openSegment, lookup_create, if_neg (h .idx), lookup_create, if_neg (h .log)]

theorem lookup_openSegment_log (d : Dir S) (id : Nat) :
    (d.openSegment id).lookup (fileName id .log) =
      some ((d.lookup (fileName id .log)).getD (.log [])) := by
  rw [openSegment, lookup_create, if_neg (by simp [fileName_inj]), lookup_create, if_pos rfl]

end Dir

end Octar
