import Octar.Lib.Reader

namespace Go.Fields

inductive Kind
  | bytes (w : Nat)
  | number (w : Nat)
  deriving DecidableEq, Repr

inductive Field
  | bytes (w : Nat) (s : Bytes)
  | number (w n : Nat)
  deriving DecidableEq, Repr

namespace Field

def kind : Field → Kind
  | .bytes w _ => .bytes w
  | .number w _ => .number w

def encode : Field → Bytes
  | .bytes w s => lengthPrefixed w s
  | .number w n => bigEndian w n

def Fits : Field → Prop
  | .bytes w s => s.length < 256 ^ w
  | .number w n => n < 256 ^ w

def size : Field → Nat
  | .bytes _ s => s.length
  | .number _ _ => 0

end Field

def encode (fs : List Field) : Bytes := fs.flatMap Field.encode

theorem encode_cons (f : Field) (fs : List Field) : encode (f :: fs) = f.encode ++ encode fs :=
  List.flatMap_cons

theorem length_encode_le {f : Field} {fs : List Field} (h : f ∈ fs) :
    f.encode.length ≤ (encode fs).length := by
  induction fs with
  | nil => cases h
  | cons g fs ih =>
    rw [encode_cons, List.length_append]
    rcases List.mem_cons.mp h with rfl | h
    · exact Nat.le_add_right _ _
    · exact Nat.le_trans (ih h) (Nat.le_add_left _ _)

def readBytes (w : Nat) : StateM Bytes (Bytes × Option ReadError) := fun bs =>
  if bs.length < w then (([], some .unexpectedEOF), bs)
  else
    let n := fromBigEndian (bs.take w)
    let rest := bs.drop w
    if rest.length < n then (([], some .unexpectedEOF), rest)
    else ((rest.take n, none), rest.drop n)

def readNumber (w : Nat) : StateM Bytes Nat := fun bs =>
  if bs.length < w then (0, bs) else (fromBigEndian (bs.take w), bs.drop w)

def readField : Kind → StateM Bytes Field
  | .bytes w => do
    let r ← readBytes w
    return .bytes w r.1
  | .number w => do
    let n ← readNumber w
    return .number w n

def readFields : List Kind → StateM Bytes (List Field)
  | [] => return []
  | k :: ks => do
    let f ← readField k
    let fs ← readFields ks
    return f :: fs

theorem bind_apply {σ α β : Type} (x : StateM σ α) (f : α → StateM σ β) (s : σ) :
    (x >>= f) s = f (x s).1 (x s).2 := rfl

theorem pure_apply {σ α : Type} (a : α) (s : σ) : (pure a : StateM σ α) s = (a, s) := rfl

theorem readFields_nil (bs : Bytes) : (readFields [] bs).1 = [] := rfl

theorem readFields_cons (k : Kind) (ks : List Kind) (bs : Bytes) :
    (readFields (k :: ks) bs).1 = (readField k bs).1 :: (readFields ks (readField k bs).2).1 := rfl

theorem readField_bytes (w : Nat) (bs : Bytes) :
    readField (.bytes w) bs = (.bytes w (readBytes w bs).1.1, (readBytes w bs).2) := rfl

theorem readField_number (w : Nat) (bs : Bytes) :
    readField (.number w) bs = (.number w (readNumber w bs).1, (readNumber w bs).2) := rfl

def fill : List Kind → Bytes → Bool
  | [], bs => bs.isEmpty
  | .bytes w :: ks, bs =>
    w ≤ bs.length && w + fromBigEndian (bs.take w) ≤ bs.length &&
      fill ks (bs.drop (w + fromBigEndian (bs.take w)))
  | .number w :: ks, bs => w ≤ bs.length && fill ks (bs.drop w)

theorem fromBigEndian_take_lt {w : Nat} {bs : Bytes} (h : w ≤ bs.length) :
    fromBigEndian (bs.take w) < 256 ^ w := by
  have hlt := fromBigEndian_lt (bs.take w)
  rwa [List.length_take_of_le h] at hlt

theorem bigEndian_take {w : Nat} {bs : Bytes} (h : w ≤ bs.length) :
    bigEndian w (fromBigEndian (bs.take w)) = bs.take w := by
  have hbe := bigEndian_fromBigEndian (bs.take w)
  rwa [List.length_take_of_le h] at hbe

theorem readField_encode {f : Field} (hf : f.Fits) (rest : Bytes) :
    readField f.kind (f.encode ++ rest) = (f, rest) := by
  cases f with
  | bytes w s =>
    have hlen : ¬ (lengthPrefixed w s ++ rest).length < w := by simp [lengthPrefixed]
    have htake : (lengthPrefixed w s ++ rest).take w = bigEndian w s.length := by
      simp [lengthPrefixed]
    have hdrop : (lengthPrefixed w s ++ rest).drop w = s ++ rest := by simp [lengthPrefixed]
    have hread : readBytes w (lengthPrefixed w s ++ rest) = ((s, none), rest) := by
      simp only [readBytes, if_neg hlen, htake, hdrop, fromBigEndian_bigEndian hf]
      simp
    change (fun x => (Field.bytes w x.1.1, x.2)) (readBytes w (lengthPrefixed w s ++ rest)) = _
    rw [hread]
  | number w n =>
    have hread : readNumber w (bigEndian w n ++ rest) = (n, rest) := by
      simp [readNumber, fromBigEndian_bigEndian hf]
    change (fun x => (Field.number w x.1, x.2)) (readNumber w (bigEndian w n ++ rest)) = _
    rw [hread]

theorem readFields_encode {fs : List Field} (hfs : ∀ f ∈ fs, f.Fits) (rest : Bytes) :
    readFields (fs.map Field.kind) (encode fs ++ rest) = (fs, rest) := by
  induction fs with
  | nil => rfl
  | cons f fs ih =>
    rw [List.forall_mem_cons] at hfs
    rw [encode_cons, List.append_assoc]
    change (fun x => (fun y => (x.1 :: y.1, y.2)) (readFields (fs.map Field.kind) x.2))
      (readField f.kind (f.encode ++ (encode fs ++ rest))) = _
    rw [readField_encode hfs.1]
    dsimp only
    rw [ih hfs.2]

theorem readBytes_fits (w : Nat) (bs : Bytes) :
    (readBytes w bs).1.1.length < 256 ^ w ∧
      (readBytes w bs).1.1.length + (readBytes w bs).2.length ≤ bs.length := by
  have hpos : 0 < 256 ^ w := Nat.pow_pos (by decide)
  unfold readBytes
  split
  · simp [hpos]
  · rename_i hw
    have hlt := fromBigEndian_take_lt (Nat.not_lt.mp hw)
    dsimp only
    split
    · simp [hpos]
    · rename_i hn
      simp only [List.length_take, List.length_drop] at hn ⊢
      omega

theorem readNumber_fits (w : Nat) (bs : Bytes) :
    (readNumber w bs).1 < 256 ^ w ∧ (readNumber w bs).2.length ≤ bs.length := by
  unfold readNumber
  split
  · exact ⟨Nat.pow_pos (by decide), Nat.le_refl _⟩
  · rename_i hw
    exact ⟨fromBigEndian_take_lt (Nat.not_lt.mp hw), by simp⟩

theorem readField_fits (k : Kind) (bs : Bytes) :
    (readField k bs).1.kind = k ∧ (readField k bs).1.Fits ∧
      (readField k bs).1.size + (readField k bs).2.length ≤ bs.length := by
  cases k with
  | bytes w => exact ⟨rfl, readBytes_fits w bs⟩
  | number w =>
    refine ⟨rfl, (readNumber_fits w bs).1, ?_⟩
    change 0 + (readNumber w bs).2.length ≤ _
    rw [Nat.zero_add]
    exact (readNumber_fits w bs).2

theorem readFields_fits (ks : List Kind) (bs : Bytes) :
    (readFields ks bs).1.map Field.kind = ks ∧ (∀ f ∈ (readFields ks bs).1, f.Fits) ∧
      ((readFields ks bs).1.map Field.size).sum ≤ bs.length := by
  induction ks generalizing bs with
  | nil => exact ⟨rfl, List.forall_mem_nil _, Nat.zero_le _⟩
  | cons k ks ih =>
    obtain ⟨hkind, hfits, hsize⟩ := readField_fits k bs
    obtain ⟨hkinds, hall, hsum⟩ := ih (readField k bs).2
    rw [readFields_cons, List.map_cons, List.map_cons, List.sum_cons, List.forall_mem_cons, hkind,
      hkinds]
    exact ⟨rfl, ⟨hfits, hall⟩, by omega⟩

theorem fill_encode {fs : List Field} (hfs : ∀ f ∈ fs, f.Fits) :
    fill (fs.map Field.kind) (encode fs) = true := by
  induction fs with
  | nil => rfl
  | cons f fs ih =>
    rw [List.forall_mem_cons] at hfs
    rw [encode_cons]
    cases f with
    | bytes w s =>
      have htake : ((Field.bytes w s).encode ++ encode fs).take w = bigEndian w s.length := by
        simp [Field.encode, lengthPrefixed]
      have hdrop : ((Field.bytes w s).encode ++ encode fs).drop (w + s.length) = encode fs := by
        rw [← List.drop_drop]
        simp [Field.encode, lengthPrefixed]
      simp only [List.map_cons, Field.kind, fill, htake, fromBigEndian_bigEndian hfs.1, hdrop,
        ih hfs.2]
      simp [Field.encode, lengthPrefixed]
    | number w n =>
      have hdrop : ((Field.number w n).encode ++ encode fs).drop w = encode fs := by
        simp [Field.encode]
      simp only [List.map_cons, Field.kind, fill, hdrop, ih hfs.2]
      simp [Field.encode]

theorem encode_readFields {ks : List Kind} {bs : Bytes} (h : fill ks bs = true) :
    encode (readFields ks bs).1 = bs := by
  induction ks generalizing bs with
  | nil => exact (List.isEmpty_iff.mp h).symm
  | cons k ks ih =>
    rw [readFields_cons, encode_cons]
    cases k with
    | bytes w =>
      simp only [fill, Bool.and_eq_true, decide_eq_true_eq] at h
      obtain ⟨⟨hw, hn⟩, hfill⟩ := h
      have hbytes : readBytes w bs = (((bs.drop w).take (fromBigEndian (bs.take w)), none),
          bs.drop (w + fromBigEndian (bs.take w))) := by
        have hrest : ¬ (bs.drop w).length < fromBigEndian (bs.take w) := by
          rw [List.length_drop]
          omega
        simp only [readBytes, if_neg (Nat.not_lt.mpr hw), if_neg hrest, List.drop_drop]
      have hfield : readField (.bytes w) bs =
          (.bytes w ((bs.drop w).take (fromBigEndian (bs.take w))),
            bs.drop (w + fromBigEndian (bs.take w))) := by
        change (fun x => (Field.bytes w x.1.1, x.2)) (readBytes w bs) = _
        rw [hbytes]
      rw [hfield, ih hfill]
      have hlen : ((bs.drop w).take (fromBigEndian (bs.take w))).length =
          fromBigEndian (bs.take w) := by
        rw [List.length_take_of_le]
        rw [List.length_drop]
        omega
      rw [Field.encode, lengthPrefixed, hlen, bigEndian_take hw, ← List.drop_drop,
        List.append_assoc, List.take_append_drop, List.take_append_drop]
    | number w =>
      simp only [fill, Bool.and_eq_true, decide_eq_true_eq] at h
      have hfield : readField (.number w) bs =
          (.number w (fromBigEndian (bs.take w)), bs.drop w) := by
        change (fun x => (Field.number w x.1, x.2)) (readNumber w bs) = _
        rw [readNumber, if_neg (Nat.not_lt.mpr h.1)]
      rw [hfield, ih h.2, Field.encode, bigEndian_take h.1, List.take_append_drop]

theorem encode_readFields_iff {ks : List Kind} {bs : Bytes} :
    encode (readFields ks bs).1 = bs ↔ fill ks bs = true := by
  constructor
  · intro h
    obtain ⟨hkinds, hfits, -⟩ := readFields_fits ks bs
    have hfill := fill_encode hfits
    rwa [hkinds, h] at hfill
  · exact encode_readFields

end Go.Fields
