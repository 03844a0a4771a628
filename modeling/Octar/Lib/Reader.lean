import Octar.Lib.Positional

namespace Go

def bigEndian (w n : Nat) : Bytes := positional 256 UInt8.ofNat w n

def fromBigEndian (bs : Bytes) : Nat := number 256 UInt8.toNat bs

def lengthPrefixed (w : Nat) (s : Bytes) : Bytes := bigEndian w s.length ++ s

def toUnsigned (w : Nat) (i : Int) : Nat := (i % (256 ^ w : Nat)).toNat

def toSigned (w n : Nat) : Int := Int.bmod n (256 ^ w)

@[simp] theorem length_bigEndian (w n : Nat) : (bigEndian w n).length = w :=
  length_positional 256 _ w n

theorem fromBigEndian_bigEndian {w n : Nat} (h : n < 256 ^ w) :
    fromBigEndian (bigEndian w n) = n := by
  refine (number_positional (by decide) ?_ w n).trans (Nat.mod_eq_of_lt h)
  intro d hd
  exact UInt8.toNat_ofNat_of_lt hd

theorem bigEndian_fromBigEndian (bs : Bytes) : bigEndian bs.length (fromBigEndian bs) = bs :=
  positional_number (fun b => ⟨b.toNat_lt, UInt8.ofNat_toNat⟩) bs

theorem fromBigEndian_lt (bs : Bytes) : fromBigEndian bs < 256 ^ bs.length :=
  number_lt UInt8.toNat_lt bs

def IsSigned (w : Nat) (i : Int) : Prop := Int.bmod i (256 ^ w) = i

theorem isSigned_toSigned (w n : Nat) : IsSigned w (toSigned w n) := Int.bmod_bmod

theorem toUnsigned_lt (w : Nat) (i : Int) : toUnsigned w i < 256 ^ w := by
  have hpos : (0 : Int) < (256 ^ w : Nat) := by exact_mod_cast Nat.pow_pos (by decide)
  have := Int.emod_lt_of_pos i hpos
  have := Int.emod_nonneg i (Int.ne_of_gt hpos)
  unfold toUnsigned
  omega

theorem toSigned_toUnsigned (w : Nat) (i : Int) :
    toSigned w (toUnsigned w i) = Int.bmod i (256 ^ w) := by
  have hpos : (0 : Int) < (256 ^ w : Nat) := by exact_mod_cast Nat.pow_pos (by decide)
  rw [toSigned, toUnsigned, Int.toNat_of_nonneg (Int.emod_nonneg i (Int.ne_of_gt hpos)),
    Int.emod_bmod]

theorem toUnsigned_toSigned {w n : Nat} (h : n < 256 ^ w) : toUnsigned w (toSigned w n) = n := by
  rw [toUnsigned, toSigned, Int.bmod_emod, Int.toNat_emod (by omega) (by omega), Int.toNat_natCast,
    Int.toNat_natCast, Nat.mod_eq_of_lt h]

def slice (bs : Bytes) (i j : Nat) : Bytes := (bs.drop i).take (j - i)

theorem slice_append (bs : Bytes) {i j : Nat} (h : i ≤ j) :
    slice bs i j ++ bs.drop j = bs.drop i := by
  have hdrop : bs.drop j = (bs.drop i).drop (j - i) := by rw [List.drop_drop, Nat.add_sub_cancel' h]
  rw [slice, hdrop, List.take_append_drop]

theorem length_slice {bs : Bytes} {i j : Nat} (hj : j ≤ bs.length) :
    (slice bs i j).length = j - i := by
  rw [slice, List.length_take_of_le]
  rw [List.length_drop]
  omega

theorem slice_middle {a b c : Bytes} {i j : Nat} (ha : a.length = i) (hb : b.length = j - i) :
    slice (a ++ (b ++ c)) i j = b := by
  rw [slice, ← ha, List.drop_left, ha, List.take_left' hb]

theorem slice_right {a c : Bytes} {i j : Nat} (ha : a.length ≤ i) :
    slice (a ++ c) i j = slice c (i - a.length) (j - a.length) := by
  rw [slice, slice, List.drop_append, List.drop_eq_nil_of_le ha, List.nil_append]
  congr 1
  omega

theorem bigEndian_slice {bs : Bytes} {i j : Nat} (hj : j ≤ bs.length) :
    bigEndian (j - i) (fromBigEndian (slice bs i j)) = slice bs i j := by
  have hbe := bigEndian_fromBigEndian (slice bs i j)
  rwa [length_slice hj] at hbe

theorem fromBigEndian_slice_lt {bs : Bytes} {i j : Nat} (hj : j ≤ bs.length) :
    fromBigEndian (slice bs i j) < 256 ^ (j - i) := by
  have hlt := fromBigEndian_lt (slice bs i j)
  rwa [length_slice hj] at hlt

inductive ReadError
  | eof
  | unexpectedEOF
  | invalid (what : String)
  | wrapped (context : String) (err : ReadError)
  deriving DecidableEq, Repr

abbrev Reader (α : Type) := StateT Bytes (Except ReadError) α

namespace Reader

variable {α β : Type}

def readFull (n : Nat) : Reader Bytes := fun bs =>
  if n ≤ bs.length then .ok (bs.take n, bs.drop n)
  else if bs.isEmpty then .error .eof else .error .unexpectedEOF

def fail (err : ReadError) : Reader α := fun _ => .error err

def wrap (context : String) (r : Reader α) : Reader α := fun bs =>
  match r bs with
  | .ok x => .ok x
  | .error err => .error (.wrapped context err)

def readUint (w : Nat) : Reader Nat := do
  let bs ← readFull w
  return fromBigEndian bs

def readInt (w : Nat) : Reader Int := do
  let n ← readUint w
  return toSigned w n

def replicate (r : Reader α) : Nat → Reader (List α)
  | 0 => return []
  | n + 1 => do
    let a ← r
    let l ← replicate r n
    return a :: l

/-- The reader returns `a` exactly on the inputs that start with a string that `format` has for it,
and takes that string off. -/
def Accepts (r : Reader α) (format : α → Bytes → Prop) : Prop :=
  ∀ bs a rest, r bs = .ok (a, rest) ↔ ∃ front, format a front ∧ bs = front ++ rest

variable {r : Reader α} {format format' : α → Bytes → Prop}

theorem Accepts.congr (h : r.Accepts format) (hf : ∀ a front, format a front ↔ format' a front) :
    r.Accepts format' := by
  intro bs a rest
  simp only [h bs a rest, hf]

theorem accepts_pure (a : α) : Accepts (pure a) fun b front => b = a ∧ front = [] := by
  intro bs b rest
  constructor
  · intro h
    cases h
    exact ⟨[], ⟨rfl, rfl⟩, rfl⟩
  · rintro ⟨front, ⟨rfl, rfl⟩, rfl⟩
    rfl

theorem Accepts.unless (h : r.Accepts format) (p : Prop) [Decidable p] (err : ReadError) :
    Accepts (if p then fail err else r) fun a front => ¬ p ∧ format a front := by
  intro bs a rest
  by_cases hp : p
  · simp only [hp, not_true, false_and, exists_false, iff_false]
    exact fun h => nomatch h
  · simp only [hp, not_false_eq_true, true_and]
    exact h bs a rest

theorem Accepts.bind {f : α → Reader β} {next : α → β → Bytes → Prop} (h : r.Accepts format)
    (hf : ∀ a, (f a).Accepts (next a)) :
    Accepts (r >>= f) fun b front => ∃ a front₁ front₂, format a front₁ ∧ next a b front₂ ∧
      front = front₁ ++ front₂ := by
  intro bs b rest
  change (r bs >>= fun x => f x.1 x.2) = _ ↔ _
  rw [bind_ok]
  constructor
  · rintro ⟨⟨a, mid⟩, hr, hnext⟩
    obtain ⟨front₁, h₁, rfl⟩ := (h bs a mid).mp hr
    obtain ⟨front₂, h₂, rfl⟩ := (hf a mid b rest).mp hnext
    exact ⟨front₁ ++ front₂, ⟨a, front₁, front₂, h₁, h₂, rfl⟩, by rw [List.append_assoc]⟩
  · rintro ⟨_, ⟨a, front₁, front₂, h₁, h₂, rfl⟩, rfl⟩
    refine ⟨(a, front₂ ++ rest), (h _ _ _).mpr ⟨front₁, h₁, by rw [List.append_assoc]⟩, ?_⟩
    exact (hf a _ _ _).mpr ⟨front₂, h₂, rfl⟩

theorem Accepts.bind_apply (h : r.Accepts format) {a : α} {front : Bytes} (ha : format a front)
    (f : α → Reader β) (rest : Bytes) : (r >>= f) (front ++ rest) = f a rest := by
  have hr : r (front ++ rest) = .ok (a, rest) := (h _ _ _).mpr ⟨front, ha, rfl⟩
  change (r (front ++ rest) >>= fun x => f x.1 x.2) = _
  rw [hr]
  rfl

theorem Accepts.wrap (h : r.Accepts format) (context : String) :
    (r.wrap context).Accepts format := by
  intro bs a rest
  rw [← h bs a rest]
  unfold Reader.wrap
  cases r bs with
  | ok x => exact Iff.rfl
  | error err => exact ⟨fun h => (nomatch h), fun h => (nomatch h)⟩

theorem accepts_readFull (n : Nat) :
    (readFull n).Accepts fun a front => a.length = n ∧ front = a := by
  intro bs a rest
  unfold readFull
  constructor
  · intro h
    split at h
    · rename_i hn
      cases h
      exact ⟨_, ⟨List.length_take_of_le hn, rfl⟩, (List.take_append_drop n bs).symm⟩
    · split at h <;> cases h
  · rintro ⟨_, ⟨rfl, rfl⟩, rfl⟩
    simp

theorem accepts_readUint (w : Nat) :
    (readUint w).Accepts fun n front => n < 256 ^ w ∧ front = bigEndian w n := by
  refine ((accepts_readFull w).bind fun bs => accepts_pure _).congr ?_
  intro n front
  constructor
  · rintro ⟨_, _, _, ⟨rfl, rfl⟩, ⟨rfl, rfl⟩, rfl⟩
    exact ⟨fromBigEndian_lt _, by rw [bigEndian_fromBigEndian, List.append_nil]⟩
  · rintro ⟨hn, rfl⟩
    exact ⟨_, _, _, ⟨length_bigEndian w n, rfl⟩, ⟨(fromBigEndian_bigEndian hn).symm, rfl⟩,
      (List.append_nil _).symm⟩

theorem accepts_readInt (w : Nat) :
    (readInt w).Accepts fun i front => IsSigned w i ∧ front = bigEndian w (toUnsigned w i) := by
  refine ((accepts_readUint w).bind fun n => accepts_pure _).congr ?_
  intro i front
  constructor
  · rintro ⟨n, _, _, ⟨hn, rfl⟩, ⟨rfl, rfl⟩, rfl⟩
    exact ⟨isSigned_toSigned w n, by rw [toUnsigned_toSigned hn, List.append_nil]⟩
  · rintro ⟨hi, rfl⟩
    exact ⟨_, _, _, ⟨toUnsigned_lt w i, rfl⟩, ⟨((toSigned_toUnsigned w i).trans hi).symm, rfl⟩,
      (List.append_nil _).symm⟩

inductive Sequence (format : α → Bytes → Prop) : List α → Bytes → Prop
  | nil : Sequence format [] []
  | cons {a : α} {l : List α} {front front' : Bytes} :
    format a front → Sequence format l front' → Sequence format (a :: l) (front ++ front')

theorem Accepts.replicate (h : r.Accepts format) (n : Nat) :
    (r.replicate n).Accepts fun l front => l.length = n ∧ Sequence format l front := by
  induction n with
  | zero =>
    refine (accepts_pure []).congr ?_
    intro l front
    constructor
    · rintro ⟨rfl, rfl⟩
      exact ⟨rfl, .nil⟩
    · rintro ⟨hlen, hseq⟩
      cases hseq with
      | nil => exact ⟨rfl, rfl⟩
      | cons => cases hlen
  | succ n ih =>
    refine (h.bind fun a => ih.bind fun l => accepts_pure (a :: l)).congr ?_
    intro l front
    constructor
    · rintro ⟨a, front₁, _, ha, ⟨l, front₂, _, ⟨hlen, hl⟩, ⟨rfl, rfl⟩, rfl⟩, rfl⟩
      rw [List.append_nil]
      exact ⟨congrArg (· + 1) hlen, .cons ha hl⟩
    · rintro ⟨hlen, hseq⟩
      cases hseq with
      | nil => cases hlen
      | @cons a l front₁ front₂ ha hl =>
        exact ⟨a, front₁, front₂, ha, ⟨l, front₂, [], ⟨Nat.succ.inj hlen, hl⟩, ⟨rfl, rfl⟩,
          (List.append_nil _).symm⟩, rfl⟩

theorem sequence_iff {ok : α → Prop} {encode : α → Bytes} {l : List α} {front : Bytes} :
    Sequence (fun a front => ok a ∧ front = encode a) l front ↔
      (∀ a ∈ l, ok a) ∧ front = l.flatMap encode := by
  constructor
  · intro h
    induction h with
    | nil => exact ⟨by simp, rfl⟩
    | cons ha _ ih =>
      rw [List.forall_mem_cons, List.flatMap_cons, ← ha.2, ← ih.2]
      exact ⟨⟨ha.1, ih.1⟩, rfl⟩
  · rintro ⟨hl, rfl⟩
    induction l with
    | nil => exact .nil
    | cons a l ih =>
      rw [List.forall_mem_cons] at hl
      exact .cons ⟨hl.1, rfl⟩ (ih hl.2)

theorem Accepts.append (h : r.Accepts format) {bs : Bytes} {a : α} {rest : Bytes}
    (hr : r bs = .ok (a, rest)) (more : Bytes) :
    r (bs ++ more) = .ok (a, rest ++ more) := by
  obtain ⟨front, hfront, rfl⟩ := (h bs a rest).mp hr
  exact (h _ _ _).mpr ⟨front, hfront, List.append_assoc _ _ _⟩

theorem Accepts.strict_part (h : r.Accepts format) {a : α} {bs more : Bytes}
    (ha : format a (bs ++ more)) (hmore : more ≠ []) :
    ∃ err, r bs = .error err := by
  cases hr : r bs with
  | error err => exact ⟨err, rfl⟩
  | ok x =>
    obtain ⟨b, rest⟩ := x
    have hlong := h.append hr more
    have hwhole : r (bs ++ more) = .ok (a, []) := (h _ _ _).mpr ⟨_, ha, (List.append_nil _).symm⟩
    rw [hwhole] at hlong
    have hnil := congrArg Prod.snd (Except.ok.inj hlong)
    exact absurd (List.append_eq_nil_iff.mp hnil.symm).2 hmore

end Reader

end Go
