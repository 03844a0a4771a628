import Octar.Lib.Positional

namespace Go

def digit (d : Nat) : UInt8 := UInt8.ofNat (48 + d)

def isDigit (b : UInt8) : Bool := 48 ≤ b.toNat && b.toNat ≤ 57

def digitValue (b : UInt8) : Nat := b.toNat - 48

def fixedDigits (w n : Nat) : Bytes := positional 10 digit w n

def width : Nat → Nat → Nat
  | 0, _ => 0
  | bound + 1, n => if n = 0 then 0 else width bound (n / 10) + 1

def pad9 (n : Nat) : Bytes := fixedDigits (max 9 (width n n)) n

def numeral (ds : Bytes) : Nat := number 10 digitValue ds

/-- The verb `%d` of `fmt.Sscanf` into an unsigned integer, without leading blanks: the value of the
longest run of digits and the rest of the input. -/
def scanUint (s : Bytes) : Option (Nat × Bytes) :=
  let ds := s.takeWhile isDigit
  if ds.isEmpty then none else some (numeral ds, s.dropWhile isDigit)

def sscanf (literal s : Bytes) : Option Nat :=
  (scanUint s).bind fun (n, rest) => if literal.isPrefixOf rest then some n else none

theorem isDigit_digit : ∀ d < 10, isDigit (digit d) = true := by decide

theorem digitValue_digit : ∀ d < 10, digitValue (digit d) = d := by decide

theorem digit_lt_digit : ∀ d < 10, ∀ e < 10, d < e → digit d < digit e := by decide

@[simp] theorem length_fixedDigits (w n : Nat) : (fixedDigits w n).length = w :=
  length_positional 10 digit w n

theorem isDigit_fixedDigits {w n : Nat} {b : UInt8} (h : b ∈ fixedDigits w n) :
    isDigit b = true := by
  induction w generalizing n with
  | zero => cases h
  | succ w ih =>
    rcases List.mem_append.mp h with h | h
    · exact ih h
    · rw [List.mem_singleton.mp h]
      exact isDigit_digit _ (Nat.mod_lt _ (by decide))

theorem numeral_fixedDigits (w n : Nat) : numeral (fixedDigits w n) = n % 10 ^ w :=
  number_positional (by decide) digitValue_digit w n

theorem lt_pow_width {bound n : Nat} (h : n ≤ bound) : n < 10 ^ width bound n := by
  induction bound generalizing n with
  | zero =>
    rw [Nat.le_zero.mp h]
    exact Nat.one_pos
  | succ bound ih =>
    rw [width]
    split
    · rename_i h0
      rw [h0]
      exact Nat.one_pos
    · rename_i h0
      have hdiv := ih (show n / 10 ≤ bound by omega)
      rw [Nat.pow_succ]
      omega

theorem width_le {bound n k : Nat} (h : n < 10 ^ k) : width bound n ≤ k := by
  induction bound generalizing n k with
  | zero => exact Nat.zero_le k
  | succ bound ih =>
    rw [width]
    split
    · exact Nat.zero_le k
    · rename_i h0
      cases k with
      | zero =>
        rw [Nat.pow_zero] at h
        omega
      | succ k =>
        rw [Nat.pow_succ] at h
        exact Nat.succ_le_succ (ih (show n / 10 < 10 ^ k by omega))

theorem numeral_pad9 (n : Nat) : numeral (pad9 n) = n := by
  rw [pad9, numeral_fixedDigits]
  apply Nat.mod_eq_of_lt
  exact Nat.lt_of_lt_of_le (lt_pow_width (Nat.le_refl n))
    (Nat.pow_le_pow_right (by decide) (Nat.le_max_right _ _))

theorem pad9_eq {n : Nat} (h : n < 10 ^ 9) : pad9 n = fixedDigits 9 n := by
  rw [pad9, Nat.max_eq_left (width_le h)]

theorem isDigit_pad9 {n : Nat} {b : UInt8} (h : b ∈ pad9 n) : isDigit b = true :=
  isDigit_fixedDigits h

theorem pad9_ne_nil (n : Nat) : pad9 n ≠ [] := by
  intro h
  have hlen := length_fixedDigits (max 9 (width n n)) n
  rw [← pad9, h, List.length_nil] at hlen
  omega

theorem scanUint_pad9 (n : Nat) {b : UInt8} (hb : isDigit b = false) (rest : Bytes) :
    scanUint (pad9 n ++ b :: rest) = some (n, b :: rest) := by
  have htake : (pad9 n ++ b :: rest).takeWhile isDigit = pad9 n := by
    rw [List.takeWhile_append_of_pos fun _ => isDigit_pad9]
    simp [hb]
  have hdrop : (pad9 n ++ b :: rest).dropWhile isDigit = b :: rest := by
    rw [List.dropWhile_append_of_pos fun _ => isDigit_pad9]
    simp [hb]
  simp [scanUint, htake, hdrop, pad9_ne_nil, numeral_pad9]

theorem append_lt_append {a b : Bytes} (hlen : a.length = b.length) (h : a < b) (c d : Bytes) :
    a ++ c < b ++ d := by
  induction a generalizing b with
  | nil =>
    rw [List.length_nil] at hlen
    rw [List.length_eq_zero_iff.mp hlen.symm] at h
    cases h
  | cons x a ih =>
    cases b with
    | nil => cases hlen
    | cons y b =>
      rw [List.cons_append, List.cons_append, List.cons_lt_cons_iff]
      rcases List.cons_lt_cons_iff.mp h with hhead | ⟨rfl, htail⟩
      · exact .inl hhead
      · exact .inr ⟨rfl, ih (Nat.succ.inj hlen) htail⟩

theorem fixedDigits_lt {w n m : Nat} (hm : m < 10 ^ w) (h : n < m) :
    fixedDigits w n < fixedDigits w m := by
  induction w generalizing n m with
  | zero =>
    rw [Nat.pow_zero] at hm
    omega
  | succ w ih =>
    rw [Nat.pow_succ] at hm
    by_cases hdiv : n / 10 = m / 10
    · rw [fixedDigits, fixedDigits, positional, positional, hdiv]
      apply List.append_left_lt
      exact List.cons_lt_cons_iff.mpr (.inl (digit_lt_digit _ (Nat.mod_lt _ (by decide)) _
        (Nat.mod_lt _ (by decide)) (by omega)))
    · exact append_lt_append (by simp) (ih (by omega) (by omega)) _ _

theorem pad9_append_lt {n m : Nat} (hm : m < 10 ^ 9) (h : n < m) (c d : Bytes) :
    pad9 n ++ c < pad9 m ++ d := by
  rw [pad9_eq hm, pad9_eq (Nat.lt_trans h hm)]
  exact append_lt_append (by simp) (fixedDigits_lt hm h) c d

end Go
