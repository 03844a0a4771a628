import Octar.Lib.GoMap
import Mathlib.Data.List.Induction

namespace Go

section Positional

variable (base : Nat) (symbol : Nat → UInt8) (value : UInt8 → Nat)

def positional : Nat → Nat → Bytes
  | 0, _ => []
  | w + 1, n => positional w (n / base) ++ [symbol (n % base)]

def number (ds : Bytes) : Nat := ds.foldl (fun n b => base * n + value b) 0

@[simp] theorem length_positional (w n : Nat) : (positional base symbol w n).length = w := by
  induction w generalizing n with
  | zero => rfl
  | succ w ih => simp [positional, ih]

theorem number_append (ds : Bytes) (b : UInt8) :
    number base value (ds ++ [b]) = base * number base value ds + value b := by
  simp [number]

variable {base symbol value}

theorem number_positional (hbase : 0 < base) (hsymbol : ∀ d < base, value (symbol d) = d)
    (w n : Nat) :
    number base value (positional base symbol w n) = n % base ^ w := by
  induction w generalizing n with
  | zero => simp [positional, number, Nat.mod_one]
  | succ w ih =>
    rw [positional, number_append, ih, hsymbol _ (Nat.mod_lt _ hbase), Nat.pow_succ,
      Nat.mul_comm (base ^ w) base, Nat.mod_mul, Nat.add_comm]

theorem number_lt (hvalue : ∀ b, value b < base) (ds : Bytes) :
    number base value ds < base ^ ds.length := by
  induction ds using List.reverseRecOn with
  | nil => exact Nat.one_pos
  | append_singleton ds b ih =>
    rw [number_append, List.length_append, List.length_singleton, Nat.pow_succ, Nat.mul_comm]
    calc number base value ds * base + value b
        < (number base value ds + 1) * base := by
          rw [Nat.add_mul, Nat.one_mul]
          exact Nat.add_lt_add_left (hvalue b) _
      _ ≤ base ^ ds.length * base := Nat.mul_le_mul_right base ih

theorem positional_number (hvalue : ∀ b, value b < base ∧ symbol (value b) = b) (ds : Bytes) :
    positional base symbol ds.length (number base value ds) = ds := by
  induction ds using List.reverseRecOn with
  | nil => rfl
  | append_singleton ds b ih =>
    obtain ⟨hlt, hb⟩ := hvalue b
    have hbase := Nat.zero_lt_of_lt hlt
    rw [List.length_append, List.length_singleton, positional, number_append, Nat.mul_add_div hbase,
      Nat.div_eq_of_lt hlt, Nat.add_zero, ih, Nat.mul_add_mod, Nat.mod_eq_of_lt hlt, hb]

end Positional

end Go
