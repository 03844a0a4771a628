import Mathlib.Data.Nat.Bitwise
import Octar.Lib.Reader

namespace Go

theorem xor_le_add (x y : Nat) : x ^^^ y ≤ x + y := by
  induction x using Nat.strongRecOn generalizing y with
  | ind x ih =>
    by_cases hx : x = 0
    · rw [hx, Nat.zero_xor, Nat.zero_add]
    · -- the halves by induction, the last bits as for a sum without carry
      have hhalf := ih (x / 2) (Nat.div_lt_self (Nat.pos_of_ne_zero hx) Nat.one_lt_two) (y / 2)
      have hdiv : (x ^^^ y) / 2 = x / 2 ^^^ y / 2 := Nat.xor_div_two
      have hmod : (x ^^^ y) % 2 = (x + y) % 2 := Nat.xor_mod_two_eq
      omega

theorem sub_le_xor (x y : Nat) : y - x ≤ x ^^^ y := by
  have hle := xor_le_add x (x ^^^ y)
  rw [Nat.xor_xor_cancel_left] at hle
  omega

theorem xor_ne_xor {p q i j : Nat} (h : i + j < q - p) : p ^^^ i ≠ q ^^^ j := by
  intro heq
  have hdist : p ^^^ q = i ^^^ j := by
    rw [← Nat.xor_xor_cancel_left p i, heq, ← Nat.xor_assoc p q j, Nat.xor_assoc, Nat.xor_self,
      Nat.xor_zero]
  have hfar := sub_le_xor p q
  have hnear := xor_le_add i j
  omega

def hextable : Bytes := str "0123456789abcdef"

def hexDigit (d : Nat) : UInt8 := hextable.getD d 0

def hexEncode (bs : Bytes) : Bytes :=
  bs.flatMap fun v => [hexDigit (v.toNat / 16), hexDigit (v.toNat % 16)]

theorem hexDigit_inj {a b : Nat} (ha : a < 16) (hb : b < 16) (h : hexDigit a = hexDigit b) :
    a = b := by
  have hall : ∀ a < 16, ∀ b < 16, hexDigit a = hexDigit b → a = b := by decide
  exact hall a ha b hb h

theorem length_hexEncode (bs : Bytes) : (hexEncode bs).length = 2 * bs.length := by
  induction bs with
  | nil => rfl
  | cons v bs ih =>
    rw [hexEncode, List.flatMap_cons, List.length_append, ← hexEncode, ih, List.length_cons]
    simp only [List.length_cons, List.length_nil]
    omega

theorem hexEncode_injective : Function.Injective hexEncode := by
  intro bs bs' h
  induction bs generalizing bs' with
  | nil =>
    cases bs' with
    | nil => rfl
    | cons v' bs' => cases h
  | cons v bs ih =>
    cases bs' with
    | nil => cases h
    | cons v' bs' =>
      obtain ⟨hhigh, h⟩ := List.cons.inj h
      obtain ⟨hlow, hrest⟩ := List.cons.inj h
      have hv := v.toNat_lt
      have hv' := v'.toNat_lt
      have hdiv := hexDigit_inj (by omega) (by omega) hhigh
      have hmod := hexDigit_inj (by omega) (by omega) hlow
      have heq : v = v' := UInt8.toNat_inj.mp (by omega)
      rw [heq, ih hrest]

end Go
