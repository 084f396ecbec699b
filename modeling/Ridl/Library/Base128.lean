import Mathlib.Data.Nat.Size
import Mathlib.Tactic.Ring

/-!
# Base-128 Numbers

Numbers as bytes of seven bits each, least significant first, with the top bit
set on every byte but the last.

`digits` writes the shortest such bytes and `ofDigits` is the number bytes
stand for, whatever their top bits are. A reader stops at the first byte
without its top bit, so the bytes it read are `Terminated`. It reads longer
forms too: a number has one shortest form and many terminated ones.

The shortest form of a number takes one byte for every seven bits, and one for
zero, which is `length_digits`. It is proved from the two bounds: the digits
and the bits are both at most a length exactly when the number is below a
power of two.

## Theorems

* `ofDigits_digits`: The number written is read.
* `terminated_digits`: The shortest form is terminated.
* `length_digits_le`: How long the shortest form is, as a bound.
* `length_digits`: How long it is, from the bits of the number.
-/

namespace Ridl

namespace Library

/-- The shortest base-128 bytes of `n`. -/
def digits (n : Nat) : List UInt8 :=
  if n < 128 then [UInt8.ofNat n] else UInt8.ofNat (n % 128 + 128) :: digits (n / 128)

/-- The number some base-128 bytes stand for. -/
def ofDigits : List UInt8 → Nat
  | [] => 0
  | b :: bs => b.toNat % 128 + 128 * ofDigits bs

/-- The last byte is the first without its top bit. -/
def Terminated : List UInt8 → Prop
  | [] => False
  | [b] => b.toNat < 128
  | b :: bs => 128 ≤ b.toNat ∧ Terminated bs

theorem digits_of_lt (n : Nat) (h : n < 128) : digits n = [UInt8.ofNat n] := by
  rw [digits, if_pos h]

theorem digits_of_le (n : Nat) (h : 128 ≤ n) :
    digits n = UInt8.ofNat (n % 128 + 128) :: digits (n / 128) := by
  rw [digits, if_neg (by omega)]

theorem ofDigits_digits (n : Nat) : ofDigits (digits n) = n := by
  induction n using Nat.strong_induction_on with
  | _ n ih =>
      by_cases h : n < 128
      · rw [digits_of_lt n h]
        simp only [ofDigits, UInt8.toNat_ofNat']
        omega
      · rw [digits_of_le n (by omega)]
        simp only [ofDigits, UInt8.toNat_ofNat', ih (n / 128) (by omega)]
        omega

theorem terminated_cons (b : UInt8) (bs : List UInt8) (hb : 128 ≤ b.toNat) (h : Terminated bs) :
    Terminated (b :: bs) := by
  cases bs with
  | nil => exact absurd h id
  | cons c cs => exact ⟨hb, h⟩

theorem terminated_digits (n : Nat) : Terminated (digits n) := by
  induction n using Nat.strong_induction_on with
  | _ n ih =>
      by_cases h : n < 128
      · rw [digits_of_lt n h, Terminated, UInt8.toNat_ofNat']
        omega
      · rw [digits_of_le n (by omega)]
        refine terminated_cons _ _ ?_ (ih (n / 128) (by omega))
        rw [UInt8.toNat_ofNat']
        omega

theorem Terminated.length_pos {bs : List UInt8} (h : Terminated bs) : 0 < bs.length := by
  cases bs with
  | nil => exact absurd h id
  | cons b bs => exact Nat.succ_pos _

theorem length_digits_le (n k : Nat) : (digits n).length ≤ k + 1 ↔ n < 2 ^ (7 * (k + 1)) := by
  induction k generalizing n with
  | zero =>
      by_cases h : n < 128
      · rw [digits_of_lt n h]
        exact ⟨fun _ => h, fun _ => Nat.le_refl 1⟩
      · rw [digits_of_le n (by omega), List.length_cons]
        have hpos := (terminated_digits (n / 128)).length_pos
        exact ⟨fun hle => absurd hle (by omega), fun hlt => absurd hlt h⟩
  | succ k ih =>
      have hpow : 2 ^ (7 * (k + 1 + 1)) = 128 * 2 ^ (7 * (k + 1)) := by ring
      have hone : 1 ≤ 2 ^ (7 * (k + 1)) := Nat.one_le_two_pow
      by_cases h : n < 128
      · rw [digits_of_lt n h, hpow]
        exact ⟨fun _ => by omega, fun _ => Nat.succ_le_succ (Nat.zero_le _)⟩
      · rw [digits_of_le n (by omega), List.length_cons, Nat.succ_le_succ_iff, ih, hpow,
          Nat.div_lt_iff_lt_mul (by omega), Nat.mul_comm]

theorem size_or_one_le (n k : Nat) : Nat.size (n ||| 1) ≤ k + 1 ↔ n < 2 ^ (k + 1) := by
  have hone : 1 < 2 ^ (k + 1) := Nat.one_lt_two_pow (by omega)
  rw [Nat.size_le]
  exact ⟨fun h => Nat.lt_of_le_of_lt Nat.left_le_or h, fun h => Nat.or_lt_two_pow h hone⟩

theorem length_digits (n : Nat) : (digits n).length = (Nat.size (n ||| 1) + 6) / 7 := by
  have hsize : 0 < Nat.size (n ||| 1) := by
    rw [Nat.size_pos]
    have hle : 1 ≤ n ||| 1 := Nat.right_le_or
    omega
  have hpos := (terminated_digits n).length_pos
  have hbits : ∀ k, (digits n).length ≤ k + 1 ↔ Nat.size (n ||| 1) ≤ 7 * (k + 1) := by
    intro k
    rw [length_digits_le, show 7 * (k + 1) = 7 * k + 6 + 1 by ring, size_or_one_le]
  have hlow := (hbits ((digits n).length - 1)).mp (by omega)
  have hhigh := (hbits ((Nat.size (n ||| 1) + 6) / 7 - 1)).mpr (by omega)
  omega

end Library

end Ridl
