import Mathlib.Data.List.Basic

/-!
# Texts of Code Units

A text as 16-bit code units. A code point is one unit, or a high surrogate and the low
surrogate after it. A text is well formed when no surrogate stands alone, which is when it
is the code units of characters (`exists_chars`), and its code points are then those of the
characters (`points_units`).

Encoding to UTF-8 is per code point, so texts that are well formed are encoded one after
the other (`encode_units`), and what is encoded is decoded to the same text
(`decode_encode`).

## Theorems

* `exists_chars`: A well-formed text is the code units of characters.
* `points_units`: Its code points are those of the characters.
* `encode_units`: It is encoded as the characters are.
* `decode_encode`: It is decoded to itself.
-/

namespace Ridl

namespace Library

/-- A text as its code units. -/
abbrev Units := List UInt16

/-- The first unit of a pair. -/
def isHigh (u : UInt16) : Bool := decide (0xD800 ≤ u.toNat) && decide (u.toNat ≤ 0xDBFF)

/-- The second unit of a pair. -/
def isLow (u : UInt16) : Bool := decide (0xDC00 ≤ u.toNat) && decide (u.toNat ≤ 0xDFFF)

/-- The code points of a text, in order. -/
def points : Units → List Units
  | [] => []
  | [u] => [[u]]
  | u :: v :: rest =>
      if isHigh u && isLow v then [u, v] :: points rest else [u] :: points (v :: rest)

/-- The character of a code point, which a surrogate that stands alone has not. -/
def scalarOf : Units → Option Char
  | [u] => if isHigh u || isLow u then none else some (Char.ofNat u.toNat)
  | [u, v] => some (Char.ofNat (0x10000 + (u.toNat - 0xD800) * 0x400 + (v.toNat - 0xDC00)))
  | _ => none

/-- No surrogate stands alone. -/
def isWellFormed (text : Units) : Bool := (points text).all (fun point => (scalarOf point).isSome)

/-- The code units of a character. -/
def unitsOf (c : Char) : Units :=
  if c.toNat < 0x10000 then [UInt16.ofNat c.toNat]
  else
    [UInt16.ofNat (0xD800 + (c.toNat - 0x10000) / 0x400),
      UInt16.ofNat (0xDC00 + (c.toNat - 0x10000) % 0x400)]

/-- The code units of characters. -/
def units (chars : List Char) : Units := chars.flatMap unitsOf

/-- The UTF-8 of characters. -/
def utf8 (chars : List Char) : List UInt8 := chars.flatMap String.utf8EncodeChar

/-- A text to UTF-8. A surrogate that stands alone is replaced. -/
def encode (text : Units) : List UInt8 :=
  (points text).flatMap (fun point =>
    String.utf8EncodeChar ((scalarOf point).getD (Char.ofNat 0xFFFD)))

/-- UTF-8 to a text, a byte order mark being kept. -/
def decode (bytes : List UInt8) : Option Units :=
  (bytes.toByteArray.utf8Decode?).map (fun chars => units chars.toList)

/-! ### The code points of characters -/

theorem toNat_char (c : Char) :
    c.toNat < 0xD800 ∨ (0xDFFF < c.toNat ∧ c.toNat < 0x110000) := c.valid

theorem toNat_ofNat {n : Nat} (h : n < 0x10000) : (UInt16.ofNat n).toNat = n :=
  UInt16.toNat_ofNat_of_lt h

theorem points_cons (u : UInt16) (rest : Units) (h : isHigh u = false) :
    points (u :: rest) = [u] :: points rest := by
  cases rest with
  | nil => rfl
  | cons v rest =>
      rw [points, h, Bool.false_and, if_neg Bool.false_ne_true]

theorem not_surrogate {c : Char} (h : c.toNat < 0x10000) :
    isHigh (UInt16.ofNat c.toNat) = false ∧ isLow (UInt16.ofNat c.toNat) = false := by
  have hc := toNat_char c
  rw [isHigh, isLow, toNat_ofNat h, Bool.and_eq_false_iff, Bool.and_eq_false_iff,
    decide_eq_false_iff_not, decide_eq_false_iff_not, decide_eq_false_iff_not,
    decide_eq_false_iff_not]
  omega

theorem surrogates {c : Char} (h : ¬ c.toNat < 0x10000) :
    isHigh (UInt16.ofNat (0xD800 + (c.toNat - 0x10000) / 0x400)) = true ∧
      isLow (UInt16.ofNat (0xDC00 + (c.toNat - 0x10000) % 0x400)) = true := by
  have hc := toNat_char c
  rw [isHigh, isLow, toNat_ofNat (by omega), toNat_ofNat (by omega), Bool.and_eq_true,
    Bool.and_eq_true, decide_eq_true_eq, decide_eq_true_eq, decide_eq_true_eq, decide_eq_true_eq]
  omega

theorem points_unitsOf (c : Char) (rest : Units) :
    points (unitsOf c ++ rest) = unitsOf c :: points rest := by
  unfold unitsOf
  split_ifs with h
  · exact points_cons _ _ (not_surrogate h).1
  · have hpair := surrogates h
    rw [List.cons_append, List.singleton_append, points, hpair.1, hpair.2, Bool.true_and,
      if_pos rfl]

theorem scalarOf_unitsOf (c : Char) : scalarOf (unitsOf c) = some c := by
  have hc := toNat_char c
  unfold unitsOf
  split_ifs with h
  · have hnone := not_surrogate h
    rw [scalarOf, hnone.1, hnone.2, Bool.false_or, if_neg Bool.false_ne_true, toNat_ofNat h,
      Char.ofNat_toNat]
  · have hsum : 0x10000 + (0xD800 + (c.toNat - 0x10000) / 0x400 - 0xD800) * 0x400 +
        (0xDC00 + (c.toNat - 0x10000) % 0x400 - 0xDC00) = c.toNat := by omega
    rw [scalarOf, toNat_ofNat (by omega), toNat_ofNat (by omega), hsum, Char.ofNat_toNat]

theorem units_cons (c : Char) (chars : List Char) :
    units (c :: chars) = unitsOf c ++ units chars := List.flatMap_cons

theorem units_append (front back : List Char) :
    units (front ++ back) = units front ++ units back := List.flatMap_append

theorem points_units (chars : List Char) : points (units chars) = chars.map unitsOf := by
  induction chars with
  | nil => rfl
  | cons c chars ih => rw [units_cons, points_unitsOf, ih, List.map_cons]

theorem isWellFormed_units (chars : List Char) : isWellFormed (units chars) = true := by
  rw [isWellFormed, points_units, List.all_eq_true]
  intro point hpoint
  rcases List.mem_map.mp hpoint with ⟨c, -, rfl⟩
  rw [scalarOf_unitsOf]
  rfl

theorem encode_units (chars : List Char) : encode (units chars) = utf8 chars := by
  rw [encode, points_units, List.flatMap_map, utf8]
  refine List.flatMap_congr fun c _ => ?_
  rw [scalarOf_unitsOf]
  rfl

theorem toNat_ofNat_char {n : Nat} (h : n.isValidChar) : (Char.ofNat n).toNat = n := by
  rw [Char.ofNat, dif_pos h]
  rfl

theorem unitsOf_single {u : UInt16} (h : (isHigh u || isLow u) = false) :
    unitsOf (Char.ofNat u.toNat) = [u] := by
  have hlt := u.toNat_lt
  rw [Bool.or_eq_false_iff, isHigh, isLow, Bool.and_eq_false_iff, Bool.and_eq_false_iff,
    decide_eq_false_iff_not, decide_eq_false_iff_not, decide_eq_false_iff_not,
    decide_eq_false_iff_not] at h
  have hvalid : u.toNat.isValidChar := by
    unfold Nat.isValidChar
    omega
  rw [unitsOf, toNat_ofNat_char hvalid, if_pos hlt, UInt16.ofNat_toNat]

theorem unitsOf_pair {u v : UInt16} (hu : isHigh u = true) (hv : isLow v = true) :
    unitsOf (Char.ofNat (0x10000 + (u.toNat - 0xD800) * 0x400 + (v.toNat - 0xDC00))) = [u, v] := by
  rw [isHigh, Bool.and_eq_true, decide_eq_true_eq, decide_eq_true_eq] at hu
  rw [isLow, Bool.and_eq_true, decide_eq_true_eq, decide_eq_true_eq] at hv
  have hvalid : (0x10000 + (u.toNat - 0xD800) * 0x400 + (v.toNat - 0xDC00)).isValidChar := by
    unfold Nat.isValidChar
    omega
  have hhigh : 0xD800 +
      (0x10000 + (u.toNat - 0xD800) * 0x400 + (v.toNat - 0xDC00) - 0x10000) / 0x400 =
        u.toNat := by omega
  have hlow : 0xDC00 +
      (0x10000 + (u.toNat - 0xD800) * 0x400 + (v.toNat - 0xDC00) - 0x10000) % 0x400 =
        v.toNat := by omega
  rw [unitsOf, toNat_ofNat_char hvalid, if_neg (by omega), hhigh, hlow, UInt16.ofNat_toNat,
    UInt16.ofNat_toNat]

theorem exists_chars {text : Units} (h : isWellFormed text = true) :
    ∃ chars, text = units chars := by
  unfold isWellFormed at h
  induction text using points.induct with
  | case1 => exact ⟨[], rfl⟩
  | case2 u =>
      have hu : (isHigh u || isLow u) = false := by
        simpa [points, scalarOf] using h
      refine ⟨[Char.ofNat u.toNat], ?_⟩
      rw [units_cons, unitsOf_single hu]
      rfl
  | case3 u v rest hpair ih =>
      rw [points, if_pos hpair, List.all_cons, Bool.and_eq_true] at h
      rw [Bool.and_eq_true] at hpair
      rcases ih h.2 with ⟨chars, rfl⟩
      refine ⟨Char.ofNat (0x10000 + (u.toNat - 0xD800) * 0x400 + (v.toNat - 0xDC00)) :: chars, ?_⟩
      rw [units_cons, unitsOf_pair hpair.1 hpair.2]
      rfl
  | case4 u v rest hpair ih =>
      rw [points, if_neg hpair, List.all_cons, Bool.and_eq_true] at h
      have hu : (isHigh u || isLow u) = false := by
        simpa [scalarOf] using h.1
      rcases ih h.2 with ⟨chars, hchars⟩
      refine ⟨Char.ofNat u.toNat :: chars, ?_⟩
      rw [units_cons, unitsOf_single hu, ← hchars]
      rfl

theorem decode_encode (chars : List Char) : decode (utf8 chars) = some (units chars) := by
  have hbytes : (utf8 chars).toByteArray = chars.utf8Encode := rfl
  rw [decode, hbytes, List.utf8Decode?_utf8Encode]
  rfl

end Library

end Ridl
