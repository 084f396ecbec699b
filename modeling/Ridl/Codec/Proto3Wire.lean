import Mathlib.Data.Nat.Bitwise
import Ridl.Codec.Proto3

/-!
# proto3 on the Wire

What the writer writes and the reader reads.

Both sides are brought to the bytes of a message. A writer over a slice is
determined by the bytes it was asked to write (`Writer.after`): a push appends
to them, a varint appends its base-128 digits, and a field appends its tag and
its value. A varint is read where terminated digits stand, and only there, so
the reader gives back the value of the digits it moved past.

## Main definitions

* `Writer.after`: The writer that was asked to write some bytes.
* `Writer.field`, `Field.bytes`: A field as calls of the writer, and as bytes.
* `Field.length`: The length of a field, from the length functions.

## Theorems

* `push_after`, `varint_after`, `field_after`: What a write appends.
* `length_bytes`: A field's bytes are as many as its length says.
* `next_bytes`: A field written is read.
* `proto3_codec`: The writer, the reader and the lengths agree.
-/

namespace Ridl

namespace Proto3

open Library

namespace Writer

/-- The writer over `out` that was asked to write `enc`. -/
def after (out : Slice) (enc : Bytes) : Writer :=
  { out :=
      { bytes := enc.take out.len ++ out.bytes.drop enc.length
        fits := by
          have hfits := out.fits
          simp only [List.length_append, List.length_take, List.length_drop, Slice.len]
          omega }
    used := min enc.length out.len
    needed := min enc.length USIZE_MAX
    usedFits := by
      simp only [Slice.len, List.length_append, List.length_take, List.length_drop]
      omega }

theorem ext {v w : Writer} (hout : v.out = w.out) (hused : v.used = w.used)
    (hneeded : v.needed = w.needed) : v = w := by
  cases v
  cases w
  cases hout
  cases hused
  cases hneeded
  rfl

theorem new_eq_after (out : Slice) : new out = after out [] := by
  refine ext (Slice.ext ?_) ?_ rfl
  · simp only [new, after, List.take_nil, List.length_nil, List.drop_zero, List.nil_append]
  · simp only [new, after, List.length_nil, Nat.zero_min]

theorem len_after (out : Slice) (enc : Bytes) : (after out enc).out.len = out.len := by
  simp only [after, Slice.len, List.length_append, List.length_take, List.length_drop]
  omega

theorem push_after (out : Slice) (enc b : Bytes) :
    (after out enc).push b = after out (enc ++ b) := by
  refine ext (Slice.ext ?_) ?_ ?_
  · show overwrite (after out enc).out.bytes (after out enc).used
      (b.take (fitting b.length ((after out enc).out.len - (after out enc).used))) = _
    rw [len_after, fitting_eq]
    simp only [after, overwrite]
    have hout : out.len = out.bytes.length := rfl
    by_cases h : enc.length ≤ out.len
    · have hdrop : ∀ i, (enc ++ out.bytes.drop enc.length).drop (enc.length + i) =
          out.bytes.drop (enc.length + i) := fun i => by
        rw [List.drop_append, List.drop_eq_nil_of_le (by omega), List.nil_append,
          Nat.add_sub_cancel_left, List.drop_drop]
      rw [Nat.min_eq_left h, List.take_of_length_le h, List.take_left' rfl, hdrop,
        List.take_append, List.take_of_length_le h, List.length_append, List.length_take]
      by_cases hb : b.length ≤ out.len - enc.length
      · rw [Nat.min_eq_left hb, List.take_length, List.take_of_length_le hb, Nat.min_self]
      · rw [Nat.min_eq_right (by omega), Nat.min_eq_left (by omega),
          List.drop_eq_nil_of_le (by omega), List.drop_eq_nil_of_le (by omega)]
    · have hroom : min b.length (out.len - min enc.length out.len) = 0 := by omega
      have htake : (enc.take out.len).length = out.len := by
        rw [List.length_take]
        omega
      rw [hroom, Nat.min_eq_right (by omega), List.take_zero, List.append_nil,
        List.drop_eq_nil_of_le (by omega), List.append_nil, List.length_nil, Nat.add_zero,
        List.take_append_drop, List.take_append_of_le_length (by omega),
        List.drop_eq_nil_of_le (by rw [List.length_append]; omega), List.append_nil]
  · show (after out enc).used + fitting b.length ((after out enc).out.len - (after out enc).used) = _
    rw [len_after, fitting_eq]
    simp only [after, List.length_append]
    omega
  · show saturatingAdd (after out enc).needed b.length = _
    simp only [after, saturatingAdd, List.length_append]
    omega

theorem toNat_low (v : UInt64) : ((v &&& 0x7f).toUInt8).toNat = v.toNat % 128 := by
  have hmask : (0x7f : UInt64).toNat = 2 ^ 7 - 1 := rfl
  rw [UInt64.toNat_toUInt8, UInt64.toNat_and, hmask, Nat.and_two_pow_sub_one_eq_mod]
  omega

theorem toNat_low_continued (v : UInt64) :
    ((v &&& 0x7f).toUInt8 ||| 0x80).toNat = v.toNat % 128 + 128 := by
  have hbit : (0x80 : UInt8).toNat = 2 ^ 7 * 1 := rfl
  have hlow := toNat_low v
  rw [UInt8.toNat_or, hbit, Nat.or_comm, hlow,
    ← Nat.two_pow_add_eq_or_of_lt (Nat.mod_lt _ (by decide))]
  omega

theorem varint_after (out : Slice) (enc : Bytes) (v : UInt64) :
    (after out enc).varint v = after out (enc ++ digits v.toNat) := by
  induction hn : v.toNat using Nat.strong_induction_on generalizing v enc with
  | _ n ih =>
      subst hn
      have hrest := toNat_shiftRight_seven v
      rw [varint]
      by_cases h : v >>> 7 = 0
      · have hlt : v.toNat < 128 := by
          have hzero : (v >>> 7).toNat = 0 := congrArg UInt64.toNat h
          omega
        have hbyte : (v &&& 0x7f).toUInt8 = UInt8.ofNat v.toNat := by
          refine UInt8.toNat_inj.mp ?_
          rw [toNat_low, UInt8.toNat_ofNat']
          omega
        simp only [h, if_true, push_after, hbyte, digits_of_lt v.toNat hlt]
      · have hle : 128 ≤ v.toNat := by
          have hne : (v >>> 7).toNat ≠ 0 := fun hz => h (UInt64.toNat_inj.mp hz)
          omega
        have hbyte : (v &&& 0x7f).toUInt8 ||| 0x80 = UInt8.ofNat (v.toNat % 128 + 128) := by
          refine UInt8.toNat_inj.mp ?_
          rw [toNat_low_continued, UInt8.toNat_ofNat']
          omega
        simp only [h, if_false, push_after, hbyte]
        rw [ih _ (by omega) _ (v >>> 7) rfl, hrest, digits_of_le v.toNat hle, List.append_assoc,
          List.singleton_append]

end Writer

/-! ### A field -/

def WireType.toNat (wire : WireType) : Nat := wire.toByte.toNat

theorem WireType.toNat_lt (wire : WireType) : wire.toNat < 8 := by
  cases wire <;> decide

theorem toNat_tag (number : UInt32) (wire : WireType) :
    ((number.toUInt64 <<< 3) ||| wire.toByte.toUInt64).toNat = 8 * number.toNat + wire.toNat := by
  have hnumber := number.toNat_lt
  have hwire := wire.toNat_lt
  have hshift : (number.toUInt64 <<< 3).toNat = 2 ^ 3 * number.toNat := by
    rw [UInt64.toNat_shiftLeft, UInt32.toNat_toUInt64, Nat.shiftLeft_eq]
    show number.toNat * 2 ^ 3 % 2 ^ 64 = _
    omega
  rw [UInt64.toNat_or, hshift, UInt8.toNat_toUInt64, ← WireType.toNat,
    ← Nat.two_pow_add_eq_or_of_lt hwire]

def Value.wire : Value → WireType
  | .varint _ => .varint
  | .i64 _ => .i64
  | .len _ => .len
  | .i32 _ => .i32

/-- The bytes of a value behind its tag. -/
def Value.bytes : Value → Bytes
  | .varint v => digits v.toNat
  | .i64 bits => toLE 8 bits.toNat
  | .len b => digits b.len ++ b.bytes
  | .i32 bits => toLE 4 bits.toNat

/-- How many bytes a value takes, from the length functions. -/
def Value.length : Value → Nat
  | .varint v => varintLen v
  | .i64 _ => 8
  | .len b => varintLen (UInt64.ofNat b.len) + b.len
  | .i32 _ => 4

namespace Field

/-- A field number proto3 allows. -/
def WellFormed (f : Field) : Prop := 1 ≤ f.number.toNat ∧ f.number.toNat < 2 ^ 29

def bytes (f : Field) : Bytes :=
  digits (8 * f.number.toNat + f.value.wire.toNat) ++ f.value.bytes

def length (f : Field) : Nat := tagLen f.number + f.value.length

end Field

/-- The calls that write one field. -/
def Writer.field (w : Writer) (f : Field) : Writer :=
  let w := w.tag f.number f.value.wire
  match f.value with
  | .varint v => w.varint v
  | .i64 bits => w.fixed64 bits
  | .len b => (w.varint (UInt64.ofNat b.len)).bytes b
  | .i32 bits => w.fixed32 bits

theorem Slice.toNat_len (b : Slice) : (UInt64.ofNat b.len).toNat = b.len := by
  have hfits := b.fits
  rw [UInt64.toNat_ofNat']
  unfold ISIZE_MAX at hfits
  unfold Slice.len
  omega

theorem field_after (out : Slice) (enc : Bytes) (f : Field) :
    (Writer.after out enc).field f = Writer.after out (enc ++ f.bytes) := by
  have htag : (Writer.after out enc).tag f.number f.value.wire =
      Writer.after out (enc ++ digits (8 * f.number.toNat + f.value.wire.toNat)) := by
    rw [Writer.tag, Writer.varint_after, toNat_tag]
  rw [Writer.field, htag, Field.bytes, ← List.append_assoc]
  cases f.value with
  | varint v => exact Writer.varint_after out _ v
  | i64 bits => exact Writer.push_after out _ _
  | len b =>
      show (Writer.varint _ _).push b.bytes = _
      rw [Writer.varint_after, Writer.push_after, Slice.toNat_len, List.append_assoc]
      rfl
  | i32 bits => exact Writer.push_after out _ _

theorem varintLen_eq (v : UInt64) : varintLen v = (digits v.toNat).length := by
  have hlt := (v ||| 1).toNat_lt
  have hsize : Nat.size (v ||| 1).toNat ≤ 64 := Nat.size_le.mpr hlt
  have hor : (v ||| 1).toNat = v.toNat ||| 1 := UInt64.toNat_or v 1
  rw [length_digits, ← hor, varintLen, leadingZeros]
  omega

theorem tagLen_eq (number : UInt32) (wire : WireType) :
    tagLen number = (digits (8 * number.toNat + wire.toNat)).length := by
  have hwire := wire.toNat_lt
  have hnumber := number.toNat_lt
  have hshift : (number.toUInt64 <<< 3).toNat = 8 * number.toNat := by
    rw [UInt64.toNat_shiftLeft, UInt32.toNat_toUInt64, Nat.shiftLeft_eq]
    show number.toNat * 2 ^ 3 % 2 ^ 64 = _
    omega
  rw [tagLen, varintLen_eq, hshift]
  have hbound : ∀ k, (digits (8 * number.toNat)).length ≤ k + 1 ↔
      (digits (8 * number.toNat + wire.toNat)).length ≤ k + 1 := by
    intro k
    have hpow : 2 ^ (7 * (k + 1)) = 8 * 2 ^ (7 * k + 4) := by ring
    rw [length_digits_le, length_digits_le, hpow]
    omega
  have hpos := (terminated_digits (8 * number.toNat)).length_pos
  have hpos' := (terminated_digits (8 * number.toNat + wire.toNat)).length_pos
  have hle := (hbound ((digits (8 * number.toNat)).length - 1)).mp (by omega)
  have hge := (hbound ((digits (8 * number.toNat + wire.toNat)).length - 1)).mpr (by omega)
  omega

theorem length_bytes (f : Field) : f.bytes.length = f.length := by
  rw [Field.bytes, Field.length, List.length_append, tagLen_eq f.number f.value.wire]
  congr 1
  cases f.value with
  | varint v => exact (varintLen_eq v).symm
  | i64 bits => exact length_toLE 8 _
  | len b =>
      show (digits b.len ++ b.bytes).length = varintLen (UInt64.ofNat b.len) + b.len
      rw [List.length_append, varintLen_eq, Slice.toNat_len]
      rfl
  | i32 bits => exact length_toLE 4 _

/-! ### A varint read -/

theorem and_continuation_eq_zero (b : UInt8) : b &&& 0x80 = 0 ↔ b.toNat < 128 := by
  have hb := b.toNat_lt
  have hmask : (0x80 : UInt8).toNat = 2 ^ 7 := rfl
  rw [← UInt8.toNat_inj, UInt8.toNat_and, hmask, Nat.and_two_pow, Nat.testBit_eq_decide_div_mod_eq]
  show (decide (b.toNat / 2 ^ 7 % 2 = 1)).toNat * 2 ^ 7 = 0 ↔ _
  by_cases h : b.toNat / 2 ^ 7 % 2 = 1
  · simp only [h, decide_true, Bool.toNat_true]
    omega
  · simp only [h, decide_false, Bool.toNat_false]
    omega

theorem toNat_low_byte (b : UInt8) : (b &&& 0x7f).toUInt64.toNat = b.toNat % 128 := by
  have hmask : (0x7f : UInt8).toNat = 2 ^ 7 - 1 := rfl
  rw [UInt8.toNat_toUInt64, UInt8.toNat_and, hmask, Nat.and_two_pow_sub_one_eq_mod]

theorem toNat_or_shift (value d : UInt64) (index : Nat) (hindex : index ≤ 9)
    (hvalue : value.toNat < 2 ^ (7 * index)) (hfits : 2 ^ (7 * index) * d.toNat < 2 ^ 64) :
    (value ||| (d <<< UInt64.ofNat (7 * index))).toNat = value.toNat + 2 ^ (7 * index) * d.toNat := by
  have hcount : (UInt64.ofNat (7 * index)).toNat % 64 = 7 * index := by
    rw [UInt64.toNat_ofNat']
    omega
  have hshift : (d <<< UInt64.ofNat (7 * index)).toNat = 2 ^ (7 * index) * d.toNat := by
    rw [UInt64.toNat_shiftLeft, hcount, Nat.shiftLeft_eq, Nat.mul_comm, Nat.mod_eq_of_lt hfits]
  rw [UInt64.toNat_or, hshift, Nat.or_comm, ← Nat.two_pow_add_eq_or_of_lt hvalue, Nat.add_comm]

theorem checkedAdd_of_getElem? (buf : Slice) (pos index : Nat) (b : UInt8)
    (h : buf.bytes[pos + index]? = some b) : checkedAdd pos index = some (pos + index) := by
  have hlt : pos + index < buf.bytes.length := by
    by_contra hge
    rw [List.getElem?_eq_none (by omega)] at h
    cases h
  have hfits := buf.fits
  unfold ISIZE_MAX at hfits
  exact if_pos (by unfold USIZE_MAX; omega)

theorem value_step (value : UInt64) (index : Nat) (b : UInt8) (hindex : index ≤ 8)
    (hvalue : value.toNat < 2 ^ (7 * index)) :
    (value ||| ((b &&& 0x7f).toUInt64 <<< UInt64.ofNat (7 * index))).toNat =
        value.toNat + 2 ^ (7 * index) * (b.toNat % 128) ∧
      value.toNat + 2 ^ (7 * index) * (b.toNat % 128) < 2 ^ (7 * (index + 1)) := by
  have hpow : 2 ^ (7 * (index + 1)) = 2 ^ (7 * index) * 128 := by ring
  have hmono : 2 ^ (7 * (index + 1)) ≤ 2 ^ 63 := Nat.pow_le_pow_right (by omega) (by omega)
  have hbyte : 2 ^ (7 * index) * (b.toNat % 128) ≤ 2 ^ (7 * index) * 127 :=
    Nat.mul_le_mul_left _ (by omega)
  rw [toNat_or_shift value _ index (by omega) hvalue (by rw [toNat_low_byte]; omega),
    toNat_low_byte]
  exact ⟨rfl, by omega⟩

section Byte

variable {buf : Slice} {pos index : Nat} {b : UInt8}

theorem readVarintLoop_zero (h : buf.bytes[pos + index]? = some b) (value : UInt64) :
    readVarintLoop buf pos 0 index value =
      if b > 1 then (.error .varint, pos)
      else (.ok (value ||| (b.toUInt64 <<< UInt64.ofNat (7 * index))), pos + MAX_VARINT_LEN) := by
  rw [readVarintLoop, checkedAdd_of_getElem? buf pos index b h, Option.bind_some, h]

theorem readVarintLoop_succ (h : buf.bytes[pos + index]? = some b) (left : Nat) (value : UInt64) :
    readVarintLoop buf pos (left + 1) index value =
      if b.toNat < 128 then
        (.ok (value ||| ((b &&& 0x7f).toUInt64 <<< UInt64.ofNat (7 * index))), pos + (index + 1))
      else
        readVarintLoop buf pos left (index + 1)
          (value ||| ((b &&& 0x7f).toUInt64 <<< UInt64.ofNat (7 * index))) := by
  rw [readVarintLoop, checkedAdd_of_getElem? buf pos index b h, Option.bind_some, h]
  simp only [and_continuation_eq_zero]

theorem readVarintLoop_end (h : buf.bytes[pos + index]? = none) (left : Nat) (value : UInt64) :
    readVarintLoop buf pos left index value = (.error .outOfBounds, pos) := by
  have hnone : (checkedAdd pos index).bind (fun i => buf.bytes[i]?) = none := by
    unfold checkedAdd
    by_cases hfits : pos + index ≤ USIZE_MAX
    · rw [if_pos hfits, Option.bind_some, h]
    · rw [if_neg hfits, Option.bind_none]
  rw [readVarintLoop, hnone]

end Byte

/-- Terminated digits of a number that fits are read. -/
theorem readVarintLoop_digits (buf : Slice) (pos : Nat) (ds rest : Bytes) (left index : Nat)
    (value : UInt64) (hdrop : buf.bytes.drop (pos + index) = ds ++ rest) (hterm : Terminated ds)
    (hlen : ds.length ≤ left + 1) (hleft : left + index = 9)
    (hvalue : value.toNat < 2 ^ (7 * index))
    (hfits : value.toNat + 2 ^ (7 * index) * ofDigits ds < 2 ^ 64) :
    ∃ v, readVarintLoop buf pos left index value = (.ok v, pos + (index + ds.length)) ∧
      v.toNat = value.toNat + 2 ^ (7 * index) * ofDigits ds := by
  induction ds generalizing left index value with
  | nil => exact absurd hterm id
  | cons b ds ih =>
      have hget : buf.bytes[pos + index]? = some b := by
        rw [← List.head?_drop, hdrop]
        rfl
      have hnext : buf.bytes.drop (pos + (index + 1)) = ds ++ rest := by
        rw [← Nat.add_assoc, ← List.drop_drop, hdrop]
        rfl
      cases left with
      | zero =>
          -- the tenth byte is the last one, and the number fits only if it is 0 or 1
          have hnil : ds = [] := List.eq_nil_of_length_eq_zero (by
            rw [List.length_cons] at hlen
            omega)
          subst hnil
          have hindex : index = 9 := by omega
          subst hindex
          have hb : b.toNat < 128 := hterm
          have hone : b.toNat ≤ 1 := by
            simp only [ofDigits] at hfits
            omega
          rw [readVarintLoop_zero hget, if_neg (by rw [gt_iff_lt, UInt8.lt_iff_toNat_lt]; exact Nat.not_lt.mpr hone)]
          refine ⟨_, rfl, ?_⟩
          rw [toNat_or_shift value _ 9 (by omega) hvalue (by rw [UInt8.toNat_toUInt64]; omega),
            UInt8.toNat_toUInt64, ofDigits, ofDigits]
          omega
      | succ left =>
          rcases value_step value index b (by omega) hvalue with ⟨hstep, hlt⟩
          rw [readVarintLoop_succ hget]
          cases ds with
          | nil =>
              have hb : b.toNat < 128 := hterm
              rw [if_pos hb]
              refine ⟨_, rfl, ?_⟩
              rw [hstep, ofDigits, ofDigits, Nat.mul_zero, Nat.add_zero]
          | cons c cs =>
              have hpow : 2 ^ (7 * (index + 1)) = 2 ^ (7 * index) * 128 := by ring
              have hsum : value.toNat + 2 ^ (7 * index) * ofDigits (b :: c :: cs) =
                  value.toNat + 2 ^ (7 * index) * (b.toNat % 128) +
                    2 ^ (7 * (index + 1)) * ofDigits (c :: cs) := by
                rw [ofDigits, hpow]
                ring
              rw [if_neg (Nat.not_lt.mpr hterm.1)]
              rw [List.length_cons] at hlen
              rcases ih left (index + 1) _ hnext hterm.2 (by omega) (by omega)
                (by rw [hstep]; exact hlt) (by rw [hstep, ← hsum]; exact hfits) with
                ⟨v, hv, hval⟩
              refine ⟨v, ?_, ?_⟩
              · rw [hv, List.length_cons (a := b)]
                congr 1
                omega
              · rw [hval, hstep, hsum]

/-- What is read are terminated digits inside the slice; what is refused
    leaves the position where it was. -/
theorem readVarintLoop_spec (buf : Slice) (pos left index : Nat) (value : UInt64)
    (hleft : left + index = 9) (hvalue : value.toNat < 2 ^ (7 * index)) :
    (∃ e, readVarintLoop buf pos left index value = (.error e, pos)) ∨
    ∃ ds v, readVarintLoop buf pos left index value = (.ok v, pos + (index + ds.length)) ∧
      ds.length ≤ left + 1 ∧ pos + (index + ds.length) ≤ buf.len ∧ Terminated ds ∧
      slice buf.bytes (pos + index) ds.length = ds ∧
      v.toNat = value.toNat + 2 ^ (7 * index) * ofDigits ds := by
  induction left generalizing index value with
  | zero =>
      cases hget : buf.bytes[pos + index]? with
      | none => exact Or.inl ⟨_, readVarintLoop_end hget 0 value⟩
      | some b =>
          have hlt := (List.getElem?_eq_some_iff.mp hget).1
          rw [readVarintLoop_zero hget]
          by_cases hb : b > 1
          · exact Or.inl ⟨_, if_pos hb⟩
          · have hone : b.toNat ≤ 1 := by
              rw [gt_iff_lt, UInt8.lt_iff_toNat_lt] at hb
              exact Nat.not_lt.mp hb
            have hindex : index = 9 := by omega
            subst hindex
            refine Or.inr ⟨[b], _, if_neg hb, Nat.le_refl 1, ?_, ?_, ?_, ?_⟩
            · exact hlt
            · show b.toNat < 128
              omega
            · exact slice_succ _ _ 0 b hget
            · rw [toNat_or_shift value _ 9 (by omega) hvalue (by rw [UInt8.toNat_toUInt64]; omega),
                UInt8.toNat_toUInt64, ofDigits, ofDigits]
              omega
  | succ left ih =>
      cases hget : buf.bytes[pos + index]? with
      | none => exact Or.inl ⟨_, readVarintLoop_end hget _ value⟩
      | some b =>
          have hlt := (List.getElem?_eq_some_iff.mp hget).1
          rcases value_step value index b (by omega) hvalue with ⟨hstep, hlt'⟩
          rw [readVarintLoop_succ hget]
          by_cases hb : b.toNat < 128
          · refine Or.inr ⟨[b], _, if_pos hb, by rw [List.length_singleton]; omega, ?_, hb, ?_, ?_⟩
            · exact hlt
            · exact slice_succ _ _ 0 b hget
            · rw [hstep, ofDigits, ofDigits, Nat.mul_zero, Nat.add_zero]
          · rw [if_neg hb]
            rcases ih (index + 1) _ (by omega) (by rw [hstep]; exact hlt') with
              ⟨e, he⟩ | ⟨ds, v, hv, hlen, hend, hterm, hslice, hval⟩
            · exact Or.inl ⟨e, he⟩
            · refine Or.inr ⟨b :: ds, v, ?_, ?_, ?_, terminated_cons b ds (by omega) hterm, ?_, ?_⟩
              · rw [hv, List.length_cons]
                congr 1
                omega
              · rw [List.length_cons]
                omega
              · rw [List.length_cons]
                omega
              · rw [List.length_cons, slice_succ _ _ _ b hget, Nat.add_assoc, hslice]
              · have hpow : 2 ^ (7 * (index + 1)) = 2 ^ (7 * index) * 128 := by ring
                rw [hval, hstep, ofDigits, hpow]
                ring

theorem readVarint_digits (buf : Slice) (pos : Nat) (ds rest : Bytes)
    (hdrop : buf.bytes.drop pos = ds ++ rest) (hterm : Terminated ds) (hlen : ds.length ≤ 10)
    (hfits : ofDigits ds < 2 ^ 64) :
    readVarint buf pos = (.ok (UInt64.ofNat (ofDigits ds)), pos + ds.length) := by
  rcases readVarintLoop_digits buf pos ds rest 9 0 0 hdrop hterm hlen rfl (by decide)
    (by show 0 + 2 ^ (7 * 0) * ofDigits ds < 2 ^ 64; omega) with ⟨v, hv, hval⟩
  have hzero : (0 : UInt64).toNat = 0 := rfl
  have hof : v = UInt64.ofNat (ofDigits ds) := by
    refine UInt64.toNat_inj.mp ?_
    rw [hval, hzero, UInt64.toNat_ofNat']
    omega
  rw [readVarint, ← hof]
  rw [Nat.zero_add] at hv
  exact hv

theorem readVarint_spec (buf : Slice) (pos : Nat) :
    (∃ e, readVarint buf pos = (.error e, pos)) ∨
    ∃ ds v, readVarint buf pos = (.ok v, pos + ds.length) ∧ 1 ≤ ds.length ∧ ds.length ≤ 10 ∧
      pos + ds.length ≤ buf.len ∧ Terminated ds ∧ slice buf.bytes pos ds.length = ds ∧
      v.toNat = ofDigits ds := by
  rcases readVarintLoop_spec buf pos 9 0 0 rfl (by decide) with
    ⟨e, he⟩ | ⟨ds, v, hv, hlen, hend, hterm, hslice, hval⟩
  · exact Or.inl ⟨e, he⟩
  · have hzero : (0 : UInt64).toNat = 0 := rfl
    rw [Nat.zero_add] at hv hend
    rw [hzero, Nat.zero_add, Nat.mul_zero, Nat.pow_zero, Nat.one_mul] at hval
    exact Or.inr ⟨ds, v, hv, hterm.length_pos, hlen, hend, hterm, hslice, hval⟩

/-! ### A field read -/

theorem length_digits_le_ten (n : Nat) (h : n < 2 ^ 64) : (digits n).length ≤ 10 :=
  (length_digits_le n 9).mpr (by omega)

theorem fromTag_eq (tag : UInt64) (wire : WireType) (h : tag.toNat % 8 = wire.toNat) :
    WireType.fromTag tag = some wire := by
  have hmask : (0x7 : UInt64).toNat = 2 ^ 3 - 1 := rfl
  have hlow : (tag &&& 0x7).toNat = wire.toNat := by
    rw [UInt64.toNat_and, hmask, Nat.and_two_pow_sub_one_eq_mod]
    exact h
  rw [WireType.fromTag, hlow]
  cases wire <;> rfl

namespace Reader

variable (r : Reader) (rest : Bytes)

theorem varint_digits (n : Nat) (hn : n < 2 ^ 64)
    (hdrop : r.buf.bytes.drop r.pos = digits n ++ rest) :
    r.varint = .ok (UInt64.ofNat n, { r with pos := r.pos + (digits n).length }) := by
  have hread := readVarint_digits r.buf r.pos (digits n) rest hdrop (terminated_digits n)
    (length_digits_le_ten n hn) (by rw [ofDigits_digits]; exact hn)
  rw [ofDigits_digits] at hread
  rw [varint, hread]

theorem take_slice (b : Slice) (hdrop : r.buf.bytes.drop r.pos = b.bytes ++ rest) (hpos : r.pos ≤ r.buf.len) :
    r.take b.len = .ok (b, { r with pos := r.pos + b.len }) := by
  have hlen := congrArg List.length hdrop
  rw [List.length_drop, List.length_append] at hlen
  have hfits : r.pos ≤ r.buf.len ∧ b.len ≤ r.buf.len - r.pos := by
    unfold Slice.len at hpos ⊢
    omega
  have hslice : slice r.buf.bytes r.pos b.len = b.bytes := by
    rw [slice, hdrop, Slice.len, List.take_left' rfl]
  rw [take, dif_pos hfits]
  congr 2
  exact Slice.ext hslice

theorem drop_past (a : Bytes) (hdrop : r.buf.bytes.drop r.pos = a ++ rest) :
    r.buf.bytes.drop (r.pos + a.length) = rest := by
  rw [← List.drop_drop, hdrop, List.drop_left' rfl]

theorem pos_le_of_drop (a : Bytes) (hpos : r.pos ≤ r.buf.len)
    (hdrop : r.buf.bytes.drop r.pos = a ++ rest) : r.pos + a.length ≤ r.buf.len := by
  have hlen := congrArg List.length hdrop
  rw [List.length_drop, List.length_append] at hlen
  unfold Slice.len at hpos ⊢
  omega

def fixed (w n : Nat) (hw : w ≤ 8) : Slice :=
  { bytes := toLE w n
    fits := by
      rw [length_toLE]
      unfold ISIZE_MAX
      omega }

theorem readValue_bytes (v : Value) (hdrop : r.buf.bytes.drop r.pos = v.bytes ++ rest)
    (hpos : r.pos ≤ r.buf.len) :
    r.readValue v.wire = .ok (v, { r with pos := r.pos + v.bytes.length }) := by
  cases v with
  | varint v =>
      have hread := r.varint_digits rest v.toNat v.toNat_lt hdrop
      rw [UInt64.ofNat_toNat] at hread
      rw [Value.wire, readValue, hread]
      rfl
  | i64 bits =>
      have hread := r.take_slice rest (fixed 8 bits.toNat (by omega)) hdrop hpos
      have hlen : (fixed 8 bits.toNat (by omega)).len = 8 := length_toLE 8 _
      have hbits : ofLE (toLE 8 bits.toNat) = bits.toNat := ofLE_toLE 8 _ bits.toNat_lt
      rw [hlen] at hread
      rw [Value.wire, readValue, hread, Value.bytes, length_toLE]
      show Except.ok (Value.i64 (UInt64.ofNat (ofLE (toLE 8 bits.toNat))), _) = _
      rw [hbits, UInt64.ofNat_toNat]
  | i32 bits =>
      have hread := r.take_slice rest (fixed 4 bits.toNat (by omega)) hdrop hpos
      have hlen : (fixed 4 bits.toNat (by omega)).len = 4 := length_toLE 4 _
      have hbits : ofLE (toLE 4 bits.toNat) = bits.toNat := ofLE_toLE 4 _ bits.toNat_lt
      rw [hlen] at hread
      rw [Value.wire, readValue, hread, Value.bytes, length_toLE]
      show Except.ok (Value.i32 (UInt32.ofNat (ofLE (toLE 4 bits.toNat))), _) = _
      rw [hbits, UInt32.ofNat_toNat]
  | len b =>
      have hlt : b.len < 2 ^ 64 := by
        have hfits := b.fits
        unfold ISIZE_MAX at hfits
        unfold Slice.len
        omega
      have hdrop' : r.buf.bytes.drop r.pos = digits b.len ++ (b.bytes ++ rest) := by
        rw [hdrop, Value.bytes, List.append_assoc]
      have hread := r.varint_digits _ b.len hlt hdrop'
      have htake := Reader.take_slice { r with pos := r.pos + (digits b.len).length } rest b
        (r.drop_past _ _ hdrop') (r.pos_le_of_drop _ _ hpos hdrop')
      rw [Value.wire, readValue, hread]
      show ((Reader.take _ (UInt64.ofNat b.len).toNat).bind _) = _
      rw [Slice.toNat_len, htake]
      show Except.ok _ = _
      rw [Value.bytes, List.length_append, ← Nat.add_assoc]
      rfl

theorem readField_bytes (f : Field) (hf : f.WellFormed)
    (hdrop : r.buf.bytes.drop r.pos = f.bytes ++ rest) (hpos : r.pos ≤ r.buf.len) :
    r.readField = .ok (f, { r with pos := r.pos + f.bytes.length }) := by
  have hwire := f.value.wire.toNat_lt
  have hnumber := hf.2
  have hdrop' : r.buf.bytes.drop r.pos =
      digits (8 * f.number.toNat + f.value.wire.toNat) ++ (f.value.bytes ++ rest) := by
    rw [hdrop, Field.bytes, List.append_assoc]
  have hread := r.varint_digits _ _ (by omega) hdrop'
  have hvalue := Reader.readValue_bytes { r with pos := r.pos + _ } rest f.value
    (r.drop_past _ _ hdrop') (r.pos_le_of_drop _ _ hpos hdrop')
  have htag : (UInt64.ofNat (8 * f.number.toNat + f.value.wire.toNat)).toNat =
      8 * f.number.toNat + f.value.wire.toNat := by
    rw [UInt64.toNat_ofNat']
    omega
  have htag' : (UInt32.ofNat (8 * f.number.toNat + f.value.wire.toNat)).toNat =
      8 * f.number.toNat + f.value.wire.toNat := by
    rw [UInt32.toNat_ofNat']
    omega
  have hnarrow : narrowU32 (UInt64.ofNat (8 * f.number.toNat + f.value.wire.toNat)) =
      .ok (UInt32.ofNat (8 * f.number.toNat + f.value.wire.toNat)) := by
    rw [narrowU32, htag, if_pos (by omega)]
  have hfrom : WireType.fromTag
      (UInt32.ofNat (8 * f.number.toNat + f.value.wire.toNat)).toUInt64 = some f.value.wire := by
    refine fromTag_eq _ _ ?_
    rw [UInt32.toNat_toUInt64, htag']
    omega
  have hshift : (UInt32.ofNat (8 * f.number.toNat + f.value.wire.toNat)) >>> 3 = f.number := by
    refine UInt32.toNat_inj.mp ?_
    rw [UInt32.toNat_shiftRight, htag', Nat.shiftRight_eq_div_pow]
    show (8 * f.number.toNat + f.value.wire.toNat) / 2 ^ 3 = _
    omega
  have hne : f.number ≠ 0 := by
    intro hzero
    have hpositive := hf.1
    rw [hzero] at hpositive
    exact absurd hpositive (by decide)
  rw [readField, hread]
  show (narrowU32 _).bind _ = _
  rw [hnarrow, Except.bind, hfrom, hshift]
  dsimp only
  rw [if_neg hne]
  show (Reader.readValue _ _).bind _ = _
  rw [hvalue]
  show Except.ok _ = _
  rw [Field.bytes, List.length_append, ← Nat.add_assoc]

/-! ### The calls of a reader -/

/-- The reader moved forward, inside its slice. -/
def Ahead (r r' : Reader) : Prop := r'.buf = r.buf ∧ r.pos ≤ r'.pos ∧ r'.pos ≤ r.buf.len

theorem Ahead.trans {r r' r'' : Reader} (h : Ahead r r') (h' : Ahead r' r'') : Ahead r r'' := by
  refine ⟨h'.1.trans h.1, Nat.le_trans h.2.1 h'.2.1, ?_⟩
  rw [← h.1]
  exact h'.2.2

theorem varint_ahead (r r' : Reader) (v : UInt64) (h : r.varint = .ok (v, r')) :
    Ahead r r' ∧ r.pos < r'.pos := by
  unfold varint at h
  rcases readVarint_spec r.buf r.pos with ⟨e, he⟩ | ⟨ds, w, hw, hpos, _, hend, _⟩
  · rw [he] at h
    cases h
  · rw [hw] at h
    cases h
    exact ⟨⟨rfl, Nat.le_add_right _ _, hend⟩, Nat.lt_add_of_pos_right hpos⟩

theorem take_ahead (r r' : Reader) (n : Nat) (b : Slice) (h : r.take n = .ok (b, r')) :
    Ahead r r' := by
  unfold take at h
  split at h
  · next hfits =>
      cases h
      exact ⟨rfl, Nat.le_add_right _ _, by show r.pos + n ≤ r.buf.len; omega⟩
  · cases h

theorem bind_eq_ok {ε α β : Type} {x : Except ε α} {f : α → Except ε β} {b : β}
    (h : x.bind f = .ok b) : ∃ a, x = .ok a ∧ f a = .ok b := by
  cases x with
  | error e => cases h
  | ok a => exact ⟨a, rfl, h⟩

theorem readValue_ahead (r r' : Reader) (wire : WireType) (v : Value)
    (h : r.readValue wire = .ok (v, r')) : Ahead r r' := by
  cases wire with
  | varint =>
      rcases bind_eq_ok h with ⟨⟨w, q⟩, hw, hq⟩
      cases hq
      exact (varint_ahead r _ w hw).1
  | i64 =>
      rcases bind_eq_ok h with ⟨⟨b, q⟩, hb, hq⟩
      cases hq
      exact take_ahead r _ 8 b hb
  | len =>
      rcases bind_eq_ok h with ⟨⟨w, q⟩, hw, hq⟩
      rcases bind_eq_ok hq with ⟨⟨b, q'⟩, hb, hq'⟩
      cases hq'
      exact (varint_ahead r q w hw).1.trans (take_ahead q _ _ b hb)
  | i32 =>
      rcases bind_eq_ok h with ⟨⟨b, q⟩, hb, hq⟩
      cases hq
      exact take_ahead r _ 4 b hb

theorem readField_ahead (r r' : Reader) (f : Field) (h : r.readField = .ok (f, r')) :
    r'.buf = r.buf ∧ r.pos < r'.pos := by
  rcases bind_eq_ok h with ⟨⟨w, q⟩, hw, hq⟩
  rcases bind_eq_ok hq with ⟨tag, _, htag⟩
  rcases varint_ahead r q w hw with ⟨hahead, hlt⟩
  simp only at htag
  split at htag
  · cases htag
  · split at htag
    · cases htag
    · rcases bind_eq_ok htag with ⟨⟨v, q'⟩, hv, hq'⟩
      cases hq'
      have hvalue := readValue_ahead q q' _ v hv
      exact ⟨hvalue.1.trans hahead.1, Nat.lt_of_lt_of_le hlt hvalue.2.1⟩

/-- The reader after `k` calls of `next`. -/
def calls : Nat → Reader → Reader
  | 0, r => r
  | k + 1, r => calls k r.next.2

/-- What the call after `k` others answers. -/
def answer (r : Reader) (k : Nat) : Option (Except Malformed Field) := (calls k r).next.1

theorem answer_succ (r : Reader) (k : Nat) : r.answer (k + 1) = r.next.2.answer k := rfl

theorem calls_add (r : Reader) (j k : Nat) : calls (j + k) r = calls k (calls j r) := by
  induction j generalizing r with
  | zero => rw [Nat.zero_add]; rfl
  | succ j ih => rw [Nat.succ_add]; exact ih r.next.2

theorem next_end (r : Reader) (h : r.pos ≥ r.buf.len) : r.next = (none, r) := by
  rw [next, if_pos h]

theorem answer_end (r : Reader) (h : r.pos ≥ r.buf.len) (k : Nat) : r.answer k = none := by
  induction k with
  | zero => rw [answer, calls, next_end r h]
  | succ k ih => rw [answer_succ, next_end r h, ih]

theorem next_inside (r : Reader) (h : r.pos < r.buf.len) :
    r.next.1.isSome = true ∧ r.next.2.buf = r.buf ∧ r.pos < r.next.2.pos := by
  rw [next, if_neg (Nat.not_le.mpr h)]
  cases hfield : r.readField with
  | error e => exact ⟨rfl, rfl, h⟩
  | ok x =>
      rcases x with ⟨f, r'⟩
      exact ⟨rfl, readField_ahead r r' f hfield⟩

/-- The calls answer something no more often than there are bytes left, and
    nothing from then on. -/
theorem answers_end (r : Reader) :
    ∃ n ≤ r.buf.len - r.pos, (∀ k < n, (r.answer k).isSome = true) ∧
      ∀ k, n ≤ k → r.answer k = none := by
  induction hleft : r.buf.len - r.pos using Nat.strong_induction_on generalizing r with
  | _ left ih =>
      by_cases h : r.pos < r.buf.len
      · rcases next_inside r h with ⟨hsome, hbuf, hlt⟩
        rcases ih (r.next.2.buf.len - r.next.2.pos) (by rw [hbuf]; omega) r.next.2 rfl with
          ⟨n, hn, hbefore, hafter⟩
        rw [hbuf] at hn
        refine ⟨n + 1, by omega, fun k hk => ?_, fun k hk => ?_⟩
        · cases k with
          | zero => exact hsome
          | succ k => exact hbefore k (by omega)
        · cases k with
          | zero => exact absurd hk (by omega)
          | succ k => exact hafter k (by omega)
      · exact ⟨0, Nat.zero_le _, fun k hk => absurd hk (Nat.not_lt_zero k),
          fun k _ => answer_end r (Nat.not_lt.mp h) k⟩

theorem answer_after_error (r : Reader) (k : Nat) (e : Malformed)
    (h : r.answer k = some (.error e)) (j : Nat) (hj : k < j) : r.answer j = none := by
  have hend : (calls k r).next.2.pos ≥ (calls k r).next.2.buf.len := by
    by_cases hpos : (calls k r).pos ≥ (calls k r).buf.len
    · rw [answer, next_end _ hpos] at h
      cases h
    · rw [answer, next, if_neg hpos] at h
      rw [next, if_neg hpos]
      cases hfield : (calls k r).readField with
      | error e => exact Nat.le_refl _
      | ok x =>
          rw [hfield] at h
          cases h
  rcases Nat.exists_eq_add_of_lt hj with ⟨d, rfl⟩
  have hcalls : calls (k + d + 1) r = calls d (calls k r).next.2 := by
    rw [Nat.add_assoc, calls_add]
    rfl
  rw [answer, hcalls]
  exact answer_end _ hend d

theorem next_bytes (r : Reader) (rest : Bytes) (f : Field) (hf : f.WellFormed)
    (hdrop : r.buf.bytes.drop r.pos = f.bytes ++ rest) (hpos : r.pos ≤ r.buf.len) :
    r.next = (some (.ok f), { r with pos := r.pos + f.bytes.length }) := by
  have hle := r.pos_le_of_drop _ _ hpos hdrop
  have hlen : 0 < f.bytes.length := by
    have htag := (terminated_digits (8 * f.number.toNat + f.value.wire.toNat)).length_pos
    rw [Field.bytes, List.length_append]
    omega
  rw [next, if_neg (by omega), r.readField_bytes rest f hf hdrop hpos]

theorem answer_bytes (fields : List Field) (hwf : ∀ f ∈ fields, f.WellFormed) (r : Reader)
    (hdrop : r.buf.bytes.drop r.pos = fields.flatMap Field.bytes) (hpos : r.pos ≤ r.buf.len)
    (k : Nat) : r.answer k = (fields[k]?).map Except.ok := by
  induction fields generalizing r k with
  | nil =>
      have hlen := congrArg List.length hdrop
      rw [List.length_drop, List.flatMap_nil, List.length_nil] at hlen
      rw [answer_end r (by unfold Slice.len; omega) k]
      rfl
  | cons f fields ih =>
      rw [List.flatMap_cons] at hdrop
      have hnext := r.next_bytes _ f (hwf f List.mem_cons_self) hdrop hpos
      cases k with
      | zero =>
          rw [answer, calls, hnext]
          rfl
      | succ k =>
          rw [answer_succ, hnext]
          exact ih (fun g hg => hwf g (List.mem_cons_of_mem f hg)) _ (r.drop_past _ _ hdrop)
            (r.pos_le_of_drop _ _ hpos hdrop) k

end Reader

theorem fields_after (out : Slice) (enc : Bytes) (fields : List Field) :
    fields.foldl Writer.field (Writer.after out enc) =
      Writer.after out (enc ++ fields.flatMap Field.bytes) := by
  induction fields generalizing enc with
  | nil => rw [List.foldl_nil, List.flatMap_nil, List.append_nil]
  | cons f fields ih =>
      rw [List.foldl_cons, field_after, ih, List.flatMap_cons, List.append_assoc]

theorem length_flatMap_bytes (fields : List Field) :
    (fields.flatMap Field.bytes).length = (fields.map Field.length).sum := by
  induction fields with
  | nil => rfl
  | cons f fields ih =>
      rw [List.flatMap_cons, List.length_append, ih, length_bytes, List.map_cons, List.sum_cons]

section Message

variable (fields : List Field) (out : Slice)

theorem finish_fits (hfits : (fields.map Field.length).sum ≤ out.len) :
    ∃ used, (fields.foldl Writer.field (Writer.new out)).finish = .ok used ∧
      used.bytes = fields.flatMap Field.bytes := by
  have hout := out.fits
  unfold ISIZE_MAX at hout
  rw [← length_flatMap_bytes] at hfits
  rw [Writer.new_eq_after, fields_after, List.nil_append, Writer.finish, Writer.len_after]
  have hneeded : ¬ (Writer.after out (fields.flatMap Field.bytes)).needed > out.len := by
    show ¬ min (fields.flatMap Field.bytes).length USIZE_MAX > out.len
    omega
  rw [if_neg hneeded]
  refine ⟨_, rfl, ?_⟩
  show ((fields.flatMap Field.bytes).take out.len ++ _).take
    (min (fields.flatMap Field.bytes).length out.len) = _
  rw [Nat.min_eq_left hfits, List.take_of_length_le hfits, List.take_left' rfl]

theorem finish_short (hshort : out.len < (fields.map Field.length).sum) :
    (fields.foldl Writer.field (Writer.new out)).finish =
      .error (.capacity (min (fields.map Field.length).sum USIZE_MAX) out.len) := by
  have hout := out.fits
  unfold ISIZE_MAX at hout
  rw [← length_flatMap_bytes] at hshort ⊢
  rw [Writer.new_eq_after, fields_after, List.nil_append, Writer.finish, Writer.len_after]
  have hneeded : (Writer.after out (fields.flatMap Field.bytes)).needed > out.len := by
    show min (fields.flatMap Field.bytes).length USIZE_MAX > out.len
    unfold USIZE_MAX
    unfold Slice.len at hshort ⊢
    omega
  rw [if_pos hneeded]
  rfl

theorem out_written :
    (fields.foldl Writer.field (Writer.new out)).out.bytes =
      (fields.flatMap Field.bytes).take out.len ++ out.bytes.drop (fields.map Field.length).sum := by
  rw [Writer.new_eq_after, fields_after, List.nil_append, ← length_flatMap_bytes]
  rfl

end Message

/-- The writer, the reader and the length functions agree. Well-formed fields
    written into a slice with room for them take as many bytes as their lengths
    say and are read back, in order, and nothing after them; into a shorter one
    they are refused with the bytes they need, as far as a `usize` says; and the
    slice is written from its start, up to its end or the last byte of the
    fields. A varint that is refused leaves the position where it was, and one
    that is read is one to ten terminated digits, whose value it has. The calls
    of a reader answer at most once for each byte, and nothing after an
    error. -/
theorem proto3_codec :
    (∀ (fields : List Field) (out : Slice), (∀ f ∈ fields, f.WellFormed) →
      ((fields.map Field.length).sum ≤ out.len →
        ∃ used, (fields.foldl Writer.field (Writer.new out)).finish = .ok used ∧
          used.len = (fields.map Field.length).sum ∧
          ∀ k, (Reader.new used).answer k = (fields[k]?).map Except.ok) ∧
      (out.len < (fields.map Field.length).sum →
        (fields.foldl Writer.field (Writer.new out)).finish =
          .error (.capacity (min (fields.map Field.length).sum USIZE_MAX) out.len)) ∧
      (fields.foldl Writer.field (Writer.new out)).out.bytes =
        (fields.flatMap Field.bytes).take out.len ++
          out.bytes.drop (fields.map Field.length).sum) ∧
    (∀ (buf : Slice) (pos : Nat),
      (∃ e, readVarint buf pos = (.error e, pos)) ∨
      ∃ ds v, readVarint buf pos = (.ok v, pos + ds.length) ∧ 1 ≤ ds.length ∧ ds.length ≤ 10 ∧
        pos + ds.length ≤ buf.len ∧ Terminated ds ∧ slice buf.bytes pos ds.length = ds ∧
        v.toNat = ofDigits ds) ∧
    ∀ buf : Slice, ∃ n ≤ buf.len, (∀ k < n, ((Reader.new buf).answer k).isSome = true) ∧
      (∀ k, n ≤ k → (Reader.new buf).answer k = none) ∧
      ∀ k e, (Reader.new buf).answer k = some (.error e) →
        ∀ j, k < j → (Reader.new buf).answer j = none := by
  refine ⟨fun fields out hwf => ⟨fun hfits => ?_, finish_short fields out, out_written fields out⟩,
    readVarint_spec, fun buf => ?_⟩
  · rcases finish_fits fields out hfits with ⟨used, hused, hbytes⟩
    refine ⟨used, hused, ?_, fun k => ?_⟩
    · rw [Slice.len, hbytes, length_flatMap_bytes]
    · exact Reader.answer_bytes fields hwf (Reader.new used)
        (by rw [Reader.new, List.drop_zero]; exact hbytes) (Nat.zero_le _) k
  · rcases (Reader.new buf).answers_end with ⟨n, hn, hbefore, hafter⟩
    exact ⟨n, hn, hbefore, hafter, fun k e h j hj => (Reader.new buf).answer_after_error k e h j hj⟩

/-- A field of 300 takes three bytes of eight, and is read back. -/
theorem proto3_codec_varint :
    ∃ used, ([⟨1, .varint 300⟩].foldl Writer.field
        (Writer.new ⟨List.replicate 8 0, by decide⟩)).finish = .ok used ∧
      used.len = 3 ∧ (Reader.new used).answer 0 = some (.ok ⟨1, .varint 300⟩) ∧
      (Reader.new used).answer 1 = none := by
  rcases (proto3_codec.1 [⟨1, .varint 300⟩] ⟨List.replicate 8 0, by decide⟩
    (by rintro f hf; rw [List.mem_singleton.mp hf]; exact ⟨by decide, by decide⟩)).1 (by decide)
    with ⟨used, hused, hlen, hanswer⟩
  exact ⟨used, hused, hlen, hanswer 0, hanswer 1⟩

/-- One payload, as often as it is repeated, asks for more bytes than the
    count holds. -/
theorem saturates (n : Nat) (b : Slice) (h : 2 ^ 64 ≤ n * b.len) :
    (∀ f ∈ List.replicate n (⟨1, .len b⟩ : Field), f.WellFormed) ∧
      0 < ((List.replicate n (⟨1, .len b⟩ : Field)).map Field.length).sum ∧
      ((List.replicate n (⟨1, .len b⟩ : Field)).foldl Writer.field
          (Writer.new ⟨[], by decide⟩)).finish ≠
        .error (.capacity ((List.replicate n (⟨1, .len b⟩ : Field)).map Field.length).sum 0) := by
  have hfield : b.len ≤ Field.length ⟨1, .len b⟩ := by
    rw [Field.length, Value.length]
    omega
  have hsum : ((List.replicate n (⟨1, .len b⟩ : Field)).map Field.length).sum =
      n * Field.length ⟨1, .len b⟩ := by
    rw [List.map_replicate, List.sum_replicate_nat]
  have hlarge : 2 ^ 64 ≤ n * Field.length ⟨1, .len b⟩ :=
    Nat.le_trans h (Nat.mul_le_mul_left n hfield)
  refine ⟨fun f hf => ?_, by omega, ?_⟩
  · have hone : 1 ≤ (1 : UInt32).toNat ∧ (1 : UInt32).toNat < 2 ^ 29 := by decide
    rw [List.eq_of_mem_replicate hf]
    exact hone
  · rw [finish_short _ ⟨[], by decide⟩ (by show 0 < _; omega)]
    intro heq
    have hneeded := congrArg (fun x => match x with
      | .error (.capacity needed _) => needed
      | .ok _ => 0) heq
    simp only [USIZE_MAX] at hneeded
    omega

/-- A payload of one gibibyte. -/
def gibibyte : Slice :=
  { bytes := List.replicate (2 ^ 30) 0
    fits := by rw [List.length_replicate]; decide }

/-- The one payload, `2 ^ 34` times over. -/
def uncountable : List Field := List.replicate (2 ^ 34) ⟨1, .len gibibyte⟩

attribute [irreducible] gibibyte uncountable

/-- A writer that is asked for more bytes than a `usize` counts does not say
    how many it needs. -/
theorem needed_saturates :
    (∀ f ∈ uncountable, f.WellFormed) ∧ 0 < (uncountable.map Field.length).sum ∧
      (uncountable.foldl Writer.field (Writer.new ⟨[], by decide⟩)).finish ≠
        .error (.capacity (uncountable.map Field.length).sum 0) := by
  have hlen : gibibyte.len = 2 ^ 30 := by
    rw [Slice.len, gibibyte, List.length_replicate]
  rw [uncountable]
  exact saturates (2 ^ 34) gibibyte (by rw [hlen]; decide)

end Proto3

end Ridl
