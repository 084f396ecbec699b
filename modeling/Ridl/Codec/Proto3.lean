import Ridl.Codec.Payload
import Ridl.Library.Base128

/-!
# The proto3 Codec

The parts of a proto3 codec that every payload shares: the lengths of varints
and tags, a writer that fills a slice forwards, and a reader that walks the
fields of a message in order.

The writer answers nothing until it is finished. A write that does not fit
copies what fits and is counted, so `finish` knows how many bytes the whole
message needs. The reader stops at the first fault.

`Writer` carries what its writes rely on: it has written no more than its
slice holds. A write can then neither underflow the room that is left nor
reach past the slice.

## Main definitions

* `Reader.next`: The next field of a message.
* `Writer.tag`, `Writer.varint`, `Writer.fixed32`, `Writer.fixed64`,
  `Writer.bytes`: The writes.
* `Writer.finish`: The bytes written, or the bytes they would need.
-/

namespace Ridl

namespace Proto3

inductive WireType
  | varint
  | i64
  | len
  | i32
deriving DecidableEq

namespace WireType

/-- The wire type as the byte a tag carries. -/
def toByte : WireType → UInt8
  | varint => 0
  | i64 => 1
  | len => 2
  | i32 => 5

/-- The wire type the low three bits of a tag name. -/
def fromTag (tag : UInt64) : Option WireType :=
  match (tag &&& 0x7).toNat with
  | 0 => some varint
  | 1 => some i64
  | 2 => some len
  | 5 => some i32
  | _ => none

end WireType

def MAX_VARINT_LEN : Nat := 10

/-- `u64::leading_zeros`. -/
def leadingZeros (v : UInt64) : Nat := 64 - v.toNat.size

/-- The bytes of a varint: one for every seven bits, and one for zero. -/
def varintLen (v : UInt64) : Nat :=
  let bits := 64 - leadingZeros (v ||| 1)
  (bits + 6) / 7

/-- The bytes of the tag of field `number`, whichever wire type it carries. -/
def tagLen (number : UInt32) : Nat := varintLen (number.toUInt64 <<< 3)

/-- Refuses a slice that cannot hold the encoding. -/
def checkCapacity (needed : Nat) (out : Slice) : Except EncodeError Unit :=
  if needed > out.len then .error (.capacity needed out.len) else .ok ()

/-- The loop of `readVarint`: `left` bytes may come before the tenth. -/
def readVarintLoop (buf : Slice) (pos : Nat) : Nat → Nat → UInt64 → Except Malformed UInt64 × Nat
  | left, index, value =>
      match (checkedAdd pos index).bind (fun i => buf.bytes[i]?) with
      | none => (.error .outOfBounds, pos)
      | some byte =>
          match left with
          | 0 =>
              -- the tenth byte may carry bit 0 alone
              if byte > 1 then (.error .varint, pos)
              else
                (.ok (value ||| (byte.toUInt64 <<< UInt64.ofNat (7 * index))),
                  pos + MAX_VARINT_LEN)
          | left + 1 =>
              let value := value ||| ((byte &&& 0x7f).toUInt64 <<< UInt64.ofNat (7 * index))
              if byte &&& 0x80 = 0 then (.ok value, pos + (index + 1))
              else readVarintLoop buf pos left (index + 1) value

/-- Reads the varint at a position, and answers the position after it; a
    varint that is refused leaves the position where it was. -/
def readVarint (buf : Slice) (pos : Nat) : Except Malformed UInt64 × Nat :=
  readVarintLoop buf pos (MAX_VARINT_LEN - 1) 0 0

/-- The `uint32` a varint holds. -/
def narrowU32 (v : UInt64) : Except Malformed UInt32 :=
  if v.toNat < 2 ^ 32 then .ok (UInt32.ofNat v.toNat) else .error .varint

/-- A value read from a message, by wire type. -/
inductive Value
  | varint (v : UInt64)
  | i64 (bits : UInt64)
  | len (bytes : Slice)
  | i32 (bits : UInt32)

structure Field where
  number : UInt32
  value : Value

/-- Walks the fields of one message. -/
structure Reader where
  buf : Slice
  pos : Nat

namespace Reader

def new (buf : Slice) : Reader := { buf := buf, pos := 0 }

/-- The next `n` bytes, and the reader past them. -/
def take (r : Reader) (n : Nat) : Except Malformed (Slice × Reader) :=
  if h : r.pos ≤ r.buf.len ∧ n ≤ r.buf.len - r.pos then
    .ok ({ bytes := Library.slice r.buf.bytes r.pos n
           fits := by
            have hfits := r.buf.fits
            rw [Library.length_slice _ _ _ (by unfold Slice.len at h; omega)]
            unfold Slice.len at h
            omega },
      { r with pos := r.pos + n })
  else .error .outOfBounds

/-- One varint, and the reader past it. -/
def varint (r : Reader) : Except Malformed (UInt64 × Reader) :=
  match readVarint r.buf r.pos with
  | (.ok v, pos) => .ok (v, { r with pos := pos })
  | (.error e, _) => .error e

/-- The value a tag announces. -/
def readValue (r : Reader) : WireType → Except Malformed (Value × Reader)
  | .varint => do
      let (v, r) ← r.varint
      .ok (.varint v, r)
  | .i64 => do
      let (bytes, r) ← r.take 8
      .ok (.i64 (UInt64.ofNat (Library.ofLE bytes.bytes)), r)
  | .len => do
      let (n, r) ← r.varint
      let (bytes, r) ← r.take n.toNat
      .ok (.len bytes, r)
  | .i32 => do
      let (bytes, r) ← r.take 4
      .ok (.i32 (UInt32.ofNat (Library.ofLE bytes.bytes)), r)

/-- One field: a tag, and the value it announces. -/
def readField (r : Reader) : Except Malformed (Field × Reader) := do
  let (tag, r) ← r.varint
  let tag ← narrowU32 tag
  let number := tag >>> 3
  match WireType.fromTag tag.toUInt64 with
  | none => .error .wireType
  | some wire =>
      if number = 0 then .error .wireType
      else do
        let (value, r) ← r.readValue wire
        .ok ({ number := number, value := value }, r)

/-- The next field, nothing at the end of the message, or the first fault,
    after which the reader is finished. -/
def next (r : Reader) : Option (Except Malformed Field) × Reader :=
  if r.pos ≥ r.buf.len then (none, r)
  else
    match r.readField with
    | .ok (field, r) => (some (.ok field), r)
    | .error e => (some (.error e), { r with pos := r.buf.len })

end Reader

/-- Writes a message forwards into a slice. -/
structure Writer where
  out : Slice
  /-- The bytes written. -/
  used : Nat
  /-- The bytes every write asked for, whether or not they fit. -/
  needed : Nat
  usedFits : used ≤ out.len

namespace Writer

def new (out : Slice) : Writer := { out := out, used := 0, needed := 0, usedFits := Nat.zero_le _ }

/-- How many of `n` bytes fit in the room left. -/
def fitting (n room : Nat) : Nat := if n < room then n else room

theorem fitting_eq (n room : Nat) : fitting n room = min n room := by
  unfold fitting
  by_cases h : n < room
  · rw [if_pos h]
    omega
  · rw [if_neg h]
    omega

theorem used_fitting (w : Writer) (bytes : Bytes) :
    w.used + (bytes.take (fitting bytes.length (w.out.len - w.used))).length ≤
      w.out.bytes.length := by
  have hused := w.usedFits
  unfold Slice.len at hused
  rw [fitting_eq, Slice.len, List.length_take]
  omega

/-- Copies what fits of the bytes, and counts them all. -/
def push (w : Writer) (bytes : Bytes) : Writer :=
  let fits := fitting bytes.length (w.out.len - w.used)
  { out :=
      { bytes := overwrite w.out.bytes w.used (bytes.take fits)
        fits := by
          rw [length_overwrite _ _ _ (w.used_fitting bytes)]
          exact w.out.fits }
    used := w.used + fits
    needed := saturatingAdd w.needed bytes.length
    usedFits := by
      have hused := w.usedFits
      have hroom : fits = min bytes.length (w.out.len - w.used) := fitting_eq _ _
      rw [Slice.len, length_overwrite _ _ _ (w.used_fitting bytes)]
      unfold Slice.len at hused hroom
      omega }

theorem toNat_shiftRight_seven (v : UInt64) : (v >>> 7).toNat = v.toNat / 128 := by
  rw [UInt64.toNat_shiftRight, Nat.shiftRight_eq_div_pow]
  rfl

/-- Writes seven bits for each byte, low bits first, with a continuation bit on
    every byte but the last. -/
def varint (w : Writer) (v : UInt64) : Writer :=
  let byte := (v &&& 0x7f).toUInt8
  let rest := v >>> 7
  if rest = 0 then w.push [byte] else (w.push [byte ||| 0x80]).varint rest
termination_by v.toNat
decreasing_by
  rename_i hrest
  have hne : (v >>> 7).toNat ≠ 0 := fun h => hrest (UInt64.toNat_inj.mp h)
  rw [toNat_shiftRight_seven] at hne ⊢
  omega

def tag (w : Writer) (number : UInt32) (wire : WireType) : Writer :=
  w.varint ((number.toUInt64 <<< 3) ||| wire.toByte.toUInt64)

def fixed32 (w : Writer) (v : UInt32) : Writer := w.push (Library.toLE 4 v.toNat)

def fixed64 (w : Writer) (v : UInt64) : Writer := w.push (Library.toLE 8 v.toNat)

def bytes (w : Writer) (b : Slice) : Writer := w.push b.bytes

/-- The bytes written, or the bytes every write asked for when one did not
    fit. -/
def finish (w : Writer) : Except EncodeError Slice :=
  if w.needed > w.out.len then .error (.capacity w.needed w.out.len)
  else
    .ok { bytes := w.out.bytes.take w.used
          fits := by
            have hfits := w.out.fits
            rw [List.length_take]
            omega }

end Writer

end Proto3

end Ridl
