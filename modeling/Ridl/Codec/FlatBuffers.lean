import Ridl.Codec.Payload

/-!
# The FlatBuffers Codec

Reading and writing the parts of a FlatBuffers buffer that every payload
shares.

A buffer is built back to front: a child is written before the parent that
names it, and the root last. The builder fills its slice from the end, and
knows an object by its distance from that end (`Pos`), which no later write
changes. A reader walks the finished buffer from its start.

A scalar is read and written as its little-endian bytes, and a float is its
bits. Where the source asserts a condition in a debug build, the model does
what the release build does.

## Main definitions

* `Builder.reserveSkewed`: Room for an object on an alignment boundary.
* `Builder.pushScalar`, `pushString`, `pushVector`, `pushOffsetVector`,
  `pushTable`: The writes.
* `Builder.finish`: The finished buffer.
-/

namespace Ridl

namespace FlatBuffers

open Library

def OFFSET_SIZE : Nat := 4

def VOFFSET_SIZE : Nat := 2

def VTABLE_HEADER : Nat := 4

/-! ### Scalars -/

/-- A type whose values have `width` little-endian bytes. -/
class LittleEndian (α : Type) where
  width : Nat
  toLeBytes : α → Bytes
  fromLeBytes : Bytes → α
  length_toLeBytes : ∀ v, (toLeBytes v).length = width
  fromLeBytes_toLeBytes : ∀ v, fromLeBytes (toLeBytes v) = v

export LittleEndian (toLeBytes fromLeBytes)

/-- A type that is `w` bytes of a number. -/
@[reducible] def LittleEndian.ofNumber {α : Type} (w : Nat) (toNat : α → Nat) (ofNat : Nat → α)
    (hlt : ∀ v, toNat v < 256 ^ w) (hof : ∀ v, ofNat (toNat v) = v) : LittleEndian α where
  width := w
  toLeBytes v := toLE w (toNat v)
  fromLeBytes bytes := ofNat (ofLE bytes)
  length_toLeBytes v := length_toLE w (toNat v)
  fromLeBytes_toLeBytes v := by rw [ofLE_toLE w (toNat v) (hlt v), hof]

/-- A float, as its bits. -/
structure F32 where
  bits : UInt32
deriving DecidableEq

structure F64 where
  bits : UInt64
deriving DecidableEq

instance : LittleEndian UInt8 :=
  .ofNumber 1 UInt8.toNat UInt8.ofNat UInt8.toNat_lt (fun _ => UInt8.ofNat_toNat)

instance : LittleEndian Int8 :=
  .ofNumber 1 (fun v => v.toUInt8.toNat) (fun n => (UInt8.ofNat n).toInt8)
    (fun v => v.toUInt8.toNat_lt) (fun v => by rw [UInt8.ofNat_toNat, Int8.toInt8_toUInt8])

instance : LittleEndian UInt16 :=
  .ofNumber 2 UInt16.toNat UInt16.ofNat UInt16.toNat_lt (fun _ => UInt16.ofNat_toNat)

instance : LittleEndian Int16 :=
  .ofNumber 2 (fun v => v.toUInt16.toNat) (fun n => (UInt16.ofNat n).toInt16)
    (fun v => v.toUInt16.toNat_lt) (fun v => by rw [UInt16.ofNat_toNat, Int16.toInt16_toUInt16])

instance : LittleEndian UInt32 :=
  .ofNumber 4 UInt32.toNat UInt32.ofNat UInt32.toNat_lt (fun _ => UInt32.ofNat_toNat)

instance : LittleEndian Int32 :=
  .ofNumber 4 (fun v => v.toUInt32.toNat) (fun n => (UInt32.ofNat n).toInt32)
    (fun v => v.toUInt32.toNat_lt) (fun v => by rw [UInt32.ofNat_toNat, Int32.toInt32_toUInt32])

instance : LittleEndian UInt64 :=
  .ofNumber 8 UInt64.toNat UInt64.ofNat UInt64.toNat_lt (fun _ => UInt64.ofNat_toNat)

instance : LittleEndian Int64 :=
  .ofNumber 8 (fun v => v.toUInt64.toNat) (fun n => (UInt64.ofNat n).toInt64)
    (fun v => v.toUInt64.toNat_lt) (fun v => by rw [UInt64.ofNat_toNat, Int64.toInt64_toUInt64])

instance : LittleEndian F32 :=
  .ofNumber 4 (fun v => v.bits.toNat) (fun n => ⟨UInt32.ofNat n⟩) (fun v => v.bits.toNat_lt)
    (fun v => by rw [UInt32.ofNat_toNat])

instance : LittleEndian F64 :=
  .ofNumber 8 (fun v => v.bits.toNat) (fun n => ⟨UInt64.ofNat n⟩) (fun v => v.bits.toNat_lt)
    (fun v => by rw [UInt64.ofNat_toNat])

/-! ### Reading -/

/-- The `len` bytes from `start` on. -/
def bytesAt (buf : Bytes) (start len : Nat) : Except Malformed Bytes :=
  if start + len ≤ buf.length then .ok (slice buf start len) else .error .outOfBounds

def readScalar (α : Type) [LittleEndian α] (buf : Bytes) (start : Nat) : Except Malformed α :=
  (bytesAt buf start (LittleEndian.width α)).map fromLeBytes

def readU8 : Bytes → Nat → Except Malformed UInt8 := readScalar UInt8

def readI8 : Bytes → Nat → Except Malformed Int8 := readScalar Int8

def readU16 : Bytes → Nat → Except Malformed UInt16 := readScalar UInt16

def readI16 : Bytes → Nat → Except Malformed Int16 := readScalar Int16

def readU32 : Bytes → Nat → Except Malformed UInt32 := readScalar UInt32

def readI32 : Bytes → Nat → Except Malformed Int32 := readScalar Int32

def readU64 : Bytes → Nat → Except Malformed UInt64 := readScalar UInt64

def readI64 : Bytes → Nat → Except Malformed Int64 := readScalar Int64

def readF32 : Bytes → Nat → Except Malformed F32 := readScalar F32

def readF64 : Bytes → Nat → Except Malformed F64 := readScalar F64

/-- Zero is false, anything else is true. -/
def readBool (buf : Bytes) (start : Nat) : Except Malformed Bool :=
  (readU8 buf start).map (fun byte => byte ≠ 0)

/-- The position that the offset at `start` names. -/
def follow (buf : Bytes) (start : Nat) : Except Malformed Nat := do
  let relative ← readU32 buf start
  let target := start + relative.toNat
  if target ≥ buf.length then .error .outOfBounds else .ok target

/-- The position of the root table. -/
def root (buf : Bytes) : Except Malformed Nat := follow buf 0

/-- The position of field `slot` of the table at `table`, or `none` when the
    table does not carry it. -/
def field (buf : Bytes) (table : Nat) (slot : UInt16) (width : Nat) :
    Except Malformed (Option Nat) := do
  let soffset ← readI32 buf table
  let vtable := (table : Int) - soffset.toInt
  if vtable < 0 ∨ vtable ≥ buf.length then .error .outOfBounds
  else
    let vtable := vtable.toNat
    let vtableBytes ← readU16 buf vtable
    if vtableBytes.toNat < VTABLE_HEADER then .error .outOfBounds
    else
      let _ ← bytesAt buf vtable vtableBytes.toNat
      let tableBytes ← readU16 buf (vtable + VOFFSET_SIZE)
      let entry := vtable + VTABLE_HEADER + slot.toNat * VOFFSET_SIZE
      if entry + VOFFSET_SIZE > vtable + vtableBytes.toNat then .ok none
      else
        let offset ← readU16 buf entry
        if offset = 0 then .ok none
        -- A field lies wholly inside the table that its vtable describes.
        else if offset.toNat < OFFSET_SIZE ∨ offset.toNat + width > tableBytes.toNat then
          .error .outOfBounds
        else
          let position := table + offset.toNat
          if position ≥ buf.length then .error .outOfBounds else .ok (some position)

/-- `str::from_utf8`. -/
def fromUtf8 (bytes : Bytes) : Except Malformed String :=
  match String.fromUTF8? ⟨bytes.toArray⟩ with
  | some text => .ok text
  | none => .error .utf8

def utf8 (text : String) : Bytes := text.toUTF8.data.toList

/-- The string that the offset at `start` names, with its terminating zero. -/
def string (buf : Bytes) (start : Nat) : Except Malformed String := do
  let first ← follow buf start
  let len ← readU32 buf first
  let bytes ← bytesAt buf (first + OFFSET_SIZE) len.toNat
  let terminator ← bytesAt buf (first + OFFSET_SIZE + len.toNat) 1
  if terminator ≠ [0] then .error .outOfBounds else fromUtf8 bytes

/-- A vector's length and the position of its first element. -/
structure Vector where
  len : Nat
  first : Nat
deriving DecidableEq

/-- The position of element `index`. -/
def Vector.element (v : Vector) (index stride : Nat) : Nat := v.first + index * stride

/-- `usize::checked_mul`. -/
def checkedMul (a b : Nat) : Option Nat := if a * b ≤ USIZE_MAX then some (a * b) else none

/-- The vector that the offset at `start` names, with elements of `stride`
    bytes. -/
def vector (buf : Bytes) (start stride : Nat) : Except Malformed Vector := do
  let header ← follow buf start
  let len ← readU32 buf header
  let first := header + OFFSET_SIZE
  match checkedMul len.toNat stride with
  | none => .error .outOfBounds
  | some span =>
      let _ ← bytesAt buf first span
      .ok ⟨len.toNat, first⟩

/-! ### Writing -/

/-- The position of an object, measured backwards from the end of the slice. -/
structure Pos where
  val : Nat
deriving DecidableEq

/-- A value written into a table field. -/
inductive Field
  | bool (v : Bool)
  | u8 (v : UInt8)
  | i8 (v : Int8)
  | u16 (v : UInt16)
  | i16 (v : Int16)
  | u32 (v : UInt32)
  | i32 (v : Int32)
  | u64 (v : UInt64)
  | i64 (v : Int64)
  | f32 (v : F32)
  | f64 (v : F64)
  | offset (target : Pos)
deriving DecidableEq

namespace Field

/-- The bytes that a value occupies. -/
def size : Field → Nat
  | bool _ | u8 _ | i8 _ => 1
  | u16 _ | i16 _ => 2
  | u32 _ | i32 _ | f32 _ | offset _ => 4
  | u64 _ | i64 _ | f64 _ => 8

end Field

/-- One field of a table. -/
structure TableField where
  slot : UInt16
  offset : UInt16
  value : Field
deriving DecidableEq

/-- The distance from one position to an earlier one. -/
def delta (here target : Pos) : Nat := here.val - target.val

/-- The bytes of a value at the position `here`. -/
def Field.bytes (here : Pos) : Field → Bytes
  | bool v => toLeBytes v.toUInt8
  | u8 v => toLeBytes v
  | i8 v => toLeBytes v
  | u16 v => toLeBytes v
  | i16 v => toLeBytes v
  | u32 v => toLeBytes v
  | i32 v => toLeBytes v
  | u64 v => toLeBytes v
  | i64 v => toLeBytes v
  | f32 v => toLeBytes v
  | f64 v => toLeBytes v
  | offset target => toLE OFFSET_SIZE (delta here target)

/-- A slice that is filled from its end. -/
structure Builder where
  out : Bytes
  used : Nat

namespace Builder

def new (out : Bytes) : Builder := { out := out, used := 0 }

/-- Reserves `size` zeroed bytes whose byte `skew` is on the `align` boundary,
    and returns their position. -/
def reserveSkewed (b : Builder) (size align skew : Nat) : Except EncodeError (Builder × Pos) :=
  let capacity := b.out.length
  match checkedAdd b.used size with
  | none => .error (.capacity USIZE_MAX capacity)
  | some unpadded =>
      let padding := (align + skew % align - unpadded % align) % align
      match checkedAdd unpadded padding with
      | none => .error (.capacity USIZE_MAX capacity)
      | some needed =>
          if needed > capacity then .error (.capacity needed capacity)
          else
            .ok ({
              out := overwrite b.out (capacity - needed) (List.replicate (size + padding) 0)
              used := needed }, ⟨needed⟩)

def reserve (b : Builder) (size align : Nat) : Except EncodeError (Builder × Pos) :=
  b.reserveSkewed size align 0

/-- Copies bytes into an object, `i` bytes from its start. -/
def fill (b : Builder) (position : Pos) (i : Nat) (bytes : Bytes) : Builder :=
  { b with out := overwrite b.out (b.out.length - position.val + i) bytes }

/-- Writes a value, aligned to its own size. -/
def pushScalar (b : Builder) (value : Field) : Except EncodeError (Builder × Pos) := do
  let (b, position) ← b.reserve value.size value.size
  .ok (b.fill position 0 (value.bytes position), position)

def pushU8 (b : Builder) (v : UInt8) : Except EncodeError (Builder × Pos) := b.pushScalar (.u8 v)

def pushI8 (b : Builder) (v : Int8) : Except EncodeError (Builder × Pos) := b.pushScalar (.i8 v)

def pushU16 (b : Builder) (v : UInt16) : Except EncodeError (Builder × Pos) :=
  b.pushScalar (.u16 v)

def pushI16 (b : Builder) (v : Int16) : Except EncodeError (Builder × Pos) := b.pushScalar (.i16 v)

def pushU32 (b : Builder) (v : UInt32) : Except EncodeError (Builder × Pos) :=
  b.pushScalar (.u32 v)

def pushI32 (b : Builder) (v : Int32) : Except EncodeError (Builder × Pos) := b.pushScalar (.i32 v)

def pushU64 (b : Builder) (v : UInt64) : Except EncodeError (Builder × Pos) :=
  b.pushScalar (.u64 v)

def pushI64 (b : Builder) (v : Int64) : Except EncodeError (Builder × Pos) := b.pushScalar (.i64 v)

def pushF32 (b : Builder) (v : F32) : Except EncodeError (Builder × Pos) := b.pushScalar (.f32 v)

def pushF64 (b : Builder) (v : F64) : Except EncodeError (Builder × Pos) := b.pushScalar (.f64 v)

/-- Writes an offset that names `target`. -/
def pushOffset (b : Builder) (target : Pos) : Except EncodeError (Builder × Pos) :=
  b.pushScalar (.offset target)

/-- Writes a string: its length, its bytes and a terminating zero. -/
def pushString (b : Builder) (value : String) : Except EncodeError (Builder × Pos) := do
  let len := (utf8 value).length
  let (b, position) ← b.reserve (OFFSET_SIZE + len + 1) OFFSET_SIZE
  let b := b.fill position 0 (toLE OFFSET_SIZE len)
  -- The terminator is zero already.
  .ok (b.fill position OFFSET_SIZE (utf8 value), position)

/-- Writes a vector of encoded scalars, each `stride` bytes. The elements carry
    the alignment, behind the length. -/
def pushVector (b : Builder) (elements : Bytes) (stride : Nat) :
    Except EncodeError (Builder × Pos) := do
  let count := elements.length / stride
  let size := OFFSET_SIZE + elements.length
  let (align, skew) := if stride > OFFSET_SIZE then (stride, OFFSET_SIZE) else (OFFSET_SIZE, 0)
  let (b, position) ← b.reserveSkewed size align skew
  let b := b.fill position 0 (toLE OFFSET_SIZE count)
  .ok (b.fill position OFFSET_SIZE elements, position)

/-- Writes a vector of offsets to objects already written. Each offset is
    relative to its own position in the vector. -/
def pushOffsetVector (b : Builder) (targets : List Pos) : Except EncodeError (Builder × Pos) :=
  let count := targets.length
  match (checkedAdd count 1).bind (fun slots => checkedMul slots OFFSET_SIZE) with
  | none => .error (.capacity USIZE_MAX b.out.length)
  | some size => do
      let (b, position) ← b.reserve size OFFSET_SIZE
      let b := b.fill position 0 (toLE OFFSET_SIZE count)
      let b := targets.zipIdx.foldl (fun b target =>
        let place := OFFSET_SIZE * (target.2 + 1)
        b.fill position place (toLE OFFSET_SIZE (delta ⟨position.val - place⟩ target.1))) b
      .ok (b, position)

/-- Writes a table and the vtable that describes it. The layout is the
    caller's. -/
def pushTable (b : Builder) (size align : Nat) (slots : UInt16) (fields : List TableField) :
    Except EncodeError (Builder × Pos) := do
  let (b, table) ← b.reserve size align
  let b := fields.foldl (fun b f =>
    b.fill table f.offset.toNat (f.value.bytes ⟨table.val - f.offset.toNat⟩)) b
  let vtableBytes := VTABLE_HEADER + slots.toNat * VOFFSET_SIZE
  let (b, vtable) ← b.reserve vtableBytes VOFFSET_SIZE
  let b := b.fill vtable 0 (toLE VOFFSET_SIZE vtableBytes)
  let b := b.fill vtable VOFFSET_SIZE (toLE VOFFSET_SIZE size)
  let b := fields.foldl (fun b f =>
    b.fill vtable (VTABLE_HEADER + f.slot.toNat * VOFFSET_SIZE)
      (toLE VOFFSET_SIZE f.offset.toNat)) b
  -- The vtable lies at a lower address, so the offset backwards is positive.
  .ok (b.fill table 0 (toLE OFFSET_SIZE (vtable.val - table.val)), table)

/-- Writes the root offset and returns the finished buffer, whose length is a
    multiple of the alignment. -/
def finish (b : Builder) (root : Pos) (align : Nat) : Except EncodeError Bytes := do
  let align := if align > OFFSET_SIZE then align else OFFSET_SIZE
  let (b, position) ← b.reserve OFFSET_SIZE align
  let b := b.fill position 0 (toLE OFFSET_SIZE (delta position root))
  .ok (b.out.drop (b.out.length - position.val))

end Builder

end FlatBuffers

end Ridl
