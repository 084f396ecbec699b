import Mathlib.Algebra.Order.Ring.Int
import Ridl.Diff.Ir

/-!
# Heads and Forms

The layout of a podbuf type: the head of a struct, a tuple, a union or a map
entry, with every byte of it placed, and the form each field takes there.

A variable-length field is a descriptor to data in the tail. A nested head, an
array of an exact length and `bytes` of an exact length are inline.

Sizes are the source's `u32`. The one product of two of them, the size of an
inline array, saturates, and so does its model.
-/

namespace Ridl

namespace Podbuf

/-- The preamble before every head. -/
def PREAMBLE_SIZE : Nat := 8

/-- The alignment of every head. -/
def HEAD_ALIGN : Nat := 8

def DESCRIPTOR_SIZE : Nat := 8

def DESCRIPTOR_ALIGN : Nat := 4

/-- The largest element count a descriptor records. -/
def MAX_COUNT : Nat := 65535

/-- The largest element size a descriptor records. -/
def MAX_ELEM_SIZE : Nat := 65535

def U32_MAX : Nat := 2 ^ 32 - 1

/-- The width of an integer on the wire. -/
inductive IntWidth
  | u8
  | i8
  | u16
  | i16
  | u32
  | i32
  | u64
  | i64
deriving DecidableEq

namespace IntWidth

/-- The width a number of the schema's enumeration names. -/
def ofInt : Int → Option IntWidth
  | 1 => some .u8
  | 2 => some .i8
  | 3 => some .u16
  | 4 => some .i16
  | 5 => some .u32
  | 6 => some .i32
  | 7 => some .u64
  | 8 => some .i64
  | _ => none

def isSigned : IntWidth → Bool
  | .i8 | .i16 | .i32 | .i64 => true
  | _ => false

def bytes : IntWidth → Nat
  | .u8 | .i8 => 1
  | .u16 | .i16 => 2
  | .u32 | .i32 => 4
  | .u64 | .i64 => 8

end IntWidth

inductive FloatWidth
  | f32
  | f64
deriving DecidableEq

namespace FloatWidth

def ofInt : Int → Option FloatWidth
  | 1 => some .f32
  | 2 => some .f64
  | _ => none

def bytes : FloatWidth → Nat
  | .f32 => 4
  | .f64 => 8

end FloatWidth

/-- What a placement holds. -/
inductive Source
  | field (name : String) (ordinal : Nat)
  | flags (index : Nat)
  | tag
  | arm
  | position (position : Nat) (name : String)
  | key
  | value
deriving DecidableEq

/-- The bit of a flags field that records an optional field's presence. -/
structure FlagBit where
  flags : Nat
  bit : Nat
deriving DecidableEq

/-- The type an inline head lays out. -/
inductive Inlined
  | declaration (package name : String)
  | tuple
deriving DecidableEq

structure Pad where
  offset : Nat
  size : Nat
deriving DecidableEq

mutual

/-- The bytes a field takes in a head. -/
inductive Form
  | bool
  | int (width : IntWidth) (signed : Bool)
  | float (width : FloatWidth)
  | enum (width : IntWidth) (signed : Bool) (reference : String)
  | enumSet (width : IntWidth) (reference : String)
  | inline (head : Head) (of : Inlined)
  | inlineArray (element : Form) (count : Nat)
  | descriptor (kind : DescriptorKind)

/-- What a descriptor points at. -/
inductive DescriptorKind
  | text (min max : Nat)
  | bytes (min max : Nat)
  | array (element : Form) (elemSize min max : Nat)
  | map (entry : Head) (elemSize min max : Nat)
  | arm (arms : List ArmHead)

/-- One arm of a union, by its ordinal, with the head it has. -/
inductive ArmHead
  | mk (ordinal : Nat) (head : Head)

/-- One field of a head and where the law put it. -/
inductive Placement
  | mk (source : Source) (offset size align : Nat) (form : Form) (optional : Option FlagBit)

/-- One head. -/
inductive Head
  | mk (size : Nat) (fields : List Placement) (pads : List Pad)

end

namespace ArmHead

def ordinal : ArmHead → Nat
  | .mk ordinal _ => ordinal

def head : ArmHead → Head
  | .mk _ head => head

end ArmHead

namespace Placement

def source : Placement → Source
  | .mk source .. => source

def offset : Placement → Nat
  | .mk _ offset .. => offset

def size : Placement → Nat
  | .mk _ _ size .. => size

def align : Placement → Nat
  | .mk _ _ _ align .. => align

def form : Placement → Form
  | .mk _ _ _ _ form _ => form

def optional : Placement → Option FlagBit
  | .mk _ _ _ _ _ optional => optional

end Placement

namespace Head

def size : Head → Nat
  | .mk size .. => size

def fields : Head → List Placement
  | .mk _ fields _ => fields

def pads : Head → List Pad
  | .mk _ _ pads => pads

end Head

/-- The bytes one value of the form takes in a head, and the stride of an array
    or a map whose element it is. An inline array saturates. -/
def elemSize : Form → Nat
  | .bool => 1
  | .int width _ | .enum width _ _ | .enumSet width _ => width.bytes
  | .float width => width.bytes
  | .inline head _ => head.size
  | .inlineArray element count => min (elemSize element * count) U32_MAX
  | .descriptor _ => DESCRIPTOR_SIZE

/-- The natural alignment of one value of the form in a head. -/
def alignOf : Form → Nat
  | .bool => 1
  | .int width _ | .enum width _ _ | .enumSet width _ => width.bytes
  | .float width => width.bytes
  | .inline .. => HEAD_ALIGN
  | .inlineArray element _ => alignOf element
  | .descriptor _ => DESCRIPTOR_ALIGN

theorem alignOf_cases (form : Form) :
    alignOf form = 1 ∨ alignOf form = 2 ∨ alignOf form = 4 ∨ alignOf form = 8 := by
  have hint : ∀ width : IntWidth,
      width.bytes = 1 ∨ width.bytes = 2 ∨ width.bytes = 4 ∨ width.bytes = 8 := by
    intro width
    cases width <;> simp [IntWidth.bytes]
  match form with
  | .bool => exact Or.inl rfl
  | .int width _ => exact hint width
  | .enum width _ _ => exact hint width
  | .enumSet width _ => exact hint width
  | .float .f32 => exact Or.inr (Or.inr (Or.inl rfl))
  | .float .f64 => exact Or.inr (Or.inr (Or.inr rfl))
  | .inline .. => exact Or.inr (Or.inr (Or.inr rfl))
  | .inlineArray element _ =>
      rw [alignOf]
      exact alignOf_cases element
  | .descriptor _ => exact Or.inr (Or.inr (Or.inl rfl))

theorem alignOf_pos (form : Form) : 0 < alignOf form := by
  have h := alignOf_cases form
  omega

end Podbuf

end Ridl
