import Ridl.Podbuf.Writer

/-!
# Regions

Reading a buffer through a window. A byte at or past the size the producer
wrote reads as 0, and so does one past the end of the buffer, so no offset is
out of bounds; sums of offsets saturate or are checked.

## Main definitions

* `Region.u8At`, `Region.u16At`, `Region.u32At`, `Region.u64At`: Its loads.

## Theorems

* `Region.array_of_bytes`: A load of bytes that are there.
-/

namespace Ridl

namespace Podbuf

open Library

/-- `usize::saturating_add`. -/
def saturatingAdd (a b : Nat) : Nat := min (a + b) USIZE_MAX

/-- `size` bytes of a buffer, from `start` on. -/
structure Region where
  buf : List UInt8
  start : UInt64
  size : UInt64

namespace Region

/-- The byte at an offset. -/
def u8At (r : Region) (off : Nat) : UInt8 :=
  if r.size.toNat ≤ off then 0
  else if r.start.toNat + off ≤ USIZE_MAX then r.buf.getD (r.start.toNat + off) 0
  else 0

/-- The `n` bytes from an offset. -/
def array (r : Region) (n off : Nat) : List UInt8 :=
  (List.range n).map fun i => r.u8At (saturatingAdd off i)

def u16At (r : Region) (off : Nat) : UInt16 := UInt16.ofNat (ofLE (r.array 2 off))

def u32At (r : Region) (off : Nat) : UInt32 := UInt32.ofNat (ofLE (r.array 4 off))

def u64At (r : Region) (off : Nat) : UInt64 := UInt64.ofNat (ofLE (r.array 8 off))

end Region

/-- The descriptor of a string, a bytes field or a union field. -/
structure Desc where
  off : UInt32
  len : UInt32
deriving DecidableEq

/-- The descriptor of an array or a map field. -/
structure ArrayDesc where
  off : UInt32
  len : UInt16
  elemSize : UInt16
deriving DecidableEq

def Desc.read (r : Region) (start : Nat) : Desc :=
  ⟨r.u32At start, r.u32At (saturatingAdd start 4)⟩

def ArrayDesc.read (r : Region) (start : Nat) : ArrayDesc :=
  ⟨r.u32At start, r.u16At (saturatingAdd start 4), r.u16At (saturatingAdd start 6)⟩

/-- Why a buffer is malformed. -/
inductive Malformed
  | unaligned
  | preamble
deriving DecidableEq

/-- Reads and checks the preamble: the size of the head. -/
def preambleRead (buf : List UInt8) (aligned : Bool) : Except Malformed UInt32 :=
  if ¬ aligned then .error .unaligned
  else
    let headSize := (Region.mk buf 0 (UInt64.ofNat buf.length)).u32At 0
    if buf.length < PREAMBLE_SIZE ∨ headSize.toNat % 8 ≠ 0 then .error .preamble
    else if PREAMBLE_SIZE + headSize.toNat ≤ buf.length then .ok headSize
    else .error .preamble

namespace Region

theorem array_of_bytes {r : Region} {n off : Nat} {bytes : List UInt8}
    (hlen : bytes.length = n) (hsize : off + n ≤ r.size.toNat)
    (hfit : r.start.toNat + off + n ≤ USIZE_MAX)
    (h : ∀ i < n, r.buf[r.start.toNat + off + i]? = bytes[i]?) : r.array n off = bytes := by
  refine List.ext_getElem? fun i => ?_
  rw [array, List.getElem?_map]
  by_cases hi : i < n
  · rw [List.getElem?_range hi, Option.map_some]
    have hsum : saturatingAdd off i = off + i := Nat.min_eq_left (by omega)
    rw [hsum, u8At, if_neg (by omega), if_pos (by omega), ← Nat.add_assoc, List.getD, h i hi,
      List.getElem?_eq_getElem (by omega)]
    rfl
  · rw [List.getElem?_eq_none (by simpa using hi), List.getElem?_eq_none (by omega)]
    rfl

end Region

end Podbuf

end Ridl
