import Ridl.Library.Blocks
import Ridl.Library.Bytes
import Ridl.Podbuf.Form

/-!
# The Writer

The writer of the podbuf runtime: it fills the caller's slice, reserves the
head first and appends tail blocks, each at its alignment with the gap before
it zeroed.

A `usize` is 64 bits. The end of a block saturates, so a block too large to
address is refused like one the slice has no room for.

## Main definitions

* `Writer.reserveHead`, `Writer.tail`, `Writer.store`, `Writer.finish`: Its
  operations.

## Theorems

* `tail_follows`: A block that is appended.
* `Follows.bind`: One encoder after another.
-/

namespace Ridl

namespace Podbuf

open Library

def USIZE_MAX : Nat := 2 ^ 64 - 1

/-- The rule a value broke. -/
inductive Rule
  | length
  | pattern
  | range
  | unique
deriving DecidableEq

inductive EncodeError
  | unaligned
  | layout (at_ : Nat)
  | capacity (needed available : Nat)
  | contract (rule : Rule)
deriving DecidableEq

/-- The slice, and how much of it is written. -/
structure Writer where
  out : List UInt8
  /-- The slice starts on an 8-byte boundary. -/
  aligned : Bool
  len : Nat
  defect : Option Nat
  inside : len ≤ out.length

/-- An encoder's step. -/
abbrev Encoded := Except EncodeError Writer

/-- The slice with the bytes from an offset replaced. -/
def overwrite (out : List UInt8) (start : Nat) (bytes : List UInt8) : List UInt8 :=
  out.take start ++ bytes ++ out.drop (start + bytes.length)

theorem length_overwrite {out : List UInt8} {start : Nat} {bytes : List UInt8}
    (h : start + bytes.length ≤ out.length) :
    (overwrite out start bytes).length = out.length := by
  unfold overwrite
  rw [List.length_append, List.length_append, List.length_take, List.length_drop]
  omega

/-- A preamble and a zeroed head. -/
def blank (size stop : Nat) : List UInt8 := toLE 4 size ++ List.replicate (stop - 4) 0

theorem length_overwrite_blank {out : List UInt8} {size stop : Nat} (hfour : 4 ≤ stop)
    (hstop : stop ≤ out.length) : (overwrite out 0 (blank size stop)).length = out.length := by
  refine length_overwrite ?_
  rw [blank, List.length_append, length_toLE, List.length_replicate]
  omega

theorem length_overwrite_zeros {out : List UInt8} {start stop : Nat} (hstart : start ≤ stop)
    (hstop : stop ≤ out.length) :
    (overwrite out start (List.replicate (stop - start) 0)).length = out.length := by
  refine length_overwrite ?_
  rw [List.length_replicate]
  omega

namespace Writer

/-- A writer over a slice. -/
def new (out : List UInt8) (aligned : Bool) : Writer :=
  { out := out, aligned := aligned, len := 0, defect := none, inside := Nat.zero_le _ }

/-- Writes the preamble and zeroes a head; the head's offset is the preamble's
    size. -/
def reserveHead (w : Writer) (size : Nat) : Encoded :=
  if !w.aligned then .error .unaligned
  else if size % 8 ≠ 0 then .error (.layout size)
  else if h : 4 ≤ min (PREAMBLE_SIZE + size) USIZE_MAX ∧
      min (PREAMBLE_SIZE + size) USIZE_MAX ≤ w.out.length then
    .ok { w with
      out := overwrite w.out 0 (blank size (min (PREAMBLE_SIZE + size) USIZE_MAX))
      len := min (PREAMBLE_SIZE + size) USIZE_MAX
      defect := none
      inside := (length_overwrite_blank h.1 h.2).symm ▸ h.2 }
  else .error (.capacity (min (PREAMBLE_SIZE + size) USIZE_MAX) w.out.length)

/-- Where a block starts. -/
def startOf (w : Writer) (align : Nat) : Nat := min (alignUp w.len (max align 1)) USIZE_MAX

/-- Where a block stops. -/
def stopOf (w : Writer) (bytes align : Nat) : Nat := min (w.startOf align + bytes) USIZE_MAX

/-- Appends zeroed bytes at a multiple of the alignment and zeroes the gap
    before them. Their offset is where the block starts. -/
def tail (w : Writer) (bytes align : Nat) : Except EncodeError (Nat × Writer) :=
  if h : w.len ≤ w.stopOf bytes align ∧ w.stopOf bytes align ≤ w.out.length then
    .ok (w.startOf align, { w with
      out := overwrite w.out w.len (List.replicate (w.stopOf bytes align - w.len) 0)
      len := w.stopOf bytes align
      inside := (length_overwrite_zeros h.1 h.2).symm ▸ h.2 })
  else .error (.capacity (w.stopOf bytes align) w.out.length)

/-- Stores bytes that were reserved. A store outside them is dropped and
    remembered. -/
def store (w : Writer) (start : Nat) (bytes : List UInt8) : Writer :=
  if h : start + bytes.length ≤ w.len then
    { w with
      out := overwrite w.out start bytes
      inside := (length_overwrite (Nat.le_trans h w.inside)).symm ▸ w.inside }
  else { w with defect := some (w.defect.getD start) }

/-- Stores a little-endian number of a width. -/
def put (w : Writer) (start width : Nat) (n : Nat) : Writer := w.store start (toLE width n)

/-- Stores a descriptor: an offset and a length. -/
def putDesc (w : Writer) (start off len : Nat) : Writer :=
  (w.put start 4 off).put (start + 4) 4 len

/-- Stores an array descriptor: an offset, a count and the size of an element. -/
def putArrayDesc (w : Writer) (start off len elemSize : Nat) : Writer :=
  ((w.put start 4 off).put (start + 4) 2 len).put (start + 6) 2 elemSize

/-- Ends the buffer. -/
def finish (w : Writer) : Except EncodeError (List UInt8) :=
  match w.defect with
  | some start => .error (.layout start)
  | none =>
      if w.len < 8 then .error (.capacity 8 w.out.length)
      else .ok (w.out.take w.len)

end Writer

/-! ### Encoders -/

/-- A step that reserved the blocks and nothing else, or that ran out of room
    for one of them. -/
def Follows (blocks : List Block) (w : Writer) (r : Encoded) : Prop :=
  match r with
  | .ok w' => w'.len = endOf w.len blocks ∧ w'.out.length = w.out.length
  | .error e => ∃ needed, e = .capacity needed w.out.length ∧ w.out.length < needed ∧
      needed ≤ endOf w.len blocks

theorem len_store (w : Writer) (start : Nat) (bytes : List UInt8) :
    (w.store start bytes).len = w.len := by
  unfold Writer.store
  split <;> rfl

theorem length_store (w : Writer) (start : Nat) (bytes : List UInt8) :
    (w.store start bytes).out.length = w.out.length := by
  unfold Writer.store
  split
  · next h => exact length_overwrite (Nat.le_trans h w.inside)
  · rfl

namespace Follows

variable {blocks more : List Block} {w : Writer}

theorem ok {w' : Writer} (hlen : w'.len = w.len) (hout : w'.out.length = w.out.length) :
    Follows [] w (.ok w') := ⟨hlen, hout⟩

theorem bind {r : Encoded} {f : Writer → Encoded} (hr : Follows blocks w r)
    (hf : ∀ w', w'.len = endOf w.len blocks → w'.out.length = w.out.length →
      Follows more w' (f w')) :
    Follows (blocks ++ more) w (r >>= f) := by
  rcases r with e | w'
  · rcases hr with ⟨needed, rfl, hlt, hle⟩
    refine ⟨needed, rfl, hlt, Nat.le_trans hle ?_⟩
    rw [endOf_append]
    exact le_endOf _ more
  · rcases hr with ⟨hlen, hout⟩
    have hnext := hf w' hlen hout
    unfold Follows at hnext
    show match f w' with
      | .ok w'' => _
      | .error e => _
    rw [endOf_append, ← hlen, ← hout]
    exact hnext

end Follows

theorem tail_follows {w : Writer} {b : Block} {f : Nat × Writer → Encoded} {more : List Block}
    (hsmall : advance w.len b ≤ USIZE_MAX)
    (hf : ∀ start w', w'.len = advance w.len b → w'.out.length = w.out.length →
      Follows more w' (f (start, w'))) :
    Follows (b :: more) w (w.tail b.size b.align >>= f) := by
  have hle : w.len ≤ advance w.len b := le_advance w.len b
  have hstart : w.startOf b.align = alignUp w.len b.align := by
    unfold Writer.startOf
    rw [Nat.max_eq_left b.pos]
    exact Nat.min_eq_left (Nat.le_trans (Nat.le_add_right _ _) hsmall)
  have hstop : w.stopOf b.size b.align = advance w.len b := by
    unfold Writer.stopOf
    rw [hstart]
    exact Nat.min_eq_left hsmall
  unfold Writer.tail
  by_cases hroom : w.len ≤ w.stopOf b.size b.align ∧ w.stopOf b.size b.align ≤ w.out.length
  · rw [dif_pos hroom]
    have hout := length_overwrite_zeros hroom.1 hroom.2
    have hnext := hf (w.startOf b.align) { w with
      out := overwrite w.out w.len (List.replicate (w.stopOf b.size b.align - w.len) 0)
      len := w.stopOf b.size b.align
      inside := hout.symm ▸ hroom.2 } hstop hout
    unfold Follows at hnext
    show match f _ with
      | .ok w' => _
      | .error e => _
    rw [show endOf w.len (b :: more) = endOf (w.stopOf b.size b.align) more by rw [hstop]; rfl,
      ← hout]
    exact hnext
  · rw [dif_neg hroom]
    rw [hstop] at hroom ⊢
    exact ⟨_, rfl, Nat.lt_of_not_le (fun h => hroom ⟨hle, h⟩), le_endOf (advance w.len b) more⟩

end Podbuf

end Ridl
