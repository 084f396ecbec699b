import Ridl.Library.Bytes
import Ridl.Library.Fallible
import Ridl.Runtime.Contract

/-!
# Slices and Codec Errors

What the payload codecs share: the slices they read and write, and the errors
they answer.

The lengths and the positions of a codec are `usize`, which has 64 bits here.
A slice is no longer than `isize` can say, so a position in a slice, and a
position a few bytes past it, does not overflow.

## Main definitions

* `EncodeError`, `Malformed`: The errors of a codec.

## Theorems

* `slice_overwrite`: The bytes copied are read back.
* `slice_overwrite_of_disjoint`: The others are kept.
* `slice_writeAll`: So are the bytes of each of several writes apart.
-/

namespace Ridl

def USIZE_MAX : Nat := 2 ^ 64 - 1

def ISIZE_MAX : Nat := 2 ^ 63 - 1

/-- The bytes of a slice, no more than a slice holds. -/
structure Slice where
  bytes : Bytes
  fits : bytes.length ≤ ISIZE_MAX

namespace Slice

@[ext] theorem ext {a b : Slice} (h : a.bytes = b.bytes) : a = b := by
  cases a
  cases b
  cases h
  rfl

def len (s : Slice) : Nat := s.bytes.length

end Slice

inductive EncodeError
  | capacity (needed available : Nat)
deriving DecidableEq

/-- How the bytes of an encoding are malformed. -/
inductive Malformed
  | outOfBounds
  | utf8
  | varint
  | wireType
deriving DecidableEq

/-- `usize::checked_add`. -/
def checkedAdd (a b : Nat) : Option Nat := if a + b ≤ USIZE_MAX then some (a + b) else none

/-- `usize::saturating_add`. -/
def saturatingAdd (a b : Nat) : Nat := min (a + b) USIZE_MAX

/-- `copy_from_slice` into the bytes of `out` from `i` on. -/
def overwrite (out : Bytes) (i : Nat) (bytes : Bytes) : Bytes :=
  out.take i ++ bytes ++ out.drop (i + bytes.length)

/-- Several writes, in order. -/
def writeAll (out : Bytes) (ws : List (Nat × Bytes)) : Bytes :=
  ws.foldl (fun out w => overwrite out w.1 w.2) out

section Writes

open Library

variable (out : Bytes)

theorem length_overwrite (i : Nat) (bytes : Bytes) (h : i + bytes.length ≤ out.length) :
    (overwrite out i bytes).length = out.length := by
  simp only [overwrite, List.length_append, List.length_take, List.length_drop]
  omega

theorem overwrite_append_left (c : Bytes) (i : Nat) (bytes : Bytes)
    (h : i + bytes.length ≤ out.length) :
    overwrite (out ++ c) i bytes = overwrite out i bytes ++ c := by
  simp only [overwrite]
  rw [List.take_append_of_le_length (by omega), List.drop_append_of_le_length h, List.append_assoc,
    List.append_assoc, List.append_assoc]

theorem overwrite_append_right (c : Bytes) (i : Nat) (bytes : Bytes) :
    overwrite (out ++ c) (out.length + i) bytes = out ++ overwrite c i bytes := by
  simp only [overwrite]
  rw [List.take_length_add_append, Nat.add_assoc, List.drop_length_add_append, List.append_assoc,
    List.append_assoc, List.append_assoc]

theorem slice_overwrite (i : Nat) (bytes : Bytes) (h : i + bytes.length ≤ out.length) :
    slice (overwrite out i bytes) i bytes.length = bytes := by
  have htake : (out.take i).length = i := by
    rw [List.length_take]
    omega
  rw [overwrite, List.append_assoc, slice_append_right _ _ _ _ (by omega), htake, Nat.sub_self,
    slice_append_left _ _ _ _ (by omega), slice_zero _ _ rfl]

theorem slice_overwrite_of_disjoint (i : Nat) (bytes : Bytes) (j n : Nat)
    (h : i + bytes.length ≤ out.length) (hdisjoint : j + n ≤ i ∨ i + bytes.length ≤ j) :
    slice (overwrite out i bytes) j n = slice out j n := by
  have htake : (out.take i).length = i := by
    rw [List.length_take]
    omega
  rcases hdisjoint with hbefore | hafter
  · rw [overwrite, List.append_assoc, slice_append_left _ _ _ _ (by omega)]
    conv_rhs => rw [← List.take_append_drop i out]
    rw [slice_append_left _ _ _ _ (by omega)]
  · rw [overwrite, slice_append_right _ _ _ _ (by rw [List.length_append]; omega),
      List.length_append, htake, slice, slice, List.drop_drop]
    congr 2
    omega

theorem length_writeAll (ws : List (Nat × Bytes))
    (h : ∀ w ∈ ws, w.1 + w.2.length ≤ out.length) : (writeAll out ws).length = out.length := by
  induction ws generalizing out with
  | nil => rfl
  | cons w ws ih =>
      have hw := length_overwrite out w.1 w.2 (h w List.mem_cons_self)
      rw [writeAll, List.foldl_cons]
      refine (ih (overwrite out w.1 w.2) fun v hv => ?_).trans hw
      rw [hw]
      exact h v (List.mem_cons_of_mem w hv)

/-- Two writes touch no byte in common. -/
def Apart (a b : Nat × Bytes) : Prop := a.1 + a.2.length ≤ b.1 ∨ b.1 + b.2.length ≤ a.1

theorem slice_writeAll_of_disjoint (ws : List (Nat × Bytes)) (j n : Nat)
    (h : ∀ w ∈ ws, w.1 + w.2.length ≤ out.length)
    (hdisjoint : ∀ w ∈ ws, j + n ≤ w.1 ∨ w.1 + w.2.length ≤ j) :
    slice (writeAll out ws) j n = slice out j n := by
  induction ws generalizing out with
  | nil => rfl
  | cons w ws ih =>
      have hw := h w List.mem_cons_self
      rw [writeAll, List.foldl_cons]
      refine (ih (overwrite out w.1 w.2) (fun v hv => ?_) fun v hv => ?_).trans
        (slice_overwrite_of_disjoint out w.1 w.2 j n hw (hdisjoint w List.mem_cons_self))
      · rw [length_overwrite out w.1 w.2 hw]
        exact h v (List.mem_cons_of_mem w hv)
      · exact hdisjoint v (List.mem_cons_of_mem w hv)

theorem slice_writeAll (ws : List (Nat × Bytes)) (h : ∀ w ∈ ws, w.1 + w.2.length ≤ out.length)
    (hapart : ws.Pairwise Apart) (w : Nat × Bytes) (hw : w ∈ ws) :
    slice (writeAll out ws) w.1 w.2.length = w.2 := by
  induction ws generalizing out with
  | nil => cases hw
  | cons v ws ih =>
      have hv := h v List.mem_cons_self
      have hlen := length_overwrite out v.1 v.2 hv
      rcases List.pairwise_cons.mp hapart with ⟨hhead, htail⟩
      have hrest : ∀ u ∈ ws, u.1 + u.2.length ≤ (overwrite out v.1 v.2).length := by
        intro u hu
        rw [hlen]
        exact h u (List.mem_cons_of_mem v hu)
      rw [writeAll, List.foldl_cons]
      rcases List.mem_cons.mp hw with rfl | hin
      · exact (slice_writeAll_of_disjoint _ ws w.1 w.2.length hrest hhead).trans
          (slice_overwrite out w.1 w.2 hv)
      · exact ih (overwrite out v.1 v.2) hrest htail hin

end Writes

end Ridl
