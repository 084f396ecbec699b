import Ridl.Codec.FlatBuffersLayout

/-!
# The Room of a Push

How many bytes a buffer grows by. A push takes the bytes of its object and the
padding that puts the object on its boundary, which is less than the boundary;
a table takes its vtable as well. A builder has then used no more than its pushes
take together, in whatever order they came (`built_used_le`).

## Theorems

* `push_used_le`: A push takes no more than its cost.
* `built_used_le`: Nor do pushes, in any order.
-/

namespace Ridl

namespace FlatBuffers

open Library

/-- The most that a push takes: its object, its padding, and a table's vtable with its own. -/
def Push.cost (op : Push) : Nat :=
  op.len + (op.boundary.1 - 1) +
    match op with
    | .table _ _ slots _ => vtableSize slots + (VOFFSET_SIZE - 1)
    | _ => 0

section Used

variable {b b' : Builder} {p : Pos}

theorem reserveSkewed_used_le {size align skew : Nat} (halign : 0 < align)
    (h : b.reserveSkewed size align skew = .ok (b', p)) :
    b'.used ≤ b.used + (size + (align - 1)) ∧ p.val = b'.used ∧ b'.out.length = b.out.length := by
  unfold Builder.reserveSkewed at h
  unfold checkedAdd at h
  by_cases hsize : b.used + size ≤ USIZE_MAX
  · rw [if_pos hsize] at h
    simp only at h
    have hpadding := Nat.mod_lt (align + skew % align - (b.used + size) % align) halign
    generalize (align + skew % align - (b.used + size) % align) % align = padding at h hpadding
    by_cases hpad : b.used + size + padding ≤ USIZE_MAX
    · rw [if_pos hpad] at h
      simp only at h
      by_cases hroom : b.used + size + padding > b.out.length
      · rw [if_pos hroom] at h
        cases h
      · rw [if_neg hroom] at h
        rcases Prod.mk.inj (Except.ok.inj h) with ⟨rfl, rfl⟩
        refine ⟨?_, rfl, length_overwrite _ _ _ ?_⟩
        · show b.used + size + padding ≤ _
          omega
        · rw [List.length_replicate]
          omega
    · rw [if_neg hpad] at h
      cases h
  · rw [if_neg hsize] at h
    cases h

theorem used_foldl_fill {α : Type} (list : List α) (fill : Builder → α → Builder)
    (hfill : ∀ b a, (fill b a).used = b.used) (b : Builder) :
    (list.foldl fill b).used = b.used := by
  induction list generalizing b with
  | nil => rfl
  | cons a list ih => rw [List.foldl_cons, ih, hfill]

theorem pushTable_used_le {size align : Nat} {slots : UInt16} {fields : List TableField}
    (halign : 0 < align) (h : b.pushTable size align slots fields = .ok (b', p)) :
    b'.used ≤ b.used + (Push.table size align slots fields).cost := by
  unfold Builder.pushTable at h
  rcases of_bind_eq_ok h with ⟨⟨b1, table⟩, hr, hrest⟩
  rcases of_bind_eq_ok hrest with ⟨⟨b2, vtable⟩, hv, hpushed⟩
  rcases Prod.mk.inj (Except.ok.inj hpushed) with ⟨rfl, rfl⟩
  have htable := (reserveSkewed_used_le halign hr).1
  have hvtable := (reserveSkewed_used_le (by decide) hv).1
  rw [used_foldl_fill] at hvtable
  · show Builder.used (Builder.fill _ _ _ _) ≤ _
    show Builder.used (List.foldl _ _ _) ≤ _
    rw [used_foldl_fill]
    · show b2.used ≤ b.used + (size + (align - 1) + (vtableSize slots + (VOFFSET_SIZE - 1)))
      have hsize : vtableSize slots = VTABLE_HEADER + slots.toNat * VOFFSET_SIZE := rfl
      omega
    · intro _ _
      rfl
  · intro _ _
    rfl

theorem push_used_le {known : List Pos} {op : Push} (hwf : op.WellFormed known)
    (h : b.push op = .ok (b', p)) : b'.used ≤ b.used + op.cost := by
  cases op with
  | scalar value =>
      rcases of_bind_eq_ok h with ⟨⟨b1, position⟩, hr, hpushed⟩
      rcases Prod.mk.inj (Except.ok.inj hpushed) with ⟨rfl, rfl⟩
      exact (reserveSkewed_used_le value.size_pos hr).1
  | string value =>
      rcases of_bind_eq_ok h with ⟨⟨b1, position⟩, hr, hpushed⟩
      rcases Prod.mk.inj (Except.ok.inj hpushed) with ⟨rfl, rfl⟩
      exact (reserveSkewed_used_le (by decide) hr).1
  | vector elements stride =>
      have halign : 0 < (Push.vector elements stride).boundary.1 := by
        simp only [Push.boundary]
        split
        · omega
        · decide
      simp only [Builder.push, Builder.pushVector] at h
      by_cases hstride : stride > OFFSET_SIZE
      · simp only [hstride, if_true] at h
        rcases of_bind_eq_ok h with ⟨⟨b1, position⟩, hr, hpushed⟩
        rcases Prod.mk.inj (Except.ok.inj hpushed) with ⟨rfl, rfl⟩
        simp only [Push.cost, Push.len, Push.boundary, hstride, if_true]
        exact (reserveSkewed_used_le hwf.1 hr).1
      · simp only [hstride, if_false] at h
        rcases of_bind_eq_ok h with ⟨⟨b1, position⟩, hr, hpushed⟩
        rcases Prod.mk.inj (Except.ok.inj hpushed) with ⟨rfl, rfl⟩
        simp only [Push.cost, Push.len, Push.boundary, hstride, if_false]
        exact (reserveSkewed_used_le (by decide) hr).1
  | offsetVector targets =>
      simp only [Builder.push, Builder.pushOffsetVector] at h
      cases hsize : (checkedAdd targets.length 1).bind
          fun slots => checkedMul slots OFFSET_SIZE with
      | none => simp only [hsize, reduceCtorEq] at h
      | some size =>
          simp only [hsize] at h
          rcases of_bind_eq_ok h with ⟨⟨b1, position⟩, hr, hpushed⟩
          rcases Prod.mk.inj (Except.ok.inj hpushed) with ⟨rfl, rfl⟩
          rw [used_foldl_fill]
          · have hlength : size = (targets.length + 1) * OFFSET_SIZE := by
              rcases Option.bind_eq_some_iff.1 hsize with ⟨slots, hslots, hmul⟩
              have hslots := (Option.ite_none_right_eq_some.1 hslots).2
              have hmul := (Option.ite_none_right_eq_some.1 hmul).2
              cases hslots
              exact (Option.some.inj hmul).symm
            have hused := (reserveSkewed_used_le (by decide) hr).1
            rw [hlength, Nat.mul_comm] at hused
            exact hused
          · intro _ _
            rfl
  | table size align slots fields =>
      exact pushTable_used_le (Nat.pos_of_isPowerOfTwo hwf.2.2.1) h

theorem built_used_le {out : Bytes} {objects : List (Pos × Push)} (h : Built out b objects) :
    b.used ≤ (objects.map fun object => object.2.cost).sum := by
  induction h with
  | new => exact Nat.le_refl 0
  | push b b' objects p op _ hwf hpush ih =>
      have hused := push_used_le hwf hpush
      rw [List.map_cons, List.sum_cons]
      show b'.used ≤ op.cost + _
      omega

theorem length_finish_le {root : Pos} {align : Nat} {bytes : Bytes}
    (h : b.finish root align = .ok bytes) :
    bytes.length ≤ b.used + (OFFSET_SIZE + (max align OFFSET_SIZE - 1)) := by
  unfold Builder.finish at h
  have halign : (if align > OFFSET_SIZE then align else OFFSET_SIZE) = max align OFFSET_SIZE := by
    by_cases hlt : align > OFFSET_SIZE
    · rw [if_pos hlt, Nat.max_eq_left (Nat.le_of_lt hlt)]
    · rw [if_neg hlt, Nat.max_eq_right (Nat.le_of_not_lt hlt)]
  simp only [halign] at h
  rcases of_bind_eq_ok h with ⟨⟨b1, position⟩, hr, hfinished⟩
  have hpos : 0 < max align OFFSET_SIZE := Nat.lt_of_lt_of_le (by decide) (Nat.le_max_right _ _)
  rcases reserveSkewed_used_le hpos hr with ⟨hused, hposition, -⟩
  rw [← Except.ok.inj hfinished, List.length_drop]
  dsimp only
  omega

end Used

end FlatBuffers

end Ridl
