import Ridl.Codec.FlatBuffers

/-!
# The Layout of a Built Buffer

Where each object lies in the bytes that a builder has written.

The bytes written are the end of the slice, and a push puts more bytes in front
of them. A position is a distance from the end, so what is seen from a position
is the same in front of any later bytes (`view_append`), and what a push laid
out stays laid out (`Placed.append`). The one write that goes back, the offset
from a table to its vtable, stays within the push that makes both.

## Main definitions

* `Push`, `Push.WellFormed`: A push, and what its caller keeps to.
* `Builder.Holds`: The bytes a builder has written.

## Theorems

* `reserveSkewed_spec`: Room is in front, and on its boundary.
* `fills_spec`: Writes into the newest object.
* `push_placed`: A push lays its object out.
* `built_placed`: Every object pushed is laid out.
-/

namespace Ridl

namespace FlatBuffers

open Library

/-! ### Pushes -/

inductive Push
  | scalar (value : Field)
  | string (value : String)
  | vector (elements : Bytes) (stride : Nat)
  | offsetVector (targets : List Pos)
  | table (size align : Nat) (slots : UInt16) (fields : List TableField)

namespace Builder

def push (b : Builder) : Push → Except EncodeError (Builder × Pos)
  | .scalar value => b.pushScalar value
  | .string value => b.pushString value
  | .vector elements stride => b.pushVector elements stride
  | .offsetVector targets => b.pushOffsetVector targets
  | .table size align slots fields => b.pushTable size align slots fields

/-- The builder has written the bytes, at the end of its slice. -/
def Holds (b : Builder) (c : Bytes) : Prop := ∃ front, b.out = front ++ c ∧ b.used = c.length

end Builder

/-- An offset names one of the positions. -/
def Field.Names (known : List Pos) : Field → Prop
  | .offset target => target ∈ known
  | _ => True

/-- The bytes of a vtable with `slots` entries. -/
def vtableSize (slots : UInt16) : Nat := VTABLE_HEADER + slots.toNat * VOFFSET_SIZE

/-- What the caller of a push keeps to: offsets name positions of this builder,
    and a table's fields have slots of their own and lie apart inside it. -/
def Push.WellFormed (known : List Pos) : Push → Prop
  | .scalar value => value.Names known
  | .string _ => True
  | .vector elements stride => 0 < stride ∧ stride ∣ elements.length
  | .offsetVector targets => ∀ target ∈ targets, target ∈ known
  | .table size align slots fields =>
      OFFSET_SIZE ≤ size ∧ size < 2 ^ 16 ∧ align.isPowerOfTwo ∧ vtableSize slots < 2 ^ 16 ∧
      (fields.map TableField.slot).Nodup ∧
      (∀ f ∈ fields, f.slot < slots ∧ OFFSET_SIZE ≤ f.offset.toNat ∧
        f.offset.toNat + f.value.size ≤ size ∧ f.value.Names known) ∧
      fields.Pairwise (fun f g => f.offset.toNat + f.value.size ≤ g.offset.toNat ∨
        g.offset.toNat + g.value.size ≤ f.offset.toNat)

/-- A builder over `out` after pushes that succeeded, with the position of
    each. -/
inductive Built (out : Bytes) : Builder → List (Pos × Push) → Prop
  | new : Built out (Builder.new out) []
  | push (b b' : Builder) (objects : List (Pos × Push)) (p : Pos) (op : Push) :
      Built out b objects → op.WellFormed (objects.map Prod.fst) → b.push op = .ok (b', p) →
      Built out b' ((p, op) :: objects)

/-! ### What lies at a position -/

/-- The bytes of the object itself. -/
def Push.len : Push → Nat
  | .scalar value => value.size
  | .string value => OFFSET_SIZE + (utf8 value).length + 1
  | .vector elements _ => OFFSET_SIZE + elements.length
  | .offsetVector targets => OFFSET_SIZE * (targets.length + 1)
  | .table size _ _ _ => size

/-- The boundary of the object, and the byte of it that lies on it. -/
def Push.boundary : Push → Nat × Nat
  | .scalar value => (value.size, 0)
  | .string _ => (OFFSET_SIZE, 0)
  | .vector _ stride => if stride > OFFSET_SIZE then (stride, OFFSET_SIZE) else (OFFSET_SIZE, 0)
  | .offsetVector _ => (OFFSET_SIZE, 0)
  | .table _ align _ _ => (align, 0)

/-- An offset at `here` names a position that was written before. -/
def Field.Reaches (here : Nat) : Field → Prop
  | .offset target => 0 < target.val ∧ target.val < here
  | _ => True

/-- The `n` bytes from `i` on, seen from a position. -/
def view (c : Bytes) (p : Pos) (i n : Nat) : Bytes := slice c (c.length - p.val + i) n

/-- The bytes of an object. -/
def Push.Data (c : Bytes) (p : Pos) : Push → Prop
  | .scalar value => view c p 0 value.size = value.bytes p ∧ value.Reaches p.val
  | .string value =>
      view c p 0 OFFSET_SIZE = toLE OFFSET_SIZE (utf8 value).length ∧
      view c p OFFSET_SIZE (utf8 value).length = utf8 value ∧
      view c p (OFFSET_SIZE + (utf8 value).length) 1 = [0]
  | .vector elements stride =>
      view c p 0 OFFSET_SIZE = toLE OFFSET_SIZE (elements.length / stride) ∧
      view c p OFFSET_SIZE elements.length = elements
  | .offsetVector targets =>
      view c p 0 OFFSET_SIZE = toLE OFFSET_SIZE targets.length ∧
      ∀ (i : Nat) (target : Pos), targets[i]? = some target →
        view c p (OFFSET_SIZE * (i + 1)) OFFSET_SIZE =
          (Field.offset target).bytes ⟨p.val - OFFSET_SIZE * (i + 1)⟩ ∧
        (Field.offset target).Reaches (p.val - OFFSET_SIZE * (i + 1))
  | .table size _ slots fields =>
      ∃ vtable : Pos, p.val + vtableSize slots ≤ vtable.val ∧ vtable.val ≤ c.length ∧
        view c p 0 OFFSET_SIZE = toLE OFFSET_SIZE (vtable.val - p.val) ∧
        view c vtable 0 VOFFSET_SIZE = toLE VOFFSET_SIZE (vtableSize slots) ∧
        view c vtable VOFFSET_SIZE VOFFSET_SIZE = toLE VOFFSET_SIZE size ∧
        (∀ slot : Nat, slot < slots.toNat →
          view c vtable (VTABLE_HEADER + slot * VOFFSET_SIZE) VOFFSET_SIZE =
            toLE VOFFSET_SIZE
              (((fields.find? (fun f => f.slot.toNat == slot)).map
                (fun f => f.offset.toNat)).getD 0)) ∧
        ∀ f ∈ fields,
          view c p f.offset.toNat f.value.size = f.value.bytes ⟨p.val - f.offset.toNat⟩ ∧
          f.value.Reaches (p.val - f.offset.toNat)

/-- The object of a push lies at a position. -/
structure Placed (c : Bytes) (p : Pos) (op : Push) : Prop where
  fits : op.len ≤ p.val
  inside : p.val ≤ c.length
  aligned : p.val % op.boundary.1 = op.boundary.2 % op.boundary.1
  data : op.Data c p

section View

variable {c : Bytes} {p : Pos}

theorem view_append (x : Bytes) (i n : Nat) (h : p.val ≤ c.length) :
    view (x ++ c) p i n = view c p i n := by
  rw [view, view, List.length_append, slice_append_right _ _ _ _ (by omega)]
  congr 1
  omega

theorem view_new (x : Bytes) (i n : Nat) (hp : p.val = x.length + c.length)
    (h : i + n ≤ x.length) : view (x ++ c) p i n = slice x i n := by
  rw [view, List.length_append, hp, Nat.sub_self, Nat.zero_add, slice_append_left _ _ _ _ h]

theorem Placed.append (x : Bytes) (op : Push) (h : Placed c p op) : Placed (x ++ c) p op := by
  have hin := h.inside
  refine ⟨h.fits, by rw [List.length_append]; omega, h.aligned, ?_⟩
  have hdata := h.data
  cases op with
  | scalar value =>
      rw [Push.Data, view_append x 0 _ hin]
      exact hdata
  | string value =>
      rw [Push.Data, view_append x _ _ hin, view_append x _ _ hin, view_append x _ _ hin]
      exact hdata
  | vector elements stride =>
      rw [Push.Data, view_append x _ _ hin, view_append x _ _ hin]
      exact hdata
  | offsetVector targets =>
      refine ⟨(view_append x _ _ hin).trans hdata.1, fun i target hi => ?_⟩
      rw [view_append x _ _ hin]
      exact hdata.2 i target hi
  | table size align slots fields =>
      rcases hdata with ⟨vtable, hapart, hvin, hsoffset, hvsize, htsize, hslots, hfields⟩
      refine ⟨vtable, hapart, by rw [List.length_append]; omega, ?_, ?_, ?_, fun slot hslot => ?_,
        fun f hf => ?_⟩
      · rw [view_append x _ _ hin, hsoffset]
      · rw [view_append x _ _ hvin, hvsize]
      · rw [view_append x _ _ hvin, htsize]
      · rw [view_append x _ _ hvin, hslots slot hslot]
      · rw [view_append x _ _ hin]
        exact hfields f hf

end View

/-! ### What a builder does -/

section Builder

variable {b b' : Builder} {c : Bytes} {p : Pos}

theorem padded_mod (unpadded align skew : Nat) (h : 0 < align) :
    (unpadded + (align + skew % align - unpadded % align) % align) % align = skew % align := by
  have hu := Nat.mod_lt unpadded h
  have hs := Nat.mod_lt skew h
  rw [Nat.add_mod, Nat.mod_mod, ← Nat.add_mod, ← Nat.mod_add_mod]
  have hsum : unpadded % align + (align + skew % align - unpadded % align) =
      align + skew % align := by omega
  rw [hsum, Nat.add_mod_left, Nat.mod_mod]

theorem reserveSkewed_spec (size align skew : Nat) (hb : b.Holds c)
    (h : b.reserveSkewed size align skew = .ok (b', p)) :
    ∃ padding, b'.Holds (List.replicate (size + padding) 0 ++ c) ∧
      p.val = size + padding + c.length ∧ (0 < align → p.val % align = skew % align) ∧
      b'.out.length = b.out.length := by
  rcases hb with ⟨front, hout, hused⟩
  unfold Builder.reserveSkewed at h
  unfold checkedAdd at h
  by_cases hsize : b.used + size ≤ USIZE_MAX
  · rw [if_pos hsize] at h
    simp only at h
    set padding := (align + skew % align - (b.used + size) % align) % align with hpadding
    by_cases hpad : b.used + size + padding ≤ USIZE_MAX
    · rw [if_pos hpad] at h
      simp only at h
      by_cases hroom : b.used + size + padding > b.out.length
      · rw [if_pos hroom] at h
        cases h
      · rw [if_neg hroom] at h
        rcases Except.ok.inj h with heq
        rcases Prod.mk.inj heq with ⟨rfl, rfl⟩
        have hlen : b.out.length = front.length + c.length := by rw [hout, List.length_append]
        refine ⟨padding, ⟨front.take (front.length - (size + padding)), ?_, ?_⟩, ?_,
          fun halign => ?_, ?_⟩
        · -- The zeros end where what was written starts.
          have hstart : b.out.length - (b.used + size + padding) =
              front.length - (size + padding) := by omega
          have hend : front.length - (size + padding) +
              (List.replicate (size + padding) (0 : UInt8)).length = front.length := by
            rw [List.length_replicate]
            omega
          rw [hstart, overwrite, hend, hout, List.take_append_of_le_length (by omega),
            List.drop_left, List.append_assoc]
        · show b.used + size + padding = _
          rw [List.length_append, List.length_replicate]
          omega
        · show b.used + size + padding = _
          omega
        · exact padded_mod (b.used + size) align skew halign
        · refine length_overwrite _ _ _ ?_
          rw [List.length_replicate]
          omega
    · rw [if_neg hpad] at h
      cases h
  · rw [if_neg hsize] at h
    cases h

theorem fill_spec (i : Nat) (bytes : Bytes) (hb : b.Holds c) (hp : p.val ≤ c.length)
    (hi : i + bytes.length ≤ p.val) :
    (b.fill p i bytes).Holds (overwrite c (c.length - p.val + i) bytes) ∧
      (b.fill p i bytes).out.length = b.out.length := by
  rcases hb with ⟨front, hout, hused⟩
  have hlen : b.out.length = front.length + c.length := by rw [hout, List.length_append]
  have hplace : b.out.length - p.val + i = front.length + (c.length - p.val + i) := by omega
  refine ⟨⟨front, ?_, ?_⟩, ?_⟩
  · rw [Builder.fill, hplace, hout, overwrite_append_right]
  · rw [length_overwrite _ _ _ (by omega)]
    exact hused
  · rw [Builder.fill, length_overwrite _ _ _ (by omega)]

theorem fills_spec (ws : List (Nat × Bytes)) (x : Bytes) (hb : b.Holds (x ++ c))
    (hp : p.val = x.length + c.length) (hin : ∀ w ∈ ws, w.1 + w.2.length ≤ x.length) :
    (ws.foldl (fun b w => b.fill p w.1 w.2) b).Holds (writeAll x ws ++ c) ∧
      (ws.foldl (fun b w => b.fill p w.1 w.2) b).out.length = b.out.length := by
  induction ws generalizing b x with
  | nil => exact ⟨hb, rfl⟩
  | cons w ws ih =>
      have hw := hin w List.mem_cons_self
      rcases fill_spec (p := p) w.1 w.2 hb (by rw [List.length_append]; omega) (by omega) with
        ⟨hfill, hlen⟩
      rw [List.length_append, hp, Nat.sub_self, Nat.zero_add, overwrite_append_left x c w.1 w.2 hw]
        at hfill
      have hx := length_overwrite x w.1 w.2 hw
      rcases ih (overwrite x w.1 w.2) hfill (by omega) (fun v hv => by
        rw [hx]
        exact hin v (List.mem_cons_of_mem w hv)) with ⟨hholds, hout⟩
      exact ⟨hholds, hout.trans hlen⟩

end Builder

/-! ### What a push lays out -/

section Pushes

variable {b b' : Builder} {c : Bytes} {p : Pos} {known : List Pos}

theorem Field.length_bytes (here : Pos) (v : Field) : (v.bytes here).length = v.size := by
  cases v with
  | offset target => exact length_toLE OFFSET_SIZE _
  | _ => exact LittleEndian.length_toLeBytes _

theorem Field.size_pos (v : Field) : 0 < v.size := by
  cases v <;> exact Nat.succ_pos _

theorem slice_replicate (n i k : Nat) (h : i + k ≤ n) :
    slice (List.replicate n (0 : UInt8)) i k = List.replicate k 0 := by
  rw [slice, List.drop_replicate, List.take_replicate, Nat.min_eq_left (by omega)]

/-- A position that a push knows is reached from any place in the new object
    but its end. -/
theorem Field.reaches (v : Field) (here : Nat) (hv : v.Names known)
    (hknown : ∀ t ∈ known, 0 < t.val ∧ t.val ≤ c.length) (hhere : c.length < here) :
    v.Reaches here := by
  cases v with
  | offset target =>
      have ht := hknown target hv
      exact ⟨ht.1, by omega⟩
  | _ => trivial

/-- A reservation, and then writes into it that lie apart: each is there, and
    what they do not touch is zero. -/
theorem reserve_fills (size align skew : Nat) (ws : List (Nat × Bytes)) (hb : b.Holds c)
    (h : b.reserveSkewed size align skew = .ok (b', p))
    (hin : ∀ w ∈ ws, w.1 + w.2.length ≤ size) (hapart : ws.Pairwise Apart) :
    ∃ x, (ws.foldl (fun b w => b.fill p w.1 w.2) b').Holds (x ++ c) ∧
      p.val = x.length + c.length ∧ size ≤ x.length ∧
      (∀ w ∈ ws, slice x w.1 w.2.length = w.2) ∧
      (∀ j n, j + n ≤ size → (∀ w ∈ ws, j + n ≤ w.1 ∨ w.1 + w.2.length ≤ j) →
        slice x j n = List.replicate n 0) ∧
      (0 < align → p.val % align = skew % align) ∧
      (ws.foldl (fun b w => b.fill p w.1 w.2) b').out.length = b.out.length := by
  rcases reserveSkewed_spec size align skew hb h with ⟨padding, hholds, hp, hmod, hout⟩
  have hwide : ∀ w ∈ ws, w.1 + w.2.length ≤ (List.replicate (size + padding) (0 : UInt8)).length := by
    intro w hw
    have hle := hin w hw
    rw [List.length_replicate]
    omega
  have hlen := length_writeAll _ ws hwide
  rw [List.length_replicate] at hlen
  rcases fills_spec (p := p) ws _ hholds (by rw [List.length_replicate]; exact hp) hwide with
    ⟨hfilled, hsame⟩
  refine ⟨_, hfilled, by rw [hlen]; exact hp, by rw [hlen]; exact Nat.le_add_right size padding,
    fun w hw => slice_writeAll _ ws hwide hapart w hw, fun j n hj hdisjoint => ?_, hmod,
    hsame.trans hout⟩
  rw [slice_writeAll_of_disjoint _ ws j n hwide hdisjoint, slice_replicate _ _ _ (by omega)]

theorem pushScalar_placed (value : Field) (hb : b.Holds c) (hv : value.Names known)
    (hknown : ∀ t ∈ known, 0 < t.val ∧ t.val ≤ c.length)
    (h : b.pushScalar value = .ok (b', p)) :
    ∃ x, b'.Holds (x ++ c) ∧ Placed (x ++ c) p (.scalar value) ∧
      b'.out.length = b.out.length := by
  unfold Builder.pushScalar at h
  rcases of_bind_eq_ok h with ⟨⟨b1, p1⟩, hr, hpushed⟩
  rcases Prod.mk.inj (Except.ok.inj hpushed) with ⟨rfl, rfl⟩
  have hlen := value.length_bytes p1
  have hpos := value.size_pos
  rcases reserve_fills value.size value.size 0 [(0, value.bytes p1)] hb hr
    (by simp only [List.forall_mem_singleton, hlen, Nat.zero_add, Nat.le_refl])
    (List.pairwise_singleton _ _) with ⟨x, hholds, hp, hsize, hwritten, _, hmod, hout⟩
  have hbytes := hwritten _ List.mem_cons_self
  refine ⟨x, hholds, ⟨?_, ?_, hmod hpos, ?_, ?_⟩, hout⟩
  · show value.size ≤ p1.val
    omega
  · rw [List.length_append, hp]
  · rw [view_new x 0 _ hp (by omega), ← hlen]
    exact hbytes
  · exact value.reaches p1.val hv hknown (by omega)

/-- A length, and behind it what it counts. -/
def counted (n : Nat) (data : Bytes) : List (Nat × Bytes) :=
  [(0, toLE OFFSET_SIZE n), (OFFSET_SIZE, data)]

theorem counted_in (n size : Nat) (data : Bytes) (h : OFFSET_SIZE + data.length ≤ size) :
    ∀ w ∈ counted n data, w.1 + w.2.length ≤ size := by
  refine List.forall_mem_cons.mpr ⟨?_, List.forall_mem_singleton.mpr h⟩
  simp only [length_toLE]
  omega

theorem counted_apart (n : Nat) (data : Bytes) : (counted n data).Pairwise Apart := by
  refine List.pairwise_pair.mpr (Or.inl ?_)
  simp only [length_toLE, Nat.zero_add, Nat.le_refl]

theorem counted_read (n : Nat) (data x : Bytes)
    (h : ∀ w ∈ counted n data, slice x w.1 w.2.length = w.2) :
    slice x 0 OFFSET_SIZE = toLE OFFSET_SIZE n ∧ slice x OFFSET_SIZE data.length = data := by
  have hcount := h _ List.mem_cons_self
  simp only [length_toLE] at hcount
  exact ⟨hcount, h _ (List.mem_cons_of_mem _ List.mem_cons_self)⟩

theorem pushString_placed (value : String) (hb : b.Holds c)
    (h : b.pushString value = .ok (b', p)) :
    ∃ x, b'.Holds (x ++ c) ∧ Placed (x ++ c) p (.string value) ∧
      b'.out.length = b.out.length := by
  unfold Builder.pushString at h
  rcases of_bind_eq_ok h with ⟨⟨b1, p1⟩, hr, hpushed⟩
  rcases Prod.mk.inj (Except.ok.inj hpushed) with ⟨rfl, rfl⟩
  rcases reserve_fills (OFFSET_SIZE + (utf8 value).length + 1) OFFSET_SIZE 0
    (counted (utf8 value).length (utf8 value)) hb hr (counted_in _ _ _ (Nat.le_succ _))
    (counted_apart _ _) with ⟨x, hholds, hp, hsize, hwritten, hzero, hmod, hout⟩
  rcases counted_read _ _ _ hwritten with ⟨hcount, htext⟩
  refine ⟨x, hholds, ⟨?_, ?_, hmod (by decide), ?_, ?_, ?_⟩, hout⟩
  · show OFFSET_SIZE + (utf8 value).length + 1 ≤ p1.val
    omega
  · rw [List.length_append, hp]
  · rw [view_new x 0 _ hp (by omega), hcount]
  · rw [view_new x _ _ hp (by omega), htext]
  · rw [view_new x _ _ hp (by omega)]
    refine hzero _ 1 (by omega) fun w hw => Or.inr ?_
    exact counted_in _ _ _ (Nat.le_refl _) w hw

theorem Push.boundary_vector (elements : Bytes) (stride : Nat) :
    (Push.vector elements stride).boundary =
      if stride > OFFSET_SIZE then (stride, OFFSET_SIZE) else (OFFSET_SIZE, 0) := rfl

theorem pushVector_placed (elements : Bytes) (stride : Nat) (hb : b.Holds c)
    (h : b.pushVector elements stride = .ok (b', p)) :
    ∃ x, b'.Holds (x ++ c) ∧ Placed (x ++ c) p (.vector elements stride) ∧
      b'.out.length = b.out.length := by
  have hboundary : 0 < (Push.vector elements stride).boundary.1 := by
    rw [Push.boundary_vector]
    by_cases hstride : stride > OFFSET_SIZE
    · rw [if_pos hstride]
      exact Nat.lt_of_le_of_lt (Nat.zero_le _) hstride
    · rw [if_neg hstride]
      decide
  unfold Builder.pushVector at h
  simp only [← Push.boundary_vector elements stride] at h
  rcases of_bind_eq_ok h with ⟨⟨b1, p1⟩, hr, hpushed⟩
  rcases Prod.mk.inj (Except.ok.inj hpushed) with ⟨rfl, rfl⟩
  rcases reserve_fills _ _ _ (counted (elements.length / stride) elements) hb hr
    (counted_in _ _ _ (Nat.le_refl _)) (counted_apart _ _) with
    ⟨x, hholds, hp, hsize, hwritten, _, hmod, hout⟩
  rcases counted_read _ _ _ hwritten with ⟨hcount, helements⟩
  refine ⟨x, hholds, ⟨?_, ?_, hmod hboundary, ?_, ?_⟩, hout⟩
  · show OFFSET_SIZE + elements.length ≤ p1.val
    omega
  · rw [List.length_append, hp]
  · rw [view_new x 0 _ hp (by omega), hcount]
  · rw [view_new x _ _ hp (by omega), helements]

def offsetWrites (position : Pos) (targets : List Pos) : List (Nat × Bytes) :=
  (0, toLE OFFSET_SIZE targets.length) :: targets.zipIdx.map (fun target =>
    (OFFSET_SIZE * (target.2 + 1),
      (Field.offset target.1).bytes ⟨position.val - OFFSET_SIZE * (target.2 + 1)⟩))

theorem offsetWrites_in (position : Pos) (targets : List Pos) :
    ∀ w ∈ offsetWrites position targets,
      w.1 + w.2.length ≤ OFFSET_SIZE * (targets.length + 1) := by
  refine List.forall_mem_cons.mpr ⟨?_, fun w hw => ?_⟩
  · simp only [length_toLE]
    unfold OFFSET_SIZE
    omega
  · rcases List.mem_map.mp hw with ⟨⟨target, i⟩, hmem, rfl⟩
    have hi := (List.getElem?_eq_some_iff.mp (List.mem_zipIdx_iff_getElem?.mp hmem)).1
    simp only [Field.length_bytes, Field.size]
    unfold OFFSET_SIZE
    simp only at hi
    omega

theorem offsetWrites_apart (position : Pos) (targets : List Pos) :
    (offsetWrites position targets).Pairwise Apart := by
  refine List.pairwise_cons.mpr ⟨fun w hw => Or.inl ?_, ?_⟩
  · rcases List.mem_map.mp hw with ⟨target, _, rfl⟩
    simp only [length_toLE]
    unfold OFFSET_SIZE
    omega
  · rw [List.pairwise_map, List.pairwise_iff_getElem]
    intro i j hi hj hij
    refine Or.inl ?_
    simp only [List.getElem_zipIdx, Field.length_bytes, Field.size]
    unfold OFFSET_SIZE
    omega

theorem pushOffsetVector_placed (targets : List Pos) (hb : b.Holds c)
    (ht : ∀ target ∈ targets, target ∈ known)
    (hknown : ∀ t ∈ known, 0 < t.val ∧ t.val ≤ c.length)
    (h : b.pushOffsetVector targets = .ok (b', p)) :
    ∃ x, b'.Holds (x ++ c) ∧ Placed (x ++ c) p (.offsetVector targets) ∧
      b'.out.length = b.out.length := by
  unfold Builder.pushOffsetVector at h
  rcases hsum : (checkedAdd targets.length 1).bind (fun slots => checkedMul slots OFFSET_SIZE) with
    _ | size
  · simp only [hsum] at h
    cases h
  · have hsize : size = OFFSET_SIZE * (targets.length + 1) := by
      unfold checkedAdd checkedMul at hsum
      rcases Option.bind_eq_some_iff.mp hsum with ⟨slots, hslots, hmul⟩
      by_cases hadd : targets.length + 1 ≤ USIZE_MAX
      · rw [if_pos hadd, Option.some.injEq] at hslots
        by_cases hprod : slots * OFFSET_SIZE ≤ USIZE_MAX
        · rw [if_pos hprod, Option.some.injEq] at hmul
          rw [← hmul, ← hslots, Nat.mul_comm]
        · rw [if_neg hprod] at hmul
          cases hmul
      · rw [if_neg hadd] at hslots
        cases hslots
    simp only [hsum] at h
    rcases of_bind_eq_ok h with ⟨⟨b1, p1⟩, hr, hpushed⟩
    rcases Prod.mk.inj (Except.ok.inj hpushed) with ⟨hfold, rfl⟩
    rw [hsize] at hr
    rcases reserve_fills _ _ _ (offsetWrites p1 targets) hb hr (offsetWrites_in p1 targets)
      (offsetWrites_apart p1 targets) with ⟨x, hholds, hp, hlen, hwritten, _, hmod, hout⟩
    have hsame : (offsetWrites p1 targets).foldl (fun b w => b.fill p1 w.1 w.2) b1 = b' := by
      rw [offsetWrites, List.foldl_cons, List.foldl_map]
      exact hfold
    rw [hsame] at hholds hout
    have hcount := hwritten _ List.mem_cons_self
    simp only [length_toLE] at hcount
    have hmin : OFFSET_SIZE ≤ OFFSET_SIZE * (targets.length + 1) :=
      Nat.le_mul_of_pos_right _ (Nat.succ_pos _)
    refine ⟨x, hholds, ⟨?_, ?_, hmod (by decide), ?_, fun i target hi => ?_⟩, hout⟩
    · show OFFSET_SIZE * (targets.length + 1) ≤ p1.val
      omega
    · rw [List.length_append, hp]
    · rw [view_new x 0 _ hp (by omega), hcount]
    · have hlt := (List.getElem?_eq_some_iff.mp hi).1
      have hplace : OFFSET_SIZE * (i + 1) + OFFSET_SIZE ≤ OFFSET_SIZE * (targets.length + 1) := by
        unfold OFFSET_SIZE
        omega
      have hthere := hwritten _ (List.mem_cons_of_mem _ (List.mem_map.mpr
        ⟨(target, i), List.mem_zipIdx_iff_getElem?.mpr hi, rfl⟩))
      simp only [Field.length_bytes, Field.size] at hthere
      refine ⟨?_, ?_⟩
      · rw [view_new x _ _ hp (by omega)]
        exact hthere
      · refine Field.reaches (.offset target) _ (ht target (List.mem_of_getElem? hi)) hknown ?_
        show c.length < p1.val - OFFSET_SIZE * (i + 1)
        unfold OFFSET_SIZE at *
        omega

def fieldWrites (table : Pos) (fields : List TableField) : List (Nat × Bytes) :=
  fields.map (fun f => (f.offset.toNat, f.value.bytes ⟨table.val - f.offset.toNat⟩))

/-- The writes of a vtable: its size, its table's size and the entries. -/
def vtableWrites (slots : UInt16) (size : Nat) (fields : List TableField) : List (Nat × Bytes) :=
  (0, toLE VOFFSET_SIZE (vtableSize slots)) :: (VOFFSET_SIZE, toLE VOFFSET_SIZE size) ::
    fields.map (fun f =>
      (VTABLE_HEADER + f.slot.toNat * VOFFSET_SIZE, toLE VOFFSET_SIZE f.offset.toNat))

theorem fieldWrites_in (table : Pos) (size : Nat) (fields : List TableField)
    (h : ∀ f ∈ fields, f.offset.toNat + f.value.size ≤ size) :
    ∀ w ∈ fieldWrites table fields, w.1 + w.2.length ≤ size := by
  intro w hw
  rcases List.mem_map.mp hw with ⟨f, hf, rfl⟩
  simp only [Field.length_bytes]
  exact h f hf

theorem fieldWrites_apart (table : Pos) (fields : List TableField)
    (h : fields.Pairwise (fun f g => f.offset.toNat + f.value.size ≤ g.offset.toNat ∨
      g.offset.toNat + g.value.size ≤ f.offset.toNat)) :
    (fieldWrites table fields).Pairwise Apart := by
  refine List.pairwise_map.mpr (h.imp fun hfg => ?_)
  simp only [Apart, Field.length_bytes]
  exact hfg

theorem vtableWrites_in (slots : UInt16) (size : Nat) (fields : List TableField)
    (h : ∀ f ∈ fields, f.slot < slots) :
    ∀ w ∈ vtableWrites slots size fields, w.1 + w.2.length ≤ vtableSize slots := by
  have hheader : VTABLE_HEADER ≤ vtableSize slots := Nat.le_add_right _ _
  refine List.forall_mem_cons.mpr ⟨?_, List.forall_mem_cons.mpr ⟨?_, fun w hw => ?_⟩⟩
  · simp only [length_toLE]
    exact Nat.le_trans (by decide) hheader
  · simp only [length_toLE]
    exact Nat.le_trans (by decide) hheader
  · rcases List.mem_map.mp hw with ⟨f, hf, rfl⟩
    have hslot := UInt16.lt_iff_toNat_lt.mp (h f hf)
    simp only [length_toLE]
    unfold vtableSize VOFFSET_SIZE
    omega

theorem vtableWrites_apart (slots : UInt16) (size : Nat) (fields : List TableField)
    (h : (fields.map TableField.slot).Nodup) :
    (vtableWrites slots size fields).Pairwise Apart := by
  have hentries : ∀ w ∈ fields.map (fun f : TableField =>
      (VTABLE_HEADER + f.slot.toNat * VOFFSET_SIZE, toLE VOFFSET_SIZE f.offset.toNat)),
      VTABLE_HEADER ≤ w.1 := by
    intro w hw
    rcases List.mem_map.mp hw with ⟨f, _, rfl⟩
    exact Nat.le_add_right _ _
  refine List.pairwise_cons.mpr ⟨List.forall_mem_cons.mpr ⟨Or.inl ?_, fun w hw => Or.inl ?_⟩,
    List.pairwise_cons.mpr ⟨fun w hw => Or.inl ?_, ?_⟩⟩
  · simp only [length_toLE]
    decide
  · simp only [length_toLE]
    exact Nat.le_trans (by decide) (hentries w hw)
  · simp only [length_toLE]
    exact Nat.le_trans (by decide) (hentries w hw)
  · refine List.pairwise_map.mpr ((List.pairwise_map.mp h).imp fun hfg => ?_)
    have hne : ∀ a b : UInt16, a ≠ b → a.toNat ≠ b.toNat :=
      fun a b hab heq => hab (UInt16.toNat_inj.mp heq)
    have hslots := hne _ _ hfg
    simp only [Apart, length_toLE]
    unfold VOFFSET_SIZE
    omega

theorem vtable_entry (slots : UInt16) (size : Nat) (fields : List TableField) (x : Bytes)
    (hwritten : ∀ w ∈ vtableWrites slots size fields, slice x w.1 w.2.length = w.2)
    (hzero : ∀ j n, j + n ≤ vtableSize slots →
      (∀ w ∈ vtableWrites slots size fields, j + n ≤ w.1 ∨ w.1 + w.2.length ≤ j) →
      slice x j n = List.replicate n 0) (slot : Nat) (hslot : slot < slots.toNat) :
    slice x (VTABLE_HEADER + slot * VOFFSET_SIZE) VOFFSET_SIZE =
      toLE VOFFSET_SIZE (((fields.find? (fun f => f.slot.toNat == slot)).map
        (fun f => f.offset.toNat)).getD 0) := by
  rcases hfind : fields.find? (fun f => f.slot.toNat == slot) with _ | f
  · -- No field is in the slot, so no write touches its entry.
    refine (hzero _ _ ?_ (List.forall_mem_cons.mpr ⟨Or.inr ?_,
      List.forall_mem_cons.mpr ⟨Or.inr ?_, fun w hw => ?_⟩⟩)).trans (by rw [hfind]; rfl)
    · unfold vtableSize VOFFSET_SIZE
      omega
    · simp only [length_toLE]
      exact Nat.le_trans (by decide) (Nat.le_add_right VTABLE_HEADER _)
    · simp only [length_toLE]
      exact Nat.le_trans (by decide) (Nat.le_add_right VTABLE_HEADER _)
    · rcases List.mem_map.mp hw with ⟨f, hf, rfl⟩
      have hne : f.slot.toNat ≠ slot := fun heq =>
        List.find?_eq_none.mp hfind f hf (beq_iff_eq.mpr heq)
      simp only [length_toLE]
      unfold VOFFSET_SIZE
      omega
  · have hf := List.mem_of_find?_eq_some hfind
    have heq := beq_iff_eq.mp (List.find?_some (p := fun f : TableField => f.slot.toNat == slot)
      hfind)
    have hentry := hwritten _ (List.mem_cons_of_mem _ (List.mem_cons_of_mem _
      (List.mem_map.mpr ⟨f, hf, rfl⟩)))
    simp only [length_toLE] at hentry
    rw [hfind, ← heq]
    exact hentry

theorem pushTable_placed (size align : Nat) (slots : UInt16) (fields : List TableField)
    (hb : b.Holds c) (hwf : (Push.table size align slots fields).WellFormed known)
    (hknown : ∀ t ∈ known, 0 < t.val ∧ t.val ≤ c.length)
    (h : b.pushTable size align slots fields = .ok (b', p)) :
    ∃ x, b'.Holds (x ++ c) ∧ Placed (x ++ c) p (.table size align slots fields) ∧
      b'.out.length = b.out.length := by
  rcases hwf with ⟨hsize, _, halign, _, hslots, hfields, hdisjoint⟩
  have halign : 0 < align := Nat.pos_of_isPowerOfTwo halign
  unfold Builder.pushTable at h
  rcases of_bind_eq_ok h with ⟨⟨b1, table⟩, hr, hrest⟩
  rcases of_bind_eq_ok hrest with ⟨⟨b2, vtable⟩, hv, hpushed⟩
  rcases Prod.mk.inj (Except.ok.inj hpushed) with ⟨rfl, rfl⟩
  rcases reserve_fills _ _ _ (fieldWrites table fields) hb hr
    (fieldWrites_in table size fields fun f hf => (hfields f hf).2.2.1)
    (fieldWrites_apart table fields hdisjoint) with
    ⟨x, hholds, hp, hlen, hwritten, _, hmod, hout⟩
  rw [fieldWrites, List.foldl_map] at hholds hout
  rcases reserve_fills _ _ _ (vtableWrites slots size fields) hholds hv
    (vtableWrites_in slots size fields fun f hf => (hfields f hf).1)
    (vtableWrites_apart slots size fields hslots) with
    ⟨y, hvholds, hvp, hvlen, hvwritten, hvzero, _, hvout⟩
  rw [vtableWrites, List.foldl_cons, List.foldl_cons, List.foldl_map] at hvholds hvout
  rw [List.length_append] at hvp
  have hvlen : vtableSize slots ≤ y.length := hvlen
  -- The offset to the vtable is written into the table, behind the vtable.
  have hslen := length_toLE OFFSET_SIZE (vtable.val - table.val)
  generalize hsoffset : toLE OFFSET_SIZE (vtable.val - table.val) = soffset at hslen
  rcases fill_spec (p := table) 0 soffset hvholds
    (by rw [List.length_append, List.length_append]; omega) (by omega) with ⟨hfilled, hfout⟩
  have hplace : (y ++ (x ++ c)).length - table.val + 0 = y.length + 0 := by
    rw [List.length_append, List.length_append]
    omega
  rw [hplace, overwrite_append_right, overwrite_append_left x c 0 soffset (by omega)] at hfilled
  have hxlen := length_overwrite x 0 soffset (by omega)
  have htable : table.val = (overwrite x 0 soffset).length + c.length := by omega
  have hinside : table.val ≤ (overwrite x 0 soffset ++ c).length := by
    rw [List.length_append]
    omega
  have hvtable : vtable.val = y.length + (overwrite x 0 soffset ++ c).length := by
    rw [List.length_append]
    omega
  refine ⟨y ++ overwrite x 0 soffset, ?_, ?_, (hfout.trans hvout).trans hout⟩
  · rw [List.append_assoc]
    exact hfilled
  rw [List.append_assoc]
  have hvsize := hvwritten _ List.mem_cons_self
  have htsize := hvwritten _ (List.mem_cons_of_mem _ List.mem_cons_self)
  simp only [length_toLE] at hvsize htsize
  have hheader : VTABLE_HEADER ≤ y.length := Nat.le_trans (Nat.le_add_right _ _) hvlen
  refine ⟨?_, ?_, hmod halign, vtable, ?_, ?_, ?_, ?_, ?_, fun slot hslot => ?_, fun f hf => ?_⟩
  · show size ≤ table.val
    omega
  · rw [List.length_append]
    omega
  · omega
  · rw [List.length_append]
    exact Nat.le_of_eq hvtable
  · have hback := slice_overwrite x 0 soffset (by omega)
    rw [hslen] at hback
    rw [view_append y 0 _ hinside, view_new _ 0 _ htable (by omega), hback, hsoffset]
  · rw [view_new y 0 _ hvtable (Nat.le_trans (by decide) hheader)]
    exact hvsize
  · rw [view_new y _ _ hvtable (Nat.le_trans (by decide) hheader)]
    exact htsize
  · have hentry : VTABLE_HEADER + slot * VOFFSET_SIZE + VOFFSET_SIZE ≤ y.length := by
      refine Nat.le_trans ?_ hvlen
      unfold vtableSize VOFFSET_SIZE
      omega
    rw [view_new y _ _ hvtable hentry]
    exact vtable_entry slots size fields y hvwritten hvzero slot hslot
  · rcases hfields f hf with ⟨_, hafter, hfits, hnames⟩
    have hthere := hwritten _ (List.mem_map.mpr ⟨f, hf, rfl⟩)
    simp only [Field.length_bytes] at hthere
    refine ⟨?_, f.value.reaches _ hnames hknown ?_⟩
    · rw [view_append y _ _ hinside, view_new _ _ _ htable (by omega),
        slice_overwrite_of_disjoint x 0 _ _ _ (by omega) (Or.inr (by omega))]
      exact hthere
    · have hpos := f.value.size_pos
      omega

theorem push_placed (op : Push) (hb : b.Holds c) (hwf : op.WellFormed known)
    (hknown : ∀ t ∈ known, 0 < t.val ∧ t.val ≤ c.length) (h : b.push op = .ok (b', p)) :
    ∃ x, b'.Holds (x ++ c) ∧ Placed (x ++ c) p op ∧ b'.out.length = b.out.length := by
  cases op with
  | scalar value => exact pushScalar_placed value hb hwf hknown h
  | string value => exact pushString_placed value hb h
  | vector elements stride => exact pushVector_placed elements stride hb h
  | offsetVector targets => exact pushOffsetVector_placed targets hb hwf hknown h
  | table size align slots fields => exact pushTable_placed size align slots fields hb hwf hknown h

theorem Push.len_pos (op : Push) (hwf : op.WellFormed known) : 0 < op.len := by
  cases op with
  | scalar value => exact value.size_pos
  | string value => exact Nat.succ_pos _
  | vector elements stride => exact Nat.lt_of_lt_of_le (by decide) (Nat.le_add_right OFFSET_SIZE _)
  | offsetVector targets => exact Nat.mul_pos (by decide) (Nat.succ_pos _)
  | table size align slots fields => exact Nat.lt_of_lt_of_le (by decide) hwf.1

theorem built_placed {out : Bytes} {objects : List (Pos × Push)} (h : Built out b objects) :
    ∃ c, b.Holds c ∧ b.out.length = out.length ∧
      ∀ object ∈ objects, Placed c object.1 object.2 ∧ 0 < object.1.val ∧
        ∃ known, object.2.WellFormed known := by
  induction h with
  | new => exact ⟨[], ⟨out, (List.append_nil out).symm, rfl⟩, rfl, List.forall_mem_nil _⟩
  | push b b' objects p op _ hwf hpush ih =>
      rcases ih with ⟨c, hholds, hlen, hplaced⟩
      have hknown : ∀ t ∈ objects.map Prod.fst, 0 < t.val ∧ t.val ≤ c.length := by
        intro t ht
        rcases List.mem_map.mp ht with ⟨object, hobject, rfl⟩
        exact ⟨(hplaced object hobject).2.1, (hplaced object hobject).1.inside⟩
      rcases push_placed op hholds hwf hknown hpush with ⟨x, hpushed, hnew, hout⟩
      refine ⟨x ++ c, hpushed, hout.trans hlen, List.forall_mem_cons.mpr ⟨⟨hnew, ?_, _, hwf⟩, ?_⟩⟩
      · exact Nat.lt_of_lt_of_le (op.len_pos hwf) hnew.fits
      · intro object hobject
        rcases hplaced object hobject with ⟨hold, hrest⟩
        exact ⟨hold.append x object.2, hrest⟩

end Pushes

end FlatBuffers

end Ridl
