import Ridl.Codec.FlatBuffersLayout

/-!
# A Finished Buffer is Read Back

The reader finds in a finished buffer what the builder put there.

The finished buffer is the bytes written and nothing else, so an object at
position `p` lies `p` bytes from its end, and a read of the object is a view
from its position (`bytesAt_view`). An offset holds the distance from its own
position to the position it names, and following it leads there
(`follow_offset`). A table's first four bytes lead to its vtable, and the
vtable to each field (`table_field`).

The buffer's length is a multiple of its alignment, so a position that is a
multiple of an alignment is one from the start as well (`dvd_start`). Where a
table's own layout puts a scalar is the caller's choice, and the scalar lies on
its boundary where that choice does.

## Theorems

* `follow_offset`: An offset leads to the position it names.
* `builder_reader`: What was pushed is read back, and lies aligned.
-/

namespace Ridl

namespace FlatBuffers

open Library

/-- A read at `start` answers the value that was pushed, and an offset leads to
    the position it names. -/
def Field.ReadsBack (buf : Bytes) (start : Nat) : Field → Prop
  | .bool v => readBool buf start = .ok v
  | .u8 v => readU8 buf start = .ok v
  | .i8 v => readI8 buf start = .ok v
  | .u16 v => readU16 buf start = .ok v
  | .i16 v => readI16 buf start = .ok v
  | .u32 v => readU32 buf start = .ok v
  | .i32 v => readI32 buf start = .ok v
  | .u64 v => readU64 buf start = .ok v
  | .i64 v => readI64 buf start = .ok v
  | .f32 v => readF32 buf start = .ok v
  | .f64 v => readF64 buf start = .ok v
  | .offset target => follow buf start = .ok (buf.length - target.val)

/-- What the reads answer for the object at position `p`, through any offset
    that leads to it. -/
def Push.ReadsBack (buf : Bytes) (p : Pos) : Push → Prop
  | .scalar value => value.ReadsBack buf (buf.length - p.val)
  | .string value =>
      ∀ start, follow buf start = .ok (buf.length - p.val) →
        FlatBuffers.string buf start = .ok value
  | .vector elements stride =>
      ∀ start, follow buf start = .ok (buf.length - p.val) →
        ∃ v, FlatBuffers.vector buf start stride = .ok v ∧ v.len = elements.length / stride ∧
          ∀ i < v.len, ∀ (α : Type) [LittleEndian α], LittleEndian.width α = stride →
            readScalar α buf (v.element i stride) =
              .ok (fromLeBytes (slice elements (i * stride) stride))
  | .offsetVector targets =>
      ∀ start, follow buf start = .ok (buf.length - p.val) →
        ∃ v, FlatBuffers.vector buf start OFFSET_SIZE = .ok v ∧ v.len = targets.length ∧
          ∀ (i : Nat) (target : Pos), targets[i]? = some target →
            follow buf (v.element i OFFSET_SIZE) = .ok (buf.length - target.val)
  | .table _ _ _ fields =>
      (∀ f ∈ fields,
        field buf (buf.length - p.val) f.slot f.value.size =
          .ok (some (buf.length - p.val + f.offset.toNat)) ∧
        f.value.ReadsBack buf (buf.length - p.val + f.offset.toNat)) ∧
      ∀ slot width, (∀ f ∈ fields, f.slot ≠ slot) →
        field buf (buf.length - p.val) slot width = .ok none

/-- The object at position `p` lies on its boundary where the buffer's alignment
    is a multiple of it: a table, the elements of a vector, and a scalar where
    its table's layout has it on its boundary. -/
def Push.Aligned (align : Nat) (buf : Bytes) (p : Pos) : Push → Prop
  | .scalar value => value.size ∣ align → value.size ∣ buf.length - p.val
  | .string _ => OFFSET_SIZE ∣ align → OFFSET_SIZE ∣ buf.length - p.val
  | .vector _ stride =>
      stride.isPowerOfTwo → stride ∣ align →
        ∀ i, stride ∣ buf.length - p.val + OFFSET_SIZE + i * stride
  | .offsetVector _ =>
      OFFSET_SIZE ∣ align → ∀ i, OFFSET_SIZE ∣ buf.length - p.val + OFFSET_SIZE + i * OFFSET_SIZE
  | .table _ tableAlign _ fields =>
      tableAlign ∣ align → tableAlign ∣ buf.length - p.val ∧
        ∀ f ∈ fields, f.value.size ∣ tableAlign → f.value.size ∣ f.offset.toNat →
          f.value.size ∣ buf.length - p.val + f.offset.toNat

section Reads

variable {buf : Bytes} {p : Pos}

theorem bytesAt_view (i n : Nat) (hp : p.val ≤ buf.length) (h : i + n ≤ p.val) :
    bytesAt buf (buf.length - p.val + i) n = .ok (view buf p i n) := by
  unfold bytesAt view
  rw [if_pos (by omega)]

theorem readScalar_view {α : Type} [LittleEndian α] (v : α) (i : Nat) (hp : p.val ≤ buf.length)
    (hi : i + LittleEndian.width α ≤ p.val)
    (h : view buf p i (LittleEndian.width α) = toLeBytes v) :
    readScalar α buf (buf.length - p.val + i) = .ok v := by
  unfold readScalar
  rw [bytesAt_view i _ hp hi, h]
  exact congrArg Except.ok (LittleEndian.fromLeBytes_toLeBytes v)

theorem readU32_view (i n : Nat) (hp : p.val ≤ buf.length) (hi : i + OFFSET_SIZE ≤ p.val)
    (hn : n < 2 ^ 32) (h : view buf p i OFFSET_SIZE = toLE OFFSET_SIZE n) :
    readU32 buf (buf.length - p.val + i) = .ok (UInt32.ofNat n) := by
  refine readScalar_view (UInt32.ofNat n) i hp hi (h.trans ?_)
  show toLE 4 n = toLE 4 (UInt32.ofNat n).toNat
  rw [UInt32.toNat_ofNat_of_lt' hn]

theorem readU16_view (i n : Nat) (hp : p.val ≤ buf.length) (hi : i + VOFFSET_SIZE ≤ p.val)
    (hn : n < 2 ^ 16) (h : view buf p i VOFFSET_SIZE = toLE VOFFSET_SIZE n) :
    readU16 buf (buf.length - p.val + i) = .ok (UInt16.ofNat n) := by
  refine readScalar_view (UInt16.ofNat n) i hp hi (h.trans ?_)
  show toLE 2 n = toLE 2 (UInt16.ofNat n).toNat
  rw [UInt16.toNat_ofNat_of_lt' hn]

theorem follow_offset (target : Pos) (i : Nat) (hlen : buf.length < 2 ^ 31)
    (hp : p.val ≤ buf.length) (hi : i + OFFSET_SIZE ≤ p.val)
    (hreach : (Field.offset target).Reaches (p.val - i))
    (h : view buf p i OFFSET_SIZE = (Field.offset target).bytes ⟨p.val - i⟩) :
    follow buf (buf.length - p.val + i) = .ok (buf.length - target.val) := by
  rcases hreach with ⟨hpos, hbefore⟩
  have hn : p.val - i - target.val < 2 ^ 32 := by omega
  have hread := readU32_view i (p.val - i - target.val) hp hi hn h
  unfold follow
  rw [hread]
  show (if buf.length - p.val + i + (UInt32.ofNat (p.val - i - target.val)).toNat ≥ buf.length then
    _ else _) = _
  rw [UInt32.toNat_ofNat_of_lt' hn, if_neg (by omega)]
  congr 1
  omega

theorem slice_slice (m : Bytes) (i j n len : Nat) (h : j + n ≤ len) :
    slice (slice m i len) j n = slice m (i + j) n := by
  rw [slice, slice, slice, List.drop_take, List.drop_drop, List.take_take, Nat.min_eq_left (by omega)]

theorem readsBack_view (v : Field) (i : Nat) (hlen : buf.length < 2 ^ 31) (hp : p.val ≤ buf.length)
    (hi : i + v.size ≤ p.val) (hreach : v.Reaches (p.val - i))
    (h : view buf p i v.size = v.bytes ⟨p.val - i⟩) :
    v.ReadsBack buf (buf.length - p.val + i) := by
  cases v with
  | bool v =>
      have hread := readScalar_view v.toUInt8 i hp hi h
      show (readScalar UInt8 buf _).map _ = _
      rw [hread]
      cases v <;> rfl
  | offset target => exact follow_offset target i hlen hp hi hreach h
  | _ v => exact readScalar_view v i hp hi h

theorem fromUtf8_utf8 (text : String) : fromUtf8 (utf8 text) = .ok text := by
  unfold fromUtf8 utf8
  have hdata : (⟨text.toUTF8.data.toList.toArray⟩ : ByteArray) = text.toByteArray := by
    rw [Array.toArray_toList]
    rfl
  rw [hdata, String.fromUTF8?, dif_pos text.isValidUTF8]
  rfl

theorem string_back (value : String) (hlen : buf.length < 2 ^ 31)
    (h : Placed buf p (.string value)) : (Push.string value).ReadsBack buf p := by
  intro start hstart
  rcases h.data with ⟨hcount, htext, hend⟩
  have hin := h.inside
  have hfits : OFFSET_SIZE + (utf8 value).length + 1 ≤ p.val := h.fits
  have hn : (utf8 value).length < 2 ^ 32 := by omega
  have hread := readU32_view 0 _ hin (by omega) hn hcount
  have hnum : (UInt32.ofNat (utf8 value).length).toNat = (utf8 value).length :=
    UInt32.toNat_ofNat_of_lt' hn
  have hbytes := bytesAt_view (p := p) OFFSET_SIZE (utf8 value).length hin (by omega)
  have hzero := bytesAt_view (p := p) (OFFSET_SIZE + (utf8 value).length) 1 hin (by omega)
  rw [htext] at hbytes
  rw [hend, ← Nat.add_assoc] at hzero
  rw [Nat.add_zero] at hread
  unfold FlatBuffers.string
  simp only [hstart, hread, hnum, hbytes, hzero, bind, Except.bind, ne_eq, not_true_eq_false,
    if_false, fromUtf8_utf8]

theorem vector_of_count (start n stride : Nat) (hlen : buf.length < 2 ^ 31)
    (hp : p.val ≤ buf.length) (hfits : OFFSET_SIZE + n * stride ≤ p.val)
    (hn : n < 2 ^ 32) (h : view buf p 0 OFFSET_SIZE = toLE OFFSET_SIZE n)
    (hstart : follow buf start = .ok (buf.length - p.val)) :
    FlatBuffers.vector buf start stride = .ok ⟨n, buf.length - p.val + OFFSET_SIZE⟩ := by
  have hread := readU32_view 0 n hp (by omega) hn h
  have hnum : (UInt32.ofNat n).toNat = n := UInt32.toNat_ofNat_of_lt' hn
  have hspan : checkedMul n stride = some (n * stride) := by
    unfold checkedMul USIZE_MAX
    rw [if_pos (by omega)]
  have hbytes := bytesAt_view (p := p) OFFSET_SIZE (n * stride) hp hfits
  rw [Nat.add_zero] at hread
  unfold FlatBuffers.vector
  simp only [hstart, hread, hnum, hspan, hbytes, bind, Except.bind]

theorem vector_back (elements : Bytes) (stride : Nat) (hlen : buf.length < 2 ^ 31)
    (hstride : 0 < stride ∧ stride ∣ elements.length)
    (h : Placed buf p (.vector elements stride)) :
    (Push.vector elements stride).ReadsBack buf p := by
  intro start hstart
  rcases h.data with ⟨hcount, helements⟩
  have hin := h.inside
  have hfits : OFFSET_SIZE + elements.length ≤ p.val := h.fits
  have hspan := Nat.div_mul_cancel hstride.2
  have hle := Nat.div_le_self elements.length stride
  refine ⟨_, vector_of_count start _ stride hlen hin (by omega) (by omega) hcount hstart, rfl, ?_⟩
  intro i hi α _ hwidth
  have hi : i < elements.length / stride := hi
  have hplace : (i + 1) * stride ≤ elements.length := by
    rw [← hspan]
    exact Nat.mul_le_mul_right stride hi
  rw [Nat.add_mul, Nat.one_mul] at hplace
  have hbytes := bytesAt_view (p := p) (OFFSET_SIZE + i * stride) stride hin (by omega)
  have hview : view buf p (OFFSET_SIZE + i * stride) stride = slice elements (i * stride) stride := by
    rw [← helements, view, view, ← Nat.add_assoc, slice_slice _ _ _ _ _ hplace]
  rw [hview, ← Nat.add_assoc] at hbytes
  unfold readScalar
  rw [hwidth]
  show (bytesAt buf (buf.length - p.val + OFFSET_SIZE + i * stride) stride).map fromLeBytes = _
  rw [hbytes]
  rfl

theorem offsetVector_back (targets : List Pos) (hlen : buf.length < 2 ^ 31)
    (h : Placed buf p (.offsetVector targets)) :
    (Push.offsetVector targets).ReadsBack buf p := by
  intro start hstart
  rcases h.data with ⟨hcount, htargets⟩
  have hin := h.inside
  have hfits : OFFSET_SIZE * (targets.length + 1) ≤ p.val := h.fits
  have hspan : OFFSET_SIZE + targets.length * OFFSET_SIZE ≤ p.val := by
    unfold OFFSET_SIZE at *
    omega
  have hn : targets.length < 2 ^ 32 := by
    unfold OFFSET_SIZE at *
    omega
  refine ⟨_, vector_of_count start _ OFFSET_SIZE hlen hin hspan hn hcount hstart, rfl, ?_⟩
  intro i target hi
  have hlt := (List.getElem?_eq_some_iff.mp hi).1
  have hplace : OFFSET_SIZE * (i + 1) + OFFSET_SIZE ≤ p.val := by
    unfold OFFSET_SIZE at *
    omega
  rcases htargets i target hi with ⟨hbytes, hreach⟩
  have hstart : (⟨targets.length, buf.length - p.val + OFFSET_SIZE⟩ : Vector).element i OFFSET_SIZE =
      buf.length - p.val + OFFSET_SIZE * (i + 1) := by
    show buf.length - p.val + OFFSET_SIZE + i * OFFSET_SIZE = _
    rw [Nat.mul_add, Nat.mul_one, Nat.mul_comm i, Nat.add_assoc, Nat.add_comm OFFSET_SIZE]
  rw [hstart]
  exact follow_offset target _ hlen hin hplace hreach hbytes

theorem readI32_view (i n : Nat) (hp : p.val ≤ buf.length) (hi : i + OFFSET_SIZE ≤ p.val)
    (hn : n < 2 ^ 31) (h : view buf p i OFFSET_SIZE = toLE OFFSET_SIZE n) :
    ∃ v, readI32 buf (buf.length - p.val + i) = .ok v ∧ v.toInt = n := by
  have hnum : (UInt32.ofNat n).toNat = n := UInt32.toNat_ofNat_of_lt' (Nat.lt_trans hn (by decide))
  refine ⟨(UInt32.ofNat n).toInt32, readScalar_view _ i hp hi (h.trans ?_), ?_⟩
  · show toLE 4 n = toLE 4 (UInt32.ofNat n).toInt32.toUInt32.toNat
    rw [UInt32.toUInt32_toInt32, hnum]
  · show (UInt32.ofNat n).toBitVec.toInt = n
    rw [BitVec.toInt_eq_toNat_of_lt (by
      show 2 * (UInt32.ofNat n).toNat < 2 ^ 32
      omega)]
    exact congrArg Nat.cast hnum

/-- The entry of a slot in a list of fields: the offset of its field, or
    zero. -/
def entryOf (fields : List TableField) (slot : Nat) : Nat :=
  ((fields.find? (fun f => f.slot.toNat == slot)).map (fun f => f.offset.toNat)).getD 0

theorem entryOf_lt (fields : List TableField) (slot : Nat) : entryOf fields slot < 2 ^ 16 := by
  unfold entryOf
  rcases hfind : fields.find? (fun f => f.slot.toNat == slot) with _ | f
  · rw [hfind]
    exact Nat.two_pow_pos 16
  · rw [hfind]
    exact f.offset.toNat_lt

theorem entryOf_mem (fields : List TableField) (hnodup : (fields.map TableField.slot).Nodup)
    (f : TableField) (hf : f ∈ fields) : entryOf fields f.slot.toNat = f.offset.toNat := by
  unfold entryOf
  rcases hfind : fields.find? (fun g => g.slot.toNat == f.slot.toNat) with _ | g
  · exact absurd (beq_self_eq_true f.slot.toNat) (List.find?_eq_none.mp hfind f hf)
  · have heq := beq_iff_eq.mp (List.find?_some (p := fun g : TableField =>
      g.slot.toNat == f.slot.toNat) hfind)
    have hsame := List.inj_on_of_nodup_map hnodup (List.mem_of_find?_eq_some hfind) hf
      (UInt16.toNat_inj.mp heq)
    rw [hfind, hsame]
    rfl

theorem entryOf_not_mem (fields : List TableField) (slot : UInt16)
    (h : ∀ f ∈ fields, f.slot ≠ slot) : entryOf fields slot.toNat = 0 := by
  unfold entryOf
  rw [List.find?_eq_none.mpr fun f hf heq => h f hf (UInt16.toNat_inj.mp (beq_iff_eq.mp heq))]
  rfl

theorem table_field (size align : Nat) (slots : UInt16) (fields : List TableField) (slot : UInt16)
    (width : Nat) (hlen : buf.length < 2 ^ 31) (hsize : OFFSET_SIZE ≤ size ∧ size < 2 ^ 16)
    (hslots : vtableSize slots < 2 ^ 16) (h : Placed buf p (.table size align slots fields)) :
    field buf (buf.length - p.val) slot width =
      if slots ≤ slot then .ok none
      else if entryOf fields slot.toNat = 0 then .ok none
      else if entryOf fields slot.toNat < OFFSET_SIZE ∨
          entryOf fields slot.toNat + width > size then .error .outOfBounds
      else if buf.length - p.val + entryOf fields slot.toNat ≥ buf.length then .error .outOfBounds
      else .ok (some (buf.length - p.val + entryOf fields slot.toNat)) := by
  rcases h.data with ⟨vtable, hapart, hvin, hsoffset, hvsize, htsize, hentries, _⟩
  have hin := h.inside
  have hfits : size ≤ p.val := h.fits
  have hheader : VTABLE_HEADER ≤ vtableSize slots := Nat.le_add_right _ _
  rcases readI32_view 0 (vtable.val - p.val) hin (by omega) (by omega) hsoffset with
    ⟨soffset, hread, hint⟩
  have hvread := readU16_view (p := vtable) 0 _ hvin
    (Nat.le_trans (by decide) (Nat.le_trans hheader (Nat.le_trans (Nat.le_add_left _ _) hapart)))
    hslots hvsize
  have htread := readU16_view (p := vtable) VOFFSET_SIZE size hvin
    (Nat.le_trans (by decide) (Nat.le_trans hheader (Nat.le_trans (Nat.le_add_left _ _) hapart)))
    hsize.2 htsize
  have hbytes := bytesAt_view (p := vtable) 0 (vtableSize slots) hvin (by omega)
  rw [Nat.add_zero] at hread hvread hbytes
  have hvnum : (UInt16.ofNat (vtableSize slots)).toNat = vtableSize slots :=
    UInt16.toNat_ofNat_of_lt' hslots
  have htnum : (UInt16.ofNat size).toNat = size := UInt16.toNat_ofNat_of_lt' hsize.2
  -- The vtable lies as far from the end as its position says.
  have hvtable : ((buf.length - p.val : Nat) : Int) - soffset.toInt =
      ((buf.length - vtable.val : Nat) : Int) := by
    rw [hint]
    omega
  have hthere : ¬ (((buf.length - vtable.val : Nat) : Int) < 0 ∨
      ((buf.length - vtable.val : Nat) : Int) ≥ (buf.length : Int)) := by
    unfold VTABLE_HEADER at hheader
    omega
  have hvhead : ¬ (vtableSize slots < VTABLE_HEADER) := Nat.not_lt.mpr hheader
  unfold field
  simp only [hread, bind, Except.bind, hvtable, if_neg hthere, Int.toNat_natCast, hvread, hvnum,
    if_neg hvhead, hbytes, htread, htnum]
  by_cases hslot : slots ≤ slot
  · have hslot' := UInt16.le_iff_toNat_le.mp hslot
    rw [if_pos hslot, if_pos]
    unfold vtableSize VOFFSET_SIZE VTABLE_HEADER
    omega
  · have hslot' : slot.toNat < slots.toNat :=
      UInt16.lt_iff_toNat_lt.mp (UInt16.not_le.mp hslot)
    have hentry := hentries slot.toNat hslot'
    have hbound : VTABLE_HEADER + slot.toNat * VOFFSET_SIZE + VOFFSET_SIZE ≤ vtableSize slots := by
      unfold vtableSize VOFFSET_SIZE
      omega
    have heread := readU16_view (p := vtable) _ (entryOf fields slot.toNat) hvin (by omega)
      (entryOf_lt fields slot.toNat) hentry
    have henum : (UInt16.ofNat (entryOf fields slot.toNat)).toNat = entryOf fields slot.toNat :=
      UInt16.toNat_ofNat_of_lt' (entryOf_lt fields slot.toNat)
    have hzero : UInt16.ofNat (entryOf fields slot.toNat) = 0 ↔ entryOf fields slot.toNat = 0 := by
      rw [← UInt16.toNat_inj, henum]
      rfl
    rw [← Nat.add_assoc] at heread
    rw [if_neg hslot, if_neg (by omega), heread]
    simp only [henum, hzero]

theorem table_back (size align : Nat) (slots : UInt16) (fields : List TableField)
    (known : List Pos) (hlen : buf.length < 2 ^ 31)
    (hwf : (Push.table size align slots fields).WellFormed known)
    (h : Placed buf p (.table size align slots fields)) :
    (Push.table size align slots fields).ReadsBack buf p := by
  rcases hwf with ⟨hsize, hsize', _, hvsize, hnodup, hfields, _⟩
  have hfield := fun slot width =>
    table_field size align slots fields slot width hlen ⟨hsize, hsize'⟩ hvsize h
  have hin := h.inside
  have hfits : size ≤ p.val := h.fits
  rcases h.data with ⟨_, _, _, _, _, _, _, hbytes⟩
  refine ⟨fun f hf => ⟨?_, ?_⟩, fun slot width hnone => ?_⟩
  · rcases hfields f hf with ⟨hslot, hafter, hwidth, _⟩
    have hpos := f.value.size_pos
    have hzero : f.offset.toNat ≠ 0 := by
      unfold OFFSET_SIZE at hafter
      omega
    rw [hfield, entryOf_mem fields hnodup f hf, if_neg (UInt16.not_le.mpr hslot), if_neg hzero,
      if_neg (by omega), if_neg (by omega)]
  · rcases hfields f hf with ⟨_, _, hwidth, _⟩
    rcases hbytes f hf with ⟨hview, hreach⟩
    exact readsBack_view f.value f.offset.toNat hlen hin (by omega) hreach hview
  · rw [hfield, entryOf_not_mem fields slot hnone]
    by_cases hslot : slots ≤ slot
    · rw [if_pos hslot]
    · rw [if_neg hslot, if_pos rfl]

theorem placed_back (op : Push) (known : List Pos) (hlen : buf.length < 2 ^ 31)
    (hwf : op.WellFormed known) (h : Placed buf p op) : op.ReadsBack buf p := by
  cases op with
  | scalar value =>
      have hfits : value.size ≤ p.val := h.fits
      exact readsBack_view value 0 hlen h.inside (by omega) h.data.2 h.data.1
  | string value => exact string_back value hlen h
  | vector elements stride => exact vector_back elements stride hlen hwf h
  | offsetVector targets => exact offsetVector_back targets hlen h
  | table size align slots fields => exact table_back size align slots fields known hlen hwf h

end Reads

/-! ### The finished buffer -/

section Finish

variable {b : Builder} {c buf : Bytes}

/-- The alignment that the buffer's length is a multiple of. -/
def finishAlign (align : Nat) : Nat := if align > OFFSET_SIZE then align else OFFSET_SIZE

theorem finish_spec (root : Pos) (align : Nat) (hb : b.Holds c) (hlen : b.out.length < 2 ^ 31)
    (hroot : 0 < root.val ∧ root.val ≤ c.length) (h : b.finish root align = .ok buf) :
    (∃ x, buf = x ++ c) ∧ buf.length < 2 ^ 31 ∧ finishAlign align ∣ buf.length ∧
      FlatBuffers.root buf = .ok (buf.length - root.val) := by
  unfold Builder.finish at h
  rcases of_bind_eq_ok h with ⟨⟨b1, p1⟩, hr, hfinished⟩
  have hstarts := length_toLE OFFSET_SIZE (delta p1 root)
  rcases reserve_fills OFFSET_SIZE (finishAlign align) 0 [(0, toLE OFFSET_SIZE (delta p1 root))] hb
    hr (by simp only [List.forall_mem_singleton, hstarts, Nat.zero_add, Nat.le_refl])
    (List.pairwise_singleton _ _) with ⟨x, ⟨front, hout, hused⟩, hp, hsize, hwritten, _, hmod, hsame⟩
  have halign : 0 < finishAlign align := by
    unfold finishAlign
    by_cases hbig : align > OFFSET_SIZE
    · rw [if_pos hbig]
      exact Nat.lt_of_le_of_lt (Nat.zero_le _) hbig
    · rw [if_neg hbig]
      decide
  have hbuf : x ++ c = buf := by
    rw [← Except.ok.inj hfinished]
    show x ++ c = (b1.fill p1 0 _).out.drop ((b1.fill p1 0 _).out.length - p1.val)
    have hfront : (front ++ (x ++ c)).length - p1.val = front.length := by
      rw [List.length_append, List.length_append]
      omega
    have hsplit : (b1.fill p1 0 (toLE OFFSET_SIZE (delta p1 root))).out = front ++ (x ++ c) := hout
    rw [hsplit, hfront, List.drop_left]
  have hp : p1.val = buf.length := by rw [← hbuf, List.length_append, hp]
  have hle : buf.length ≤ b.out.length := by
    rw [← hsame, hout, ← hbuf]
    simp only [List.length_append]
    omega
  have hclen : c.length + OFFSET_SIZE ≤ buf.length := by
    rw [← hbuf, List.length_append]
    omega
  have hview : view buf p1 0 OFFSET_SIZE = (Field.offset root).bytes ⟨p1.val - 0⟩ := by
    have hthere := hwritten _ List.mem_cons_self
    simp only [hstarts] at hthere
    rw [← hbuf, view_new x 0 _ (by rw [hp, ← hbuf, List.length_append]) (by omega)]
    exact hthere
  have hlen' : buf.length < 2 ^ 31 := Nat.lt_of_le_of_lt hle hlen
  have hfour : 0 < OFFSET_SIZE := by decide
  refine ⟨⟨x, hbuf.symm⟩, hlen', ?_, ?_⟩
  · have hzero := hmod halign
    rw [hp, Nat.zero_mod] at hzero
    exact Nat.dvd_of_mod_eq_zero hzero
  · have hfollow := follow_offset root 0 hlen' (Nat.le_of_eq hp) (by omega)
      ⟨hroot.1, by omega⟩ hview
    rw [hp, Nat.sub_self, Nat.add_zero] at hfollow
    exact hfollow

end Finish

/-! ### Alignment -/

section Alignment

variable {buf : Bytes} {p : Pos} {align : Nat}

theorem dvd_finishAlign (a : Nat) (ha : a.isPowerOfTwo) (hpos : 0 < align) (h : a ∣ align) :
    a ∣ finishAlign align := by
  unfold finishAlign
  by_cases hbig : align > OFFSET_SIZE
  · rw [if_pos hbig]
    exact h
  · rw [if_neg hbig]
    have hle : a ≤ 4 := Nat.le_trans (Nat.le_of_dvd hpos h) (Nat.not_lt.mp hbig)
    rcases ha with ⟨k, rfl⟩
    have hk : k ≤ 2 := (Nat.pow_le_pow_iff_right (Nat.one_lt_two)).mp hle
    exact Nat.pow_dvd_pow 2 hk

/-- What lies on a boundary from the end of the buffer does so from its start. -/
theorem dvd_start (a : Nat) (hlen : a ∣ buf.length) (hp : a ∣ p.val) :
    a ∣ buf.length - p.val := Nat.dvd_sub hlen hp

theorem Field.size_isPowerOfTwo (v : Field) : v.size.isPowerOfTwo := by
  cases v with
  | bool | u8 | i8 => exact ⟨0, rfl⟩
  | u16 | i16 => exact ⟨1, rfl⟩
  | u32 | i32 | f32 | offset => exact ⟨2, rfl⟩
  | u64 | i64 | f64 => exact ⟨3, rfl⟩

theorem OFFSET_SIZE_isPowerOfTwo : OFFSET_SIZE.isPowerOfTwo := ⟨2, rfl⟩

/-- An object that is laid out lies on its boundary in a buffer whose length is
    a multiple of the alignment. -/
theorem placed_aligned (op : Push) (known : List Pos) (hpos : 0 < align)
    (hlen : finishAlign align ∣ buf.length) (hwf : op.WellFormed known) (h : Placed buf p op) :
    op.Aligned align buf p := by
  have haligned := h.aligned
  have hin := h.inside
  have hend (a : Nat) (ha : a.isPowerOfTwo) (hdvd : a ∣ align) : a ∣ buf.length :=
    Nat.dvd_trans (dvd_finishAlign a ha hpos hdvd) hlen
  cases op with
  | scalar value =>
      intro hdvd
      rw [Push.boundary, Nat.zero_mod] at haligned
      exact dvd_start _ (hend _ value.size_isPowerOfTwo hdvd) (Nat.dvd_of_mod_eq_zero haligned)
  | string value =>
      intro hdvd
      rw [Push.boundary, Nat.zero_mod] at haligned
      exact dvd_start _ (hend _ OFFSET_SIZE_isPowerOfTwo hdvd) (Nat.dvd_of_mod_eq_zero haligned)
  | vector elements stride =>
      intro hstride hdvd i
      refine Nat.dvd_add ?_ (Nat.dvd_mul_left stride i)
      have hfits : OFFSET_SIZE + elements.length ≤ p.val := h.fits
      by_cases hbig : stride > OFFSET_SIZE
      · -- The first element, not the length, lies on the boundary.
        rw [Push.boundary_vector, if_pos hbig] at haligned
        have hback : stride ∣ p.val - OFFSET_SIZE :=
          (Nat.modEq_iff_dvd' (by omega)).mp haligned.symm
        have hfirst := Nat.dvd_sub (hend stride hstride hdvd) hback
        have hsame : buf.length - (p.val - OFFSET_SIZE) = buf.length - p.val + OFFSET_SIZE := by omega
        rw [hsame] at hfirst
        exact hfirst
      · rw [Push.boundary_vector, if_neg hbig, Nat.zero_mod] at haligned
        have hsmall : stride ∣ OFFSET_SIZE := by
          rcases hstride with ⟨k, rfl⟩
          have hk : k ≤ 2 :=
            (Nat.pow_le_pow_iff_right (Nat.one_lt_two)).mp (Nat.not_lt.mp hbig)
          exact Nat.pow_dvd_pow 2 hk
        exact Nat.dvd_add (dvd_start _ (hend stride hstride hdvd)
          (Nat.dvd_trans hsmall (Nat.dvd_of_mod_eq_zero haligned))) hsmall
  | offsetVector targets =>
      intro hdvd i
      rw [Push.boundary, Nat.zero_mod] at haligned
      exact Nat.dvd_add (Nat.dvd_add (dvd_start _ (hend _ OFFSET_SIZE_isPowerOfTwo hdvd)
        (Nat.dvd_of_mod_eq_zero haligned)) (Nat.dvd_refl _)) (Nat.dvd_mul_left _ i)
  | table size tableAlign slots fields =>
      intro hdvd
      rw [Push.boundary, Nat.zero_mod] at haligned
      have htable : tableAlign ∣ buf.length - p.val :=
        dvd_start _ (hend _ hwf.2.2.1 hdvd) (Nat.dvd_of_mod_eq_zero haligned)
      exact ⟨htable, fun f _ hsize hoffset => Nat.dvd_add (Nat.dvd_trans hsize htable) hoffset⟩

end Alignment

/-- What was pushed into a slice and finished is read back from the buffer: the
    root, the values of present fields, nothing for absent ones, the texts and
    the elements; and a table, an element and a scalar lie on their boundaries
    where the buffer's alignment is a multiple of them, a table's scalar where
    the layout that its table was given has it on its boundary. -/
theorem builder_reader (out : Bytes) (hout : out.length < 2 ^ 31) (b : Builder)
    (objects : List (Pos × Push)) (hbuilt : Built out b objects) (root : Pos)
    (hroot : root ∈ objects.map Prod.fst) (align : Nat) (halign : 0 < align) (buf : Bytes)
    (hfinish : b.finish root align = .ok buf) :
    FlatBuffers.root buf = .ok (buf.length - root.val) ∧
      ∀ object ∈ objects, object.2.ReadsBack buf object.1 ∧ object.2.Aligned align buf object.1 := by
  rcases built_placed hbuilt with ⟨c, hholds, hlen, hplaced⟩
  have hreach : 0 < root.val ∧ root.val ≤ c.length := by
    rcases List.mem_map.mp hroot with ⟨object, hobject, rfl⟩
    rcases hplaced object hobject with ⟨hthere, hpos, _⟩
    exact ⟨hpos, hthere.inside⟩
  rcases finish_spec root align hholds (hlen ▸ hout) hreach hfinish with
    ⟨⟨x, rfl⟩, hbuf, hdvd, hread⟩
  refine ⟨hread, fun object hobject => ?_⟩
  rcases hplaced object hobject with ⟨hthere, _, known, hwf⟩
  have hbehind := hthere.append x object.2
  exact ⟨placed_back object.2 known hbuf hwf hbehind,
    placed_aligned object.2 known halign hdvd hwf hbehind⟩

/-- A table whose one field names a text. -/
def naming (text : Pos) : Push := .table 8 4 1 [⟨0, 4, .offset text⟩]

/-- The text, then the table that names it, then the root. -/
def buildNaming (out : Bytes) (value : String) :
    Except EncodeError (Builder × Pos × Builder × Pos × Bytes) := do
  let (b, text) ← (Builder.new out).push (.string value)
  let (b', table) ← b.push (naming text)
  let buf ← b'.finish table 4
  .ok (b, text, b', table, buf)

theorem naming_wellFormed (text : Pos) : (naming text).WellFormed [text] :=
  ⟨by decide, by decide, ⟨2, rfl⟩, by decide, List.nodup_singleton _,
    List.forall_mem_singleton.mpr ⟨(by decide : (0 : UInt16) < 1),
      (by decide : OFFSET_SIZE ≤ (4 : UInt16).toNat), (by decide : (4 : UInt16).toNat + 4 ≤ 8),
      List.mem_cons_self⟩, List.pairwise_singleton _ _⟩

/-- A text is found through the root and the field that names it. -/
theorem builder_reader_text :
    ∃ buf table start, FlatBuffers.root buf = .ok table ∧ field buf table 0 4 = .ok (some start) ∧
      FlatBuffers.string buf start = .ok "ridl" := by
  have hruns : (buildNaming (List.replicate 64 0) "ridl").isOk = true := by decide +kernel
  rcases hrun : buildNaming (List.replicate 64 0) "ridl" with e | ⟨b, text, b', table, buf⟩
  · rw [hrun] at hruns
    cases hruns
  rcases of_bind_eq_ok hrun with ⟨⟨b1, p1⟩, hstring, hrest⟩
  rcases of_bind_eq_ok hrest with ⟨⟨b2, p2⟩, htable, hrest⟩
  rcases of_bind_eq_ok hrest with ⟨buf', hfinish, hdone⟩
  cases hdone
  have hbuilt := Built.push b b' _ table (naming text)
    (Built.push (Builder.new (List.replicate 64 0)) b [] text (.string "ridl") Built.new trivial
      hstring) (naming_wellFormed text) htable
  rcases builder_reader (List.replicate 64 0) (by decide) b' _ hbuilt table List.mem_cons_self 4
    (by decide) buf hfinish with ⟨hroot, hread⟩
  rcases (hread _ List.mem_cons_self).1.1 _ List.mem_cons_self with ⟨hfield, hfollow⟩
  exact ⟨buf, _, _, hroot, hfield,
    (hread _ (List.mem_cons_of_mem _ List.mem_cons_self)).1 _ hfollow⟩

/-- A table whose layout puts a scalar of four bytes five bytes from its
    start. -/
def skewed : Push := .table 9 4 1 [⟨0, 5, .u32 7⟩]

/-- The scalar lies where the layout puts it, which is on no boundary of its
    own, though the buffer's alignment is a multiple of all that are used. -/
theorem scalar_unaligned :
    ∃ b table buf, Built (List.replicate 64 0) b [(table, skewed)] ∧
      b.finish table 4 = .ok buf ∧ buf.length < 2 ^ 31 ∧
      ∃ position, field buf (buf.length - table.val) 0 4 = .ok (some position) ∧
        readU32 buf position = .ok 7 ∧ ¬ 4 ∣ position := by
  have hruns : ((Builder.new (List.replicate 64 0)).push skewed).toOption.any (fun pushed =>
      (pushed.1.finish pushed.2 4).toOption.any (fun buf =>
        decide (buf.length = 24 ∧ pushed.2.val = 12 ∧
          field buf (buf.length - pushed.2.val) 0 4 = .ok (some 17) ∧
          readU32 buf 17 = .ok 7))) = true := by decide +kernel
  rcases (Option.any_eq_true _ _).mp hruns with ⟨⟨b, table⟩, hpush, hfinishes⟩
  rcases (Option.any_eq_true _ _).mp hfinishes with ⟨buf, hfinish, hboth⟩
  rcases of_decide_eq_true hboth with ⟨hlen, _, hfield, hread⟩
  refine ⟨b, table, buf, ?_, ?_, by omega, 17, hfield, hread, by decide⟩
  · refine Built.push (Builder.new (List.replicate 64 0)) b [] table skewed Built.new ?_ ?_
    · exact ⟨by decide, by decide, ⟨2, rfl⟩, by decide, List.nodup_singleton _,
        List.forall_mem_singleton.mpr ⟨by decide, by decide, by decide, trivial⟩,
        List.pairwise_singleton _ _⟩
    · exact of_toOption_eq_some hpush
  · exact of_toOption_eq_some hfinish

end FlatBuffers

end Ridl
