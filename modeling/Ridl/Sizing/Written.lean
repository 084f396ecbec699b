import Mathlib.Data.List.Perm.Subperm
import Ridl.Codec.FlatBuffersRoom
import Ridl.Library.FirstFit
import Ridl.Sizing.MaxSize

/-!
# What is Written for a Value

The pushes that put a value of a declaration into a buffer.

A table has an inline layout: its fields in some order, each aligned to its own
width. A field that is left out may keep its room. What a field places out of
line is pushed for it, and the field is an offset to it. A text is as long as
its scalar allows, and a collection has as many elements; what the elements and
the fields hold is not restricted otherwise, so every legal value is among those
described, and more.

The pushes are listed here with children before parents, and the bound holds for
them in any order.
-/

namespace Ridl

namespace Sizing

open Diff Library
open FlatBuffers (Push Pos TableField utf8 vtableSize)
open Podbuf (Packages IntWidth FloatWidth)

/-! ### The layout of a table -/

/-- Places widths in order from a cursor on, each aligned to its own width. -/
def placeFrom : Nat → Nat → List Nat → List Nat × Nat × Nat
  | cursor, align, [] => ([], max cursor 4, align)
  | cursor, align, width :: widths =>
      let offset := alignUp cursor width
      let (offsets, size, align) := placeFrom (offset + width) (max align width) widths
      (offset :: offsets, size, align)

/-- The offsets of fields after the offset to the vtable, the size of the table and its
    alignment. -/
def place (widths : List Nat) : List Nat × Nat × Nat := placeFrom 4 4 widths

/-- A field of a table. One that is left out has room and no slot. -/
structure Entry where
  id : Nat
  value : FlatBuffers.Field
  present : Bool

/-- The push of a table with its fields in an order. -/
def tablePush (slots : UInt16) (entries : List Entry) : Push :=
  let (offsets, size, align) := place (entries.map (·.value.size))
  .table size align slots
    (((entries.zip offsets).filter (·.1.present)).map fun (entry, offset) =>
      { slot := UInt16.ofNat entry.id, offset := UInt16.ofNat offset, value := entry.value })

theorem size_pos_le (f : FlatBuffers.Field) : 0 < f.size ∧ f.size ≤ 8 := by
  cases f <;> simp [FlatBuffers.Field.size]

theorem placeFrom_le {widths : List Nat} (h : ∀ width ∈ widths, 0 < width ∧ width ≤ 8)
    (cursor align : Nat) (hcursor : 4 ≤ cursor) (halign : 0 < align ∧ align ≤ 8) :
    (placeFrom cursor align widths).2.1 ≤ cursor + (widths.sum + 7 * widths.length) ∧
      0 < (placeFrom cursor align widths).2.2 ∧ (placeFrom cursor align widths).2.2 ≤ 8 := by
  induction widths generalizing cursor align with
  | nil => exact ⟨by simp only [placeFrom]; omega, halign⟩
  | cons width widths ih =>
      rcases h width List.mem_cons_self with ⟨hpos, hle⟩
      have hlow := le_alignUp cursor hpos
      have hhigh := alignUp_lt cursor hpos
      rcases ih (fun w hw => h w (List.mem_cons_of_mem _ hw)) (alignUp cursor width + width)
          (max align width) (by omega) ⟨by omega, by omega⟩ with ⟨hsize, halign⟩
      refine ⟨?_, halign⟩
      rw [List.sum_cons, List.length_cons]
      show (placeFrom (alignUp cursor width + width) (max align width) widths).2.1 ≤ _
      omega

theorem cost_tablePush_le (slots : UInt16) (entries : List Entry) :
    (tablePush slots entries).cost
      ≤ 4 + ((entries.map (·.value.size)).sum + 7 * entries.length) + 7
        + (4 + 2 * slots.toNat + 1) := by
  have hwidths : ∀ width ∈ entries.map (·.value.size), 0 < width ∧ width ≤ 8 := by
    intro width hwidth
    rcases List.mem_map.1 hwidth with ⟨entry, -, rfl⟩
    exact size_pos_le entry.value
  rcases placeFrom_le hwidths 4 4 (Nat.le_refl 4) ⟨by decide, by decide⟩ with ⟨hsize, -, halign⟩
  rw [List.length_map] at hsize
  show (place (entries.map (·.value.size))).2.1 + ((place (entries.map (·.value.size))).2.2 - 1)
    + (FlatBuffers.VTABLE_HEADER + slots.toNat * FlatBuffers.VOFFSET_SIZE
      + (FlatBuffers.VOFFSET_SIZE - 1)) ≤ _
  unfold place FlatBuffers.VTABLE_HEADER FlatBuffers.VOFFSET_SIZE
  omega

/-! ### Values -/

/-- What an integer of a width is written as. -/
def IsInt (width : Int) (f : FlatBuffers.Field) : Prop :=
  match IntWidth.ofInt width with
  | some .u8 => ∃ v, f = .u8 v
  | some .i8 => ∃ v, f = .i8 v
  | some .u16 => ∃ v, f = .u16 v
  | some .i16 => ∃ v, f = .i16 v
  | some .u32 => ∃ v, f = .u32 v
  | some .i32 => ∃ v, f = .i32 v
  | some .u64 => ∃ v, f = .u64 v
  | some .i64 => ∃ v, f = .i64 v
  | none => False

/-- What is pushed for a scalar, and what stands for it in its table. -/
inductive ScalarStored (d : TypeDef) : List Push → FlatBuffers.Field → Prop
  | int {width : Int} {f : FlatBuffers.Field} (hwidth : d.width = some (.int width))
      (hint : IsInt width f) : ScalarStored d [] f
  | f32 {width : Int} (v : FlatBuffers.F32) (hwidth : d.width = some (.float width))
      (hfloat : FloatWidth.ofInt width = some .f32) : ScalarStored d [] (.f32 v)
  | f64 {width : Int} (v : FlatBuffers.F64) (hwidth : d.width = some (.float width))
      (hfloat : FloatWidth.ofInt width = some .f64) : ScalarStored d [] (.f64 v)
  | boolean (v : Bool) (hwidth : d.width = none)
      (hbacking : d.backing = some (some (.primitive PRIMITIVE_BOOLEAN))) :
      ScalarStored d [] (.bool v)
  | bytes {max : Nat} (elements : Bytes) (p : Pos) (hwidth : d.width = none)
      (hbacking : d.backing = some (some (.primitive PRIMITIVE_BYTES)))
      (hmax : d.constraint.bind Constraint.lenMax = some max) (hlength : elements.length ≤ max) :
      ScalarStored d [.vector elements 1] (.offset p)
  | text {max : Nat} (value : String) (p : Pos) (hwidth : d.width = none)
      (hbacking : d.backing = some (some (.primitive PRIMITIVE_STRING)))
      (hmax : d.constraint.bind Constraint.lenMax = some max) (hlength : value.length ≤ max) :
      ScalarStored d [.string value] (.offset p)

/-- A field of a table, with what it places out of line. -/
structure Child where
  kind : FieldKind
  pushes : List Push
  entry : Entry

/-- The kind of a type that may be missing. -/
def kindOf (type : Option FieldType) : Option FieldKind := type.bind FieldType.kind

/-- A member that is not retired, with its slot. -/
def liveField : Option StructMember → Option (Nat × Option FieldKind)
  | some (.field field) => some (field.ordinal - 1, kindOf field.type)
  | _ => none

/-- The fields of a struct that are not retired, with their slots. -/
def liveFields (d : StructDef) : List (Nat × Option FieldKind) := d.members.filterMap liveField

/-- The fields of a tuple, from a position on. -/
def tupleFields : Nat → List TupleField → List (Nat × Option FieldKind)
  | _, [] => []
  | index, .mk _ type :: fields => (index, kindOf type) :: tupleFields (index + 1) fields

/-- What can be written: a field of a type, a table with some slots and the fields declared for it,
    a composite, and an arm of a union. -/
inductive Job
  | field (kind : FieldKind)
  | table (slots : Nat) (declared : List (Nat × Option FieldKind))
  | composite (decl : Decl)
  | arm (reference : String)

def Job.entry (key value : Option FieldType) : Job :=
  .table mapEntryTable.vtableSlots
    [(MAP_ENTRY_KEY_ID, kindOf key), (MAP_ENTRY_VALUE_ID, kindOf value)]

/-- The box around what a name refers to. -/
def Job.box (reference : String) : Job :=
  .table unionArmBoxTable.vtableSlots [(UNION_ARM_BOX_VALUE_ID, some (.named reference))]

/-- A scalar, an enum or an enum set. -/
def IsBoxed : Option Diff.Kind → Prop
  | some (.typeDef _) | some (.enumDef _) | some (.enumSetDef _) => True
  | _ => False

def IsComposite : Option Diff.Kind → Prop
  | some (.structDef _) | some (.unionDef _) => True
  | _ => False

/-- What is pushed for a value that is written in a package, and what stands for it in its
    parent. -/
inductive Stored {packages : Packages} :
    Home packages → Job → List Push → FlatBuffers.Field → Prop
  | boolean (home : Home packages) (v : Bool) :
      Stored home (.field (.primitive PRIMITIVE_BOOLEAN)) [] (.bool v)
  | integer (home : Home packages) (v : Int64) :
      Stored home (.field (.primitive PRIMITIVE_INTEGER)) [] (.i64 v)
  | float (home : Home packages) (v : FlatBuffers.F64) :
      Stored home (.field (.primitive PRIMITIVE_FLOAT)) [] (.f64 v)
  | inlineScalar (home : Home packages) {d : TypeDef} {pushes : List Push}
      {f : FlatBuffers.Field} (h : ScalarStored d pushes f) :
      Stored home (.field (.inlineScalar d)) pushes f
  | scalar (home : Home packages) {reference : String} {found : Found packages} {d : TypeDef}
      {pushes : List Push} {f : FlatBuffers.Field} (hfound : resolve home reference = some found)
      (hkind : found.decl.kind = some (.typeDef d)) (h : ScalarStored d pushes f) :
      Stored home (.field (.named reference)) pushes f
  | enum (home : Home packages) {reference : String} {found : Found packages} {d : EnumDef}
      (v : Int64) (hfound : resolve home reference = some found)
      (hkind : found.decl.kind = some (.enumDef d)) :
      Stored home (.field (.named reference)) [] (.i64 v)
  | enumSet (home : Home packages) {reference : String} {found : Found packages}
      {d : EnumSetDef} {f : FlatBuffers.Field} (hfound : resolve home reference = some found)
      (hkind : found.decl.kind = some (.enumSetDef d)) (hint : IsInt d.width f) :
      Stored home (.field (.named reference)) [] f
  | named (home : Home packages) {reference : String} {found : Found packages}
      {pushes : List Push} {f : FlatBuffers.Field} (hfound : resolve home reference = some found)
      (hkind : IsComposite found.decl.kind)
      (h : Stored found.declaring (.composite found.decl) pushes f) :
      Stored home (.field (.named reference)) pushes f
  | tuple (home : Home packages) {fields : List TupleField} {layout : TableLayout}
      {pushes : List Push} {f : FlatBuffers.Field} (hlayout : tupleTable "" fields = .ok layout)
      (h : Stored home (.table layout.vtableSlots (tupleFields 0 fields)) pushes f) :
      Stored home (.field (.tuple fields)) pushes f
  -- Elements that stand in the vector itself, as wide as a value of the type is.
  | scalars (home : Home packages) {isOptional : Bool} {kind : FieldKind} {min max : Nat}
      {sample : FlatBuffers.Field} (values : List FlatBuffers.Field) (elements : Bytes) (p : Pos)
      (hsample : Stored home (.field kind) [] sample)
      (hvalues : ∀ v ∈ values, Stored home (.field kind) [] v)
      (hwidth : ∀ v ∈ values, v.size = sample.size)
      (hlength : elements.length = values.length * sample.size) (hmax : values.length ≤ max) :
      Stored home (.field (.array (some (.mk isOptional (some kind))) min max))
        [.vector elements sample.size] (.offset p)
  | offsets (home : Home packages) {isOptional : Bool} {kind : FieldKind} {min max : Nat}
      (elements : List (List Push × Pos)) (p : Pos)
      (helements : ∀ e ∈ elements, Stored home (.field kind) e.1 (.offset e.2))
      (hmax : elements.length ≤ max) :
      Stored home (.field (.array (some (.mk isOptional (some kind))) min max))
        (elements.flatMap (·.1) ++ [.offsetVector (elements.map (·.2))]) (.offset p)
  | map (home : Home packages) {key value : Option FieldType} {min max : Nat}
      (entries : List (List Push × Pos)) (p : Pos)
      (hentries : ∀ e ∈ entries, Stored home (.entry key value) e.1 (.offset e.2))
      (hmax : entries.length ≤ max) :
      Stored home (.field (.map key value min max))
        (entries.flatMap (·.1) ++ [.offsetVector (entries.map (·.2))]) (.offset p)
  -- Any of the declared fields, in any order. What is left out has the room of some value.
  | table (home : Home packages) {slots : Nat} {declared : List (Nat × Option FieldKind)}
      (count : UInt16) (children : List Child) (p : Pos)
      (hchildren : (children.map fun c => (c.entry.id, some c.kind)).Subperm declared)
      (hstored : ∀ c ∈ children, Stored home (.field c.kind) c.pushes c.entry.value)
      (hslots : count.toNat ≤ slots) :
      Stored home (.table slots declared)
        ((children.filter (·.entry.present)).flatMap (·.pushes)
          ++ [tablePush count (children.map (·.entry))]) (.offset p)
  | struct (home : Home packages) {decl : Decl} {d : StructDef} {layout : TableLayout}
      {pushes : List Push} {f : FlatBuffers.Field} (hkind : decl.kind = some (.structDef d))
      (hlayout : structTable decl.name d = .ok layout)
      (h : Stored home (.table layout.vtableSlots (liveFields d)) pushes f) :
      Stored home (.composite decl) pushes f
  -- The wrapper has the discriminant and the offset to the arm, in either order.
  | union (home : Home packages) {decl : Decl} {d : UnionDef} {arm : UnionArm}
      {pushes : List Push} {target : Pos} (count : UInt16) (entries : List Entry)
      (discriminant : UInt8) (p : Pos) (hkind : decl.kind = some (.unionDef d))
      (harm : arm ∈ d.arms) (h : Stored home (.arm arm.typeRef) pushes (.offset target))
      (hcount : count.toNat ≤ unionWrapperTable.vtableSlots)
      (hentries : entries.Perm
        [⟨UNION_WRAPPER_VALUE_ID - 1, .u8 discriminant, true⟩,
          ⟨UNION_WRAPPER_VALUE_ID, .offset target, true⟩]) :
      Stored home (.composite decl) (pushes ++ [tablePush count entries]) (.offset p)
  | armTable (home : Home packages) {reference : String} {found : Found packages}
      {pushes : List Push} {f : FlatBuffers.Field} (hfound : resolve home reference = some found)
      (hkind : IsComposite found.decl.kind)
      (h : Stored found.declaring (.composite found.decl) pushes f) :
      Stored home (.arm reference) pushes f
  | armBox (home : Home packages) {reference : String} {found : Found packages}
      {pushes : List Push} {f : FlatBuffers.Field} (hfound : resolve home reference = some found)
      (hkind : IsBoxed found.decl.kind) (h : Stored home (.box reference) pushes f) :
      Stored home (.arm reference) pushes f

/-- What is pushed for a value of a declaration as the root of a buffer. -/
def Written (packages : Packages) (decl : Decl) (pushes : List Push) : Prop :=
  ∃ p : Pos,
    IsComposite decl.kind ∧ Stored (rootHome packages) (.composite decl) pushes (.offset p) ∨
      IsBoxed decl.kind ∧ Stored (rootHome packages) (.box decl.name) pushes (.offset p)

end Sizing

end Ridl
