import Ridl.Podbuf.Layout
import Ridl.Podbuf.Writer
import Mathlib.Data.List.Sort

/-!
# The Encoder

What the generated code writes for a value: the head where it was reserved, and
behind it a block for each variable-length field, in the order of the fields,
depth first. Elements of an array or a map follow their own block.

The code of one type is generated from its head, so the encoder here goes over
the head with the value: one definition for every type.

A value carries what the checks of its type let through; a named scalar was
checked when it was built, and an anonymous one is checked here.

## Main definitions

* `writeForm`, `writeHead`: The statements for a form and for a head.
* `formBlocks`, `headBlocks`: The blocks a value takes in the tail.
* `FormHolds`, `HeadHolds`: The value is one of the type.

## Theorems

* `writeForm_follows`: The encoder reserves the blocks of the value.
-/

namespace Ridl

namespace Podbuf

open Library

/-- A value: of a scalar, or of an enum by its number; the elements of an array;
    the entries of a map; the present fields of a struct or a tuple, and the one
    field of a box; an arm of a union. -/
inductive Value
  | bool (b : Bool)
  | int (n : Int)
  | float (x : Float)
  | text (s : String)
  | bytes (bs : List UInt8)
  | array (elements : List Value)
  | map (entries : List (Value × Value))
  | fields (present : List (Source × Value))
  | union (ordinal : Nat) (arm : Value)

/-! ### Keys -/

/-- The order of two keys: bytewise for text and bytes, numeric otherwise. -/
def keyCompare : Value → Value → Ordering
  | .text s, .text t => compare s.toUTF8.toList t.toUTF8.toList
  | .bytes a, .bytes b => compare a b
  | .float x, .float y => if x < y then .lt else if y < x then .gt else .eq
  | .int m, .int n => compare m n
  | .bool a, .bool b => compare a b
  | _, _ => .eq

def keyEqual : Value → Value → Bool
  | .text s, .text t => s == t
  | .bytes a, .bytes b => a == b
  | .float x, .float y => x == y
  | .int m, .int n => m == n
  | .bool a, .bool b => a == b
  | _, _ => false

def keyIsNan : Value → Bool
  | .float x => x.isNaN
  | _ => false

/-- The entries in the order of their keys. -/
def sortEntries (entries : List (Value × Value)) : List (Value × Value) :=
  entries.insertionSort (fun a b => keyCompare a.1 b.1 ≠ .gt)

/-- Two neighbours have one key. -/
def hasEqualNeighbours : List (Value × Value) → Bool
  | a :: b :: rest => keyEqual a.1 b.1 || hasEqualNeighbours (b :: rest)
  | _ => false

/-! ### Statements -/

/-- The low bytes of a number. -/
def castTo (width : IntWidth) (n : Int) : Nat := (n % 2 ^ (8 * width.bytes)).toNat

/-- A number is one of the width. -/
def IntWidth.holds (width : IntWidth) (n : Int) : Bool :=
  if width.isSigned then fitsSigned (8 * width.bytes) n
  else 0 ≤ n && n < 2 ^ (8 * width.bytes)

/-- An open enum or enum set of less than 64 bits is refused a number that its
    width does not hold. -/
def openWidthCheck (isOpen : String → Bool) (width : IntWidth) (reference : String) (n : Int) :
    Bool :=
  !isOpen reference || width.bytes == 8 || width.holds n

/-- A bounded string: its bytes and one NUL in the tail. An empty one has none. -/
def textWrite (min max : Nat) (s : String) (start : Nat) (w : Writer) : Encoded :=
  if s.length < min ∨ max < s.length then .error (.contract .length)
  else if s.toUTF8.toList.contains 0 then .error (.contract .pattern)
  else if s.isEmpty then .ok w
  else do
    let r ← w.tail (s.utf8ByteSize + 1) 1
    .ok ((r.2.store r.1 s.toUTF8.toList).putDesc start r.1 s.utf8ByteSize)

def bytesWrite (min max : Nat) (bs : List UInt8) (start : Nat) (w : Writer) : Encoded :=
  if bs.length < min ∨ max < bs.length then .error (.contract .length)
  else if bs.isEmpty then .ok w
  else do
    let r ← w.tail bs.length 1
    .ok ((r.2.store r.1 bs).putDesc start r.1 bs.length)

/-- Reserves the block of the elements and writes its descriptor. -/
def blockWrite (elemSize align count start : Nat) (elements : Nat → Writer → Encoded) (w : Writer) :
    Encoded := do
  let r ← w.tail (count * elemSize) align
  elements r.1 (r.2.putArrayDesc start r.1 count elemSize)

def writeElements (write : Value → Nat → Writer → Encoded) (stride : Nat) :
    List Value → Nat → Writer → Encoded
  | [], _, w => .ok w
  | v :: rest, start, w => write v start w >>= writeElements write stride rest (start + stride)

/-- The entry of a map as the fields of its head. -/
def entryValue (entry : Value × Value) : Value := .fields [(.key, entry.1), (.value, entry.2)]

/-- The bits of a flags byte: one for each present field it records. -/
def flagsByte (fields : List Placement) (present : List (Source × Value)) (index : Nat) : Nat :=
  fields.foldl (fun bits p =>
    match p.optional with
    | some flag =>
        if flag.flags = index ∧ (present.lookup p.source).isSome then bits ||| 1 <<< flag.bit
        else bits
    | none => bits) 0

mutual

/-- The fields of a head in the order of their offsets. -/
def writeHead (isOpen : String → Bool) : Head → Value → Nat → Writer → Encoded
  | .mk _ fields _, v, start, w => writeFields isOpen fields fields v start w

def writeFields (isOpen : String → Bool) (all : List Placement) :
    List Placement → Value → Nat → Writer → Encoded
  | [], _, _, w => .ok w
  | p :: rest, v, start, w =>
      writePlacement isOpen all p v start w >>= writeFields isOpen all rest v start

/-- One field: a flags byte, a present field of a struct, or the tag or the arm
    of a union. What is absent leaves its bytes zero. -/
def writePlacement (isOpen : String → Bool) (all : List Placement) :
    Placement → Value → Nat → Writer → Encoded
  | .mk source offset _ _ form _, v, start, w =>
      match v with
      | .fields present =>
          match source with
          | .flags index => .ok (w.put (start + offset) 1 (flagsByte all present index))
          | source =>
              match present.lookup source with
              | none => .ok w
              | some v => writeForm isOpen form v (start + offset) w
      | .union ordinal arm =>
          match form with
          | .int width _ => .ok (w.put (start + offset) width.bytes ordinal)
          | .descriptor (.arm arms) => writeArm isOpen arms ordinal arm (start + offset) w
          | _ => .ok w
      | _ => .ok w

/-- The head of the active arm in the tail, unless it has no field. -/
def writeArm (isOpen : String → Bool) : List ArmHead → Nat → Value → Nat → Writer → Encoded
  | [], _, _, _, w => .ok w
  | .mk number head :: rest, ordinal, arm, start, w =>
      if number = ordinal then
        if head.size = 0 then .ok w
        else do
          let r ← w.tail head.size 8
          writeHead isOpen head arm r.1 (r.2.putDesc start r.1 head.size)
      else writeArm isOpen rest ordinal arm start w

def writeForm (isOpen : String → Bool) : Form → Value → Nat → Writer → Encoded
  | .bool, v, start, w =>
      match v with
      | .bool b => .ok (w.put start 1 b.toNat)
      | _ => .ok w
  | .int width _, v, start, w =>
      match v with
      | .int n => .ok (w.put start width.bytes (castTo width n))
      | _ => .ok w
  | .float width, v, start, w =>
      match v, width with
      | .float x, .f32 => .ok (w.put start 4 x.toFloat32.toBits.toNat)
      | .float x, .f64 => .ok (w.put start 8 x.toBits.toNat)
      | _, _ => .ok w
  | .enum width _ reference, v, start, w =>
      match v with
      | .int n =>
          if openWidthCheck isOpen width reference n then
            .ok (w.put start width.bytes (castTo width n))
          else .error (.contract .range)
      | _ => .ok w
  | .enumSet width reference, v, start, w =>
      match v with
      | .int n =>
          if openWidthCheck isOpen width reference n then
            .ok (w.put start width.bytes (castTo width n))
          else .error (.contract .range)
      | _ => .ok w
  | .inline head _, v, start, w => if head.size = 0 then .ok w else writeHead isOpen head v start w
  | .inlineArray element count, v, start, w =>
      match v with
      | .array elements =>
          writeElements (writeForm isOpen element) (elemSize element) elements start w
      | .bytes bs =>
          if bs.length ≠ count then .error (.contract .length) else .ok (w.store start bs)
      | _ => .ok w
  | .descriptor kind, v, start, w => writeDescriptor isOpen kind v start w

def writeDescriptor (isOpen : String → Bool) : DescriptorKind → Value → Nat → Writer → Encoded
  | .text min max, v, start, w =>
      match v with
      | .text s => textWrite min max s start w
      | _ => .ok w
  | .bytes min max, v, start, w =>
      match v with
      | .bytes bs => bytesWrite min max bs start w
      | _ => .ok w
  | .array element elemSize min max, v, start, w =>
      match v with
      | .array elements =>
          if elements.length < min ∨ max < elements.length then .error (.contract .length)
          else if elements.isEmpty then .ok w
          else
            blockWrite elemSize (alignOf element) elements.length start
              (writeElements (writeForm isOpen element) elemSize elements) w
      | _ => .ok w
  | .map entry elemSize min max, v, start, w =>
      match v with
      | .map entries =>
          if entries.length < min ∨ max < entries.length then .error (.contract .length)
          else if entries.any (fun e => keyIsNan e.1) then .error (.contract .range)
          else if hasEqualNeighbours (sortEntries entries) then .error (.contract .unique)
          else if entries.isEmpty then .ok w
          else
            blockWrite elemSize 8 entries.length start
              (writeElements (writeHead isOpen entry) elemSize
                ((sortEntries entries).map entryValue)) w
      | _ => .ok w
  -- only a union has an arm
  | .arm _, _, _, w => .ok w

end

def encodeInto (isOpen : String → Bool) (head : Head) (v : Value) (w : Writer) : Encoded :=
  w.reserveHead head.size >>= writeHead isOpen head v PREAMBLE_SIZE

/-- The buffer of a value. -/
def encode (isOpen : String → Bool) (head : Head) (v : Value) (out : List UInt8) (aligned : Bool) :
    Except EncodeError (List UInt8) :=
  encodeInto isOpen head v (Writer.new out aligned) >>= Writer.finish

/-! ### The blocks of a value -/

mutual

/-- The blocks a value takes in the tail, in the order they are written. -/
def headBlocks : Head → Value → List Block
  | .mk _ fields _, v => fieldsBlocks fields v

def fieldsBlocks : List Placement → Value → List Block
  | [], _ => []
  | p :: rest, v => placementBlocks p v ++ fieldsBlocks rest v

def placementBlocks : Placement → Value → List Block
  | .mk source _ _ _ form _, v =>
      match v with
      | .fields present =>
          match source with
          | .flags _ => []
          | source =>
              match present.lookup source with
              | none => []
              | some v => formBlocks form v
      | .union ordinal arm =>
          match form with
          | .descriptor (.arm arms) => armBlocks arms ordinal arm
          | _ => []
      | _ => []

def armBlocks : List ArmHead → Nat → Value → List Block
  | [], _, _ => []
  | .mk number head :: rest, ordinal, arm =>
      if number = ordinal then
        if head.size = 0 then [] else ⟨head.size, 8, by decide⟩ :: headBlocks head arm
      else armBlocks rest ordinal arm

def formBlocks : Form → Value → List Block
  | .inline head _, v => if head.size = 0 then [] else headBlocks head v
  | .inlineArray element _, v =>
      match v with
      | .array elements => elements.flatMap (formBlocks element)
      | _ => []
  | .descriptor kind, v => descriptorBlocks kind v
  | _, _ => []

def descriptorBlocks : DescriptorKind → Value → List Block
  | .text _ _, v =>
      match v with
      | .text s => if s.isEmpty then [] else [⟨s.utf8ByteSize + 1, 1, by decide⟩]
      | _ => []
  | .bytes _ _, v =>
      match v with
      | .bytes bs => if bs.isEmpty then [] else [⟨bs.length, 1, by decide⟩]
      | _ => []
  | .array element elemSize _ _, v =>
      match v with
      | .array elements =>
          if elements.isEmpty then []
          else ⟨elements.length * elemSize, alignOf element, alignOf_pos element⟩ ::
            elements.flatMap (formBlocks element)
      | _ => []
  | .map entry elemSize _ _, v =>
      match v with
      | .map entries =>
          if entries.isEmpty then []
          else ⟨entries.length * elemSize, 8, by decide⟩ ::
            ((sortEntries entries).map entryValue).flatMap (headBlocks entry)
      | _ => []
  | .arm _, _ => []

end

/-! ### The values of a type -/

/-- A count within its bounds. -/
def Within (min max n : Nat) : Prop := min ≤ n ∧ n ≤ max

/-- No two entries have one key, and no key is a NaN. -/
def DistinctKeys (entries : List (Value × Value)) : Prop :=
  entries.Pairwise (fun a b => keyEqual a.1 b.1 = false ∧ keyEqual b.1 a.1 = false) ∧
    ∀ e ∈ entries, keyIsNan e.1 = false

mutual

/-- The value is one the head can hold: what its type admits, as far as the
    encoder looks at it. -/
def HeadHolds : Head → Value → Prop
  | .mk _ fields _, v => FieldsHold fields v

def FieldsHold : List Placement → Value → Prop
  | [], _ => True
  | p :: rest, v => PlacementHolds p v ∧ FieldsHold rest v

/-- A present field holds its form. An optional field may be absent, and so may
    a deprecated one with no initial value. -/
def PlacementHolds : Placement → Value → Prop
  | .mk source _ _ _ form _, v =>
      match v with
      | .fields present =>
          match source with
          | .flags _ => True
          | source =>
              match present.lookup source with
              | none => True
              | some v => FormHolds form v
      | .union ordinal arm =>
          match form with
          | .int _ _ => True
          | .descriptor (.arm arms) => ArmHolds arms ordinal arm
          | _ => False
      | _ => False

/-- The value is one of the arm the ordinal names. -/
def ArmHolds : List ArmHead → Nat → Value → Prop
  | [], _, _ => False
  | .mk number head :: rest, ordinal, arm =>
      if number = ordinal then HeadHolds head arm else ArmHolds rest ordinal arm

def FormHolds : Form → Value → Prop
  | .bool, v => ∃ b, v = .bool b
  | .int width _, v => ∃ n, v = .int n ∧ width.holds n = true
  | .float _, v => ∃ x, v = .float x
  | .enum width _ _, v => ∃ n, v = .int n ∧ width.holds n = true
  | .enumSet width _, v => ∃ n, v = .int n ∧ width.holds n = true
  | .inline head _, v => HeadHolds head v
  | .inlineArray element count, v =>
      (∃ elements, v = .array elements ∧ elements.length = count ∧
        ∀ e ∈ elements, FormHolds element e) ∨
      ∃ bs, v = .bytes bs ∧ bs.length = count
  | .descriptor kind, v => DescriptorHolds kind v

def DescriptorHolds : DescriptorKind → Value → Prop
  | .text min max, v => ∃ s, v = .text s ∧ Within min max s.length ∧
      s.toUTF8.toList.contains 0 = false
  | .bytes min max, v => ∃ bs, v = .bytes bs ∧ Within min max bs.length
  | .array element _ min max, v => ∃ elements, v = .array elements ∧
      Within min max elements.length ∧ ∀ e ∈ elements, FormHolds element e
  | .map entry _ min max, v => ∃ entries, v = .map entries ∧ Within min max entries.length ∧
      DistinctKeys entries ∧ ∀ e ∈ entries, HeadHolds entry (entryValue e)
  | .arm _, _ => False

end

/-! ### What is written -/

theorem follows_put (w : Writer) (start width n : Nat) : Follows [] w (.ok (w.put start width n)) :=
  Follows.ok (len_store w start _) (length_store w start _)

theorem len_putDesc (w : Writer) (start off len : Nat) : (w.putDesc start off len).len = w.len := by
  unfold Writer.putDesc Writer.put
  rw [len_store, len_store]

theorem length_putDesc (w : Writer) (start off len : Nat) :
    (w.putDesc start off len).out.length = w.out.length := by
  unfold Writer.putDesc Writer.put
  rw [length_store, length_store]

theorem len_putArrayDesc (w : Writer) (start off len elemSize : Nat) :
    (w.putArrayDesc start off len elemSize).len = w.len := by
  unfold Writer.putArrayDesc Writer.put
  rw [len_store, len_store, len_store]

theorem length_putArrayDesc (w : Writer) (start off len elemSize : Nat) :
    (w.putArrayDesc start off len elemSize).out.length = w.out.length := by
  unfold Writer.putArrayDesc Writer.put
  rw [length_store, length_store, length_store]

theorem Follows.congr {blocks : List Block} {w w' : Writer} {r : Encoded}
    (h : Follows blocks w' r) (hlen : w'.len = w.len) (hout : w'.out.length = w.out.length) :
    Follows blocks w r := by
  unfold Follows at h ⊢
  rwa [hlen, hout] at h

theorem textWrite_follows {min max : Nat} {s : String} (hwithin : Within min max s.length)
    (hnul : s.toUTF8.toList.contains 0 = false) (start : Nat) (w : Writer)
    (hsmall : endOf w.len (descriptorBlocks (.text min max) (.text s)) ≤ USIZE_MAX) :
    Follows (descriptorBlocks (.text min max) (.text s)) w (textWrite min max s start w) := by
  have hclear : ¬ (s.toUTF8.toList.contains 0 = true) := by
    rw [hnul]
    decide
  simp only [descriptorBlocks] at hsmall ⊢
  unfold textWrite
  rw [if_neg (not_or.mpr ⟨Nat.not_lt.mpr hwithin.1, Nat.not_lt.mpr hwithin.2⟩), if_neg hclear]
  by_cases hempty : s.isEmpty = true
  · rw [if_pos hempty, if_pos hempty]
    exact Follows.ok rfl rfl
  · rw [if_neg hempty] at hsmall ⊢
    rw [if_neg hempty]
    refine tail_follows (b := ⟨s.utf8ByteSize + 1, 1, by decide⟩) hsmall
      (fun off w' _ _ => Follows.ok ?_ ?_)
    · rw [len_putDesc, len_store]
    · rw [length_putDesc, length_store]

theorem bytesWrite_follows {min max : Nat} {bs : List UInt8} (hwithin : Within min max bs.length)
    (start : Nat) (w : Writer)
    (hsmall : endOf w.len (descriptorBlocks (.bytes min max) (.bytes bs)) ≤ USIZE_MAX) :
    Follows (descriptorBlocks (.bytes min max) (.bytes bs)) w (bytesWrite min max bs start w) := by
  simp only [descriptorBlocks] at hsmall ⊢
  unfold bytesWrite
  rw [if_neg (not_or.mpr ⟨Nat.not_lt.mpr hwithin.1, Nat.not_lt.mpr hwithin.2⟩)]
  by_cases hempty : bs.isEmpty = true
  · rw [if_pos hempty, if_pos hempty]
    exact Follows.ok rfl rfl
  · rw [if_neg hempty] at hsmall ⊢
    rw [if_neg hempty]
    refine tail_follows (b := ⟨bs.length, 1, by decide⟩) hsmall
      (fun off w' _ _ => Follows.ok ?_ ?_)
    · rw [len_putDesc, len_store]
    · rw [length_putDesc, length_store]

theorem writeElements_follows {blocksOf : Value → List Block}
    {write : Value → Nat → Writer → Encoded} (stride : Nat) (elements : List Value)
    (hwrite : ∀ v ∈ elements, ∀ start w, endOf w.len (blocksOf v) ≤ USIZE_MAX →
      Follows (blocksOf v) w (write v start w)) (start : Nat) (w : Writer)
    (hsmall : endOf w.len (elements.flatMap blocksOf) ≤ USIZE_MAX) :
    Follows (elements.flatMap blocksOf) w (writeElements write stride elements start w) := by
  induction elements generalizing start w with
  | nil => exact Follows.ok rfl rfl
  | cons v rest ih =>
      rw [List.flatMap_cons, endOf_append] at hsmall
      rw [List.flatMap_cons]
      refine Follows.bind (hwrite v List.mem_cons_self start w
        (Nat.le_trans (le_endOf _ _) hsmall)) (fun w' hlen _ => ?_)
      exact ih (fun v' hv' => hwrite v' (List.mem_cons_of_mem v hv')) _ w' (by rwa [hlen])

theorem blockWrite_follows {b : Block} {more : List Block} {elemSize count start : Nat}
    {elements : Nat → Writer → Encoded} {w : Writer} (hb : b.size = count * elemSize)
    (hsmall : endOf w.len (b :: more) ≤ USIZE_MAX)
    (helements : ∀ off w', endOf w'.len more ≤ USIZE_MAX → Follows more w' (elements off w')) :
    Follows (b :: more) w (blockWrite elemSize b.align count start elements w) := by
  unfold blockWrite
  rw [← hb]
  refine tail_follows (Nat.le_trans (le_endOf (advance w.len b) more) hsmall)
    (fun off w' hlen _ => ?_)
  refine Follows.congr (helements off _ ?_) (len_putArrayDesc w' start off count elemSize)
    (length_putArrayDesc w' start off count elemSize)
  rw [len_putArrayDesc, hlen]
  exact hsmall

theorem hasEqualNeighbours_sorted {entries : List (Value × Value)} (h : DistinctKeys entries) :
    hasEqualNeighbours (sortEntries entries) = false := by
  have hperm : (sortEntries entries).Perm entries := List.perm_insertionSort _ _
  have hpairwise : (sortEntries entries).Pairwise
      (fun a b => keyEqual a.1 b.1 = false ∧ keyEqual b.1 a.1 = false) :=
    (hperm.pairwise_iff (fun {a b} hab => ⟨hab.2, hab.1⟩)).mpr h.1
  revert hpairwise
  generalize sortEntries entries = sorted
  intro hpairwise
  induction sorted with
  | nil => rfl
  | cons a rest ih =>
      rcases List.pairwise_cons.mp hpairwise with ⟨hfirst, hrest⟩
      cases rest with
      | nil => rfl
      | cons b rest =>
          rw [hasEqualNeighbours, (hfirst b List.mem_cons_self).1, Bool.false_or]
          exact ih hrest

theorem forall_mem_sorted {entries : List (Value × Value)} {P : Value → Prop}
    (h : ∀ e ∈ entries, P (entryValue e)) : ∀ v ∈ (sortEntries entries).map entryValue, P v := by
  intro v hv
  rcases List.mem_map.mp hv with ⟨e, he, rfl⟩
  exact h e ((List.perm_insertionSort _ _).mem_iff.mp he)

theorem openWidthCheck_of_holds (isOpen : String → Bool) {width : IntWidth} (reference : String)
    {n : Int} (h : width.holds n = true) : openWidthCheck isOpen width reference n = true := by
  unfold openWidthCheck
  rw [h, Bool.or_true]

mutual

theorem writeHead_follows (isOpen : String → Bool) : ∀ (head : Head) (v : Value),
    HeadHolds head v → ∀ start w, endOf w.len (headBlocks head v) ≤ USIZE_MAX →
      Follows (headBlocks head v) w (writeHead isOpen head v start w)
  | .mk _ fields _, v, hv, start, w, hsmall =>
      writeFields_follows isOpen fields fields v hv start w hsmall

theorem writeFields_follows (isOpen : String → Bool) (all : List Placement) :
    ∀ (fields : List Placement) (v : Value), FieldsHold fields v →
      ∀ start w, endOf w.len (fieldsBlocks fields v) ≤ USIZE_MAX →
        Follows (fieldsBlocks fields v) w (writeFields isOpen all fields v start w)
  | [], _, _, _, _, _ => Follows.ok rfl rfl
  | p :: rest, v, hv, start, w, hsmall => by
      rw [fieldsBlocks, endOf_append] at hsmall
      rw [fieldsBlocks, writeFields]
      refine Follows.bind (writePlacement_follows isOpen all p v hv.1 start w
        (Nat.le_trans (le_endOf _ _) hsmall)) (fun w' hlen _ => ?_)
      exact writeFields_follows isOpen all rest v hv.2 start w' (by rwa [hlen])

theorem writePlacement_follows (isOpen : String → Bool) (all : List Placement) :
    ∀ (p : Placement) (v : Value), PlacementHolds p v →
      ∀ start w, endOf w.len (placementBlocks p v) ≤ USIZE_MAX →
        Follows (placementBlocks p v) w (writePlacement isOpen all p v start w)
  | .mk source offset _ _ form _, v, hv, start, w, hsmall => by
      cases v with
      | fields present =>
          rcases hlookup : present.lookup source with _ | v
          · cases source with
            | flags index => exact follows_put w _ _ _
            | _ =>
                simp only [placementBlocks, writePlacement, hlookup]
                exact Follows.ok rfl rfl
          · cases source with
            | flags index => exact follows_put w _ _ _
            | _ =>
                simp only [PlacementHolds, placementBlocks, writePlacement, hlookup] at hv hsmall ⊢
                exact writeForm_follows isOpen form v hv (start + offset) w hsmall
      | union ordinal arm =>
          cases form with
          | int width signed => exact follows_put w _ _ _
          | descriptor kind =>
              cases kind with
              | arm arms => exact writeArm_follows isOpen arms ordinal arm hv _ w hsmall
              | _ => exact absurd hv id
          | _ => exact absurd hv id
      | _ => exact absurd hv id

theorem writeArm_follows (isOpen : String → Bool) : ∀ (arms : List ArmHead) (ordinal : Nat)
    (arm : Value), ArmHolds arms ordinal arm →
      ∀ start w, endOf w.len (armBlocks arms ordinal arm) ≤ USIZE_MAX →
        Follows (armBlocks arms ordinal arm) w (writeArm isOpen arms ordinal arm start w)
  | [], _, _, hv, _, _, _ => absurd hv id
  | .mk number head :: rest, ordinal, arm, hv, start, w, hsmall => by
      simp only [ArmHolds, armBlocks, writeArm] at hv hsmall ⊢
      by_cases hnumber : number = ordinal
      · simp only [if_pos hnumber] at hv hsmall ⊢
        by_cases hsize : head.size = 0
        · simp only [if_pos hsize]
          exact Follows.ok rfl rfl
        · simp only [if_neg hsize] at hsmall ⊢
          refine tail_follows (b := ⟨head.size, 8, by decide⟩)
            (Nat.le_trans (le_endOf _ _) hsmall) (fun off w' hlen _ => ?_)
          refine Follows.congr (writeHead_follows isOpen head arm hv off _ ?_)
            (len_putDesc w' start off head.size) (length_putDesc w' start off head.size)
          rw [len_putDesc, hlen]
          exact hsmall
      · simp only [if_neg hnumber] at hv hsmall ⊢
        exact writeArm_follows isOpen rest ordinal arm hv start w hsmall

theorem writeForm_follows (isOpen : String → Bool) : ∀ (form : Form) (v : Value),
    FormHolds form v → ∀ start w, endOf w.len (formBlocks form v) ≤ USIZE_MAX →
      Follows (formBlocks form v) w (writeForm isOpen form v start w)
  | .bool, v, hv, start, w, _ => by
      rcases hv with ⟨b, rfl⟩
      exact follows_put w _ _ _
  | .int width _, v, hv, start, w, _ => by
      rcases hv with ⟨n, rfl, _⟩
      exact follows_put w _ _ _
  | .float width, v, hv, start, w, _ => by
      rcases hv with ⟨x, rfl⟩
      cases width with
      | f32 => exact follows_put w _ _ _
      | f64 => exact follows_put w _ _ _
  | .enum width _ reference, v, hv, start, w, _ => by
      rcases hv with ⟨n, rfl, hn⟩
      simp only [writeForm, if_pos (openWidthCheck_of_holds isOpen reference hn)]
      exact follows_put w _ _ _
  | .enumSet width reference, v, hv, start, w, _ => by
      rcases hv with ⟨n, rfl, hn⟩
      simp only [writeForm, if_pos (openWidthCheck_of_holds isOpen reference hn)]
      exact follows_put w _ _ _
  | .inline head _, v, hv, start, w, hsmall => by
      simp only [formBlocks, writeForm] at hsmall ⊢
      by_cases hsize : head.size = 0
      · rw [if_pos hsize, if_pos hsize]
        exact Follows.ok rfl rfl
      · rw [if_neg hsize] at hsmall ⊢
        rw [if_neg hsize]
        exact writeHead_follows isOpen head v hv start w hsmall
  | .inlineArray element count, v, hv, start, w, hsmall => by
      rcases hv with ⟨elements, rfl, _, helements⟩ | ⟨bs, rfl, hbs⟩
      · exact writeElements_follows (elemSize element) elements
          (fun v hv => writeForm_follows isOpen element v (helements v hv)) start w hsmall
      · simp only [writeForm, hbs, ne_eq, not_true_eq_false, if_false]
        exact Follows.ok (len_store w start bs) (length_store w start bs)
  | .descriptor kind, v, hv, start, w, hsmall =>
      writeDescriptor_follows isOpen kind v hv start w hsmall

theorem writeDescriptor_follows (isOpen : String → Bool) : ∀ (kind : DescriptorKind) (v : Value),
    DescriptorHolds kind v → ∀ start w, endOf w.len (descriptorBlocks kind v) ≤ USIZE_MAX →
      Follows (descriptorBlocks kind v) w (writeDescriptor isOpen kind v start w)
  | .text min max, v, hv, start, w, hsmall => by
      rcases hv with ⟨s, rfl, hwithin, hnul⟩
      exact textWrite_follows hwithin hnul start w hsmall
  | .bytes min max, v, hv, start, w, hsmall => by
      rcases hv with ⟨bs, rfl, hwithin⟩
      exact bytesWrite_follows hwithin start w hsmall
  | .array element elemSize min max, v, hv, start, w, hsmall => by
      rcases hv with ⟨elements, rfl, hwithin, helements⟩
      simp only [descriptorBlocks, writeDescriptor] at hsmall ⊢
      rw [if_neg (not_or.mpr ⟨Nat.not_lt.mpr hwithin.1, Nat.not_lt.mpr hwithin.2⟩)]
      by_cases hempty : elements.isEmpty = true
      · rw [if_pos hempty, if_pos hempty]
        exact Follows.ok rfl rfl
      · rw [if_neg hempty] at hsmall ⊢
        rw [if_neg hempty]
        exact blockWrite_follows
          (b := ⟨elements.length * elemSize, alignOf element, alignOf_pos element⟩) rfl hsmall
          (fun off w' => writeElements_follows elemSize elements
            (fun v hv => writeForm_follows isOpen element v (helements v hv)) off w')
  | .map entry elemSize min max, v, hv, start, w, hsmall => by
      rcases hv with ⟨entries, rfl, hwithin, hkeys, hentries⟩
      have hnan : ¬ (entries.any (fun e => keyIsNan e.1) = true) := by
        rw [List.any_eq_false.mpr (fun e he => (Bool.not_eq_true _).mpr (hkeys.2 e he))]
        decide
      have hequal : ¬ (hasEqualNeighbours (sortEntries entries) = true) := by
        rw [hasEqualNeighbours_sorted hkeys]
        decide
      simp only [descriptorBlocks, writeDescriptor] at hsmall ⊢
      rw [if_neg (not_or.mpr ⟨Nat.not_lt.mpr hwithin.1, Nat.not_lt.mpr hwithin.2⟩),
        if_neg hnan, if_neg hequal]
      by_cases hempty : entries.isEmpty = true
      · rw [if_pos hempty, if_pos hempty]
        exact Follows.ok rfl rfl
      · rw [if_neg hempty] at hsmall ⊢
        rw [if_neg hempty]
        have hsorted := forall_mem_sorted hentries
        exact blockWrite_follows (b := ⟨entries.length * elemSize, 8, by decide⟩) rfl hsmall
          (fun off w' => writeElements_follows elemSize _
            (fun v hv => writeHead_follows isOpen entry v (hsorted v hv)) off w')
  | .arm _, _, hv, _, _, _ => absurd hv id

end

end Podbuf

end Ridl
