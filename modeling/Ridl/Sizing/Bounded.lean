import Mathlib.Algebra.Order.BigOperators.Group.List
import Ridl.Sizing.Written

/-!
# The Bound Holds

What is pushed for a value costs no more than the walk charges for its type.

The induction is on what is pushed. A field is covered by the charge of its
type; a table by the charges of the fields that are declared for it, of which it
has some; and a composite by its bound, which is found in one level less than
the bound of what refers to it.

## Theorems

* `stored_le`: What is pushed costs no more than its charge.
-/

namespace Ridl

namespace Sizing

open Diff Library Library.Guarded
open FlatBuffers (Push Pos)
open Podbuf (Packages IntWidth FloatWidth)

/-! ### Slots -/

theorem length_le_max {ids : List Nat} (h : ids.Nodup) :
    ids.length ≤ (ids.map (· + 1)).max?.getD 0 := by
  cases hmax : (ids.map (· + 1)).max? with
  | none =>
      rw [List.max?_eq_none_iff, List.map_eq_nil_iff] at hmax
      rw [hmax]
      exact Nat.zero_le _
  | some m =>
      have hlt : ids ⊆ List.range m := by
        intro id hid
        have hle := (List.max?_le_iff hmax).1 (Nat.le_refl m) _ (List.mem_map_of_mem hid)
        exact List.mem_range.2 hle
      have hlength := (List.subperm_of_subset h hlt).length_le
      rwa [List.length_range] at hlength

theorem TableLayout.length_le_vtableSlots (layout : TableLayout)
    (h : (layout.slots.map FieldSlot.id).Nodup) : layout.slots.length ≤ layout.vtableSlots := by
  have hlength := length_le_max h
  rwa [List.length_map, List.map_map] at hlength

/-- How many slots a member takes. -/
def slotCount (member : Option StructMember) : Nat := if member.isSome then 1 else 0

variable {owner : String} {slots slots' : List FieldSlot} {layout : TableLayout} {α : Type}
  {c : Charge} {f : FlatBuffers.Field}

theorem length_memberSlot {member : Option StructMember}
    {added : List FieldSlot} (h : memberSlot owner member = .ok added) :
    added.length = slotCount member := by
  rcases member with _ | ⟨field⟩ | ⟨reserved⟩
  · cases h
    rfl
  all_goals
    rcases of_bind_eq_ok h with ⟨id, -, heq⟩
    cases heq
    rfl

theorem checkLast_nodup {slot : FieldSlot} (h : checkLast owner (slots ++ [slot]) = .ok slots')
    (hnodup : (slots.map FieldSlot.id).Nodup) :
    slots' = slots ++ [slot] ∧ (slots'.map FieldSlot.id).Nodup := by
  simp only [checkLast, List.getLast?_concat, List.dropLast_concat] at h
  split_ifs at h with htaken
  cases h
  refine ⟨rfl, ?_⟩
  rw [List.map_append]
  refine List.nodup_append.2 ⟨hnodup, List.nodup_singleton _, ?_⟩
  rintro id hid _ hslot rfl
  rcases List.mem_map.1 hid with ⟨other, hother, hsame⟩
  refine htaken (List.any_eq_true.2 ⟨other, hother, decide_eq_true ?_⟩)
  rw [hsame]
  exact List.mem_singleton.1 hslot

theorem checkLast_eq (h : checkLast owner slots = .ok slots') : slots' = slots := by
  unfold checkLast at h
  cases hlast : slots.getLast? with
  | none =>
      simp only [hlast, Except.ok.injEq] at h
      exact h.symm
  | some last =>
      simp only [hlast] at h
      split_ifs at h
      exact (Except.ok.inj h).symm

theorem structSlot_nodup
    {member : Option StructMember} (h : structSlot owner slots member = .ok slots')
    (hnodup : (slots.map FieldSlot.id).Nodup) :
    (slots'.map FieldSlot.id).Nodup ∧ slots'.length = slots.length + slotCount member := by
  rcases of_bind_eq_ok h with ⟨added, hadded, hchecked⟩
  have hlength := length_memberSlot hadded
  rw [← hlength, ← List.length_append]
  cases member with
  | none =>
      rw [List.length_eq_zero_iff.1 hlength, List.append_nil] at hchecked ⊢
      rw [checkLast_eq hchecked]
      exact ⟨hnodup, rfl⟩
  | some member =>
      rcases List.length_eq_one_iff.1 hlength with ⟨slot, rfl⟩
      rcases checkLast_nodup hchecked hnodup with ⟨heq, hall⟩
      exact ⟨hall, congrArg List.length heq⟩

theorem foldlM_structSlot {members : List (Option StructMember)}
    (h : members.foldlM (structSlot owner) slots = .ok slots')
    (hnodup : (slots.map FieldSlot.id).Nodup) :
    (slots'.map FieldSlot.id).Nodup ∧
      slots'.length = slots.length + (members.map slotCount).sum := by
  induction members generalizing slots with
  | nil =>
      cases h
      exact ⟨hnodup, rfl⟩
  | cons member members ih =>
      rw [List.foldlM_cons] at h
      rcases of_bind_eq_ok h with ⟨added, hadded, hrest⟩
      rcases structSlot_nodup hadded hnodup with ⟨hnodup', hlength⟩
      rcases ih hrest hnodup' with ⟨hall, hlength'⟩
      refine ⟨hall, ?_⟩
      rw [List.map_cons, List.sum_cons, hlength', hlength, Nat.add_assoc]

theorem length_liveFields_le (d : StructDef) :
    (liveFields d).length ≤ (d.members.map slotCount).sum := by
  unfold liveFields
  induction d.members with
  | nil => exact Nat.le_refl 0
  | cons member members ih =>
      rw [List.map_cons, List.sum_cons]
      rcases member with _ | ⟨field⟩ | ⟨reserved⟩
      · rw [List.filterMap_cons_none rfl]
        exact Nat.le_add_left_of_le ih
      · have hlive : liveField (some (.field field))
            = some (field.ordinal - 1, kindOf field.type) := rfl
        rw [List.filterMap_cons_some hlive, List.length_cons, Nat.add_comm]
        exact Nat.add_le_add_left ih 1
      · rw [List.filterMap_cons_none rfl]
        exact Nat.le_add_left_of_le ih

theorem length_liveFields_le_slots {d : StructDef}
    (h : structTable owner d = .ok layout) : (liveFields d).length ≤ layout.vtableSlots := by
  unfold structTable at h
  cases hslots : d.members.foldlM (structSlot owner) [] with
  | error e => simp only [hslots, Except.map, reduceCtorEq] at h
  | ok slots =>
      simp only [hslots, Except.map, Except.ok.injEq] at h
      rcases foldlM_structSlot hslots List.nodup_nil with ⟨hnodup, hlength⟩
      have hlive := length_liveFields_le d
      have hle := TableLayout.length_le_vtableSlots ⟨slots⟩ hnodup
      rw [← h]
      refine Nat.le_trans hlive (Nat.le_trans (Nat.le_of_eq ?_) hle)
      rw [hlength, List.length_nil, Nat.zero_add]

theorem length_tupleFields (fields : List TupleField) (index : Nat) :
    (tupleFields index fields).length = fields.length := by
  induction fields generalizing index with
  | nil => rfl
  | cons field fields ih =>
      rcases field with ⟨name, type⟩
      rw [tupleFields, List.length_cons, List.length_cons, ih]

theorem mapM_tupleSlot {name : String} {indices : List Nat}
    (h : indices.mapM (tupleSlot name) = .ok slots) : slots.map FieldSlot.id = indices := by
  induction indices generalizing slots with
  | nil =>
      cases h
      rfl
  | cons index indices ih =>
      rw [List.mapM_cons] at h
      rcases of_bind_eq_ok h with ⟨slot, hslot, hrest⟩
      rcases of_bind_eq_ok hrest with ⟨rest, hmap, heq⟩
      cases heq
      have hid : slot.id = index := by
        unfold tupleSlot at hslot
        split_ifs at hslot
        cases hslot
        rfl
      rw [List.map_cons, hid, ih hmap]

theorem length_tupleFields_le_slots {name : String} {fields : List TupleField}
    (h : tupleTable name fields = .ok layout) :
    (tupleFields 0 fields).length ≤ layout.vtableSlots := by
  unfold tupleTable at h
  cases hslots : (List.range fields.length).mapM (tupleSlot name) with
  | error e => simp only [hslots, Except.map, reduceCtorEq] at h
  | ok slots =>
      simp only [hslots, Except.map, Except.ok.injEq] at h
      have hids := mapM_tupleSlot hslots
      have hle := TableLayout.length_le_vtableSlots ⟨slots⟩
        (hids ▸ List.nodup_range)
      have hlength := congrArg List.length hids
      rw [List.length_map, List.length_range] at hlength
      rw [← h, length_tupleFields, ← hlength]
      exact hle

/-! ### Sums -/

theorem sum_map_le_of_subperm {list list' : List α} (h : list.Subperm list')
    (f : α → Nat) : (list.map f).sum ≤ (list'.map f).sum := by
  rcases h with ⟨middle, hperm, hsub⟩
  rw [← (hperm.map f).sum_eq]
  exact (hsub.map f).sum_le_sum fun _ _ => Nat.zero_le _

/-- What pushes take together. -/
def costOf (pushes : List Push) : Nat := (pushes.map Push.cost).sum

theorem costOf_append (pushes pushes' : List Push) :
    costOf (pushes ++ pushes') = costOf pushes + costOf pushes' := by
  rw [costOf, List.map_append, List.sum_append]
  rfl

theorem costOf_singleton (op : Push) : costOf [op] = op.cost := List.sum_singleton

theorem costOf_flatMap (list : List α) (f : α → List Push) :
    costOf (list.flatMap f) = (list.map fun a => costOf (f a)).sum := by
  induction list with
  | nil => rfl
  | cons a list ih => rw [List.flatMap_cons, costOf_append, ih, List.map_cons, List.sum_cons]

theorem sum_map_le_mul {list : List α} {f : α → Nat} {bound : Nat}
    (h : ∀ a ∈ list, f a ≤ bound) : (list.map f).sum ≤ list.length * bound := by
  have hle := List.sum_le_card_nsmul (list.map f) bound (List.forall_mem_map.2 h)
  rw [List.length_map] at hle
  exact hle

/-! ### Charges -/

theorem Charge.add_eq {a b : Charge} (h : a.add b = some c) :
    c.inline = a.inline + b.inline ∧ c.outOfLine = a.outOfLine + b.outOfLine := by
  rcases Option.bind_eq_some_iff.1 h with ⟨inline, hinline, hrest⟩
  rcases Option.bind_eq_some_iff.1 hrest with ⟨outOfLine, houtOfLine, heq⟩
  cases heq
  exact ⟨checkedAddU64_eq_some hinline, checkedAddU64_eq_some houtOfLine⟩

theorem tableBound_eq {inline outOfLine n : Nat} (h : tableBound layout inline outOfLine = some n) :
    n = 4 + inline + 7 * (layout.vtableSlots + 1) + (4 + 2 * layout.vtableSlots + 7)
      + outOfLine := by
  simp only [tableBound, Option.bind_eq_bind, Option.bind_eq_some_iff] at h
  rcases h with ⟨entries, hentries, header, hheader, vtable, hvtable, next, hnext, padding,
    hpadding, fields, hfields, padded, hpadded, body, hbody, hn⟩
  rw [checkedAddU64_eq_some hn, checkedAddU64_eq_some hbody, checkedAddU64_eq_some hpadded,
    checkedAddU64_eq_some hfields, checkedMulU64_eq_some hpadding, checkedAddU64_eq_some hnext,
    checkedAddU64_eq_some hvtable, checkedAddU64_eq_some hheader, checkedMulU64_eq_some hentries]
  rfl

theorem vectorCharge_eq {count : Nat} {element : Charge} (h : vectorCharge count element = some c) :
    c.inline = 4 ∧ c.outOfLine = 4 + count * element.inline + 7 + count * element.outOfLine := by
  simp only [vectorCharge, Option.bind_eq_bind, Option.bind_eq_some_iff] at h
  rcases h with ⟨elements, helements, length, hlength, vector, hvector, out, hout, total, htotal,
    heq⟩
  cases heq
  refine ⟨rfl, ?_⟩
  rw [checkedAddU64_eq_some htotal, checkedMulU64_eq_some hout, checkedAddU64_eq_some hvector,
    checkedAddU64_eq_some hlength, checkedMulU64_eq_some helements]
  rfl

section Totals

variable {packages : Packages}

theorem typeCharge_eq (home : Home packages) (type : Option FieldType) :
    typeCharge home type = kindCharge home (kindOf type) := by
  rcases type with _ | ⟨isOptional, kind⟩
  · rw [typeCharge, kindOf, Option.bind_none, kindCharge]
  · rw [typeCharge, fieldCharge]
    rfl

variable (values : Found packages → Option Nat) (home : Home packages)

/-- What a declared field takes inline. One without a charge takes nothing. -/
def inlineOf (field : Nat × Option FieldKind) : Nat :=
  ((answer values (kindCharge home field.2)).map Charge.inline).getD 0

def outOfLineOf (field : Nat × Option FieldKind) : Nat :=
  ((answer values (kindCharge home field.2)).map Charge.outOfLine).getD 0

/-- The declared fields have charges, which add up from one sum to another. -/
structure Totals (start : Charge) (declared : List (Nat × Option FieldKind)) (sum : Charge) :
    Prop where
  inline : start.inline + (declared.map (inlineOf values home)).sum ≤ sum.inline
  outOfLine : start.outOfLine + (declared.map (outOfLineOf values home)).sum ≤ sum.outOfLine
  charged : ∀ field ∈ declared, ∃ c, answer values (kindCharge home field.2) = some c

variable {values home}

variable {c start sum : Charge}

theorem inlineOf_eq (field : Nat × Option FieldKind)
    (h : answer values (kindCharge home field.2) = some c) :
    inlineOf values home field = c.inline := by
  rw [inlineOf, h]
  rfl

theorem outOfLineOf_eq (field : Nat × Option FieldKind)
    (h : answer values (kindCharge home field.2) = some c) :
    outOfLineOf values home field = c.outOfLine := by
  rw [outOfLineOf, h]
  rfl

theorem Totals.nil (hinline : start.inline ≤ sum.inline)
    (houtOfLine : start.outOfLine ≤ sum.outOfLine) : Totals values home start [] sum :=
  ⟨hinline, houtOfLine, nofun⟩

theorem Totals.cons {next : Charge} (field : Nat × Option FieldKind)
    {declared : List (Nat × Option FieldKind)}
    (hfield : answer values (kindCharge home field.2) = some c) (hadd : start.add c = some next)
    (hrest : Totals values home next declared sum) :
    Totals values home start (field :: declared) sum := by
  rcases hrest with ⟨hinline, houtOfLine, hcharged⟩
  rcases Charge.add_eq hadd with ⟨hnext, hnext'⟩
  refine ⟨?_, ?_, List.forall_mem_cons.2 ⟨⟨c, hfield⟩, hcharged⟩⟩
  · rw [List.map_cons, List.sum_cons, inlineOf_eq field hfield]
    omega
  · rw [List.map_cons, List.sum_cons, outOfLineOf_eq field hfield]
    omega

theorem Totals.trans {next : Charge} {declared : List (Nat × Option FieldKind)}
    (hinline : start.inline ≤ next.inline) (houtOfLine : start.outOfLine ≤ next.outOfLine)
    (hrest : Totals values home next declared sum) : Totals values home start declared sum :=
  ⟨Nat.le_trans (Nat.add_le_add_right hinline _) hrest.inline,
    Nat.le_trans (Nat.add_le_add_right houtOfLine _) hrest.outOfLine, hrest.charged⟩

/-- The fields of a struct. A retired one only adds to the sum. -/
theorem totals_of_members {members : List (Option StructMember)}
    (h : answer values (members.foldlM (memberCharge home) start) = some sum) :
    Totals values home start (members.filterMap liveField) sum := by
  induction members generalizing start with
  | nil =>
      cases h
      exact Totals.nil (Nat.le_refl _) (Nat.le_refl _)
  | cons member members ih =>
      rw [List.foldlM_cons, answer_bind] at h
      rcases Option.bind_eq_some_iff.1 h with ⟨next, hmember, hrest⟩
      rcases member with _ | ⟨field⟩ | ⟨reserved⟩
      · cases hmember
        exact ih hrest
      · rw [memberCharge, answer_bind, typeCharge_eq] at hmember
        rcases Option.bind_eq_some_iff.1 hmember with ⟨c, hc, hadd⟩
        exact Totals.cons (field.ordinal - 1, kindOf field.type) hc hadd (ih hrest)
      · rcases Charge.add_eq hmember with ⟨hinline, houtOfLine⟩
        exact (ih hrest).trans (by omega) (by omega)

theorem totals_of_fields {fields : List TupleField}
    (h : answer values (fieldsCharge home fields start) = some sum) (index : Nat) :
    Totals values home start (tupleFields index fields) sum := by
  induction fields generalizing start index with
  | nil =>
      rw [fieldsCharge] at h
      cases h
      exact Totals.nil (Nat.le_refl _) (Nat.le_refl _)
  | cons field fields ih =>
      rcases field with ⟨name, type⟩
      rw [fieldsCharge, answer_bind, typeCharge_eq] at h
      rcases Option.bind_eq_some_iff.1 h with ⟨c, hc, hrest⟩
      rw [answer_bind] at hrest
      rcases Option.bind_eq_some_iff.1 hrest with ⟨next, hadd, hfields⟩
      exact Totals.cons (index, kindOf type) hc hadd (ih hfields (index + 1))

theorem totals_of_entry {key value : Option FieldKind} {a b : Charge}
    (hkey : answer values (kindCharge home key) = some a)
    (hvalue : answer values (kindCharge home value) = some b) (hsum : a.add b = some sum) :
    Totals values home (.inlineOnly 0)
      [(MAP_ENTRY_KEY_ID, key), (MAP_ENTRY_VALUE_ID, value)] sum := by
  have hsum := Charge.add_eq hsum
  refine ⟨?_, ?_, ?_⟩
  · rw [List.map_cons, List.map_singleton, List.sum_cons, List.sum_singleton,
      inlineOf_eq (_, key) hkey, inlineOf_eq (_, value) hvalue, hsum.1]
    exact Nat.le_of_eq (Nat.zero_add _)
  · rw [List.map_cons, List.map_singleton, List.sum_cons, List.sum_singleton,
      outOfLineOf_eq (_, key) hkey, outOfLineOf_eq (_, value) hvalue, hsum.2]
    exact Nat.le_of_eq (Nat.zero_add _)
  · exact List.forall_mem_cons.2 ⟨⟨a, hkey⟩, List.forall_mem_singleton.2 ⟨b, hvalue⟩⟩

end Totals

/-! ### What is pushed -/

section Tables

variable {packages : Packages} {values : Found packages → Option Nat} {home : Home packages}

theorem inlineOnly_zero (declared : List (Nat × Option FieldKind)) {sum : Charge}
    (h : Totals values home (.inlineOnly 0) declared sum) :
    (declared.map (inlineOf values home)).sum ≤ sum.inline ∧
      (declared.map (outOfLineOf values home)).sum ≤ sum.outOfLine := by
  rcases h with ⟨hinline, houtOfLine, -⟩
  rw [Charge.inlineOnly, Nat.zero_add] at hinline houtOfLine
  exact ⟨hinline, houtOfLine⟩

theorem cost_table_le {declared : List (Nat × Option FieldKind)} {sum : Charge}
    {layout : TableLayout} {n : Nat} (htotals : Totals values home (.inlineOnly 0) declared sum)
    (hlength : declared.length ≤ layout.vtableSlots)
    (hbound : tableBound layout sum.inline sum.outOfLine = some n)
    {count : UInt16} (hcount : count.toNat ≤ layout.vtableSlots) {children : List Child}
    (hchildren : (children.map fun c => (c.entry.id, some c.kind)).Subperm declared)
    (hcost : ∀ c ∈ children, c.entry.value.size ≤ inlineOf values home (c.entry.id, some c.kind) ∧
      costOf c.pushes ≤ outOfLineOf values home (c.entry.id, some c.kind)) :
    costOf ((children.filter (·.entry.present)).flatMap (·.pushes)
      ++ [tablePush count (children.map (·.entry))]) ≤ n := by
  rcases inlineOnly_zero declared htotals with ⟨hinline, houtOfLine⟩
  have hn := tableBound_eq hbound
  have hentries := Nat.le_trans hchildren.length_le hlength
  rw [List.length_map] at hentries
  -- The fields that are there, against those that are declared.
  have hsizes : (children.map fun c => c.entry.value.size).sum ≤ sum.inline := by
    refine Nat.le_trans (List.sum_le_sum fun c hc => (hcost c hc).1) (Nat.le_trans ?_ hinline)
    have hle := sum_map_le_of_subperm hchildren (inlineOf values home)
    rwa [List.map_map] at hle
  have hpushes : (children.map fun c => costOf c.pushes).sum ≤ sum.outOfLine := by
    refine Nat.le_trans (List.sum_le_sum fun c hc => (hcost c hc).2) (Nat.le_trans ?_ houtOfLine)
    have hle := sum_map_le_of_subperm hchildren (outOfLineOf values home)
    rwa [List.map_map] at hle
  have hpresent := sum_map_le_of_subperm
    (List.filter_sublist (p := fun c : Child => c.entry.present) (l := children)).subperm
    (fun c => costOf c.pushes)
  have htable := cost_tablePush_le count (children.map (·.entry))
  rw [List.length_map, List.map_map] at htable
  have hmap : ((fun entry : Entry => entry.value.size) ∘ fun c : Child => c.entry)
      = fun c => c.entry.value.size := rfl
  rw [hmap] at htable
  rw [costOf_append, costOf_singleton, costOf_flatMap]
  omega

end Tables

/-- The charge that a walk answers for a job. -/
def Covers {packages : Packages} (values : Found packages → Option Nat) (home : Home packages) :
    Job → Charge → Prop
  | .field kind, c => answer values (kindCharge home (some kind)) = some c
  | .table slots declared, c =>
      c.inline = OFFSET ∧ declared.length ≤ slots ∧
        ∃ layout sum, layout.vtableSlots = slots ∧
          Totals values home (.inlineOnly 0) declared sum ∧
          tableBound layout sum.inline sum.outOfLine = some c.outOfLine
  | .composite decl, c =>
      c.inline = OFFSET ∧ answer values (compositeBound home decl) = some c.outOfLine
  | .arm reference, c =>
      c.inline = OFFSET ∧
        ∃ arm : UnionArm, arm.typeRef = reference ∧
          answer values (unionArmBound home arm) = some c.outOfLine

/-! ### Scalars -/

theorem size_of_isInt {width : Int} (h : IsInt width f) :
    ∃ w, IntWidth.ofInt width = some w ∧ f.size = w.bytes := by
  unfold IsInt at h
  cases hwidth : IntWidth.ofInt width with
  | none => simp only [hwidth] at h
  | some w =>
      refine ⟨w, rfl, ?_⟩
      cases w <;>
        · simp only [hwidth] at h
          rcases h with ⟨v, rfl⟩
          rfl

theorem isInt_le {width : Int} (h : IsInt width f)
    (hc : (intWidthBytes width).map Charge.inlineOnly = some c) :
    f.size ≤ c.inline ∧ costOf [] ≤ c.outOfLine := by
  rcases size_of_isInt h with ⟨w, hw, hsize⟩
  rw [intWidthBytes, hw] at hc
  cases hc
  exact ⟨Nat.le_of_eq hsize, Nat.zero_le _⟩

theorem length_utf8_le (text : String) : (FlatBuffers.utf8 text).length ≤ text.length * 4 := by
  have hbytes : FlatBuffers.utf8 text = text.toList.flatMap String.utf8EncodeChar := by
    rw [FlatBuffers.utf8, String.toUTF8_eq_toByteArray, ← String.utf8Encode_toList]
    exact List.toList_data_toByteArray
  rw [hbytes, List.length_flatMap, ← String.length_toList]
  refine sum_map_le_mul fun c _ => ?_
  rw [String.length_utf8EncodeChar]
  exact Char.utf8Size_le_four c

theorem scalarStored_le {d : TypeDef} {pushes : List Push}
    (h : ScalarStored d pushes f) (hc : scalarCharge d = some c) :
    f.size ≤ c.inline ∧ costOf pushes ≤ c.outOfLine := by
  cases h with
  | int hwidth hint =>
      simp only [scalarCharge, hwidth] at hc
      exact isInt_le hint hc
  | f32 v hwidth hfloat =>
      simp only [scalarCharge, hwidth, hfloat, Option.map_some, Option.some.injEq] at hc
      subst hc
      exact ⟨Nat.le_refl 4, Nat.le_refl 0⟩
  | f64 v hwidth hfloat =>
      simp only [scalarCharge, hwidth, hfloat, Option.map_some, Option.some.injEq] at hc
      subst hc
      exact ⟨Nat.le_refl 8, Nat.le_refl 0⟩
  | boolean v hwidth hbacking =>
      simp only [scalarCharge, hwidth, hbacking, if_true, Option.some.injEq] at hc
      subst hc
      exact ⟨Nat.le_refl 1, Nat.le_refl 0⟩
  | @bytes max elements p hwidth hbacking hmax hlength =>
      have hne : PRIMITIVE_BYTES ≠ PRIMITIVE_BOOLEAN := by decide
      simp only [scalarCharge, hwidth, hbacking, hne, hmax, if_false, if_true,
        Option.bind_eq_bind, Option.bind_eq_some_iff, Option.some.injEq] at hc
      rcases hc with ⟨length, rfl, prefixed, hprefixed, padded, hpadded, heq⟩
      cases heq
      rw [checkedAddU64_eq_some hpadded, checkedAddU64_eq_some hprefixed, costOf_singleton]
      refine ⟨Nat.le_refl 4, ?_⟩
      show OFFSET + elements.length + (FlatBuffers.OFFSET_SIZE - 1) + 0
        ≤ OFFSET + max + ALIGN_SLACK
      have hslack : FlatBuffers.OFFSET_SIZE - 1 ≤ ALIGN_SLACK := by decide
      omega
  | @text max value p hwidth hbacking hmax hlength =>
      have hne : PRIMITIVE_STRING ≠ PRIMITIVE_BOOLEAN := by decide
      have hne' : PRIMITIVE_STRING ≠ PRIMITIVE_BYTES := by decide
      simp only [scalarCharge, hwidth, hbacking, hne, hne', hmax, if_false, if_true,
        Option.bind_eq_bind, Option.bind_eq_some_iff, Option.some.injEq] at hc
      rcases hc with ⟨length, rfl, bytes, hbytes, text, htext, ended, hended, padded, hpadded, heq⟩
      cases heq
      rw [checkedAddU64_eq_some hpadded, checkedAddU64_eq_some hended, checkedAddU64_eq_some htext,
        checkedMulU64_eq_some hbytes, costOf_singleton]
      refine ⟨Nat.le_refl 4, ?_⟩
      show OFFSET + (FlatBuffers.utf8 value).length + 1 + (FlatBuffers.OFFSET_SIZE - 1) + 0
        ≤ OFFSET + max * 4 + 1 + ALIGN_SLACK
      have hutf8 := length_utf8_le value
      have hslack : FlatBuffers.OFFSET_SIZE - 1 ≤ ALIGN_SLACK := by decide
      omega

/-! ### Composites -/

section Composites

variable {packages : Packages} {values : Found packages → Option Nat} {home : Home packages}

variable {found : Found packages} {n : Nat}

theorem value_of_foundBound
    (h : answer values (foundBound found) = some n) : values found = some n := by
  unfold foundBound at h
  cases hkind : found.decl.kind with
  | none => simp only [hkind, answer_given, reduceCtorEq] at h
  | some kind =>
      cases kind with
      | structDef d =>
          simp only [hkind, answer_bind, answer_valueOf] at h
          rcases Option.bind_eq_some_iff.1 h with ⟨-, -, hvalue⟩
          exact hvalue
      | unionDef d =>
          simp only [hkind, answer_valueOf] at h
          exact h
      | _ => simp only [hkind, answer_given, reduceCtorEq] at h

/-- A name of a composite is charged an offset, and the bound of the composite. -/
theorem namedCharge_composite {reference : String} {c : Charge}
    (hfound : resolve home reference = some found) (hkind : IsComposite found.decl.kind)
    (h : answer values (namedCharge home reference) = some c) :
    c.inline = OFFSET ∧ values found = some c.outOfLine := by
  have hbound : namedCharge home reference = (do
      let bound ← foundBound found
      return { inline := OFFSET, outOfLine := bound }) := by
    unfold IsComposite at hkind
    split at hkind
    · rename_i _ d hstruct
      simp only [namedCharge, hfound, hstruct]
    · rename_i _ d hunion
      simp only [namedCharge, hfound, hunion]
    · exact hkind.elim
  rw [hbound, answer_bind] at h
  rcases Option.bind_eq_some_iff.1 h with ⟨n, hn, heq⟩
  cases heq
  exact ⟨rfl, value_of_foundBound hn⟩

theorem unionArmBound_composite {arm : UnionArm}
    (hfound : resolve home arm.typeRef = some found) (hkind : IsComposite found.decl.kind)
    (h : answer values (unionArmBound home arm) = some n) : values found = some n := by
  have hbound : unionArmBound home arm = foundBound found := by
    unfold IsComposite at hkind
    split at hkind
    · rename_i _ d hstruct
      simp only [unionArmBound, hfound, hstruct]
    · rename_i _ d hunion
      simp only [unionArmBound, hfound, hunion]
    · exact hkind.elim
  exact value_of_foundBound (hbound ▸ h)

theorem unionArmBound_box {arm : UnionArm}
    (hfound : resolve home arm.typeRef = some found) (hkind : IsBoxed found.decl.kind)
    (h : answer values (unionArmBound home arm) = some n) :
    ∃ c, answer values (namedCharge home arm.typeRef) = some c ∧
      tableBound unionArmBoxTable c.inline c.outOfLine = some n := by
  have hbound : unionArmBound home arm = (do
      let charge ← namedCharge home arm.typeRef
      given (tableBound unionArmBoxTable charge.inline charge.outOfLine)) := by
    unfold IsBoxed at hkind
    split at hkind
    · rename_i _ d hscalar
      simp only [unionArmBound, hfound, hscalar]
    · rename_i _ d henum
      simp only [unionArmBound, hfound, henum]
    · rename_i _ d hset
      simp only [unionArmBound, hfound, hset]
    · exact hkind.elim
  rw [hbound, answer_bind] at h
  exact Option.bind_eq_some_iff.1 h

theorem compositeBound_of_value {start : List String} {depth : Nat}
    (h : value (avoid Found.key foundBody start) depth found = some n) :
    ∃ d, answer (value (avoid Found.key foundBody start) d)
      (compositeBound found.declaring found.decl) = some n := by
  have hnot := not_mem_of_value h
  cases depth with
  | zero => cases h
  | succ depth =>
      rw [value, avoid_of_not_mem hnot] at h
      exact ⟨depth, h⟩

theorem covers_box {reference : String} {layout : TableLayout} {c : Charge}
    (hlayout : layout.vtableSlots = unionArmBoxTable.vtableSlots)
    (hc : answer values (namedCharge home reference) = some c)
    (hn : tableBound layout c.inline c.outOfLine = some n) :
    Covers values home (.box reference) { inline := OFFSET, outOfLine := n } := by
  refine ⟨rfl, (by decide : 1 ≤ unionArmBoxTable.vtableSlots), layout, c, hlayout, ?_, hn⟩
  have hkind : answer values (kindCharge home (some (.named reference))) = some c := by
    rw [kindCharge]
    exact hc
  refine ⟨?_, ?_, ?_⟩
  · rw [List.map_singleton, List.sum_singleton, inlineOf_eq _ hkind]
    exact Nat.le_of_eq (Nat.zero_add _)
  · rw [List.map_singleton, List.sum_singleton, outOfLineOf_eq _ hkind]
    exact Nat.le_of_eq (Nat.zero_add _)
  · intro field hfield
    rw [List.mem_singleton.1 hfield]
    exact ⟨c, hkind⟩

theorem unionArmBound_le {arms : List UnionArm} {start largest : Nat}
    (h : answer values (arms.foldlM
      (fun largest arm => do return max largest (← unionArmBound home arm)) start) = some largest) :
    start ≤ largest ∧ ∀ arm ∈ arms, ∃ n,
      answer values (unionArmBound home arm) = some n ∧ n ≤ largest := by
  induction arms generalizing start with
  | nil =>
      cases h
      exact ⟨Nat.le_refl _, nofun⟩
  | cons arm arms ih =>
      rw [List.foldlM_cons, answer_bind, answer_bind] at h
      rcases Option.bind_eq_some_iff.1 h with ⟨next, hnext, hrest⟩
      rcases Option.bind_eq_some_iff.1 hnext with ⟨n, hn, heq⟩
      cases heq
      rcases ih hrest with ⟨hle, harms⟩
      exact ⟨by omega, List.forall_mem_cons.2 ⟨⟨n, hn, by omega⟩, harms⟩⟩

end Composites

section Stored

variable {packages : Packages}

theorem cost_vector_le {elements : Bytes} {count max stride inline : Nat}
    (hlength : elements.length = count * stride) (hcount : count ≤ max) (hstride : stride ≤ inline)
    (hpos : stride ≤ 8) :
    (Push.vector elements stride).cost ≤ 4 + max * inline + 7 := by
  have hmul : count * stride ≤ max * inline := Nat.mul_le_mul hcount hstride
  have halign : (Push.vector elements stride).boundary.1 ≤ 8 := by
    rw [Push.boundary]
    split
    · exact hpos
    · decide
  show 4 + elements.length + ((Push.vector elements stride).boundary.1 - 1) + 0 ≤ _
  omega

/-- Elements that are offsets, with what they refer to. -/
theorem cost_offsets_le {elements : List (List Push × Pos)} {max inline outOfLine : Nat}
    (hcount : elements.length ≤ max)
    (h : ∀ e ∈ elements, (FlatBuffers.Field.offset e.2).size ≤ inline ∧ costOf e.1 ≤ outOfLine) :
    costOf (elements.flatMap (·.1) ++ [.offsetVector (elements.map (·.2))])
      ≤ 4 + max * inline + 7 + max * outOfLine := by
  have hsizes : (elements.map fun _ => 4).sum ≤ elements.length * inline :=
    sum_map_le_mul fun e he => (h e he).1
  rw [List.map_const', List.sum_replicate_nat] at hsizes
  have hpushes : (elements.map fun e => costOf e.1).sum ≤ elements.length * outOfLine :=
    sum_map_le_mul fun e he => (h e he).2
  have hinline : elements.length * inline ≤ max * inline := Nat.mul_le_mul_right _ hcount
  have houtOfLine : elements.length * outOfLine ≤ max * outOfLine :=
    Nat.mul_le_mul_right _ hcount
  have hvector : (Push.offsetVector (elements.map (·.2))).cost = 4 * (elements.length + 1) + 3 := by
    show 4 * ((elements.map (·.2)).length + 1) + 3 = _
    rw [List.length_map]
  rw [costOf_append, costOf_flatMap, costOf_singleton, hvector]
  omega

theorem cost_wrapper_le {count : UInt16} {entries : List Entry} {discriminant : UInt8}
    {target : Pos} (hcount : count.toNat ≤ unionWrapperTable.vtableSlots)
    (hentries : entries.Perm
      [⟨UNION_WRAPPER_VALUE_ID - 1, .u8 discriminant, true⟩,
        ⟨UNION_WRAPPER_VALUE_ID, .offset target, true⟩]) :
    (tablePush count entries).cost ≤ 39 := by
  have htable := cost_tablePush_le count entries
  have hsizes : (entries.map (·.value.size)).sum = 5 := (hentries.map _).sum_eq
  have hlength : entries.length = 2 := hentries.length_eq
  have hslots : unionWrapperTable.vtableSlots = 2 := by decide
  omega

theorem stored_le (start : List String) {home : Home packages} {job : Job} {pushes : List Push}
    {f : FlatBuffers.Field} (h : Stored home job pushes f) (depth : Nat) (c : Charge)
    (hc : Covers (value (avoid Found.key foundBody start) depth) home job c) :
    f.size ≤ c.inline ∧ costOf pushes ≤ c.outOfLine := by
  induction h generalizing depth c with
  | boolean home v =>
      rw [Covers, kindCharge] at hc
      cases hc
      exact ⟨Nat.le_refl 1, Nat.le_refl 0⟩
  | integer home v =>
      rw [Covers, kindCharge] at hc
      cases hc
      exact ⟨Nat.le_refl 8, Nat.le_refl 0⟩
  | float home v =>
      rw [Covers, kindCharge] at hc
      cases hc
      exact ⟨Nat.le_refl 8, Nat.le_refl 0⟩
  | inlineScalar home h =>
      rw [Covers, kindCharge] at hc
      exact scalarStored_le h hc
  | scalar home hfound hkind h =>
      rw [Covers, kindCharge, namedCharge] at hc
      simp only [hfound, hkind] at hc
      exact scalarStored_le h hc
  | enum home v hfound hkind =>
      rw [Covers, kindCharge, namedCharge] at hc
      simp only [hfound, hkind] at hc
      cases hc
      exact ⟨Nat.le_refl 8, Nat.le_refl 0⟩
  | enumSet home hfound hkind hint =>
      rw [Covers, kindCharge, namedCharge] at hc
      simp only [hfound, hkind] at hc
      exact isInt_le hint hc
  | named home hfound hkind _ ih =>
      rw [Covers, kindCharge] at hc
      rcases namedCharge_composite hfound hkind hc with ⟨hinline, hvalue⟩
      rcases compositeBound_of_value hvalue with ⟨d, hd⟩
      exact ih d c ⟨hinline, hd⟩
  | tuple home hlayout _ ih =>
      rw [Covers, kindCharge, hlayout] at hc
      simp only [answer_bind, answer_given] at hc
      rcases Option.bind_eq_some_iff.1 hc with ⟨layout, hsame, hfields⟩
      cases hsame
      rcases Option.bind_eq_some_iff.1 hfields with ⟨sum, hsum, hrest⟩
      rcases Option.bind_eq_some_iff.1 hrest with ⟨n, hn, heq⟩
      cases heq
      exact ih depth _
        ⟨rfl, length_tupleFields_le_slots hlayout, _, sum, rfl, totals_of_fields hsum 0, hn⟩
  | @scalars home isOptional kind min max sample values elements p _ _ _ hlength hmax ih _ =>
      rw [Covers, kindCharge, answer_bind, typeCharge_eq] at hc
      rcases Option.bind_eq_some_iff.1 hc with ⟨element, helement, hvector⟩
      rcases vectorCharge_eq hvector with ⟨hinline, houtOfLine⟩
      have hsample := (ih depth element helement).1
      have hcost := cost_vector_le hlength hmax hsample (size_pos_le sample).2
      rw [hinline, houtOfLine, costOf_singleton]
      exact ⟨Nat.le_refl 4, Nat.le_trans hcost (Nat.le_add_right _ _)⟩
  | offsets home elements p _ hmax ih =>
      rw [Covers, kindCharge, answer_bind, typeCharge_eq] at hc
      rcases Option.bind_eq_some_iff.1 hc with ⟨element, helement, hvector⟩
      rcases vectorCharge_eq hvector with ⟨hinline, houtOfLine⟩
      rw [hinline, houtOfLine]
      exact ⟨Nat.le_refl 4, cost_offsets_le hmax fun e he => ih e he depth element helement⟩
  | @map home key value min max entries p _ hmax ih =>
      rw [Covers, kindCharge] at hc
      simp only [answer_bind, answer_given, typeCharge_eq] at hc
      rcases Option.bind_eq_some_iff.1 hc with ⟨keyCharge, hkey, hrest⟩
      rcases Option.bind_eq_some_iff.1 hrest with ⟨valueCharge, hvalue, hrest⟩
      rcases Option.bind_eq_some_iff.1 hrest with ⟨sum, hsum, hrest⟩
      rcases Option.bind_eq_some_iff.1 hrest with ⟨entry, hentry, hvector⟩
      rcases vectorCharge_eq hvector with ⟨hinline, houtOfLine⟩
      rw [hinline, houtOfLine]
      refine ⟨Nat.le_refl 4, cost_offsets_le hmax fun e he => ?_⟩
      refine ih e he depth { inline := OFFSET, outOfLine := entry }
        ⟨rfl, (by decide : 2 ≤ mapEntryTable.vtableSlots), mapEntryTable, sum, rfl,
          totals_of_entry hkey hvalue hsum, hentry⟩
  | table home count children p hchildren _ hcount ih =>
      rcases hc with ⟨hinline, hlength, layout, sum, rfl, htotals, hbound⟩
      refine ⟨Nat.le_of_eq hinline.symm,
        cost_table_le htotals hlength hbound hcount hchildren fun child hchild => ?_⟩
      have hmem := hchildren.subset (List.mem_map_of_mem hchild)
      rcases htotals.charged _ hmem with ⟨c', hc'⟩
      rw [inlineOf_eq _ hc', outOfLineOf_eq _ hc']
      exact ih child hchild depth c' hc'
  | struct home hkind hlayout _ ih =>
      rcases hc with ⟨hinline, hbound⟩
      simp only [compositeBound, hkind, hlayout, structBound, answer_bind, answer_given] at hbound
      rcases Option.bind_eq_some_iff.1 hbound with ⟨layout, hsame, hrest⟩
      cases hsame
      rcases Option.bind_eq_some_iff.1 hrest with ⟨sum, hsum, hn⟩
      exact ih depth c ⟨hinline, length_liveFields_le_slots hlayout, _, sum, rfl,
        totals_of_members hsum, hn⟩
  | union home count entries discriminant p hkind harm _ hcount hentries ih =>
      rcases hc with ⟨hinline, hbound⟩
      simp only [compositeBound, hkind, unionBound, answer_bind] at hbound
      rcases Option.bind_eq_some_iff.1 hbound with ⟨largest, hlargest, hn⟩
      rcases (unionArmBound_le hlargest).2 _ harm with ⟨n, harmBound, hle⟩
      have hpushes := (ih depth { inline := OFFSET, outOfLine := n } ⟨rfl, _, rfl, harmBound⟩).2
      have hwrapper := cost_wrapper_le hcount hentries
      have htotal := tableBound_eq hn
      have hslots : unionWrapperTable.vtableSlots = 2 := by decide
      have hoffset : OFFSET = 4 := rfl
      rw [costOf_append, costOf_singleton]
      rw [hslots, hoffset] at htotal
      refine ⟨Nat.le_of_eq hinline.symm, ?_⟩
      dsimp only at hpushes
      omega
  | armTable home hfound hkind _ ih =>
      rcases hc with ⟨hinline, arm, rfl, hbound⟩
      rcases compositeBound_of_value (unionArmBound_composite hfound hkind hbound) with ⟨d, hd⟩
      exact ih d c ⟨hinline, hd⟩
  | armBox home hfound hkind _ ih =>
      rcases hc with ⟨hinline, arm, rfl, hbound⟩
      rcases unionArmBound_box hfound hkind hbound with ⟨charge, hcharge, hn⟩
      have hbox := ih depth _ (covers_box rfl hcharge hn)
      rw [hinline]
      exact hbox

end Stored

end Sizing

end Ridl
