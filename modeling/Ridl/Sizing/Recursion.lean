import Mathlib.Logic.Relation
import Ridl.Sizing.Bounded

/-!
# Recursive Declarations

A declaration that reaches itself has no bound. The value of a composite is found
in some depth, and what the composite refers to is found in less, so values
along a chain of references are found in less and less depth, and no chain
returns.

## Theorems

* `value_of_refers`: What a composite refers to has a value in less depth.
* `not_transGen_self`: What has a value does not reach itself.
-/

namespace Ridl

namespace Sizing

open Diff Library Library.Guarded
open Podbuf (Packages)

/-! ### Recursive declarations -/

/-- A name stands in a type. -/
inductive Mentions : Option FieldKind → String → Prop
  | named (reference : String) : Mentions (some (.named reference)) reference
  | array {element : Option FieldType} {min max : Nat} {reference : String}
      (h : Mentions (kindOf element) reference) :
      Mentions (some (.array element min max)) reference
  | key {key value : Option FieldType} {min max : Nat} {reference : String}
      (h : Mentions (kindOf key) reference) : Mentions (some (.map key value min max)) reference
  | value {key value : Option FieldType} {min max : Nat} {reference : String}
      (h : Mentions (kindOf value) reference) : Mentions (some (.map key value min max)) reference
  | tuple {fields : List TupleField} {name : String} {type : Option FieldType}
      {reference : String} (hfield : .mk name type ∈ fields)
      (h : Mentions (kindOf type) reference) : Mentions (some (.tuple fields)) reference

/-- A name stands in a declaration. -/
inductive DeclMentions : Option Diff.Kind → String → Prop
  | field {d : StructDef} {field : Diff.Field} {reference : String}
      (hfield : some (.field field) ∈ d.members) (h : Mentions (kindOf field.type) reference) :
      DeclMentions (some (.structDef d)) reference
  | arm {d : UnionDef} {arm : UnionArm} (harm : arm ∈ d.arms) :
      DeclMentions (some (.unionDef d)) arm.typeRef

variable {packages : Packages}

/-- A name in a declaration of a package refers to a composite. -/
def Leads (home : Home packages) (kind : Option Diff.Kind) (found : Found packages) : Prop :=
  ∃ reference, DeclMentions kind reference ∧ resolve home reference = some found ∧
    IsComposite found.decl.kind

/-- A composite refers to another. -/
def Refers (found found' : Found packages) : Prop :=
  Leads found.declaring found.decl.kind found'

/-- A declaration of the root package reaches itself, or a composite that does. -/
def Recursive (packages : Packages) (decl : Decl) : Prop :=
  ∃ found found' : Found packages, Leads (rootHome packages) decl.kind found ∧
    Relation.ReflTransGen Refers found found' ∧
      (found'.key = rootKey packages decl ∨ Relation.TransGen Refers found' found')

section Values

variable {values : Found packages → Option Nat} {home : Home packages}

theorem fieldsCharge_mem {fields : List TupleField} {start sum : Charge}
    (h : answer values (fieldsCharge home fields start) = some sum) {name : String}
    {type : Option FieldType} (hfield : .mk name type ∈ fields) :
    ∃ c, answer values (kindCharge home (kindOf type)) = some c := by
  induction fields generalizing start with
  | nil => cases hfield
  | cons field fields ih =>
      rcases field with ⟨name', type'⟩
      rw [fieldsCharge, answer_bind, typeCharge_eq] at h
      rcases Option.bind_eq_some_iff.1 h with ⟨c, hc, hrest⟩
      rw [answer_bind] at hrest
      rcases Option.bind_eq_some_iff.1 hrest with ⟨next, -, hfields⟩
      rcases List.mem_cons.1 hfield with heq | hmem
      · cases heq
        exact ⟨c, hc⟩
      · exact ih hfields hmem

/-- Where a type has a charge, so has each name in it. -/
theorem charge_of_mentions {kind : Option FieldKind} {reference : String}
    (h : Mentions kind reference) {c : Charge} (hc : answer values (kindCharge home kind) = some c) :
    ∃ c', answer values (namedCharge home reference) = some c' := by
  induction h generalizing c with
  | named reference =>
      rw [kindCharge] at hc
      exact ⟨c, hc⟩
  | array _ ih =>
      rw [kindCharge, answer_bind, typeCharge_eq] at hc
      rcases Option.bind_eq_some_iff.1 hc with ⟨element, helement, -⟩
      exact ih helement
  | key _ ih =>
      rw [kindCharge, answer_bind, typeCharge_eq] at hc
      rcases Option.bind_eq_some_iff.1 hc with ⟨key, hkey, -⟩
      exact ih hkey
  | value _ ih =>
      rw [kindCharge] at hc
      simp only [answer_bind, typeCharge_eq] at hc
      rcases Option.bind_eq_some_iff.1 hc with ⟨_, -, hrest⟩
      rcases Option.bind_eq_some_iff.1 hrest with ⟨value, hvalue, -⟩
      exact ih hvalue
  | tuple hfield _ ih =>
      rw [kindCharge] at hc
      simp only [answer_bind, answer_given] at hc
      rcases Option.bind_eq_some_iff.1 hc with ⟨_, -, hfields⟩
      rcases Option.bind_eq_some_iff.1 hfields with ⟨sum, hsum, -⟩
      rcases fieldsCharge_mem hsum hfield with ⟨c', hc'⟩
      exact ih hc'

theorem members_charge {members : List (Option StructMember)} {start sum : Charge}
    (h : answer values (members.foldlM (memberCharge home) start) = some sum)
    {field : Diff.Field} (hfield : some (.field field) ∈ members) :
    ∃ c, answer values (kindCharge home (kindOf field.type)) = some c :=
  (totals_of_members h).charged (field.ordinal - 1, kindOf field.type)
    (List.mem_filterMap.2 ⟨_, hfield, rfl⟩)

/-- Where a declaration has a bound, each composite that it names has a value. -/
theorem value_of_leads {decl : Decl} {found : Found packages} {n : Nat}
    (hn : answer values (compositeBound home decl) = some n) (h : Leads home decl.kind found) :
    ∃ v, values found = some v := by
  rcases h with ⟨reference, hmentions, hfound, hkind⟩
  unfold compositeBound at hn
  generalize decl.kind = kind at hmentions hn
  cases hmentions with
  | field hfield h =>
      simp only [structBound, answer_bind, answer_given] at hn
      rcases Option.bind_eq_some_iff.1 hn with ⟨_, -, hrest⟩
      rcases Option.bind_eq_some_iff.1 hrest with ⟨sum, hsum, -⟩
      rcases members_charge hsum hfield with ⟨c, hc⟩
      rcases charge_of_mentions h hc with ⟨c', hc'⟩
      exact ⟨_, (namedCharge_composite hfound hkind hc').2⟩
  | arm harm =>
      simp only [unionBound, answer_bind] at hn
      rcases Option.bind_eq_some_iff.1 hn with ⟨largest, hlargest, -⟩
      rcases (unionArmBound_le hlargest).2 _ harm with ⟨n, hbound, -⟩
      exact ⟨n, unionArmBound_composite hfound hkind hbound⟩

end Values

section Depth

variable {start : List String}

def Valued (start : List String) (depth : Nat) (found : Found packages) : Prop :=
  ∃ v, value (avoid Found.key foundBody start) depth found = some v

theorem value_of_refers {depth : Nat} {found found' : Found packages}
    (h : Valued start depth found) (hrefers : Refers found found') :
    ∃ d, d < depth ∧ Valued start d found' := by
  rcases h with ⟨v, hv⟩
  have hnot := not_mem_of_value hv
  cases depth with
  | zero => cases hv
  | succ depth =>
      rw [value, avoid_of_not_mem hnot] at hv
      exact ⟨depth, Nat.lt_succ_self depth, value_of_leads hv hrefers⟩

theorem value_of_transGen {depth : Nat} {found found' : Found packages}
    (h : Valued start depth found) (hrefers : Relation.TransGen Refers found found') :
    ∃ d, d < depth ∧ Valued start d found' := by
  induction hrefers with
  | single hstep => exact value_of_refers h hstep
  | tail _ hstep ih =>
      rcases ih with ⟨d, hd, hvalue⟩
      rcases value_of_refers hvalue hstep with ⟨d', hd', hvalue'⟩
      exact ⟨d', Nat.lt_trans hd' hd, hvalue'⟩

theorem not_transGen_self {depth : Nat} {found : Found packages} (h : Valued start depth found) :
    ¬ Relation.TransGen Refers found found := by
  intro hself
  induction depth using Nat.strongRecOn with
  | ind depth ih =>
      rcases value_of_transGen h hself with ⟨d, hd, hvalue⟩
      exact ih d hd hvalue

end Depth

end Sizing

end Ridl
