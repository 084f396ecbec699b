import Ridl.Contract.Inversion
import Mathlib.Data.List.Basic

/-!
# Environments of a Scope

What the lowering promises of a scope, and what it means that an environment binds
what the scope declares. There is such an environment for every scope.

## Theorems

* `matches_someEnv`: Each lowered scope has an environment.
-/

namespace Ridl

namespace Contract

open Ridl.Syntax Ridl.Library

/-! ### Scopes and environments -/

/-- No name that is bound has a dot in it, and only parameters and the query
    result can be tuples. -/
structure ContractScope.Lowered (scope : ContractScope) : Prop where
  signals : ∀ (name : String) type, lookup scope.signals name = some type →
    '.' ∉ name.toList ∧ ∀ encoded, type ≠ .tuple encoded
  consts : ∀ (name : String) type, scope.vocabulary.consts[name]? = some type →
    '.' ∉ name.toList ∧ ∀ encoded, type ≠ .tuple encoded
  enums : ∀ (name : String) decl, scope.vocabulary.enums[name]? = some decl →
    '.' ∉ name.toList

/-- A value of the type, where an expression can have the type. -/
def Binds (found : Option Value) (type : ExprType) : Prop :=
  type.IsSupported → ∃ value, found = some value ∧ HasType value type

/-- What the scope declares is bound to a value of its type, and no other
    parameter is bound. -/
structure EvalEnv.Matches (env : EvalEnv) (scope : ContractScope) : Prop where
  params : ∀ (name : String) type, lookup scope.params name = some type →
    Binds (lookup env.params name) type
  others : ∀ name : String, lookup scope.params name = none → lookup env.params name = none
  result : ∀ type, scope.result = some type → Binds env.result type
  consts : ∀ (name : String) type, scope.vocabulary.consts[name]? = some type →
    lookup scope.signals name = none → Binds (env.consts name) type
  members : ∀ (name : String) decl, scope.vocabulary.enums[name]? = some decl →
    ∀ member ∈ decl.members,
      ∃ value, env.consts (name ++ "." ++ member) = some (.enumVal decl.reference value)

/-- A signal that is bound to a value of its type. -/
def BindsSignal (scope : ContractScope) (env : EvalEnv) (name : String) : Prop :=
  ∀ type, lookup scope.signals name = some type → Binds (env.consts name) type

/-- No signal that the clause reads is missing. -/
def BindsSignals (scope : ContractScope) (env : EvalEnv) (expr : Expr) : Prop :=
  ∀ name ∈ (collectRefs expr scope).signals, BindsSignal scope env name

/-! ### An environment for every scope -/

theorem lookup_map {α β : Type} (f : α → β) (bindings : List (String × α)) (name : String) :
    lookup (bindings.map (fun entry => (entry.1, f entry.2))) name =
      (lookup bindings name).map f := by
  simp only [lookup, List.find?_map, Function.comp_def, Option.map_map]

namespace ExprType

/-- One field of the encoding of a tuple, with its type. -/
def entryOf (entry : List Char) : Option (String × ExprType) :=
  match splitOnce '=' entry with
  | some (field, code) => (decodeField code).map (fun type => (String.ofList field, type))
  | none => none

/-- The fields that the encoding of a tuple lists, with their types. -/
def entries (encoded : String) : List (String × ExprType) :=
  ((encoded.toList.splitOn ';').filter (· ≠ [])).filterMap entryOf

theorem findSome?_eq_lookup {α β : Type} (f : α → Option β) (g : α → Option (String × β))
    (name : String) (h : ∀ a, f a = ((g a).filter (·.1 == name)).map (·.2)) (list : List α) :
    list.findSome? f = lookup (list.filterMap g) name := by
  induction list with
  | nil => rfl
  | cons a rest ih =>
      rw [List.findSome?_cons, h a, ih]
      cases hg : g a with
      | none => rw [List.filterMap_cons_none hg, Option.filter_none, Option.map_none]
      | some pair =>
          have hcons : lookup (pair :: rest.filterMap g) name =
              (match pair.1 == name with
                | true => some pair.2
                | false => lookup (rest.filterMap g) name) := by
            rw [lookup, List.find?_cons]
            cases pair.1 == name <;> rfl
          rw [List.filterMap_cons_some hg, hcons]
          cases hname : pair.1 == name with
          | true => simp only [Option.filter_some, hname, if_true, Option.map_some]
          | false =>
              simp only [Option.filter_some, hname, Bool.false_eq_true, if_false, Option.map_none]

theorem tupleField_eq_lookup (encoded name : String) :
    tupleField encoded name = lookup (entries encoded) name := by
  refine findSome?_eq_lookup _ entryOf name (fun entry => ?_) _
  unfold entryOf
  cases splitOnce '=' entry with
  | none => rfl
  | some pair =>
      rcases pair with ⟨field, code⟩
      have hname : (String.ofList field == name) = decide (field = name.toList) := by
        rw [Bool.eq_iff_iff, beq_iff_eq, decide_eq_true_iff]
        constructor
        · rintro rfl
          exact String.toList_ofList.symm
        · rintro rfl
          exact String.ofList_toList
      cases hcode : decodeField code with
      | none =>
          simp only [hcode, ite_self]
          rfl
      | some type =>
          simp only [hcode, Option.map_some, Option.filter_some, hname, decide_eq_true_eq]
          split_ifs <;> rfl

theorem decodeField_ne_tuple (code : List Char) (encoded : String) :
    decodeField code ≠ some (.tuple encoded) := by
  intro h
  unfold decodeField at h
  split_ifs at h
  · cases h
  · cases h
  · split at h
    · unfold decodeNamed at h
      split_ifs at h <;> cases h
    · cases h

theorem tupleField_ne_tuple (encoded name inner : String) :
    tupleField encoded name ≠ some (.tuple inner) := by
  unfold tupleField
  intro h
  rcases List.exists_of_findSome?_eq_some h with ⟨entry, -, hentry⟩
  split at hentry
  · split_ifs at hentry
    exact decodeField_ne_tuple _ _ hentry
  · cases hentry

/-- What the encoding of a tuple keeps of the type of a field. -/
def carried : Option ExprType → ExprType
  | some (.tuple _) => .unsupported "a tuple"
  | some type => type
  | none => .unsupported "a type outside the guaranteed subset"

/-- A value of each type that is not a tuple. -/
def baseValue : ExprType → Value
  | .numeric _ backing => .num 0 backing
  | .duration => .dur 0
  | .enumType reference => .enumVal reference 0
  | _ => .bool false

def someValue : ExprType → Value
  | .tuple encoded => .tuple ((entries encoded).map (fun entry => (entry.1, entry.2.baseValue)))
  | type => type.baseValue

end ExprType

theorem hasDomain_baseValue {type : ExprType} (hsupported : type.IsSupported)
    (htuple : ∀ encoded, type ≠ .tuple encoded) : HasDomain type.baseValue type := by
  cases type with
  | boolean | duration => exact trivial
  | numeric reference backing => exact ⟨rfl, fun _ => rfl⟩
  | enumType reference => exact rfl
  | tuple encoded => exact absurd rfl (htuple encoded)
  | unsupported declared => exact absurd rfl (hsupported declared)

theorem lookup_someValue (encoded name : String) :
    lookup ((ExprType.entries encoded).map (fun entry => (entry.1, entry.2.baseValue))) name =
      (ExprType.tupleField encoded name).map ExprType.baseValue := by
  rw [lookup_map, ExprType.tupleField_eq_lookup]

theorem hasType_someValue {type : ExprType} (hsupported : type.IsSupported) :
    HasType type.someValue type := by
  cases type with
  | tuple encoded =>
      refine ⟨_, rfl, fun name field hfield hfsupported => ⟨field.baseValue, ?_, ?_⟩⟩
      · rw [lookup_someValue, hfield, Option.map_some]
      · exact hasDomain_baseValue hfsupported (fun inner hinner =>
          ExprType.tupleField_ne_tuple encoded name inner (hinner ▸ hfield))
  | _ => exact hasDomain_baseValue hsupported nofun

/-- What a name is bound to that is no parameter. -/
def someConst (scope : ContractScope) (name : String) : Option Value :=
  match lookup scope.signals name with
  | some type => some type.someValue
  | none =>
    match scope.vocabulary.consts[name]? with
    | some type => some type.someValue
    | none =>
      match splitOnce '.' name.toList with
      | some (head, member) =>
          match scope.vocabulary.enums[String.ofList head]? with
          | some decl =>
              if String.ofList member ∈ decl.members then some (.enumVal decl.reference 0) else none
          | none => none
      | none => none

/-- An environment that binds what a scope declares. -/
def someEnv (scope : ContractScope) : EvalEnv :=
  { params := scope.params.map (fun entry => (entry.1, entry.2.someValue))
    result := scope.result.map ExprType.someValue
    consts := someConst scope }

theorem matches_someEnv {scope : ContractScope} (hlow : scope.Lowered) :
    (someEnv scope).Matches scope := by
  constructor
  · intro name type h hsupported
    exact ⟨type.someValue, by rw [someEnv, lookup_map, h, Option.map_some],
      hasType_someValue hsupported⟩
  · intro name h
    rw [someEnv, lookup_map, h, Option.map_none]
  · intro type h hsupported
    exact ⟨type.someValue, by rw [someEnv, h, Option.map_some], hasType_someValue hsupported⟩
  · intro name type h hsignal hsupported
    exact ⟨type.someValue, by simp only [someEnv, someConst, hsignal, h],
      hasType_someValue hsupported⟩
  · intro name decl h member hmember
    refine ⟨0, ?_⟩
    have hdot : '.' ∈ (name ++ "." ++ member).toList := by
      rw [String.toList_append, String.toList_append]
      exact List.mem_append_left _ (List.mem_append_right _ List.mem_cons_self)
    have hsignal : lookup scope.signals (name ++ "." ++ member) = none := by
      cases hheld : lookup scope.signals (name ++ "." ++ member) with
      | none => rfl
      | some type => exact absurd hdot (hlow.signals _ _ hheld).1
    have hconst : scope.vocabulary.consts[name ++ "." ++ member]? = none := by
      cases hheld : scope.vocabulary.consts[name ++ "." ++ member]? with
      | none => rfl
      | some type => exact absurd hdot (hlow.consts _ _ hheld).1
    have hsplit : splitOnce '.' (name ++ "." ++ member).toList =
        some (name.toList, member.toList) := by
      rw [String.toList_append, String.toList_append, List.append_assoc]
      exact splitOnce_append (hlow.enums _ _ h) _
    simp only [someEnv, someConst, hsignal, hconst, hsplit, String.ofList_toList, h, hmember,
      if_true]

end Contract

end Ridl
