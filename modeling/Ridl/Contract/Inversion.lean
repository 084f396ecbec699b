import Ridl.Contract.Typing

/-!
# What the Checker Infers

One lemma for each form of expression: from the type that the checker inferred,
what the parts of the expression are. The proofs about checked expressions cite
these and unfold none of the checker.

The second half is about the signals that a clause reads: none that was read is
forgotten, and a part of a clause reads no more than the clause.

## Theorems

* `inferPath_eq_some`, `inferMember_eq_some`: Names and member accesses.
* `inferPrefix_eq_some`, `inferBinary_eq_some`: Operators.
* `enumTypeHead_eq_some`: What shadows the name of an enum.
* `signals_of_sub`: What a part of a clause reads, the clause reads.
-/

namespace Ridl

namespace Contract

open Ridl.Syntax Ridl.Library

/-! ### Inferred types -/

section Inversion

variable {scope : ContractScope}

variable {type : ExprType} {range : TextRange}

theorem inDomain_eq_some {found : ExprType} {name noun : String}
    (h : (inDomain found name noun range).1 = some type) : type = found ∧ found.IsSupported := by
  cases found with
  | unsupported declared => cases h
  | _ =>
      cases h
      exact ⟨rfl, nofun⟩

/-- What a name is bound to that has a type. -/
inductive Resolves (scope : ContractScope) (name : String) (type : ExprType) : Prop
  | param : lookup scope.params name = some type → Resolves scope name type
  | result : lookup scope.params name = none → name = "result" → scope.result = some type →
      Resolves scope name type
  | signal : lookup scope.params name = none → name ≠ "result" →
      lookup scope.signals name = some type → Resolves scope name type
  | const : lookup scope.params name = none → name ≠ "result" →
      lookup scope.signals name = none → scope.vocabulary.consts[name]? = some type →
      Resolves scope name type

theorem inferPath_eq_some {token : Option Token} (h : (inferPath token scope).1 = some type) :
    ∃ found, token = some found ∧ Resolves scope found.text type ∧ type.IsSupported := by
  cases token with
  | none => cases h
  | some found =>
      refine ⟨found, rfl, ?_⟩
      simp only [inferPath] at h
      split at h
      next held hparam =>
        rcases inDomain_eq_some h with ⟨rfl, hsupported⟩
        exact ⟨.param hparam, hsupported⟩
      next hparam =>
        split_ifs at h with hresult
        · split at h
          next held hheld =>
            rcases inDomain_eq_some h with ⟨rfl, hsupported⟩
            exact ⟨.result hparam hresult hheld, hsupported⟩
          next => cases h
        · split at h
          next held hsignal =>
            rcases inDomain_eq_some h with ⟨rfl, hsupported⟩
            exact ⟨.signal hparam hresult hsignal, hsupported⟩
          next hsignal =>
            split at h
            next held hconst =>
              rcases inDomain_eq_some h with ⟨rfl, hsupported⟩
              exact ⟨.const hparam hresult hsignal hconst, hsupported⟩
            next =>
              split at h <;> cases h

theorem inferMember_eq_some {base : Expr} {name : Option Token} {inferred : Inferred}
    (h : (inferMember scope range base name inferred).1 = some type) :
    base ≠ .missing ∧ ∃ token, name = some token ∧
      ((isScreamingSnake token.text = true ∧ ∃ declared, enumTypeHead base scope = some declared ∧
          token.text ∈ declared.members ∧ type = .enumType declared.reference) ∨
        (isScreamingSnake token.text = false ∧ ∃ encoded, inferred.1 = some (.tuple encoded) ∧
          ExprType.tupleField encoded token.text = some type ∧ type.IsSupported)) := by
  unfold inferMember at h
  split at h
  next => cases h
  next => cases h
  next token hbase =>
    refine ⟨hbase, token, rfl, ?_⟩
    dsimp only at h
    by_cases hcamel : isCamelCase token.text = true
    · rw [if_pos hcamel] at h
      cases h
    rw [if_neg hcamel] at h
    cases hscreaming : isScreamingSnake token.text with
    | true =>
        rw [if_pos hscreaming] at h
        split at h
        next declared hhead =>
          split_ifs at h with hmember
          · cases h
            rcases List.any_eq_true.mp hmember with ⟨member, hmem, heq⟩
            rw [beq_iff_eq] at heq
            exact .inl ⟨rfl, declared, hhead, heq ▸ hmem, rfl⟩
          · cases h
        next =>
          split_ifs at h
          cases h
    | false =>
        rw [if_neg (Bool.not_eq_true _ ▸ hscreaming)] at h
        split at h
        next => cases h
        next encoded hencoded =>
          split at h
          next field hfield =>
            rcases inDomain_eq_some h with ⟨rfl, hsupported⟩
            exact .inr ⟨rfl, encoded, hencoded, hfield, hsupported⟩
          next => cases h
        next => cases h

theorem inferPrefix_eq_some {op : Option Token} {operand : Inferred}
    (h : (inferPrefix range op operand).1 = some type) :
    ∃ token found, op = some token ∧ operand.1 = some found := by
  unfold inferPrefix at h
  split at h
  next token found hfound => exact ⟨token, found, rfl, hfound⟩
  next => cases h

theorem inferBinary_eq_some {op : Option Token} {lhs rhs : Inferred}
    (h : (inferBinary range op lhs rhs).1 = some type) :
    ∃ token left right, op = some token ∧ lhs.1 = some left ∧ rhs.1 = some right ∧
      (inferOperator range token left right).1 = some type := by
  unfold inferBinary at h
  split at h
  next token left right hleft hright => exact ⟨token, left, right, rfl, hleft, hright, h⟩
  next => cases h

theorem ne_missing_of_infer {expr : Expr}
    (h : (infer scope expr).1 = some type) : expr ≠ .missing := by
  rintro rfl
  cases h

theorem enumTypeHead_eq_some {base : Expr} {declared : EnumDecl}
    (h : enumTypeHead base scope = some declared) :
    ∃ range token, base = .path range (some token) ∧ lookup scope.params token.text = none ∧
      lookup scope.signals token.text = none ∧
      scope.vocabulary.consts[token.text]? = none ∧
      scope.vocabulary.enums[token.text]? = some declared := by
  unfold enumTypeHead at h
  split at h
  next range token =>
    split_ifs at h with hshadowed
    simp only [Bool.or_eq_true, not_or, Bool.not_eq_true, Option.isSome_eq_false_iff,
      Option.isNone_iff_eq_none, Std.ExtTreeMap.contains_eq_isSome_getElem?] at hshadowed
    exact ⟨range, token, rfl, hshadowed.1.1, hshadowed.1.2, hshadowed.2, h⟩
  next => cases h

end Inversion

/-! ### Reads -/

section Reads

variable {scope : ContractScope}

variable {name : String}

theorem mem_pushOnce {list : List String} {held : String} :
    held ∈ pushOnce list name ↔ held ∈ list ∨ held = name := by
  unfold pushOnce
  split_ifs with hmem
  · rcases List.any_eq_true.mp hmem with ⟨other, hother, heq⟩
    rw [beq_iff_eq] at heq
    constructor
    · exact .inl
    · rintro (h | rfl)
      · exact h
      · exact heq ▸ hother
  · rw [List.mem_append, List.mem_singleton]

theorem signals_walkRefs (expr : Expr) (refs : ExprRefs)
    (h : name ∈ refs.signals) : name ∈ (walkRefs scope expr refs).signals := by
  induction expr generalizing refs with
  | missing | literal _ _ => exact h
  | paren _ inner ih | prefixed _ _ inner ih => exact ih refs h
  | path _ token =>
      cases token with
      | none => exact h
      | some token =>
          simp only [walkRefs, walkPath]
          split_ifs
          · exact h
          · exact h
          · exact mem_pushOnce.mpr (.inl h)
          · exact h
          · exact h
  | member _ base token ih =>
      simp only [walkRefs]
      split_ifs
      · split <;> exact h
      · exact ih refs h
  | binary _ lhs _ rhs ihl ihr => exact ihr _ (ihl refs h)

theorem mem_signals_walkPath {token : Token} (refs : ExprRefs)
    (hparam : lookup scope.params token.text = none) (hresult : token.text ≠ "result")
    {type : ExprType} (hsignal : lookup scope.signals token.text = some type) :
    token.text ∈ (walkPath scope (some token) refs).signals := by
  simp only [walkPath, hparam, hresult, hsignal, Option.isSome_none, Option.isSome_some,
    Bool.false_eq_true, false_and, if_false, if_true]
  exact mem_pushOnce.mpr (.inr rfl)

theorem signals_walkPath_iff (token : Option Token) (refs : ExprRefs) :
    name ∈ (walkPath scope token refs).signals ↔
      name ∈ refs.signals ∨ name ∈ (walkPath scope token {}).signals := by
  cases token with
  | none => simp only [walkPath, List.not_mem_nil, or_false]
  | some token =>
      simp only [walkPath]
      split_ifs
      · simp only [List.not_mem_nil, or_false]
      · simp only [List.not_mem_nil, or_false]
      · simp only [mem_pushOnce, List.not_mem_nil, false_or]
      · simp only [List.not_mem_nil, or_false]
      · simp only [List.not_mem_nil, or_false]

theorem signals_walkRefs_iff (expr : Expr) (refs : ExprRefs) :
    name ∈ (walkRefs scope expr refs).signals ↔
      name ∈ refs.signals ∨ name ∈ (collectRefs expr scope).signals := by
  unfold collectRefs
  induction expr generalizing refs with
  | missing | literal _ _ => simp only [walkRefs, List.not_mem_nil, or_false]
  | paren _ inner ih | prefixed _ _ inner ih => exact ih refs
  | path _ token => exact signals_walkPath_iff token refs
  | member _ base token ih =>
      simp only [walkRefs]
      split_ifs
      · split <;> simp only [List.not_mem_nil, or_false]
      · exact ih refs
  | binary _ lhs _ rhs ihl ihr =>
      simp only [walkRefs]
      rw [ihr, ihl, ihr (walkRefs scope lhs {}), or_assoc]

theorem signals_enumTypeHead {base : Expr} {declared : EnumDecl}
    (h : enumTypeHead base scope = some declared) : (collectRefs base scope).signals = [] := by
  rcases enumTypeHead_eq_some h with ⟨range, token, rfl, hparam, hsignal, hconst, -⟩
  have hcontains : scope.vocabulary.consts.contains token.text = false := by
    rw [Std.ExtTreeMap.contains_eq_isSome_getElem?, hconst, Option.isSome_none]
  simp only [collectRefs, walkRefs, walkPath, hparam, hsignal, hcontains, Option.isSome_none,
    Bool.false_eq_true, if_false]
  split_ifs <;> rfl

theorem signals_of_sub {sub expr : Expr} (h : Expr.Sub sub expr)
    (hname : name ∈ (collectRefs sub scope).signals) :
    name ∈ (collectRefs expr scope).signals := by
  induction h with
  | refl => exact hname
  | paren _ _ ih | prefixed _ _ _ ih => exact ih hname
  | @lhs range op sub lhs rhs _ ih => exact signals_walkRefs rhs (walkRefs scope lhs {}) (ih hname)
  | @rhs range op sub lhs rhs _ ih =>
      exact (signals_walkRefs_iff rhs (walkRefs scope lhs {})).mpr (.inr (ih hname))
  | @member range token sub base _ ih =>
      have hbase := ih hname
      unfold collectRefs
      simp only [walkRefs]
      split_ifs with haccess
      · -- An enum member access has a head that reads nothing.
        rcases Option.isSome_iff_exists.mp (Bool.and_eq_true_iff.mp haccess).2 with
          ⟨declared, hhead⟩
        rw [signals_enumTypeHead hhead] at hbase
        cases hbase
      · exact hbase

end Reads

end Contract

end Ridl
