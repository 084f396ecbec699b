import Ridl.Contract.Environment

/-!
# Contract Type Soundness

A clause that the checker accepts does not go wrong: in an environment that binds
what the scope declares, it has a boolean value or divides by zero, and each
expression in it has a value of the type that the checker inferred.

There is one exception. The evaluator takes `result` on the left of a dot to be
the query result, in a `require` too, where there is none. The checker asks
whether a value shadows the name of an enum, and does not count `result` among
the values. So an enum that is bound under the name `result` is accepted where
the evaluator does not find it.

## Theorems

* `eval_types`: Progress and preservation, by induction over the expression.
* `contract_sound`: The checker is sound where `result` is unambiguous, and
  nowhere else.
-/

namespace Ridl

namespace Contract

open Ridl.Syntax Ridl.Library

/-! ### One step of the evaluation -/

section Steps

variable {env : EvalEnv} {range : TextRange} {depth : Nat}

theorem eval_paren {inner : Expr} (hdepth : ¬ MAX_DEPTH < depth) (hinner : inner ≠ .missing) :
    eval env (.paren range inner) depth = eval env inner (depth + 1) := by
  rw [eval.eq_def, if_neg hdepth]
  cases inner with
  | missing => exact absurd rfl hinner
  | _ => rfl

theorem eval_prefixed {token : Token} {operand : Expr} (hdepth : ¬ MAX_DEPTH < depth)
    (hoperand : operand ≠ .missing) :
    eval env (.prefixed range (some token) operand) depth =
      (eval env operand (depth + 1) >>= evalPrefix token) := by
  rw [eval.eq_def, if_neg hdepth]
  cases operand with
  | missing => exact absurd rfl hoperand
  | _ => rfl

theorem eval_member {base : Expr} {token : Token} (hdepth : ¬ MAX_DEPTH < depth)
    (hbase : base ≠ .missing) :
    eval env (.member range base (some token)) depth =
      match dottedName base token.text env with
      | some value => .ok value
      | none => eval env base (depth + 1) >>= evalField token.text := by
  rw [eval.eq_def, if_neg hdepth]
  cases base with
  | missing => exact absurd rfl hbase
  | _ => rfl

section Binary

variable {lhs rhs : Expr} {token : Token} (hdepth : ¬ MAX_DEPTH < depth)
  (hlhs : lhs ≠ .missing) (hrhs : rhs ≠ .missing)

include hdepth hlhs hrhs

theorem eval_binary :
    eval env (.binary range lhs (some token) rhs) depth =
      if isShortCircuit token.kind then
        (do
          let left ← expectBool token.text (← eval env lhs (depth + 1))
          if left = (token.kind = .pipePipe : Bool) then return .bool left
          let right ← expectBool token.text (← eval env rhs (depth + 1))
          return .bool right)
      else
        eval env lhs (depth + 1) >>= fun left =>
          eval env rhs (depth + 1) >>= evalOperator token left := by
  rw [eval.eq_def, if_neg hdepth]
  cases lhs with
  | missing => exact absurd rfl hlhs
  | _ =>
      cases rhs with
      | missing => exact absurd rfl hrhs
      | _ => rfl

theorem eval_binary_decided {held : Bool} (hshort : isShortCircuit token.kind = true)
    (heval : eval env lhs (depth + 1) = .ok (.bool held))
    (hheld : held = (token.kind = .pipePipe : Bool)) :
    eval env (.binary range lhs (some token) rhs) depth = .ok (.bool held) := by
  rw [eval_binary hdepth hlhs hrhs, if_pos hshort, heval]
  simp only [bind, Except.bind, expectBool, hheld, if_true, pure, Except.pure]

theorem eval_binary_undecided {held : Bool} (hshort : isShortCircuit token.kind = true)
    (heval : eval env lhs (depth + 1) = .ok (.bool held))
    (hheld : held ≠ (token.kind = .pipePipe : Bool)) :
    eval env (.binary range lhs (some token) rhs) depth =
      (eval env rhs (depth + 1) >>= fun value => expectBool token.text value >>= fun right =>
        .ok (.bool right)) := by
  rw [eval_binary hdepth hlhs hrhs, if_pos hshort, heval]
  simp only [bind, Except.bind, expectBool, hheld, if_false, pure, Except.pure]

end Binary

end Steps

/-! ### Progress and preservation -/

/-- If `result` is the name of an enum, then each member that can be named is
    also a field of the query result, of the type of the enum. -/
def ContractScope.Unambiguous (scope : ContractScope) : Prop :=
  ∀ range (token : Token) declared, token.text = "result" →
    enumTypeHead (.path range (some token)) scope = some declared →
      ∀ member ∈ declared.members, isScreamingSnake member = true →
        ∃ encoded, scope.result = some (.tuple encoded) ∧
          ExprType.tupleField encoded member = some (.enumType declared.reference)


section Eval

variable {scope : ContractScope} {env : EvalEnv}

/-- A name evaluates to a value of the type that it resolves to. -/
theorem evalPath_types (hmatches : env.Matches scope) {token : Token} {type : ExprType}
    (hresolves : Resolves scope token.text type) (hsupported : type.IsSupported)
    (hsignal : lookup scope.params token.text = none → token.text ≠ "result" →
      lookup scope.signals token.text = some type → BindsSignal scope env token.text) :
    Types type (evalPath (some token) env) := by
  cases hresolves with
  | param hparam =>
      rcases hmatches.params _ _ hparam hsupported with ⟨value, hvalue, htype⟩
      simp only [evalPath, hvalue]
      exact Yields.pure htype
  | result hparam hname hresult =>
      rcases hmatches.result _ hresult hsupported with ⟨value, hvalue, htype⟩
      have hother : lookup env.params "result" = none := hname ▸ hmatches.others _ hparam
      simp only [evalPath, hname, hother, hvalue, if_true]
      exact Yields.pure htype
  | signal hparam hname hheld =>
      rcases hsignal hparam hname hheld _ hheld hsupported with ⟨value, hvalue, htype⟩
      simp only [evalPath, hmatches.others _ hparam, hname, hvalue, if_false]
      exact Yields.pure htype
  | const hparam hname hnone hconst =>
      rcases hmatches.consts _ _ hconst hnone hsupported with ⟨value, hvalue, htype⟩
      simp only [evalPath, hmatches.others _ hparam, hname, hvalue, if_false]
      exact Yields.pure htype

theorem evalField_types {value : Value} {encoded name : String} {type : ExprType}
    (hvalue : HasType value (.tuple encoded))
    (hfield : ExprType.tupleField encoded name = some type) (hsupported : type.IsSupported) :
    Types type (evalField name value) := by
  rcases hvalue with ⟨fields, rfl, hfields⟩
  rcases hfields name type hfield hsupported with ⟨held, hheld, hdomain⟩
  simp only [evalField, hheld]
  exact Yields.pure hdomain.hasType

/-- No dotted name stands for a field of a tuple. -/
theorem dottedName_of_tuple (hlow : scope.Lowered) (hmatches : env.Matches scope)
    {base : Expr} {encoded : String} (h : (infer scope base).1 = some (.tuple encoded))
    (name : String) : dottedName base name env = none := by
  cases base with
  | path range token =>
      rcases inferPath_eq_some h with ⟨found, rfl, hresolves, hsupported⟩
      have hshadowed : ((lookup env.params found.text).isSome || found.text == "result") = true := by
        cases hresolves with
        | param hparam =>
            rcases hmatches.params _ _ hparam hsupported with ⟨value, hvalue, -⟩
            rw [hvalue, Option.isSome_some, Bool.true_or]
        | result hparam hname =>
            rw [hname, beq_self_eq_true, Bool.or_true]
        | signal hparam hname hheld => exact absurd rfl ((hlow.signals _ _ hheld).2 encoded)
        | const hparam hname hnone hconst => exact absurd rfl ((hlow.consts _ _ hconst).2 encoded)
      simp only [dottedName, hshadowed, if_true]
  | _ => rfl

/-- The member of an enum that the checker found is bound, under its dotted name
    or as a field of the query result. -/
theorem evalMember_types (hunamb : scope.Unambiguous) (hmatches : env.Matches scope)
    {base : Expr} {declared : EnumDecl} {token : Token} {depth : Nat}
    (hdepth : depth < MAX_DEPTH) (hhead : enumTypeHead base scope = some declared)
    (hscreaming : isScreamingSnake token.text = true) (hmem : token.text ∈ declared.members) :
    Types (.enumType declared.reference) (match dottedName base token.text env with
      | some value => .ok value
      | none => eval env base (depth + 1) >>= evalField token.text) := by
  rcases enumTypeHead_eq_some hhead with ⟨range, head, rfl, hparam, hsignal, hconst, henum⟩
  by_cases hresult : head.text = "result"
  · -- The evaluator takes the field of the query result.
    rcases hunamb range head declared hresult hhead _ hmem hscreaming with
      ⟨encoded, hscope, hfield⟩
    have hdotted : dottedName (.path range (some head)) token.text env = none := by
      simp only [dottedName, hresult, beq_self_eq_true, Bool.or_true, if_true]
    rcases hmatches.result _ hscope nofun with ⟨value, hvalue, htype⟩
    have heval : eval env (.path range (some head)) (depth + 1) = .ok value := by
      have hother : lookup env.params "result" = none := hresult ▸ hmatches.others _ hparam
      rw [eval, if_neg (by omega)]
      simp only [evalPath, hresult, hother, hvalue, if_true]
    rw [hdotted, heval]
    exact evalField_types htype hfield nofun
  · rcases hmatches.members _ _ henum _ hmem with ⟨value, hvalue⟩
    have hdotted : dottedName (.path range (some head)) token.text env =
        some (.enumVal declared.reference value) := by
      simp only [dottedName, hmatches.others _ hparam, hresult, hvalue, Option.isSome_none,
        Bool.false_or, beq_iff_eq, if_false]
    rw [hdotted]
    exact Yields.pure rfl

theorem eval_types (hlow : scope.Lowered) (hunamb : scope.Unambiguous)
    (hmatches : env.Matches scope) (expr : Expr) (depth : Nat) (refs : ExprRefs)
    (type : ExprType) (hdepth : depth + expr.height ≤ MAX_DEPTH + 1) (hspelled : expr.Spelled)
    (hinfer : (infer scope expr).1 = some type)
    (hsignals : ∀ name ∈ (walkRefs scope expr refs).signals, BindsSignal scope env name) :
    Types type (eval env expr depth) := by
  have hfits : 0 < expr.height → ¬ MAX_DEPTH < depth := fun h => by omega
  induction expr generalizing depth refs type with
  | missing => cases hinfer
  | literal range token =>
      rw [eval.eq_def, if_neg (hfits Nat.one_pos)]
      exact evalLiteral_types hspelled hinfer
  | paren range inner ih =>
      have hinner : (infer scope inner).1 = some type := hinfer
      rw [eval_paren (hfits (Nat.succ_pos _)) (ne_missing_of_infer hinner)]
      simp only [Expr.height] at hdepth
      exact ih (depth + 1) refs type (by omega) hspelled hinfer hsignals (fun h => by omega)
  | path range token =>
      rcases inferPath_eq_some hinfer with ⟨found, rfl, hresolves, hsupported⟩
      rw [eval.eq_def, if_neg (hfits Nat.one_pos)]
      exact evalPath_types hmatches hresolves hsupported (fun hparam hname hheld =>
        hsignals _ (mem_signals_walkPath refs hparam hname hheld))
  | prefixed range op operand ih =>
      rcases inferPrefix_eq_some hinfer with ⟨token, found, rfl, hfound⟩
      rw [eval_prefixed (hfits (Nat.succ_pos _)) (ne_missing_of_infer hfound)]
      simp only [Expr.height] at hdepth
      have hoperand := ih (depth + 1) refs found (by omega) hspelled hfound hsignals
        (fun h => by omega)
      refine hoperand.bind (fun value hvalue => evalPrefix_types hinfer (fun other hother => ?_))
      rw [hfound] at hother
      exact Option.some.inj hother ▸ hvalue
  | member range base name ih =>
      rcases inferMember_eq_some hinfer with ⟨hbase, token, rfl,
        ⟨hscreaming, declared, hhead, hmem, rfl⟩ | ⟨hscreaming, encoded, hencoded, hfield, hsupported⟩⟩
      · rw [eval_member (hfits (Nat.succ_pos _)) hbase]
        have hheight : 0 < base.height := by
          rcases enumTypeHead_eq_some hhead with ⟨_, _, rfl, -⟩
          exact Nat.one_pos
        have hlt : depth < MAX_DEPTH := by
          simp only [Expr.height] at hdepth
          omega
        exact evalMember_types hunamb hmatches hlt hhead hscreaming hmem
      · rw [eval_member (hfits (Nat.succ_pos _)) hbase, dottedName_of_tuple hlow hmatches hencoded]
        simp only [Expr.height] at hdepth
        have hreads : ∀ name ∈ (walkRefs scope base refs).signals, BindsSignal scope env name := by
          intro other hother
          refine hsignals other ?_
          simp only [walkRefs, isEnumAccess, Option.any_some, hscreaming, Bool.false_and,
            Bool.false_eq_true, if_false]
          exact hother
        have hvalue := ih (depth + 1) refs _ (by omega) hspelled hencoded hreads
          (fun h => by omega)
        exact hvalue.bind (fun value hheld => evalField_types hheld hfield hsupported)
  | binary range lhs op rhs ihl ihr =>
      rcases inferBinary_eq_some hinfer with ⟨token, left, right, rfl, hleft, hright, hoperator⟩
      simp only [Expr.height] at hdepth
      have hl := ihl (depth + 1) refs left (by omega) hspelled.1 hleft
        (fun name hname => hsignals name (signals_walkRefs rhs _ hname)) (fun h => by omega)
      have hr := ihr (depth + 1) _ right (by omega) hspelled.2 hright hsignals
        (fun h => by omega)
      rw [eval_binary (hfits (Nat.succ_pos _)) (ne_missing_of_infer hleft)
        (ne_missing_of_infer hright)]
      cases hshort : isShortCircuit token.kind with
      | true =>
          rcases inferOperator_connective hshort hoperator with ⟨rfl, rfl, rfl⟩
          rw [if_pos rfl]
          refine hl.bind (fun value hvalue => ?_)
          rcases hasType_boolean hvalue with ⟨held, rfl⟩
          refine Yields.bind (P := fun _ => True) (Yields.pure trivial) (fun held _ => ?_)
          split_ifs
          · exact Yields.pure trivial
          · refine hr.bind (fun value hvalue => ?_)
            rcases hasType_boolean hvalue with ⟨other, rfl⟩
            exact Yields.pure trivial
      | false =>
          rw [if_neg Bool.false_ne_true]
          exact hl.bind (fun l htypel => hr.bind (fun r htyper =>
            evalOperator_types hshort hoperator htypel htyper))

end Eval

/-! ### Clauses -/

/-- The checker finds a boolean clause and reports no error. -/
def Accepts (scope : ContractScope) (expr : Expr) : Prop :=
  (checkContractExpr expr scope).1 = some .boolean ∧
    ∀ diagnostic ∈ (checkContractExpr expr scope).2, diagnostic.severity ≠ .error

/-- The clause has a boolean value or divides by zero, and each expression in it
    has a value of the type that was inferred for it or divides by zero. -/
structure SoundIn (scope : ContractScope) (expr : Expr) (env : EvalEnv) : Prop where
  clause : Yields (fun value => ∃ held, value = .bool held) (evalExpr expr env)
  parts : ∀ sub type, Expr.Sub sub expr → (infer scope sub).1 = some type →
    Types type (evalExpr sub env)

section Clauses

variable {scope : ContractScope}

theorem infer_of_check {expr : Expr} (h : (checkContractExpr expr scope).1 = some .boolean) :
    (infer scope expr).1 = some .boolean := by
  unfold checkContractExpr at h
  dsimp only at h
  split at h
  next htype => exact htype
  next => cases h
  next => cases h

/-- Where `result` is unambiguous, what the checker accepts is sound. -/
theorem soundIn_of_unambiguous (hlow : scope.Lowered) (hunamb : scope.Unambiguous) {expr : Expr}
    (haccepts : Accepts scope expr) (hspelled : expr.Spelled)
    (hheight : expr.height ≤ MAX_TYPE_DEPTH) {env : EvalEnv} (hmatches : env.Matches scope)
    (hsignals : BindsSignals scope env expr) : SoundIn scope expr env := by
  have hparts : ∀ sub type, Expr.Sub sub expr → (infer scope sub).1 = some type →
      Types type (evalExpr sub env) := by
    intro sub type hsub hinfer
    have hle := hsub.height_le
    have hfits : 0 + sub.height ≤ MAX_DEPTH + 1 := by
      unfold MAX_TYPE_DEPTH at hheight
      unfold MAX_DEPTH
      omega
    exact eval_types hlow hunamb hmatches sub 0 {} type hfits (hsub.spelled hspelled) hinfer
      (fun name hname => hsignals name (signals_of_sub hsub hname))
  refine ⟨?_, hparts⟩
  rcases hparts expr .boolean (.refl expr) (infer_of_check haccepts.1) with
    ⟨value, hvalue, htype⟩ | hzero
  · exact .inl ⟨value, hvalue, hasType_boolean htype⟩
  · exact .inr hzero

/-- A member of an enum that is named `result`. -/
def resultMember (range : TextRange) (token : Token) (member : String) : Expr :=
  .member range (.path range (some token)) (some ⟨.ident, member, range⟩)

/-- A member of an enum, compared with itself. -/
def sameMember (range : TextRange) (token : Token) (member : String) : Expr :=
  .binary range (resultMember range token member) (some ⟨.eqEq, "==", range⟩)
    (resultMember range token member)

section Member

variable {range : TextRange} {token : Token} {declared : EnumDecl} {member : String}

theorem infer_resultMember (hhead : enumTypeHead (.path range (some token)) scope = some declared)
    (hmem : member ∈ declared.members) (hscreaming : isScreamingSnake member = true) :
    infer scope (resultMember range token member) = (some (.enumType declared.reference), []) := by
  have hcamel : isCamelCase member = false := by
    unfold isScreamingSnake at hscreaming
    rw [Bool.and_eq_true, Bool.not_eq_true'] at hscreaming
    rw [isCamelCase, hscreaming.2, Bool.and_false]
  have hhas : declared.hasMember member = true :=
    List.any_eq_true.mpr ⟨member, hmem, beq_self_eq_true member⟩
  simp only [resultMember, infer, inferMember, hcamel, hscreaming, hhead, hhas,
    Bool.false_eq_true, if_false, if_true]

theorem accepts_sameMember (hhead : enumTypeHead (.path range (some token)) scope = some declared)
    (hmem : member ∈ declared.members) (hscreaming : isScreamingSnake member = true) :
    Accepts scope (sameMember range token member) := by
  have hinfer : infer scope (sameMember range token member) = (some .boolean, []) := by
    simp only [sameMember, infer, infer_resultMember hhead hmem hscreaming, inferBinary,
      inferOperator, unifies, decide_true, if_true, List.append_nil]
  unfold Accepts checkContractExpr
  rw [hinfer]
  dsimp only
  split_ifs
  · refine ⟨rfl, fun diagnostic hdiagnostic => ?_⟩
    rw [List.nil_append, List.mem_singleton] at hdiagnostic
    rw [hdiagnostic]
    exact Severity.noConfusion
  · exact ⟨rfl, fun _ hdiagnostic => absurd hdiagnostic List.not_mem_nil⟩

theorem bindsSignals_sameMember
    (hhead : enumTypeHead (.path range (some token)) scope = some declared)
    (hscreaming : isScreamingSnake member = true) (env : EvalEnv) :
    BindsSignals scope env (sameMember range token member) := by
  intro name hname
  simp only [collectRefs, sameMember, resultMember, walkRefs, isEnumAccess, Option.any_some,
    hscreaming, hhead, Option.isSome_some, Bool.and_self, if_true, List.not_mem_nil] at hname

/-- The evaluator finds the member only as a field of the query result. -/
theorem unambiguous_of_eval
    (hhead : enumTypeHead (.path range (some token)) scope = some declared)
    (hresult : token.text = "result")
    (h : Types (.enumType declared.reference)
      (evalExpr (resultMember range token member) (someEnv scope))) :
    ∃ encoded, scope.result = some (.tuple encoded) ∧
      ExprType.tupleField encoded member = some (.enumType declared.reference) := by
  rcases enumTypeHead_eq_some hhead with ⟨_, _, hpath, hparam, -, -, -⟩
  injection hpath with _ htoken
  obtain rfl := Option.some.inj htoken
  have hother : lookup (someEnv scope).params "result" = none := by
    rw [someEnv, lookup_map, ← hresult, hparam, Option.map_none]
  have hdotted : dottedName (.path range (some token)) member (someEnv scope) = none := by
    simp only [dottedName, hresult, beq_self_eq_true, Bool.or_true, if_true]
  have heval : evalExpr (resultMember range token member) (someEnv scope) =
      (evalPath (some token) (someEnv scope) >>= evalField member) := by
    have hbase : Expr.path range (some token) ≠ .missing := Expr.noConfusion
    have hpath : eval (someEnv scope) (.path range (some token)) 1 =
        evalPath (some token) (someEnv scope) := by
      rw [eval.eq_def, if_neg (by decide)]
    rw [evalExpr, resultMember, eval_member (Nat.not_lt_zero _) hbase, hdotted]
    dsimp only
    rw [hpath]
  have hpathEval : evalPath (some token) (someEnv scope) =
      scope.result.elim (.error (.unboundRef "result")) (fun type => .ok type.someValue) := by
    simp only [evalPath, hresult, hother, if_true]
    cases hscope : scope.result with
    | none => simp only [someEnv, hscope, Option.map_none, Option.elim_none]
    | some type => simp only [someEnv, hscope, Option.map_some, Option.elim_some]
  rw [heval, hpathEval] at h
  cases hscope : scope.result with
  | none =>
      rw [hscope] at h
      rcases h with ⟨value, hvalue, -⟩ | hzero
      · cases hvalue
      · cases hzero
  | some type =>
      rw [hscope] at h
      cases type with
      | tuple encoded =>
          refine ⟨encoded, rfl, ?_⟩
          simp only [bind, Except.bind, Option.elim_some, ExprType.someValue, evalField,
            lookup_someValue] at h
          cases hfield : ExprType.tupleField encoded member with
          | none =>
              rw [hfield] at h
              rcases h with ⟨value, hvalue, -⟩ | hzero
              · cases hvalue
              · cases hzero
          | some field =>
              rw [hfield] at h
              rcases h with ⟨value, hvalue, htype⟩ | hzero
              · cases hvalue
                cases field with
                | enumType reference => rw [show reference = declared.reference from htype]
                | _ => exact htype.elim
              · cases hzero
      | _ =>
          rcases h with ⟨value, hvalue, -⟩ | hzero
          · cases hvalue
          · cases hzero

end Member

end Clauses

/-- The checker is sound exactly where `result` is unambiguous: every clause that
    it accepts, with its literals spelled as the lexer spells them and not higher
    than the parser builds trees, has a boolean value or divides by zero in every
    environment that binds what the scope declares and what the clause reads, and
    its parts have values of their types. In any scope, the right operand of a
    connective is left alone where the left one decides. -/
theorem contract_sound (scope : ContractScope) (hlow : scope.Lowered) :
    ((∀ expr, Accepts scope expr → expr.Spelled → expr.height ≤ MAX_TYPE_DEPTH →
        ∀ env : EvalEnv, env.Matches scope → BindsSignals scope env expr →
          SoundIn scope expr env) ↔ scope.Unambiguous) ∧
      ∀ (env : EvalEnv) (range : TextRange) (token : Token) (lhs rhs : Expr) (depth : Nat)
        (held : Bool), depth ≤ MAX_DEPTH → lhs ≠ .missing → rhs ≠ .missing →
        isShortCircuit token.kind = true → eval env lhs (depth + 1) = .ok (.bool held) →
          eval env (.binary range lhs (some token) rhs) depth =
            if held = (token.kind = .pipePipe : Bool) then .ok (.bool held)
            else eval env rhs (depth + 1) >>= fun value =>
              expectBool token.text value >>= fun right => .ok (.bool right) := by
  refine ⟨⟨fun h => ?_, fun hunamb => ?_⟩, ?_⟩
  · intro range token declared hresult hhead member hmem hscreaming
    have hheight : (sameMember range token member).height ≤ MAX_TYPE_DEPTH :=
      show 3 ≤ MAX_TYPE_DEPTH by decide
    have hsound := h (sameMember range token member) (accepts_sameMember hhead hmem hscreaming)
      ⟨trivial, trivial⟩ hheight (someEnv scope) (matches_someEnv hlow)
      (bindsSignals_sameMember hhead hscreaming _)
    exact unambiguous_of_eval hhead hresult (hsound.parts _ _ (.lhs _ _ (.refl _))
      (congrArg Prod.fst (infer_resultMember hhead hmem hscreaming)))
  · intro expr haccepts hspelled hheight env hmatches hsignals
    exact soundIn_of_unambiguous hlow hunamb haccepts hspelled hheight hmatches hsignals
  · intro env range token lhs rhs depth held hdepth hlhs hrhs hshort heval
    by_cases hheld : held = (token.kind = .pipePipe : Bool)
    · rw [if_pos hheld]
      exact eval_binary_decided (Nat.not_lt.mpr hdepth) hlhs hrhs hshort heval hheld
    · rw [if_neg hheld]
      exact eval_binary_undecided (Nat.not_lt.mpr hdepth) hlhs hrhs hshort heval hheld

/-- A name in a clause. -/
def nameToken (text : String) : Token := ⟨.ident, text, ⟨0, 0⟩⟩

/-- A `require` in a package that declares `enum result` with the member `OK`. -/
def resultScope : ContractScope :=
  { params := [], result := none, signals := []
    resolution := ({} : OrdMap String SymbolKind).insert "result" .enum
    vocabulary :=
      { consts := {}
        enums := ({} : OrdMap String EnumDecl).insert "result" ⟨"p.result", ["OK"]⟩ } }

theorem lowered_resultScope : resultScope.Lowered := by
  refine ⟨nofun, fun name type h => ?_, fun name decl h => ?_⟩
  · simp only [resultScope, Std.ExtTreeMap.getElem?_empty, reduceCtorEq] at h
  · simp only [resultScope, OrdMap.getElem?_insert, Std.ExtTreeMap.getElem?_empty] at h
    split_ifs at h with hname
    rw [← hname]
    decide

/-- The checker accepts `result.OK == result.OK`, and the evaluator finds no
    `result` in an environment where each member of the enum is bound. -/
theorem resultScope_goes_wrong :
    resultScope.Lowered ∧
      Accepts resultScope (sameMember ⟨0, 0⟩ (nameToken "result") "OK") ∧
      (someEnv resultScope).Matches resultScope ∧
      BindsSignals resultScope (someEnv resultScope)
        (sameMember ⟨0, 0⟩ (nameToken "result") "OK") ∧
      evalExpr (sameMember ⟨0, 0⟩ (nameToken "result") "OK") (someEnv resultScope) =
        .error (.unboundRef "result") := by
  have hhead : enumTypeHead (.path ⟨0, 0⟩ (some (nameToken "result"))) resultScope =
      some ⟨"p.result", ["OK"]⟩ := by decide +kernel
  exact ⟨lowered_resultScope, accepts_sameMember hhead (by decide) (by decide),
    matches_someEnv lowered_resultScope, bindsSignals_sameMember hhead (by decide) _, by rfl⟩

/-- A `require` on a command with one integer parameter. -/
def countScope : ContractScope :=
  { params := [("count", .numeric "p.Count" .integer)], result := none, signals := []
    resolution := {}, vocabulary := { consts := {}, enums := {} } }

def numberToken (text : String) : Token := ⟨.intNumber, text, ⟨0, 0⟩⟩

def operator (kind : SyntaxKind) (text : String) (lhs rhs : Expr) : Expr :=
  .binary ⟨0, 0⟩ lhs (some ⟨kind, text, ⟨0, 0⟩⟩) rhs

/-- `count != 0 && 10 / count > 2`. -/
def guardedClause : Expr :=
  let count : Expr := .path ⟨0, 0⟩ (some (nameToken "count"))
  let number (text : String) : Expr := .literal ⟨0, 0⟩ (some (numberToken text))
  operator .ampAmp "&&" (operator .neq "!=" count (number "0"))
    (operator .gt ">" (operator .slash "/" (number "10") count) (number "2"))

/-- The guard keeps the division from being evaluated where the count is zero. -/
theorem contract_sound_guarded :
    (∀ env : EvalEnv, env.Matches countScope → BindsSignals countScope env guardedClause →
      SoundIn countScope guardedClause env) ∧
      evalExpr guardedClause (someEnv countScope) = .ok (.bool false) := by
  have hlow : countScope.Lowered := by
    refine ⟨nofun, fun name type h => ?_, fun name decl h => ?_⟩ <;>
      simp only [countScope, Std.ExtTreeMap.getElem?_empty, reduceCtorEq] at h
  have hunamb : countScope.Unambiguous := by
    intro range token declared _ hhead
    rcases enumTypeHead_eq_some hhead with ⟨_, _, -, -, -, -, henum⟩
    simp only [countScope, Std.ExtTreeMap.getElem?_empty, reduceCtorEq] at henum
  have haccepts : Accepts countScope guardedClause := by
    have hcheck : checkContractExpr guardedClause countScope = (some .boolean, []) := by
      decide +kernel
    rw [Accepts, hcheck]
    exact ⟨rfl, nofun⟩
  have hspelled : guardedClause.Spelled := by
    have hdigits : ∀ text ∈ ["0", "10", "2"], IsInteger text.toList := by
      intro text htext
      simp only [List.mem_cons, List.not_mem_nil, or_false] at htext
      rcases htext with rfl | rfl | rfl <;> exact ⟨by decide, List.all_eq_true.1 (by decide)⟩
    have hnumber : ∀ text ∈ ["0", "10", "2"], ∀ t ∈ some (numberToken text), t.Spelled := by
      rintro text htext t ⟨⟩
      exact hdigits text htext
    exact ⟨⟨trivial, hnumber "0" (by decide)⟩, ⟨hnumber "10" (by decide), trivial⟩,
      hnumber "2" (by decide)⟩
  refine ⟨fun env hmatches hsignals => ?_, ?_⟩
  · exact (contract_sound countScope hlow).1.mpr hunamb guardedClause haccepts hspelled
      (by decide) env hmatches hsignals
  · rfl

end Contract

end Ridl
