import Ridl.Contract.ClauseText
import Ridl.Contract.Sound
import Ridl.Library.Fallible
import Mathlib.Data.Rat.Floor

/-!
# Translated Clauses

The value of a translated clause is that of its comparison, for the name that it
compares. What the name is bound to is looked up among the parameters first, by
evaluation and by the checker, but by translation only after `result`. So a clause
over a parameter named `result` is translated as one over the reply, or refused
where there is none, and every other clause is translated faithfully.

## Main definitions

* `Interaction.Carries`: An environment with a value for the subject.
* `Interaction.Faithful`: The translation of a clause means what the clause means.
* `Interaction.Clashes`: A comparison of `result` where a parameter has that name.

## Theorems

* `evalExpr_compares`: The value of a comparison.
* `translate_eq_comparison`: What is translated.
* `clause_translation`: When translation is faithful.
-/

namespace Ridl

namespace Contract

open Ridl.Syntax
open Library (Text of_bind_eq_ok)

namespace Clauses

/-! ### The value of a comparison -/

section Values

variable {expr : Expr} {value : ExactValue}

theorem eval_bare (env : EvalEnv) (h : expr.Parsed) (depth : Nat)
    (hdepth : expr.height + depth ≤ MAX_DEPTH + 1) :
    ∃ depth', expr.bare.height + depth' ≤ MAX_DEPTH + 1 ∧
      eval env expr depth = eval env expr.bare depth' := by
  induction expr generalizing depth with
  | paren range inner ih =>
      have hinner : inner ≠ .missing := by
        rintro rfl
        exact h
      have hheight : inner.height + (depth + 1) ≤ MAX_DEPTH + 1 := by
        rw [Expr.height] at hdepth
        omega
      have hpos : 0 < inner.height := by
        cases inner with
        | missing => exact absurd rfl hinner
        | _ =>
            simp only [Expr.height]
            omega
      rcases ih h (depth + 1) hheight with ⟨depth', hfits, heq⟩
      refine ⟨depth', hfits, ?_⟩
      rw [eval_paren (by omega) hinner]
      exact heq
  | _ => exact ⟨depth, hdepth, rfl⟩

theorem eval_literal (env : EvalEnv) {range : TextRange} {token : Token} {depth : Nat}
    (hdepth : ¬ MAX_DEPTH < depth)
    (hkind : token.kind = .intNumber ∨ token.kind = .floatNumber)
    (hvalue : ExactValue.parse token.text.toList = some value) :
    ∃ backing, eval env (.literal range (some token)) depth = .ok (.num value backing) := by
  rw [eval.eq_def, if_neg hdepth]
  dsimp only
  rcases hkind with hkind | hkind <;> simp only [evalLiteral, hkind, hvalue]
  · exact ⟨.integer, rfl⟩
  · exact ⟨.float, rfl⟩

theorem eval_numeral (env : EvalEnv) (h : expr.Parsed) {negated : Bool}
    {literal : Token} (hnumeral : expr.IsNumeral negated literal)
    (hvalue : ExactValue.parse literal.text.toList = some value) {depth : Nat}
    (hdepth : expr.height + depth ≤ MAX_DEPTH + 1) :
    ∃ backing, eval env expr depth =
      .ok (.num (if negated then -value else value) backing) := by
  rcases eval_bare env h depth hdepth with ⟨depth', hfits, heq⟩
  rw [heq]
  have hparsed := h.bare
  cases negated with
  | false =>
      rcases hnumeral.2 with ⟨range, hbare⟩
      rw [hbare] at hfits ⊢
      rw [Expr.height] at hfits
      exact eval_literal env (by omega) hnumeral.1 hvalue
  | true =>
      rcases hnumeral.2 with ⟨range, op, operand, inner, hbare, hop, hoperand⟩
      rw [hbare] at hfits hparsed ⊢
      rw [Expr.height] at hfits
      rcases eval_bare env hparsed.2 (depth' + 1) (by omega) with ⟨depth'', hfits', heq'⟩
      rw [hoperand] at hfits' heq'
      rw [Expr.height] at hfits'
      have hinner : ∃ backing, eval env (.literal inner (some literal)) depth'' =
          .ok (.num value backing) := eval_literal env (by omega) hnumeral.1 hvalue
      rcases hinner with ⟨backing, hliteral⟩
      have hne : operand ≠ .missing := by
        rintro rfl
        exact hparsed.2
      refine ⟨backing, ?_⟩
      rw [eval_prefixed (by omega) hne, heq', hliteral]
      simp only [bind, Except.bind, evalPrefix, hop, if_true]

theorem evalOperator_compares {token : Token} {op : ComparisonOp}
    (hop : comparisonOf token.kind = some op) (left right : ExactValue)
    (leftBacking rightBacking : NumericBacking) :
    isShortCircuit token.kind = false ∧
      evalOperator token (.num left leftBacking) (.num right rightBacking) =
        .ok (.bool (op.holds left right)) := by
  unfold comparisonOf at hop
  split at hop
  next hkind =>
    cases hop
    exact ⟨by rw [hkind]; rfl, by simp only [evalOperator, hkind]; rfl⟩
  next hkind =>
    cases hop
    exact ⟨by rw [hkind]; rfl, by simp only [evalOperator, hkind]; rfl⟩
  next hkind =>
    cases hop
    refine ⟨by rw [hkind]; rfl, ?_⟩
    simp only [evalOperator, hkind, equality, bind, Except.bind, pure, Except.pure,
      ComparisonOp.holds]
    rfl
  next hkind =>
    cases hop
    refine ⟨by rw [hkind]; rfl, ?_⟩
    simp only [evalOperator, hkind, equality, bind, Except.bind, pure, Except.pure,
      ComparisonOp.holds, decide_not]
    rfl
  next hkind =>
    cases hop
    exact ⟨by rw [hkind]; rfl, by simp only [evalOperator, hkind]; rfl⟩
  next hkind =>
    cases hop
    exact ⟨by rw [hkind]; rfl, by simp only [evalOperator, hkind]; rfl⟩
  next => cases hop

theorem evalExpr_compares (h : expr.Parsed) (hheight : expr.height ≤ MAX_TYPE_DEPTH)
    {name literal : Token} {op : ComparisonOp} {negated : Bool}
    (hcompares : expr.Compares name op negated literal)
    (hvalue : ExactValue.parse literal.text.toList = some value) {env : EvalEnv}
    {left : ExactValue} {backing : NumericBacking}
    (hname : evalPath (some name) env = .ok (.num left backing)) :
    evalExpr expr env = .ok (.bool (op.holds left (if negated then -value else value))) := by
  rcases hcompares with ⟨range, lhs, symbol, rhs, inner, hbare, hop, hlhs, hnumeral⟩
  have hfits : expr.height + 0 ≤ MAX_DEPTH + 1 := by
    unfold MAX_TYPE_DEPTH at hheight
    unfold MAX_DEPTH
    omega
  rcases eval_bare env h 0 hfits with ⟨depth, hdepth, heq⟩
  have hparsed := h.bare
  rw [hbare] at hdepth heq hparsed
  rcases hparsed with ⟨hlhsParsed, -, hrhsParsed⟩
  rw [Expr.height] at hdepth
  rcases eval_bare env hlhsParsed (depth + 1) (by omega) with ⟨depth', hdepth', heq'⟩
  rw [hlhs] at hdepth' heq'
  rw [Expr.height] at hdepth'
  have hleft : eval env lhs (depth + 1) = .ok (.num left backing) := by
    rw [heq', eval.eq_def, if_neg (by omega)]
    exact hname
  have hrightFits : rhs.height + (depth + 1) ≤ MAX_DEPTH + 1 := by omega
  rcases eval_numeral env hrhsParsed hnumeral hvalue hrightFits with ⟨rightBacking, hright⟩
  have hoperator := evalOperator_compares hop left (if negated then -value else value) backing
    rightBacking
  have hne {operand : Expr} (hoperand : operand.Parsed) : operand ≠ .missing := by
    rintro rfl
    exact hoperand
  rw [evalExpr, heq, eval_binary (by omega) (hne hlhsParsed) (hne hrhsParsed),
    if_neg (by rw [hoperator.1]; exact Bool.false_ne_true), hleft, hright]
  exact hoperator.2

end Values

/-! ### Interactions -/

/-- An interaction as the generator and the checker see it: the packages that a
    reference is resolved in, the parameters, the name of the type of the reply, where
    the clause may speak of it, and what the clause may name. -/
structure Interaction where
  packages : Podbuf.Packages
  home : Diff.Package
  params : List Diff.Param
  replyNamed : Option String
  scope : ContractScope
  names : scope.params.map Prod.fst = params.map Diff.Param.name

/-- What the values of a numeric class are backed by. -/
def ScalarClass.backing : ScalarClass → NumericBacking
  | .integer => .integer
  | _ => .float

namespace Interaction

variable (I : Interaction)

def translation (clause : Expr) : Translation :=
  translate I.packages I.home (canonicalExprText clause) I.params I.replyNamed

/-- The environment has a value of its type for each parameter, and this one for the
    subject. -/
structure Carries (env : EvalEnv) (subject : Subject) (value : Value) : Prop where
  names : env.params.map Prod.fst = I.params.map Diff.Param.name
  typed : ∀ (name : String) type, lookup I.scope.params name = some type →
    Binds (lookup env.params name) type
  subject : (match subject with
    | .result => env.result
    | .param index => env.params[index]?.map Prod.snd) = some value

/-- The comparison of a value of the class with the exact value of the literal is the
    value of the clause, where the subject has that value. -/
def Means (clause : Expr) (comparison : Comparison) : Prop :=
  ∃ l : Literal, l.text = comparison.literal ∧
    ∀ value : ExactValue, (comparison.literalClass = .integer → value.den = 1) →
      ∀ env : EvalEnv,
        I.Carries env comparison.subject (.num value comparison.literalClass.backing) →
          evalExpr clause env = .ok (.bool (comparison.op.holds value l.value))

/-- The name is that of the one parameter, or `result` where there is a reply, and its
    type is a named scalar of the class. -/
def IsSubject (name : String) (scalar : ScalarClass) : Prop :=
  (∃ param named, I.params = [param] ∧ param.name = name ∧ paramNamedType param = some named ∧
      numericClass I.packages I.home named = some scalar) ∨
    name = "result" ∧ ∃ named, I.replyNamed = some named ∧
      numericClass I.packages I.home named = some scalar

/-- The clause is one comparison of this name, as a subject, with a number of its
    class. -/
def ComparesSubject (clause : Expr) (name : Token) : Prop :=
  ∃ op negated literal scalar, clause.Compares name op negated literal ∧
    I.IsSubject name.text scalar ∧ (literal.kind = .intNumber ∨ scalar = .float)

/-- A translated clause means what the clause means, and one comparison of a subject is
    translated. -/
structure Faithful (clause : Expr) : Prop where
  meaning : ∀ comparison, I.translation clause = .comparison comparison →
    I.Means clause comparison
  translated : ∀ name, I.ComparesSubject clause name →
    ∃ comparison, I.translation clause = .comparison comparison

/-- The clause compares `result`, which is the name of a parameter. -/
def Clashes (clause : Expr) : Prop :=
  "result" ∈ I.params.map Diff.Param.name ∧
    ∃ name, name.text = "result" ∧ I.ComparesSubject clause name

end Interaction

section Subjects

variable {I : Interaction} {clause : Expr}

variable {scalar : ScalarClass} {op : ComparisonOp} {subject : Subject} {name literal : Token}
  {negated : Bool}

theorem numericClass_eq_some {packages : Podbuf.Packages} {home : Diff.Package}
    {reference : String}
    (h : numericClass packages home reference = some scalar) :
    scalar = .integer ∨ scalar = .float := by
  unfold numericClass at h
  split at h
  · split at h
    · split at h
      · cases h
        exact .inl rfl
      · cases h
        exact .inr rfl
      · cases h
    · cases h
  · cases h

theorem orRefuse_eq_ok {α : Type} {found : Option α} {reason : String} {a : α}
    (h : orRefuse found reason = .ok a) : found = some a := by
  cases found with
  | none => cases h
  | some b =>
      cases h
      rfl

theorem compared_eq_ok {literal : Text} {reason : String} {comparison : Comparison}
    (h : compared op literal scalar subject reason = .ok comparison) :
    literalMatches literal scalar = true ∧ comparison = ⟨op, literal, scalar, subject⟩ := by
  unfold compared at h
  split_ifs at h with hmatches
  cases h
  exact ⟨hmatches, rfl⟩

/-- The subject of a translated clause, whose name `result` is that of the reply. -/
inductive Translates (I : Interaction) (name : String) (scalar : ScalarClass) : Subject → Prop
  | result (named : String) : name = "result" → I.replyNamed = some named →
      numericClass I.packages I.home named = some scalar → Translates I name scalar .result
  | param (param : Diff.Param) (named : String) : name ≠ "result" → I.params = [param] →
      param.name = name → paramNamedType param = some named →
      numericClass I.packages I.home named = some scalar → Translates I name scalar (.param 0)

theorem translate_eq_comparison {name : String} {literal : Text}
    (hparse : parse (canonicalExprText clause) = .ok (name.toList, op, literal))
    (comparison : Comparison) :
    I.translation clause = .comparison comparison ↔
      ∃ scalar subject, Translates I name scalar subject ∧
        literalMatches literal scalar = true ∧ comparison = ⟨op, literal, scalar, subject⟩ := by
  have hresult : name.toList = "result".toList ↔ name = "result" := String.toList_inj
  have haccepted : I.translation clause = .comparison comparison ↔
      translateAccepted I.packages I.home (canonicalExprText clause) I.params I.replyNamed =
        .ok comparison := by
    rw [Interaction.translation, translate]
    cases translateAccepted I.packages I.home (canonicalExprText clause) I.params I.replyNamed with
    | error reason => exact ⟨nofun, nofun⟩
    | ok found => rw [Translation.comparison.injEq, Except.ok.injEq]
  rw [haccepted, translateAccepted, hparse]
  constructor
  · intro h
    rcases of_bind_eq_ok h with ⟨parts, hparts, h⟩
    cases hparts
    dsimp only at h
    by_cases hname : name = "result"
    · rw [if_pos (hresult.mpr hname)] at h
      rcases of_bind_eq_ok h with ⟨named, hreply, h⟩
      rcases of_bind_eq_ok h with ⟨scalar, hclass, h⟩
      rcases compared_eq_ok h with ⟨hmatches, heq⟩
      exact ⟨scalar, .result, .result named hname (orRefuse_eq_ok hreply) (orRefuse_eq_ok hclass),
        hmatches, heq⟩
    · rw [if_neg (fun hsame => hname (hresult.mp hsame))] at h
      cases hparams : I.params with
      | nil =>
          rw [hparams] at h
          cases h
      | cons param others =>
          cases others with
          | cons other others =>
              rw [hparams] at h
              cases h
          | nil =>
              rw [hparams] at h
              dsimp only at h
              by_cases hparam : param.name = name
              · rw [if_neg (fun hnot => hnot (congrArg String.toList hparam))] at h
                rcases of_bind_eq_ok h with ⟨named, hnamed, h⟩
                rcases of_bind_eq_ok h with ⟨scalar, hclass, h⟩
                rcases compared_eq_ok h with ⟨hmatches, heq⟩
                exact ⟨scalar, .param 0, .param param named hname hparams hparam
                  (orRefuse_eq_ok hnamed) (orRefuse_eq_ok hclass), hmatches, heq⟩
              · rw [if_pos (fun hsame => hparam (String.toList_inj.mp hsame))] at h
                cases h
  · rintro ⟨scalar, subject, htranslates, hmatches, rfl⟩
    cases htranslates with
    | result named hname hreply hclass =>
        simp only [bind, Except.bind, hname, if_true, hreply, orRefuse, hclass, compared,
          hmatches]
    | param param named hname hparams hparam hnamed hclass =>
        simp only [bind, Except.bind, hresult, hname, if_false, hparams, hparam, hnamed, orRefuse,
          hclass, compared, hmatches, if_true, ne_eq, not_true_eq_false]

theorem parse_of_translation {comparison : Comparison}
    (h : I.translation clause = .comparison comparison) :
    ∃ parts, parse (canonicalExprText clause) = .ok parts := by
  rw [Interaction.translation, translate] at h
  split at h
  next found haccepted =>
    rcases of_bind_eq_ok haccepted with ⟨parts, hparts, -⟩
    exact ⟨parts, hparts⟩
  next => cases h

theorem exists_literal_of_compares (h : clause.Parsed)
    (hcompares : clause.Compares name op negated literal) :
    ∃ l : Literal, ∃ value, l.text = numeralText negated literal ∧
      (l.frac = [] ↔ literal.kind = .intNumber) ∧
      ExactValue.parse literal.text.toList = some value ∧
      l.value = if negated then -value else value := by
  rcases hcompares with ⟨range, lhs, symbol, rhs, inner, hbare, -, -, hnumeral⟩
  have hparsed := h.bare
  rw [hbare] at hparsed
  rcases exists_literal_of_numeral hparsed.2.2 hnumeral with
    ⟨l, value, htext, hfrac, hvalue, hl, -⟩
  exact ⟨l, value, htext, hfrac, hvalue, hl⟩

theorem lookup_eq_none {bindings : List (String × Value)} {name : String}
    (h : name ∉ bindings.map Prod.fst) : lookup bindings name = none := by
  rw [lookup, Option.map_eq_none_iff, List.find?_eq_none]
  intro binding hmem heq
  exact h (beq_iff_eq.mp heq ▸ List.mem_map_of_mem hmem)

/-- What the name of a translated subject is bound to, where no parameter hides the
    reply. -/
theorem evalPath_of_carries (htranslates : Translates I name.text scalar subject)
    (hhidden : name.text = "result" → "result" ∉ I.params.map Diff.Param.name) {env : EvalEnv}
    {value : Value} (hcarries : I.Carries env subject value) :
    evalPath (some name) env = .ok value := by
  cases htranslates with
  | result named hname hreply hclass =>
      have hnone : lookup env.params "result" = none := by
        refine lookup_eq_none ?_
        rw [hcarries.names]
        exact hhidden hname
      have hresult : env.result = some value := hcarries.subject
      simp only [evalPath, hname, hnone, if_true, hresult]
  | param param named hname hparams hparam hnamed hclass =>
      have hnames := hcarries.names
      have hsubject : env.params[0]?.map Prod.snd = some value := hcarries.subject
      rw [hparams, List.map_cons, List.map_nil] at hnames
      rcases List.map_eq_singleton_iff.mp hnames with ⟨binding, hbinding, hfst⟩
      rw [hbinding] at hsubject
      have hsnd : binding.2 = value := Option.some.inj hsubject
      have hlookup : lookup env.params name.text = some value := by
        have htrue : (binding.1 == name.text) = true := beq_iff_eq.mpr (hfst.trans hparam)
        simp only [hbinding, lookup, List.find?_cons, htrue, Option.map_some, hsnd]
      simp only [evalPath, hlookup]

/-- A comparison that is translated means what the clause means, where no parameter
    hides the reply. -/
theorem means_of_translates (h : clause.Parsed) (hheight : clause.height ≤ MAX_TYPE_DEPTH)
        (hcompares : clause.Compares name op negated literal)
    (htranslates : Translates I name.text scalar subject)
    (hhidden : name.text = "result" → "result" ∉ I.params.map Diff.Param.name) :
    I.Means clause ⟨op, numeralText negated literal, scalar, subject⟩ := by
  rcases exists_literal_of_compares h hcompares with ⟨l, value, htext, -, hvalue, hl⟩
  refine ⟨l, htext, fun left _ env hcarries => ?_⟩
  rw [hl]
  exact evalExpr_compares h hheight hcompares hvalue
    (evalPath_of_carries htranslates hhidden hcarries)

/-- Each comparison holds of some integer and a number if and only if it does not hold
    of a number and itself. -/
theorem exists_int_holds (op : ComparisonOp) (x y : ExactValue) :
    ∃ n : Int, op.holds n y ≠ op.holds x x := by
  have hhigh : y < ((⌊y⌋ + 1 : Int) : ℚ) := by
    rw [Int.cast_add, Int.cast_one]
    exact Int.lt_floor_add_one y
  have hlow : ((⌊y⌋ - 1 : Int) : ℚ) < y := by
    have hfloor := Int.floor_le y
    rw [Int.cast_sub, Int.cast_one]
    linarith
  have hself : ¬ x < x := lt_irrefl x
  cases op with
  | le => exact ⟨⌊y⌋ + 1, by simp only [ComparisonOp.holds, not_le.mpr hhigh]; simp⟩
  | ge => exact ⟨⌊y⌋ - 1, by simp only [ComparisonOp.holds, ge_iff_le, not_le.mpr hlow]; simp⟩
  | eq => exact ⟨⌊y⌋ + 1, by simp only [ComparisonOp.holds, ne_of_gt hhigh]; simp⟩
  | ne => exact ⟨⌊y⌋ + 1, by simp only [ComparisonOp.holds, ne_eq, ne_of_gt hhigh]; simp⟩
  | lt => exact ⟨⌊y⌋ - 1, by simp only [ComparisonOp.holds, hlow]; simp⟩
  | gt => exact ⟨⌊y⌋ + 1, by simp only [ComparisonOp.holds, gt_iff_lt, hhigh]; simp⟩

/-- The checker takes a parameter named `result` for the parameter, which is a number
    where it is compared with one. -/
theorem numeric_param (h : Accepts I.scope clause)
    (hresult : "result" ∈ I.params.map Diff.Param.name)
    (hname : name.text = "result")
    (hcompares : clause.Compares name op negated literal) :
    ∃ reference backing, lookup I.scope.params "result" = some (.numeric reference backing) := by
  have hbound : ∃ type, lookup I.scope.params "result" = some type := by
    rw [← I.names, List.mem_map] at hresult
    rcases hresult with ⟨binding, hmem, heq⟩
    cases hfind : I.scope.params.find? (·.1 == "result") with
    | none =>
        rw [List.find?_eq_none] at hfind
        exact absurd (beq_iff_eq.mpr heq) (hfind binding hmem)
    | some found => exact ⟨found.2, by rw [lookup, hfind, Option.map_some]⟩
  rcases hbound with ⟨type, htype⟩
  rcases hcompares with ⟨range, lhs, symbol, rhs, inner, hbare, hop, hlhs, hnumeral⟩
  have hboolean := infer_of_check h.1
  rw [← infer_bare, hbare] at hboolean
  rcases inferBinary_eq_some hboolean with ⟨token, left, right, htoken, hleft, hright, hroot⟩
  cases htoken
  have hleftType : left = type := by
    rw [← infer_bare, hlhs] at hleft
    rcases inferPath_eq_some hleft with ⟨found, hfound, hresolves, -⟩
    cases hfound
    rw [hname] at hresolves
    cases hresolves with
    | param hparam => exact Option.some.inj (hparam.symm.trans htype)
    | result hnone | signal hnone | const hnone =>
        rw [htype] at hnone
        cases hnone
  rcases infer_numeral I.scope hnumeral with ⟨backing, hnumeric⟩
  rw [hright, Option.some.injEq] at hnumeric
  have hshort : isShortCircuit symbol.kind = false :=
    (evalOperator_compares hop 0 0 .integer .integer).1
  rcases comparison_of_boolean hroot with hconnective | ⟨-, -, -, htypes⟩
  · exact absurd (hshort.symm.trans hconnective) Bool.false_ne_true
  · rw [hleftType, hnumeric] at htypes
    cases type with
    | numeric reference declared => exact ⟨reference, declared, htype⟩
    | _ => rcases htypes with htypes | htypes <;> cases htypes

end Subjects

/-! ### When translation is faithful -/

section Faithful

variable {I : Interaction} {clause : Expr}

/-- A clause that clashes is translated to something else, or not at all. -/
theorem not_faithful_of_clashes (h : clause.Parsed) (hheight : clause.height ≤ MAX_TYPE_DEPTH)
    (haccepts : Accepts I.scope clause) (hclashes : I.Clashes clause) : ¬ I.Faithful clause := by
  intro hfaithful
  rcases hclashes with ⟨hresult, name, hname, hsubject⟩
  rcases hfaithful.translated name hsubject with ⟨comparison, htranslation⟩
  rcases hsubject with ⟨op, negated, literal, -, hcompares, -, -⟩
  have hmeans := hfaithful.meaning comparison htranslation
  rcases (translate_eq_comparison (parse_of_compares h hcompares) comparison).mp htranslation with
    ⟨scalar, subject, htranslates, hmatches, rfl⟩
  rcases hmeans with ⟨l, htext, hmeans⟩
  rcases exists_literal_of_compares h hcompares with ⟨-, value, -, -, hvalue, -⟩
  rcases numeric_param haccepts hresult hname hcompares with ⟨reference, backing, hparam⟩
  cases htranslates with
  | param param named hne => exact hne hname
  | result named _ hreply hclass =>
      -- The parameter has a value that the comparison answers otherwise for.
      rcases exists_int_holds op l.value (if negated then -value else value) with ⟨n, hn⟩
      let bound : ExprType → Value := fun type =>
        if type = .numeric reference backing then .num n backing else type.someValue
      let env : EvalEnv :=
        { params := I.scope.params.map (fun entry => (entry.1, bound entry.2))
          result := some (.num l.value scalar.backing)
          consts := fun _ => none }
      have hlookup : ∀ name : String, lookup env.params name =
          (lookup I.scope.params name).map bound := fun name =>
        lookup_map bound I.scope.params name
      have hcarries : I.Carries env .result (.num l.value scalar.backing) := by
        refine ⟨?_, fun name type htype hsupported => ?_, rfl⟩
        · rw [← I.names, List.map_map]
          rfl
        · refine ⟨bound type, by rw [hlookup, htype, Option.map_some], ?_⟩
          by_cases hsame : type = .numeric reference backing
          · rw [hsame]
            simp only [bound, if_true]
            exact ⟨rfl, fun _ => Rat.den_intCast n⟩
          · simp only [bound, hsame, if_false]
            exact hasType_someValue hsupported
      have hden : scalar = .integer → l.value.den = 1 := by
        intro hinteger
        dsimp only at htext
        rw [← htext, literalMatches_text l (.inl hinteger), hinteger] at hmatches
        rcases hmatches with hfrac | hfloat
        · exact Nat.dvd_one.mp (by
            rw [Literal.value, hfrac]
            exact den_mkRat_dvd _ Nat.one_ne_zero)
        · cases hfloat
      have hreads : evalPath (some name) env = .ok (.num n backing) := by
        have hbound : lookup env.params name.text = some (.num n backing) := by
          rw [hlookup, hname, hparam, Option.map_some]
          simp only [bound, if_true]
        simp only [evalPath, hbound]
      have hclause := evalExpr_compares h hheight hcompares hvalue hreads
      rw [hmeans l.value hden env hcarries, Except.ok.injEq, Value.bool.injEq] at hclause
      exact hn hclause.symm

/-- When translation is faithful. What is translated of a clause that the checker accepts
    means what the clause means, and one comparison of a subject with a number of its
    class is translated, if and only if the clause does not compare `result` in an
    interaction with a parameter of that name. -/
theorem clause_translation (I : Interaction) {clause : Expr} (hparsed : clause.Parsed)
    (hheight : clause.height ≤ MAX_TYPE_DEPTH) (haccepts : Accepts I.scope clause) :
    I.Faithful clause ↔ ¬ I.Clashes clause := by
  refine ⟨fun hfaithful hclashes =>
    not_faithful_of_clashes hparsed hheight haccepts hclashes hfaithful, fun hclashes => ⟨?_, ?_⟩⟩
  · intro comparison htranslation
    rcases parse_of_translation htranslation with ⟨⟨subject, op, literal⟩, hparse⟩
    rcases compares_of_parse hparsed (infer_of_check haccepts.1) hparse with
      ⟨name, negated, token, hcompares, rfl, rfl⟩
    rcases (translate_eq_comparison hparse comparison).mp htranslation with
      ⟨scalar, subject, htranslates, hmatches, rfl⟩
    refine means_of_translates hparsed hheight hcompares htranslates fun hname hresult => ?_
    refine hclashes ⟨hresult, name, hname, op, negated, token, scalar, hcompares, ?_, ?_⟩
    · cases htranslates with
      | result named _ hreply hclass => exact .inr ⟨hname, named, hreply, hclass⟩
      | param param named hne => exact absurd hname hne
    · rcases exists_literal_of_compares hparsed hcompares with ⟨l, -, htext, hfrac, -, -⟩
      have hscalar : scalar = .integer ∨ scalar = .float := by
        cases htranslates with
        | result _ _ _ hclass | param _ _ _ _ _ _ hclass => exact numericClass_eq_some hclass
      rw [← htext, literalMatches_text l hscalar, hfrac] at hmatches
      exact hmatches
  · rintro name ⟨op, negated, literal, scalar, hcompares, hsubject, hkind⟩
    rcases exists_literal_of_compares hparsed hcompares with ⟨l, -, htext, hfrac, -, -⟩
    have hclass : scalar = .integer ∨ scalar = .float := by
      rcases hsubject with ⟨_, _, _, _, _, hclass⟩ | ⟨_, _, _, hclass⟩ <;>
        exact numericClass_eq_some hclass
    have hmatches : literalMatches (numeralText negated literal) scalar = true := by
      rw [← htext, literalMatches_text l hclass, hfrac]
      exact hkind
    have htranslates : ∃ subject, Translates I name.text scalar subject := by
      rcases hsubject with ⟨param, named, hparams, hparam, hnamed, hclass⟩ |
        ⟨hname, named, hreply, hclass⟩
      · have hname : name.text ≠ "result" := by
          intro hname
          refine hclashes ⟨?_, name, hname, op, negated, literal, scalar, hcompares,
            .inl ⟨param, named, hparams, hparam, hnamed, hclass⟩, hkind⟩
          rw [hparams, List.map_singleton, hparam, hname]
          exact List.mem_singleton_self _
        exact ⟨.param 0, .param param named hname hparams hparam hnamed hclass⟩
      · exact ⟨.result, .result named hname hreply hclass⟩
    rcases htranslates with ⟨subject, htranslates⟩
    exact ⟨_, (translate_eq_comparison (parse_of_compares hparsed hcompares) _).mpr
      ⟨scalar, subject, htranslates, hmatches, rfl⟩⟩

end Faithful

/-! ### A parameter named `result` -/

section Example

/-- `type Speed: integer` in a package. -/
def speedPackage : Diff.Package :=
  { name := "demo"
    decls := [{
      name := "Speed", visibility := 1, ordinal := 0, docs := Diff.DocEnvelope.empty
      kind := some (.typeDef {
        backing := some (some (.primitive Diff.PRIMITIVE_INTEGER)), constraint := none
        declaredInit := none, init := none, width := none })
      limit := none }]
    interfaces := [], services := [] }

/-- An `ensure` of a query with one parameter of the type and a reply of it. -/
def speedQuery (name : String) : Interaction :=
  { packages := { package := speedPackage, others := [] }
    home := speedPackage
    params := [{
      name := name, type := some (.mk false (some (.named "Speed")))
      docs := Diff.MemberDoc.empty }]
    replyNamed := some "Speed"
    scope :=
      { params := [(name, .numeric "demo.Speed" .integer)]
        result := some (.numeric "demo.Speed" .integer), signals := []
        vocabulary := { consts := {}, enums := {} }, resolution := {} }
    names := rfl }

def atMostFive (name : String) : Expr :=
  operator .le "<=" (.path ⟨0, 0⟩ (some (nameToken name)))
    (.literal ⟨0, 0⟩ (some (numberToken "5")))

theorem parsed_atMostFive {name : String} (h : IsName name.toList) : (atMostFive name).Parsed := by
  refine ⟨⟨_, rfl, h⟩, ⟨_, rfl, ?_⟩, ⟨_, rfl, ?_⟩⟩
  · show (SyntaxKind.le, "<=".toList) ∈ binaryOperators
    decide
  · exact ⟨by decide, List.all_eq_true.mp (by decide)⟩

/-- `query limit(result: Speed): Speed { ensure result <= 5 }` is translated as a
    comparison of the reply, and is one of the parameter. -/
theorem clause_translation_clash :
    (atMostFive "result").Parsed ∧ (atMostFive "result").height ≤ MAX_TYPE_DEPTH ∧
      Accepts (speedQuery "result").scope (atMostFive "result") ∧
      (speedQuery "result").translation (atMostFive "result") =
        .comparison ⟨.le, ['5'], .integer, .result⟩ ∧
      ¬ (speedQuery "result").Faithful (atMostFive "result") := by
  have hparsed : (atMostFive "result").Parsed :=
    parsed_atMostFive ⟨'r', _, rfl, rfl, List.all_iff_forall_prop.mp (by decide)⟩
  have haccepts : Accepts (speedQuery "result").scope (atMostFive "result") := by
    refine ⟨by decide +kernel, ?_⟩
    decide +kernel
  refine ⟨hparsed, by decide, haccepts, by decide +kernel, ?_⟩
  refine not_faithful_of_clashes hparsed (by decide) haccepts
    ⟨by decide, nameToken "result", rfl, .le, false, numberToken "5", .integer, ?_, ?_, .inl rfl⟩
  · exact ⟨_, _, _, _, _, rfl, rfl, rfl, .inl rfl, _, rfl⟩
  · exact .inr ⟨rfl, "Speed", rfl, by decide +kernel⟩

/-- With any other name the same clause is translated faithfully. -/
theorem clause_translation_speed :
    (speedQuery "speed").Faithful (atMostFive "speed") := by
  have hparsed : (atMostFive "speed").Parsed :=
    parsed_atMostFive ⟨'s', _, rfl, rfl, List.all_iff_forall_prop.mp (by decide)⟩
  refine (clause_translation (speedQuery "speed") hparsed (by decide)
    ⟨by decide +kernel, by decide +kernel⟩).mpr ?_
  rintro ⟨hresult, -⟩
  exact absurd hresult (by decide)

end Example

end Clauses

end Contract

end Ridl
