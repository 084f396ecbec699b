import Ridl.Syntax.ExpressionSteps

/-!
# The Height of an Expression

The tree of an expression grows in two ways: a function of the grammar calls
another one a level deeper, and a loop wraps the run so far. Each function
returns a height, and `Sized` says what that height has to do with the trees that
were built: no tree has more expression nodes on a path than the height, none
has more than one node more, and the height fits below the depth of the cursor.

The one node more is an error node. A level that is refused goes flat into such a
node, and the level returns the height of the run before it, which is 0 where the
operand before it is missing.

## Main definitions

* `Green.heightOf`: The most nodes of some kinds on a path.

## Theorems

* `nodeAt_after`: A wrap puts the run and what follows under one node.
* `chain_builds`: The trees of a chain have its height.
* `orExpr_builds`: The trees of an expression have its height.
* `expr_bounded`: The height of an expression is bounded, and it is reported once.
-/

namespace Ridl

namespace Syntax

open Library.Descent

/-- The kinds of the nodes of an expression. -/
def isExprKind : SyntaxKind → Bool
  | .binaryExpr | .prefixExpr | .memberExpr | .pathExpr | .parenExpr | .literalExpr => true
  | _ => false

namespace Green

variable (counts : SyntaxKind → Bool)

mutual

/-- The most nodes of the counted kinds on a path. -/
def heightOf : Green → Nat
  | .token _ _ => 0
  | .node kind children => (if counts kind then 1 else 0) + heightOfAll children

def heightOfAll : List Green → Nat
  | [] => 0
  | child :: children => max (heightOf child) (heightOfAll children)

end

/-- The most nodes on a path, error nodes included. -/
abbrev height : Green → Nat := heightOf fun _ => true

/-- The most expression nodes on a path. -/
abbrev exprHeight : Green → Nat := heightOf isExprKind

theorem heightOfAll_append (front back : List Green) :
    heightOfAll counts (front ++ back) =
      max (heightOfAll counts front) (heightOfAll counts back) := by
  induction front with
  | nil => exact (Nat.zero_max _).symm
  | cons tree front ih => rw [List.cons_append, heightOfAll, heightOfAll, ih, Nat.max_assoc]

theorem heightOf_le {tree : Green} {trees : List Green} (h : tree ∈ trees) :
    heightOf counts tree ≤ heightOfAll counts trees := by
  induction trees with
  | nil => cases h
  | cons first trees ih =>
      rw [heightOfAll]
      rcases List.mem_cons.mp h with rfl | h
      · exact Nat.le_max_left _ _
      · exact Nat.le_trans (ih h) (Nat.le_max_right _ _)

theorem heightOfAll_tokens (tokens : List Token) :
    heightOfAll counts (tokens.map fun token => .token token.kind token.text) = 0 := by
  induction tokens with
  | nil => rfl
  | cons token tokens ih =>
      rw [List.map_cons, heightOfAll, ih, heightOf]
      rfl

theorem leavesAll_append (front back : List Green) :
    leavesAll (front ++ back) = leavesAll front ++ leavesAll back := by
  simp [leavesAll_eq]

theorem leavesAll_tokens (tokens : List Token) :
    leavesAll (tokens.map fun token => .token token.kind token.text) = tokens := by
  induction tokens with
  | nil => rfl
  | cons token tokens ih =>
      rw [List.map_cons, leavesAll, ih]
      rfl

end Green

/-! ### What a run adds -/

/-- A report that an expression is too high. -/
def SyntaxError.isNesting (error : SyntaxError) : Bool :=
  error.code == "FORM-102" && error.message ==
    "expression nesting deeper than " ++ toString MAX_TYPE_DEPTH ++
      " levels (each operator, member access, parenthesised group and prefix nests one level)"

/-- The reports so far that an expression is too high. -/
def nestings (parser : Parser GreenBuilder) : Nat := parser.errors.countP SyntaxError.isNesting

/-- The reports so far, and the one that the expression may still draw. -/
def nestingBound (parser : Parser GreenBuilder) : Nat :=
  nestings parser + if parser.exprRefused then 0 else 1

/-- What a run of the parser adds: trees behind the ones that there are, in the node
    that is open, over the tokens that it consumes, and at most the report that was
    not drawn yet. -/
structure Grown (parser next : Parser GreenBuilder) (trees : List Green) : Prop where
  parents : next.builder.parents = parser.builder.parents
  children : next.builder.children = parser.builder.children ++ trees
  depth : next.depth = parser.depth
  rest : parser.rest = Green.leavesAll trees ++ next.rest
  nesting : nestingBound next ≤ nestingBound parser

theorem Grown.refl (parser : Parser GreenBuilder) : Grown parser parser [] :=
  ⟨rfl, (List.append_nil _).symm, rfl, rfl, Nat.le_refl _⟩

theorem Grown.trans {a b c : Parser GreenBuilder} {front back : List Green}
    (hab : Grown a b front) (hbc : Grown b c back) : Grown a c (front ++ back) where
  parents := hbc.parents.trans hab.parents
  children := by rw [hbc.children, hab.children, List.append_assoc]
  depth := hbc.depth.trans hab.depth
  rest := by rw [hab.rest, hbc.rest, Green.leavesAll_append, List.append_assoc]
  nesting := Nat.le_trans hbc.nesting hab.nesting

/-- Whatever the state, if the production returns it adds trees, of which this is
    known with the depth of the cursor and the result. -/
def Builds {α : Type} (m : ParseM GreenBuilder α) (known : Nat → α → List Green → Prop) : Prop :=
  ∀ parser a next, m parser = some (a, next) →
    ∃ trees, Grown parser next trees ∧ known parser.depth a trees

variable {α β : Type} {known : Nat → α → List Green → Prop}

theorem Builds.mono {known' : Nat → α → List Green → Prop} {m : ParseM GreenBuilder α}
    (h : Builds m known) (himp : ∀ depth a trees, known depth a trees → known' depth a trees) :
    Builds m known' := by
  intro parser a next hrun
  rcases h parser a next hrun with ⟨trees, hgrown, hknown⟩
  exact ⟨trees, hgrown, himp _ _ _ hknown⟩

theorem Builds.pure {a : α} (h : ∀ depth, known depth a []) :
    Builds (Pure.pure a : ParseM GreenBuilder α) known := by
  intro parser b next hrun
  cases hrun
  exact ⟨[], Grown.refl parser, h _⟩

theorem Builds.bind {first : Nat → β → List Green → Prop} {m : ParseM GreenBuilder β}
    {f : β → ParseM GreenBuilder α} (hm : Builds m first)
    (hf : ∀ b front depth, first depth b front →
      Builds (f b) fun depth' a back => depth' = depth → known depth a (front ++ back)) :
    Builds (m >>= f) known := by
  intro parser a next hrun
  rcases bind_eq_some hrun with ⟨b, mid, hfirst, hsecond⟩
  rcases hm parser b mid hfirst with ⟨front, hgrown, hknown⟩
  rcases hf b front parser.depth hknown mid a next hsecond with ⟨back, hgrown', hknown'⟩
  exact ⟨front ++ back, hgrown.trans hgrown', hknown' hgrown.depth⟩

theorem Builds.inspect {m : ParseM GreenBuilder β} {f : β → ParseM GreenBuilder α}
    (hm : ∀ parser b next, m parser = some (b, next) → next = parser)
    (hf : ∀ b, Builds (f b) known) : Builds (m >>= f) known := by
  intro parser a next hrun
  rcases bind_eq_some hrun with ⟨b, mid, hfirst, hsecond⟩
  rw [hm parser b mid hfirst] at hsecond
  exact hf b parser a next hsecond

theorem Builds.ite {p : Prop} [Decidable p] {m m' : ParseM GreenBuilder α} (h : p → Builds m known)
    (h' : ¬ p → Builds m' known) : Builds (if p then m else m') known := by
  by_cases hp : p
  · rw [if_pos hp]
    exact h hp
  · rw [if_neg hp]
    exact h' hp

/-! ### Tokens and nodes -/

/-- Nothing but tokens. -/
def Flat (trees : List Green) : Prop := ∀ counts, Green.heightOfAll counts trees = 0

theorem Flat.nil : Flat [] := fun _ => rfl

theorem Flat.append {front back : List Green} (hfront : Flat front) (hback : Flat back) :
    Flat (front ++ back) := by
  intro counts
  rw [Green.heightOfAll_append, hfront counts, hback counts]
  rfl

theorem children_tokens (tokens : List Token) (builder : GreenBuilder) :
    tokens.foldl (fun builder token => GreenNodeBuilder.token builder token.kind token.text)
        builder =
      { builder with
        children := builder.children ++
          tokens.map fun token => Green.token token.kind token.text } := by
  induction tokens generalizing builder with
  | nil =>
      rw [List.foldl_nil, List.map_nil, List.append_nil]
  | cons token tokens ih =>
      rw [List.foldl_cons, ih, List.map_cons]
      show GreenBuilder.mk _ (builder.children ++ [_] ++ _) = _
      rw [List.append_assoc]
      rfl

theorem grown_eaten (parser : Parser GreenBuilder) :
    Grown parser parser.eaten
      ((parser.rest.takeWhile (·.kind.isTrivia)).map fun token =>
        .token token.kind token.text) := by
  have hbuilder : parser.eaten.builder = _ := children_tokens _ parser.builder
  refine ⟨by rw [hbuilder], by rw [hbuilder], rfl, ?_, Nat.le_refl _⟩
  rw [Green.leavesAll_tokens, parser.rest_eaten, List.takeWhile_append_dropWhile]

theorem eatTrivia_builds :
    Builds (eatTrivia : ParseM GreenBuilder Unit) fun _ _ trees => Flat trees := by
  intro parser a next hrun
  have hnext : parser.eaten = next := congrArg Prod.snd (Option.some.inj hrun)
  subst hnext
  exact ⟨_, grown_eaten parser, fun counts => Green.heightOfAll_tokens counts _⟩

/-- The token that the cursor is on, after the trivia before it. -/
theorem bump_builds : Builds (bump : ParseM GreenBuilder Unit) fun _ _ trees => Flat trees := by
  intro parser a next hrun
  have htrivia : Flat ((parser.rest.takeWhile (·.kind.isTrivia)).map fun token =>
      Green.token token.kind token.text) := fun counts => Green.heightOfAll_tokens counts _
  have hnext := congrArg Prod.snd (Option.some.inj ((bump_eq parser).symm.trans hrun))
  cases hhead : parser.ahead.head? with
  | none =>
      rw [hhead] at hnext
      have hsame : parser.eaten = next := hnext
      subst hsame
      exact ⟨_, grown_eaten parser, htrivia⟩
  | some token =>
      rw [hhead] at hnext
      have hsame : parser.eaten.push token.kind token = next := hnext
      subst hsame
      have hpush : Grown parser.eaten (parser.eaten.push token.kind token)
          [.token token.kind token.text] := by
        refine ⟨rfl, rfl, rfl, ?_, Nat.le_refl _⟩
        rw [Parser.rest_push token.kind ((parser.getElem?_eaten).trans hhead)]
        rfl
      exact ⟨_, (grown_eaten parser).trans hpush, htrivia.append fun _ => rfl⟩

variable {α : Type} {known : Nat → α → List Green → Prop}

/-- The parser with a node open around what was built since some state. -/
def openedAt (start parser : Parser GreenBuilder) (kind : SyntaxKind) : Parser GreenBuilder :=
  parser.building
    { parents := (kind, start.builder.children.length) :: parser.builder.parents
      children := parser.builder.children }

/-- A node that is finished holds what was built since its start. -/
theorem finishing_builds {start parser next : Parser GreenBuilder} {run : List Green} {a : α}
    {kind : SyntaxKind} {body : ParseM GreenBuilder α} (hgrown : Grown start parser run)
    (hbody : Builds body known)
    (hrun : (body >>= fun a => finishNode >>= fun _ => pure a) (openedAt start parser kind) =
      some (a, next)) :
    ∃ trees, Grown start next [.node kind (run ++ trees)] ∧ known start.depth a trees := by
  rcases bind_eq_some hrun with ⟨b, built, hbuild, hrest⟩
  rcases bind_eq_some hrest with ⟨_, finished, hfinish, hpure⟩
  cases hpure
  rcases hbody _ a built hbuild with ⟨trees, hinner, hknown⟩
  have hparents : built.builder.parents =
      (kind, start.builder.children.length) :: start.builder.parents := by
    rw [hinner.parents, ← hgrown.parents]
    rfl
  have hchildren : built.builder.children = start.builder.children ++ (run ++ trees) := by
    rw [hinner.children, ← List.append_assoc, ← hgrown.children]
    rfl
  have hlength : start.builder.children.length ≤ built.builder.children.length := by
    rw [hchildren, List.length_append]
    exact Nat.le_add_right _ _
  have hbuilder : GreenBuilder.finishNode built.builder = some
      { parents := start.builder.parents
        children := start.builder.children ++ [.node kind (run ++ trees)] } := by
    rw [GreenBuilder.finishNode, hparents]
    dsimp only
    rw [if_pos hlength, hchildren, List.take_left, List.drop_left]
  have hnext : built.building
      { parents := start.builder.parents
        children := start.builder.children ++ [.node kind (run ++ trees)] } = next := by
    have hsome : ((liftM (GreenBuilder.finishNode built.builder) :
        ParseM GreenBuilder GreenBuilder) >>= fun builder => set (built.building builder)) built =
          some ((), next) := hfinish
    rw [lift_bind, hbuilder] at hsome
    exact congrArg Prod.snd (Option.some.inj hsome)
  subst hnext
  refine ⟨trees, ⟨rfl, rfl, hinner.depth.trans hgrown.depth, ?_,
    Nat.le_trans hinner.nesting hgrown.nesting⟩, ?_⟩
  · rw [Green.leavesAll, Green.leavesAll, Green.leaves, List.append_nil, Green.leavesAll_append,
      List.append_assoc, hgrown.rest]
    exact congrArg (Green.leavesAll run ++ ·) hinner.rest
  · rw [← hgrown.depth]
    exact hknown

theorem node_builds (kind : SyntaxKind) {body : ParseM GreenBuilder α} (hbody : Builds body known) :
    Builds (node kind body) fun depth a trees =>
      ∃ front inner, trees = front ++ [.node kind inner] ∧ Flat front ∧ known depth a inner := by
  intro parser a next hrun
  rcases bind_eq_some hrun with ⟨_, started, hstart, hrest⟩
  have hopened : openedAt parser.eaten parser.eaten kind = started :=
    congrArg Prod.snd (Option.some.inj hstart)
  subst hopened
  rcases finishing_builds (Grown.refl parser.eaten) hbody hrest with ⟨inner, hnode, hknown⟩
  exact ⟨_, (grown_eaten parser).trans hnode, _, inner, rfl,
    fun counts => Green.heightOfAll_tokens counts _, hknown⟩

/-- Behind a run since some state the production may put the run into a node. If it
    returns, this is known of the run since then. -/
def After (start : Parser GreenBuilder) (run : List Green) (m : ParseM GreenBuilder α)
    (post : α → List Green → Prop) : Prop :=
  ∀ parser a next, Grown start parser run → m parser = some (a, next) →
    ∃ run', Grown start next run' ∧ post a run'

theorem nodeAt_after (kind : SyntaxKind) {start : Parser GreenBuilder} {run : List Green}
    {body : ParseM GreenBuilder α} (hbody : Builds body known) :
    After start run (nodeAt start.builder.children.length kind body) fun a run' =>
      ∃ trees, run' = [.node kind (run ++ trees)] ∧ known start.depth a trees := by
  intro parser a next hgrown hrun
  have hunfold : nodeAt start.builder.children.length kind body parser =
      ((liftM (GreenBuilder.startNodeAt parser.builder start.builder.children.length kind) :
        ParseM GreenBuilder GreenBuilder) >>= fun builder => set (parser.building builder) >>=
          fun _ => body >>= fun a => finishNode >>= fun _ => pure a) parser := rfl
  rw [hunfold, lift_bind] at hrun
  unfold GreenBuilder.startNodeAt at hrun
  split_ifs at hrun with hplace
  · rcases finishing_builds hgrown hbody hrun with ⟨trees, hnode, hknown⟩
    exact ⟨_, hnode, trees, rfl, hknown⟩
  · cases hrun

theorem deeper_builds {body : ParseM GreenBuilder α} (hbody : Builds body known) :
    Builds (deeper body) fun depth a trees => known (depth + 1) a trees := by
  intro parser a next hrun
  rcases bind_eq_some hrun with ⟨_, lower, hlower, hrest⟩
  have hdepth : { parser with depth := parser.depth + 1 } = lower :=
    congrArg Prod.snd (Option.some.inj hlower)
  subst hdepth
  rcases bind_eq_some hrest with ⟨b, built, hbuild, hrest⟩
  rcases bind_eq_some hrest with ⟨_, raised, hraise, hpure⟩
  cases hpure
  have hback : { built with depth := built.depth - 1 } = next :=
    congrArg Prod.snd (Option.some.inj hraise)
  subst hback
  rcases hbody _ a built hbuild with ⟨trees, hgrown, hknown⟩
  refine ⟨trees, ⟨hgrown.parents, hgrown.children, ?_, hgrown.rest, hgrown.nesting⟩, hknown⟩
  show built.depth - 1 = parser.depth
  rw [hgrown.depth]
  rfl

namespace After

variable {β : Type} {start : Parser GreenBuilder} {run : List Green} {post : α → List Green → Prop}

theorem pure {a : α} (h : post a run) : After start run (Pure.pure a) post := by
  intro parser b next hgrown hrun
  cases hrun
  exact ⟨run, hgrown, h⟩

theorem builds {m : ParseM GreenBuilder α} (hm : Builds m known)
    (h : ∀ a trees, known start.depth a trees → post a (run ++ trees)) :
    After start run m post := by
  intro parser a next hgrown hrun
  rcases hm parser a next hrun with ⟨trees, hgrown', hknown⟩
  rw [hgrown.depth] at hknown
  exact ⟨run ++ trees, hgrown.trans hgrown', h a trees hknown⟩

theorem bind {first : β → List Green → Prop} {m : ParseM GreenBuilder β}
    {f : β → ParseM GreenBuilder α} (hm : After start run m first)
    (hf : ∀ b run', first b run' → After start run' (f b) post) :
    After start run (m >>= f) post := by
  intro parser a next hgrown hrun
  rcases bind_eq_some hrun with ⟨b, mid, hfirst, hsecond⟩
  rcases hm parser b mid hgrown hfirst with ⟨run', hgrown', hkept⟩
  exact hf b run' hkept mid a next hgrown' hsecond

theorem inspect {m : ParseM GreenBuilder β} {f : β → ParseM GreenBuilder α}
    (hm : ∀ parser b next, m parser = some (b, next) → next = parser)
    (hf : ∀ b, After start run (f b) post) : After start run (m >>= f) post := by
  intro parser a next hgrown hrun
  rcases bind_eq_some hrun with ⟨b, mid, hfirst, hsecond⟩
  rw [hm parser b mid hfirst] at hsecond
  exact hf b parser a next hgrown hsecond

theorem ite {p : Prop} [Decidable p] {m m' : ParseM GreenBuilder α}
    (h : p → After start run m post) (h' : ¬ p → After start run m' post) :
    After start run (if p then m else m') post := by
  by_cases hp : p
  · rw [if_pos hp]
    exact h hp
  · rw [if_neg hp]
    exact h' hp

/-- A loop keeps what each of its iterations keeps. -/
theorem loop (inv : β → List Green → Prop) {post : β → List Green → Prop}
    {body : β → ParseM GreenBuilder (ForInStep β)}
    (hbody : ∀ b run, inv b run → After start run (body b) fun r run' =>
      match r with
      | .yield b' => inv b' run'
      | .done b' => post b' run')
    {b : β} (hinv : inv b run) : After start run (loop b body) post := by
  intro parser b' next hgrown hrun
  have hiterate : iterate body (parser.ahead.length + 1) b parser = some (b', next) := hrun
  generalize parser.ahead.length + 1 = fuel at hiterate
  clear hrun
  induction fuel generalizing b run parser with
  | zero => cases hiterate
  | succ fuel ih =>
      rcases bind_eq_some hiterate with ⟨r, mid, hfirst, hrest⟩
      rcases hbody b run hinv parser r mid hgrown hfirst with ⟨run', hgrown', hkept⟩
      cases r with
      | done b'' =>
          cases hrest
          exact ⟨run', hgrown', hkept⟩
      | yield b'' => exact ih hkept mid hgrown' hrest

end After

theorem checkpoint_builds {f : Nat → ParseM GreenBuilder α}
    (hf : ∀ start, After start [] (f start.builder.children.length) (known start.depth)) :
    Builds (eatTrivia >>= fun _ => checkpoint >>= f) fun depth a trees =>
      ∃ front run, trees = front ++ run ∧ Flat front ∧ known depth a run := by
  refine eatTrivia_builds.bind fun _ front depth hfront => ?_
  intro parser a next hrun
  rcases bind_eq_some hrun with ⟨mark, _, hmark, hrest⟩
  cases hmark
  rcases hf parser parser a next (Grown.refl parser) hrest with ⟨run, hgrown, hknown⟩
  exact ⟨run, hgrown, fun hdepth => ⟨front, run, rfl, hfront, hdepth ▸ hknown⟩⟩

/-! ### Reports -/

/-- A report is recorded, or the place has one already. -/
theorem errorAtCurrent_cases {code message : String} {parser next : Parser GreenBuilder} {a : Unit}
    (hrun : errorAtCurrent code message parser = some (a, next)) :
    next = parser ∨ ∃ error : SyntaxError, error.code = code ∧ error.message = message ∧
      next = { parser with errors := parser.errors ++ [error] } := by
  rcases bind_eq_some hrun with ⟨_, _, hget, hrest⟩
  cases hget
  rcases bind_eq_some hrest with ⟨offset, mid, hoffset, hrest⟩
  have hmid : mid = parser := by
    cases hplace : parser.offsets[parser.significantPos]? with
    | none =>
        rw [hplace] at hoffset
        cases hoffset
    | some offset' =>
        rw [hplace] at hoffset
        exact (congrArg Prod.snd (Option.some.inj hoffset)).symm
  subst hmid
  dsimp only at hrest
  split at hrest
  · cases hrest
    exact .inl rfl
  · rcases bind_eq_some hrest with ⟨_, checked, hguard, hset⟩
    unfold guard at hguard
    split at hguard
    · cases hguard
      cases hset
      exact .inr ⟨_, rfl, rfl, rfl⟩
    · cases hguard

theorem reported_builds {code message : String} (h : code ≠ "FORM-102") :
    Builds (errorAtCurrent code message : ParseM GreenBuilder Unit)
      fun _ _ trees => trees = [] := by
  intro parser a next hrun
  rcases errorAtCurrent_cases hrun with rfl | ⟨error, hcode, -, rfl⟩
  · exact ⟨[], Grown.refl next, rfl⟩
  · refine ⟨[], ⟨rfl, (List.append_nil _).symm, rfl, rfl, ?_⟩, rfl⟩
    have hother : error.isNesting = false := by
      rw [SyntaxError.isNesting, hcode, beq_eq_false_iff_ne.mpr h, Bool.false_and]
    show List.countP _ (parser.errors ++ [error]) + _ ≤ _
    rw [List.countP_append, List.countP_singleton, hother]
    exact Nat.le_refl _

/-- The report of an expression that is too high is the one that may still be drawn. -/
theorem refuseExpr_builds :
    Builds (refuseExpr : ParseM GreenBuilder Unit) fun _ _ trees => trees = [] := by
  intro parser a next hrun
  rcases bind_eq_some hrun with ⟨_, _, hget, hrest⟩
  cases hget
  by_cases hrefused : parser.exprRefused = true
  · rw [hrefused] at hrest
    cases hrest
    exact ⟨[], Grown.refl parser, rfl⟩
  · rw [Bool.not_eq_true] at hrefused
    rw [hrefused] at hrest
    rcases bind_eq_some hrest with ⟨_, marked, hmark, hreport⟩
    have hmarked : { parser with exprRefused := true } = marked :=
      congrArg Prod.snd (Option.some.inj hmark)
    subst hmarked
    have hroom : nestingBound parser = nestings parser + 1 := by
      rw [nestingBound, hrefused]
      rfl
    rcases errorAtCurrent_cases hreport with rfl | ⟨error, -, -, rfl⟩
    · refine ⟨[], ⟨rfl, (List.append_nil _).symm, rfl, rfl, ?_⟩, rfl⟩
      rw [hroom]
      exact Nat.le_succ _
    · refine ⟨[], ⟨rfl, (List.append_nil _).symm, rfl, rfl, ?_⟩, rfl⟩
      rw [hroom]
      show List.countP _ (parser.errors ++ [error]) + 0 ≤ _
      rw [List.countP_append, List.countP_singleton]
      have hone : (if error.isNesting = true then 1 else 0) ≤ 1 := by split_ifs <;> decide
      exact Nat.add_le_add_left hone _

/-- Where the node fits, what follows may use that it does. -/
theorem After.fits {start : Parser GreenBuilder} {run : List Green} {post : α → List Green → Prop}
    {height : Nat} {f : Bool → ParseM GreenBuilder α}
    (htrue : start.depth + height ≤ MAX_TYPE_DEPTH → After start run (f true) post)
    (hfalse : After start run (f false) post) : After start run (exprFits height >>= f) post := by
  intro parser a next hgrown hrun
  rcases bind_eq_some hrun with ⟨answer, mid, hfits, hrest⟩
  rcases bind_eq_some hfits with ⟨_, _, hget, hfits⟩
  cases hget
  by_cases hdepth : parser.depth + height ≤ MAX_TYPE_DEPTH
  · rw [if_pos hdepth] at hfits
    cases hfits
    exact htrue (hgrown.depth ▸ hdepth) _ a next hgrown hrest
  · rw [if_neg hdepth] at hfits
    rcases bind_eq_some hfits with ⟨_, refused, hrefuse, hpure⟩
    cases hpure
    rcases refuseExpr_builds parser _ mid hrefuse with ⟨_, hgrown', rfl⟩
    have hsame := hgrown.trans hgrown'
    rw [List.append_nil] at hsame
    exact hfalse mid a next hsame hrest

theorem Builds.of_after {m : ParseM GreenBuilder α}
    (h : ∀ start, After start [] m (known start.depth)) : Builds m known :=
  fun parser a next hrun => h parser parser a next (Grown.refl parser) hrun

theorem Builds.fits {height : Nat} {f : Bool → ParseM GreenBuilder α}
    (htrue : Builds (f true) fun depth a trees =>
      depth + height ≤ MAX_TYPE_DEPTH → known depth a trees)
    (hfalse : Builds (f false) known) : Builds (exprFits height >>= f) known :=
  Builds.of_after fun _ =>
    After.fits (fun hfits => After.builds htrue fun _ _ h => h hfits)
      (After.builds hfalse fun _ _ => id)

theorem current_inspect (parser next : Parser GreenBuilder) (kind : Option SyntaxKind)
    (h : current parser = some (kind, next)) : next = parser :=
  (congrArg Prod.snd (Option.some.inj h)).symm

theorem atKind_inspect (kind : SyntaxKind) (parser next : Parser GreenBuilder) (answer : Bool)
    (h : atKind kind parser = some (answer, next)) : next = parser :=
  (congrArg Prod.snd (Option.some.inj h)).symm

theorem expect_builds (kind : SyntaxKind) :
    Builds (expect kind : ParseM GreenBuilder Unit) fun _ _ trees => Flat trees := by
  refine Builds.inspect (fun parser b next h => atKind_inspect kind parser next b h) fun answer =>
    Builds.ite (fun _ => bump_builds) fun _ => (reported_builds (by decide)).mono ?_
  rintro _ _ _ rfl
  exact Flat.nil

/-! ### The height that is returned -/

/-- No tree has more expression nodes on a path than the height, and none has more
    than one node more. -/
structure Tall (height : Nat) (trees : List Green) : Prop where
  expr : Green.heightOfAll isExprKind trees ≤ height
  all : Green.heightOfAll (fun _ => true) trees ≤ height + 1

namespace Tall

variable {h k : Nat} {trees front back : List Green}

theorem mono (hle : h ≤ k) (ht : Tall h trees) : Tall k trees :=
  ⟨Nat.le_trans ht.expr hle, Nat.le_trans ht.all (Nat.succ_le_succ hle)⟩

theorem flat (ht : Flat trees) (h : Nat) : Tall h trees := by
  refine ⟨?_, ?_⟩ <;> rw [ht] <;> exact Nat.zero_le _

theorem append (hfront : Tall h front) (hback : Tall k back) :
    Tall (max h k) (front ++ back) := by
  have := hfront.expr
  have := hfront.all
  have := hback.expr
  have := hback.all
  refine ⟨?_, ?_⟩ <;> rw [Green.heightOfAll_append] <;> omega

theorem behind (hfront : Flat front) (hback : Tall k back) : Tall k (front ++ back) :=
  ((flat hfront 0).append hback).mono (Nat.le_of_eq (Nat.zero_max k))

theorem node (kind : SyntaxKind) (ht : Tall h trees) : Tall (1 + h) [.node kind trees] := by
  have := ht.expr
  have := ht.all
  refine ⟨?_, ?_⟩ <;> rw [Green.heightOfAll, Green.heightOfAll, Green.heightOf]
  · split_ifs <;> omega
  · rw [if_pos rfl]
    omega

theorem refused (ht : Flat trees) (h : Nat) : Tall h [.node .errorNode trees] := by
  refine ⟨?_, ?_⟩ <;> rw [Green.heightOfAll, Green.heightOfAll, Green.heightOf, ht]
  · exact Nat.zero_le _
  · exact Nat.le_add_left 1 h

end Tall

/-- The trees have the height, which fits below the depth. A single node needs no
    room, since every node above it was built with room for one. -/
structure Sized (depth height : Nat) (trees : List Green) : Prop where
  room : height ≤ max 1 (MAX_TYPE_DEPTH - depth)
  tall : Tall height trees

namespace Sized

variable {depth h k : Nat} {front trees run : List Green}

theorem none (depth : Nat) : Sized depth 0 [] := ⟨Nat.zero_le _, Tall.flat Flat.nil 0⟩

theorem one (depth : Nat) (ht : Tall 1 trees) : Sized depth 1 trees := ⟨Nat.le_max_left _ _, ht⟩

theorem behind (hfront : Flat front) (h : Sized depth k trees) : Sized depth k (front ++ trees) :=
  ⟨h.room, h.tall.behind hfront⟩

theorem group (kind : SyntaxKind) (hfits : depth + 2 ≤ MAX_TYPE_DEPTH)
    (hroom : h ≤ max 1 (MAX_TYPE_DEPTH - (depth + 1))) (ht : Tall h trees) :
    Sized depth (1 + h) [.node kind trees] :=
  ⟨by omega, ht.node kind⟩

theorem wrap (hrun : Sized depth h run) (hrhs : Sized (depth + 1) k trees)
    (hfits : depth + (max h 1 + 1) ≤ MAX_TYPE_DEPTH) :
    Sized depth (1 + max h k) [.node .binaryExpr (run ++ trees)] := by
  have := hrhs.room
  exact ⟨by omega, (hrun.tall.append hrhs.tall).node _⟩

theorem member (hrun : Sized depth h run) (hname : Flat trees)
    (hfits : depth + (h + 1) ≤ MAX_TYPE_DEPTH) :
    Sized depth (h + 1) [.node .memberExpr (run ++ trees)] := by
  have hinner : Tall h (run ++ trees) :=
    (hrun.tall.append (Tall.flat hname 0)).mono (Nat.le_of_eq (Nat.max_zero h))
  have hnode := hinner.node .memberExpr
  rw [Nat.add_comm] at hnode
  exact ⟨by omega, hnode⟩

theorem skipped (hrun : Sized depth h run) (ht : Tall 0 trees) : Sized depth h (run ++ trees) :=
  ⟨hrun.room, (hrun.tall.append ht).mono (Nat.le_of_eq (Nat.max_zero h))⟩

end Sized

theorem loop_flat {β : Type} {b : β} {body : β → ParseM GreenBuilder (ForInStep β)}
    (h : ∀ b, Builds (body b) fun _ _ trees => Flat trees) :
    Builds (loop b body) fun _ _ trees => Flat trees := by
  refine Builds.of_after fun start => After.loop (fun _ run => Flat run)
    (fun b run hrun => After.builds (h b) fun r trees htrees => ?_) Flat.nil
  cases r with
  | done b' => exact hrun.append htrees
  | yield b' => exact hrun.append htrees

theorem skipExprTokens_builds :
    Builds (skipExprTokens : ParseM GreenBuilder Unit) fun _ _ trees => Flat trees := by
  refine Builds.bind (loop_flat fun state => ?_) fun _ front _ hfront =>
    Builds.pure fun _ _ => hfront.append Flat.nil
  refine Builds.inspect (fun parser b next => current_inspect parser next b) fun kind => ?_
  cases kind with
  | none => exact Builds.pure fun _ => Flat.nil
  | some kind =>
      have hstop : Builds (Pure.pure (ForInStep.done state) : ParseM GreenBuilder _)
          fun _ _ trees => Flat trees := Builds.pure fun _ => Flat.nil
      refine Builds.ite (fun _ => hstop) fun _ => Builds.ite (fun _ => hstop) fun _ =>
        Builds.ite (fun _ => hstop) fun _ => Builds.ite (fun _ => hstop) fun _ => ?_
      exact bump_builds.bind fun _ front _ hfront =>
        Builds.pure fun _ _ => hfront.append Flat.nil

theorem skipExprRest_builds :
    Builds (skipExprRest : ParseM GreenBuilder Unit) fun _ _ trees => Tall 0 trees := by
  refine (node_builds .errorNode skipExprTokens_builds).mono ?_
  rintro _ _ _ ⟨front, inner, rfl, hfront, hinner⟩
  exact (Tall.refused hinner 0).behind hfront

/-! ### The grammar -/

variable {operand orExpr : ParseM GreenBuilder Nat}

theorem rhs_builds (hoperand : Builds operand Sized) :
    Builds (bump >>= fun _ => deeper operand) fun depth height trees =>
      Sized (depth + 1) height trees :=
  bump_builds.bind fun _ _ _ hfront => (deeper_builds hoperand).mono
    fun _ _ _ h hdepth => hdepth ▸ Sized.behind hfront h

theorem Sized.checkpoint {f : Nat → ParseM GreenBuilder Nat}
    (hf : ∀ start, After start [] (f start.builder.children.length) (Sized start.depth)) :
    Builds (eatTrivia >>= fun _ => Syntax.checkpoint >>= f) Sized := by
  refine (checkpoint_builds hf).mono ?_
  rintro _ _ _ ⟨front, run, rfl, hfront, hsized⟩
  exact hsized.behind hfront

theorem chain_builds (isOp : SyntaxKind → Bool) (hoperand : Builds operand Sized) :
    Builds (chain isOp operand) Sized := by
  refine Sized.checkpoint fun start => ?_
  refine (After.builds hoperand fun _ _ => id).bind fun height run hsized =>
    After.loop (Sized start.depth) (fun height run hsized => ?_) hsized
  refine After.inspect (fun parser b next => current_inspect parser next b) fun kind =>
    After.ite (fun _ => ?_) fun _ => After.pure hsized
  refine After.fits (fun hfits => ?_) ?_
  · refine (nodeAt_after .binaryExpr (rhs_builds hoperand)).bind ?_
    rintro rhs _ ⟨trees, rfl, hrhs⟩
    exact After.pure (hsized.wrap hrhs hfits)
  · exact (After.builds skipExprRest_builds fun _ _ => hsized.skipped).bind
      fun _ _ hskipped => After.pure hskipped

theorem cmpExpr_builds (hoperand : Builds (addExpr orExpr) Sized) :
    Builds (cmpExpr orExpr) Sized := by
  refine Sized.checkpoint fun start => ?_
  refine (After.builds hoperand fun _ _ => id).bind fun height run hsized => ?_
  refine After.inspect (fun parser b next => current_inspect parser next b) fun kind =>
    After.ite (fun _ => ?_) fun _ => After.pure hsized
  refine After.fits (fun hfits => ?_) ?_
  · refine (nodeAt_after .binaryExpr (rhs_builds hoperand)).bind ?_
    rintro rhs _ ⟨trees, rfl, hrhs⟩
    exact After.pure (hsized.wrap hrhs hfits)
  · exact (After.builds skipExprRest_builds fun _ _ => hsized.skipped).bind
      fun _ _ hskipped => After.pure hskipped

theorem flagLeadingZeros_builds :
    Builds (flagLeadingZeros : ParseM GreenBuilder Unit) fun _ _ trees => Flat trees := by
  refine Builds.inspect (fun parser token next hrun => ?_) fun token =>
    Builds.ite (fun _ => (reported_builds (by decide)).mono ?_) fun _ =>
      Builds.pure fun _ => Flat.nil
  · have hunfold : currentToken parser =
        ((liftM parser.tokens[parser.significantPos]? : ParseM GreenBuilder Token) >>= pure)
          parser := by
      rw [bind_pure]
      rfl
    rw [hunfold, lift_bind] at hrun
    cases htoken : parser.tokens[parser.significantPos]? with
    | none =>
        rw [htoken] at hrun
        cases hrun
    | some token' =>
        rw [htoken] at hrun
        exact (congrArg Prod.snd (Option.some.inj hrun)).symm
  · rintro _ _ _ rfl
    exact Flat.nil

theorem leaf_builds (kind : SyntaxKind) {body : ParseM GreenBuilder Unit}
    (hbody : Builds body fun _ _ trees => Flat trees) :
    Builds (node kind body >>= fun _ => pure 1) Sized := by
  refine (node_builds kind hbody).bind ?_
  rintro _ _ depth ⟨front, inner, rfl, hfront, hinner⟩
  refine Builds.pure fun _ _ => ?_
  rw [List.append_nil]
  exact Sized.one depth (((Tall.flat hinner 0).node kind).behind hfront)

theorem missing_builds (message : String) :
    Builds (errorAtCurrent "FORM-101" message >>= fun _ => pure 0 : ParseM GreenBuilder Nat)
      Sized := by
  refine (reported_builds (by decide)).bind ?_
  rintro _ _ depth rfl
  exact Builds.pure fun _ _ => Sized.none depth

theorem primary_builds (horExpr : Builds orExpr Sized) : Builds (primary orExpr) Sized := by
  refine Builds.inspect (fun parser b next => current_inspect parser next b) fun kind => ?_
  cases kind with
  | none => exact missing_builds _
  | some kind =>
      refine Builds.ite (fun _ => leaf_builds _ ?_) fun _ => Builds.ite (fun _ =>
        leaf_builds _ bump_builds) fun _ => Builds.ite (fun _ => ?_) fun _ => missing_builds _
      · refine Builds.inspect (fun parser b next h => atKind_inspect _ parser next b h)
          fun integer => ?_
        refine Builds.ite (fun _ => flagLeadingZeros_builds.bind fun _ front _ hfront =>
          bump_builds.mono fun _ _ _ htoken _ => hfront.append htoken) fun _ => bump_builds
      · refine Builds.fits ?_ (leaf_builds _ ?_)
        · -- The group and its parentheses around what is inside.
          have hinner : Builds (do
              bump
              let inner ← deeper orExpr
              expect .rParen
              return inner) fun depth inner trees =>
                inner ≤ max 1 (MAX_TYPE_DEPTH - (depth + 1)) ∧ Tall inner trees := by
            refine bump_builds.bind fun _ front depth hfront => ?_
            refine (deeper_builds horExpr).bind fun inner middle depth' hsized => ?_
            refine (expect_builds .rParen).bind fun _ back _ hback => Builds.pure ?_
            intro _ _ _ hdepth
            have hroom := hsized.room
            rw [hdepth] at hroom
            rw [List.append_nil]
            refine ⟨hroom, Tall.behind hfront ?_⟩
            exact (hsized.tall.append (Tall.flat hback 0)).mono (Nat.le_of_eq (Nat.max_zero inner))
          refine (node_builds .parenExpr hinner).bind ?_
          rintro inner _ depth ⟨front, trees, rfl, hfront, hroom, htall⟩
          refine Builds.pure fun depth' hdepth' hfits => ?_
          rw [List.append_nil]
          exact (Sized.group .parenExpr hfits hroom htall).behind hfront
        · refine bump_builds.bind fun _ front _ hfront => ?_
          refine skipExprTokens_builds.bind fun _ middle _ hmiddle => ?_
          refine Builds.inspect (fun parser b next h => atKind_inspect _ parser next b h)
            fun closed => Builds.ite (fun _ => bump_builds.mono ?_) fun _ => Builds.pure ?_
          · intro _ _ _ hback _ _
            exact hfront.append (hmiddle.append hback)
          · intro _ _ _
            rw [List.append_nil]
            exact hfront.append hmiddle

theorem postfixExpr_builds (horExpr : Builds orExpr Sized) :
    Builds (postfixExpr orExpr) Sized := by
  refine Sized.checkpoint fun start => ?_
  refine (After.builds (primary_builds horExpr) fun _ _ => id).bind fun height run hsized =>
    After.loop (Sized start.depth) (fun height run hsized => ?_) hsized
  refine After.inspect (fun parser b next h => atKind_inspect _ parser next b h) fun dot =>
    After.ite (fun _ => ?_) fun _ => After.pure hsized
  refine After.fits (fun hfits => ?_) ?_
  · have hname : Builds (do
        bump
        if ← atKind .ident then bump
        else errorAtCurrent "FORM-101" "expected a member name" : ParseM GreenBuilder Unit)
          fun _ _ trees => Flat trees := by
      refine bump_builds.bind fun _ front _ hfront => ?_
      refine Builds.inspect (fun parser b next h => atKind_inspect _ parser next b h) fun named =>
        Builds.ite (fun _ => bump_builds.mono fun _ _ _ hback _ => hfront.append hback) fun _ =>
          (reported_builds (by decide)).mono ?_
      rintro _ _ _ rfl _
      exact hfront.append Flat.nil
    refine (nodeAt_after .memberExpr hname).bind ?_
    rintro _ _ ⟨trees, rfl, hflat⟩
    exact After.pure (hsized.member hflat hfits)
  · exact (After.builds skipExprRest_builds fun _ _ => hsized.skipped).bind
      fun _ _ hskipped => After.pure hskipped

theorem unaryExpr_builds (horExpr : Builds orExpr Sized) : Builds (unaryExpr orExpr) Sized := by
  refine Builds.inspect (fun parser b next => current_inspect parser next b) fun kind =>
    Builds.ite (fun _ => ?_) fun _ => postfixExpr_builds horExpr
  refine Builds.fits ?_ (skipExprRest_builds.bind fun _ _ depth htall => Builds.pure fun _ _ => ?_)
  · refine (node_builds .prefixExpr (rhs_builds (postfixExpr_builds horExpr))).bind ?_
    rintro operand _ depth ⟨front, trees, rfl, hfront, hsized⟩
    refine Builds.pure fun depth' hdepth' hfits => ?_
    rw [List.append_nil]
    subst hdepth'
    exact (Sized.group .prefixExpr hfits hsized.room hsized.tall).behind hfront
  · rw [List.append_nil]
    exact Sized.one depth (htall.mono (Nat.zero_le 1))

theorem orExpr_builds (fuel : Nat) : Builds (Syntax.orExpr fuel) Sized := by
  induction fuel with
  | zero =>
      intro parser a next hrun
      cases hrun
  | succ fuel ih =>
      exact chain_builds _ (chain_builds _ (cmpExpr_builds (chain_builds _ (chain_builds _
        (unaryExpr_builds ih)))))

/-- What is known of a tree of an expression. -/
structure Bounded (tree : Green) : Prop where
  expr : tree.exprHeight ≤ MAX_TYPE_DEPTH
  all : tree.height ≤ MAX_TYPE_DEPTH + 1

theorem Sized.bounded {depth height : Nat} {trees : List Green} (h : Sized depth height trees) :
    ∀ tree ∈ trees, Bounded tree := by
  intro tree hmem
  have hroom := h.room
  have hlimit : MAX_TYPE_DEPTH = 128 := rfl
  have hheight : height ≤ MAX_TYPE_DEPTH := by omega
  exact ⟨Nat.le_trans (Green.heightOf_le _ hmem) (Nat.le_trans h.tall.expr hheight),
    Nat.le_trans (Green.heightOf_le _ hmem) (Nat.le_trans h.tall.all (Nat.succ_le_succ hheight))⟩

/-- Wherever an expression starts it returns, and it adds trees of a bounded height
    over the tokens that it consumes. It is reported to be too high once at most. -/
theorem expr_bounded (parser : Parser GreenBuilder) (floor : Nat) :
    (parser.Valid → parser.Founded floor → parser.depth ≤ MAX_TYPE_DEPTH →
        ∃ next, expr parser = some ((), next)) ∧
      ∀ next, expr parser = some ((), next) →
        ∃ trees, next.builder.parents = parser.builder.parents ∧
          next.builder.children = parser.builder.children ++ trees ∧
          parser.rest = Green.leavesAll trees ++ next.rest ∧
          (∀ tree ∈ trees, Bounded tree) ∧
          nestings next ≤ nestings parser + 1 := by
  refine ⟨fun hvalid hfounded hdepth => ?_, fun next hrun => ?_⟩
  · have hroomy : roomy parser.depth := ⟨hdepth, by omega⟩
    have hparses : Parses roomy floor Any Plain (expr : ParseM GreenBuilder Unit) := expr_parses
    rcases hparses parser ⟨hvalid, hfounded⟩ hroomy trivial with ⟨_, next, hrun, -⟩
    exact ⟨next, hrun⟩
  · rcases bind_eq_some hrun with ⟨_, start, hreset, hrest⟩
    have hstart : { parser with exprRefused := false } = start :=
      congrArg Prod.snd (Option.some.inj hreset)
    subst hstart
    rcases bind_eq_some hrest with ⟨height, built, hbuild, hpure⟩
    cases hpure
    rcases orExpr_builds _ _ height next hbuild with ⟨trees, hgrown, hsized⟩
    refine ⟨trees, hgrown.parents, hgrown.children, hgrown.rest, hsized.bounded, ?_⟩
    exact Nat.le_trans (Nat.le_add_right _ _) hgrown.nesting

/-- Groups as deep as they fit, around a chain without operands. -/
def deepGroups : List Token :=
  List.replicate 126 { kind := .lParen, text := ['('] } ++
    [{ kind := .pipePipe, text := ['|', '|'] }, { kind := .star, text := ['*'] },
      { kind := .ident, text := ['x'] }, { kind := .rParen, text := [')'] },
      { kind := .dot, text := ['.'] }, { kind := .ident, text := ['a'] }]

/-- With the error node, the tree is one node too high: the level of `*` is refused
    after a missing operand and returns the height 0. -/
theorem deepGroups_height :
    (expr (Parser.new deepGroups .ridl : Parser GreenBuilder)).map
      (fun r => r.2.builder.children.map Green.height) = some [MAX_TYPE_DEPTH + 1] := by
  decide +kernel

end Syntax

end Ridl
