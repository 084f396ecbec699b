import Ridl.Syntax.Steps

/-!
# Runs Without an Error

A production that reports nothing has read what the grammar asks for. Errors are
only ever added, so a run that ends with the errors it began with is made of parts
that report nothing either, and each `expect` in it has found its token. The one
way to report nothing and yet not to have found the token is that an error is at
the place already, and there is none while every error lies before the cursor
(`Parser.Clear`).

What such a run has built is known token by token (`Parser.Added`): the tokens that
were consumed, and the trees that they are in.

## Main definitions

* `Parser.Added`: What a run has consumed, and the trees it has built.
* `Parser.Takes`: A run has consumed tokens, and has put none of them into a node.

## Theorems

* `Clean.bind`: Both parts of a clean run are clean.
* `Clean.expect`: An expected token is there.
* `Clean.node`: A node is built around what its body builds.
-/

namespace Ridl

namespace Syntax

open Library.Descent

variable {σ α β : Type}

/-! ### Errors are only added -/

/-- Whatever the run, the errors before it are the first ones after it. -/
def Reports (m : ParseM σ α) : Prop :=
  ∀ parser a next, m parser = some (a, next) → parser.errors <+: next.errors

/-- A run that reports nothing. -/
structure Clean (m : ParseM σ α) (parser : Parser σ) (a : α) (next : Parser σ) : Prop where
  run : m parser = some (a, next)
  errors : next.errors = parser.errors

namespace Reports

theorem pure (a : α) : Reports (pure a : ParseM σ α) := by
  intro parser b next h
  cases h
  exact List.prefix_refl _

theorem bind {m : ParseM σ α} {f : α → ParseM σ β} (hm : Reports m) (hf : ∀ a, Reports (f a)) :
    Reports (m >>= f) := by
  intro parser b next h
  rcases bind_eq_some h with ⟨a, mid, hrun, hrest⟩
  exact (hm parser a mid hrun).trans (hf a mid b next hrest)

theorem ite {c : Prop} [Decidable c] {m n : ParseM σ α} (hm : Reports m) (hn : Reports n) :
    Reports (if c then m else n) := by
  split
  · exact hm
  · exact hn

theorem atKind (kind : SyntaxKind) : Reports (atKind kind : ParseM σ Bool) := by
  intro parser b next h
  cases h
  exact List.prefix_refl _

theorem errorAtCurrent (code message : String) :
    Reports (errorAtCurrent code message : ParseM σ Unit) := by
  intro parser a next h
  unfold Syntax.errorAtCurrent at h
  rcases bind_eq_some h with ⟨parser', same, hget, h⟩
  cases hget
  rcases bind_eq_some h with ⟨offset, same, hoffset, h⟩
  have hsame : same = parser := by
    cases hlift : parser.offsets[parser.significantPos]? with
    | none =>
        rw [hlift] at hoffset
        cases hoffset
    | some _ =>
        rw [hlift] at hoffset
        cases hoffset
        rfl
  subst hsame
  dsimp only at h
  split at h
  · cases h
    exact List.prefix_refl _
  · rcases bind_eq_some h with ⟨_, same', hguard, h⟩
    cases h
    unfold guard at hguard
    split at hguard
    · exact List.prefix_append _ _
    · cases hguard

variable [GreenNodeBuilder σ]

theorem bump : Reports (bump : ParseM σ Unit) := by
  intro parser a next h
  rw [bump_eq] at h
  cases h
  cases parser.ahead.head? with
  | none => exact List.prefix_refl _
  | some token => exact List.prefix_refl _

theorem expect (kind : SyntaxKind) : Reports (expect kind : ParseM σ Unit) :=
  (atKind kind).bind fun _ => ite bump (errorAtCurrent _ _)

theorem finishNode : Reports (finishNode : ParseM σ Unit) := by
  intro parser a next h
  rcases bind_eq_some h with ⟨parser', same, hget, h⟩
  cases hget
  rcases bind_eq_some h with ⟨builder, same, -, h⟩
  cases h
  exact List.prefix_refl _

theorem node (kind : SyntaxKind) {body : ParseM σ α} (hbody : Reports body) :
    Reports (node kind body) := by
  refine bind (fun parser a next h => ?_) fun _ => hbody.bind fun _ => finishNode.bind fun _ =>
    pure _
  cases h
  exact List.prefix_refl _

end Reports

variable {next : Parser σ} {kind : SyntaxKind} {parser : Parser GreenBuilder}

theorem Clean.bind {m : ParseM σ α} {f : α → ParseM σ β} {parser : Parser σ} {b : β}
    (h : Clean (m >>= f) parser b next) (hm : Reports m) (hf : ∀ a, Reports (f a)) :
    ∃ a mid, Clean m parser a mid ∧ Clean (f a) mid b next := by
  rcases bind_eq_some h.run with ⟨a, mid, hrun, hrest⟩
  have hfront := hm parser a mid hrun
  have hback := hf a mid b next hrest
  have hmid : mid.errors = parser.errors :=
    hfront.eq_of_length_le (by rw [← h.errors]; exact hback.length_le) |>.symm
  exact ⟨a, mid, ⟨hrun, hmid⟩, hrest, h.errors.trans hmid.symm⟩

/-! ### Expected tokens -/

/-- Every error lies before the next significant token. -/
def Parser.Clear (parser : Parser σ) : Prop := ∀ error ∈ parser.errors, error.start < parser.here

theorem Parser.Clear.not_reported {parser : Parser σ} (h : parser.Clear) (code : String) :
    ¬ parser.Reported code := by
  rintro ⟨-, hlast⟩
  rcases Option.map_eq_some_iff.mp hlast with ⟨error, herror, hstart⟩
  have hlt := h error (List.mem_of_getLast? herror)
  omega

/-- Before the cursor is clear of errors, nothing is reported without a trace. -/
theorem Clean.not_error {parser : Parser σ} {code message : String} (hvalid : parser.Valid)
    (hclear : parser.Clear) : ¬ Clean (errorAtCurrent code message) parser () next := by
  rintro ⟨hrun, herrors⟩
  rw [errorAtCurrent_eq hvalid, if_neg (hclear.not_reported code)] at hrun
  cases hrun
  exact absurd (congrArg List.length herrors) (by simp [Parser.report])

theorem atKind_eq (kind : SyntaxKind) (parser : Parser σ) :
    atKind kind parser = some (decide (kindAt parser.ahead 0 = some kind), parser) := by
  have h : atKind kind parser
      = some (decide ((parser.tokens[parser.significantPos]?).map (·.kind) = some kind), parser) :=
    rfl
  rw [h, Parser.getElem?_significantPos, kindAt, List.head?_eq_getElem?]

theorem Clean.atKind {f : Bool → ParseM σ α} {parser : Parser σ} {a : α}
    (h : Clean (atKind kind >>= f) parser a next) :
    Clean (f (decide (kindAt parser.ahead 0 = some kind))) parser a next := by
  refine ⟨?_, h.errors⟩
  have hrun : (Syntax.atKind kind parser).bind (fun read => f read.1 read.2) = some (a, next) :=
    h.run
  rw [atKind_eq] at hrun
  exact hrun

theorem Clean.pure {parser : Parser σ} {a b : α}
    (h : Clean (pure a : ParseM σ α) parser b next) : b = a ∧ next = parser := by
  cases h.run
  exact ⟨rfl, rfl⟩

section Expect

variable [GreenNodeBuilder σ]

theorem Clean.expect {kind : SyntaxKind} {parser next : Parser σ} (hvalid : parser.Valid)
    (hclear : parser.Clear) (h : Clean (expect kind) parser () next) :
    kindAt parser.ahead 0 = some kind ∧ Clean bump parser () next := by
  have hread := Clean.atKind h
  by_cases hkind : kindAt parser.ahead 0 = some kind
  · rw [decide_eq_true hkind] at hread
    exact ⟨hkind, hread⟩
  · rw [decide_eq_false hkind] at hread
    exact absurd hread (Clean.not_error hvalid hclear)

end Expect

/-! ### What is built -/

/-- A token as a tree. -/
def leaf (token : Token) : Green := .token token.kind token.text

theorem leavesAll_leaf (tokens : List Token) : Green.leavesAll (tokens.map leaf) = tokens := by
  induction tokens with
  | nil => rfl
  | cons token tokens ih => rw [List.map_cons, Green.leavesAll, ih]; rfl

namespace Parser

variable {a b c : Parser GreenBuilder}

/-- The tokens that a run has consumed, and the trees that it has built of them. -/
structure Added (parser next : Parser GreenBuilder) (consumed : List Token) (new : List Green) :
    Prop where
  eq : next =
    { parser with
      builder := { parser.builder with children := parser.builder.children ++ new }
      pos := parser.pos + consumed.length }
  rest : parser.rest = consumed ++ next.rest
  leaves : Green.leavesAll new = consumed

theorem Added.refl (parser : Parser GreenBuilder) : Added parser parser [] [] :=
  ⟨by rw [List.append_nil]; rfl, rfl, rfl⟩

variable {consumed taken : List Token} {new : List Green}

theorem Added.trans {consumed' : List Token} {new' : List Green}
    (hab : Added a b consumed new) (hbc : Added b c consumed' new') :
    Added a c (consumed ++ consumed') (new ++ new') where
  eq := by
    rw [hbc.eq, hab.eq, List.length_append, List.append_assoc, Nat.add_assoc]
  rest := by rw [hab.rest, hbc.rest, List.append_assoc]
  leaves := by
    rw [Green.leavesAll_eq, List.map_append, List.flatten_append, ← Green.leavesAll_eq,
      ← Green.leavesAll_eq, hab.leaves, hbc.leaves]

theorem Added.step (h : Added a b consumed new) :
    Step a b := by
  have heq := h.eq
  subst heq
  refine ⟨rfl, rfl, rfl, rfl, rfl, consumed, consumed, h.rest, rfl, ?_,
    List.forall₂_same.2 fun token _ => Attached.refl token⟩
  show ((a.builder.children ++ new).map Green.leaves).flatten =
    (a.builder.children.map Green.leaves).flatten ++ consumed
  rw [List.map_append, List.flatten_append, ← Green.leavesAll_eq new, h.leaves]

theorem Added.errors (h : Added a b consumed new) :
    b.errors = a.errors := by rw [h.eq]

theorem Added.valid (h : Added a b consumed new) (ha : a.Valid) : b.Valid := ha.step h.step h.errors

theorem Added.clear (h : Added a b consumed new) (ha : a.Clear) : b.Clear := by
  intro error herror
  rw [h.errors] at herror
  exact Nat.lt_of_lt_of_le (ha error herror) h.step.here_le

theorem Added.ahead (h : Added a b consumed new) :
    a.ahead = consumed.filter (!·.kind.isTrivia) ++ b.ahead := by
  rw [Parser.ahead, h.rest, List.filter_append]
  rfl

/-- A run has consumed significant tokens, and trivia, none of them into a node. -/
def Takes (parser next : Parser GreenBuilder) (taken : List Token) : Prop :=
  ∃ consumed, Added parser next consumed (consumed.map leaf) ∧
    consumed.filter (!·.kind.isTrivia) = taken

theorem Takes.refl (parser : Parser GreenBuilder) : Takes parser parser [] :=
  ⟨[], Added.refl parser, rfl⟩

theorem Takes.trans {taken' : List Token} (hab : Takes a b taken) (hbc : Takes b c taken') :
    Takes a c (taken ++ taken') := by
  rcases hab with ⟨consumed, hab, rfl⟩
  rcases hbc with ⟨consumed', hbc, rfl⟩
  refine ⟨consumed ++ consumed', ?_, List.filter_append _ _⟩
  rw [List.map_append]
  exact hab.trans hbc

theorem Takes.valid (h : Takes a b taken) (ha : a.Valid) : b.Valid := by
  rcases h with ⟨_, h, -⟩
  exact h.valid ha

theorem Takes.clear (h : Takes a b taken) (ha : a.Clear) : b.Clear := by
  rcases h with ⟨_, h, -⟩
  exact h.clear ha

theorem filter_trivia (tokens : List Token) :
    (tokens.takeWhile (·.kind.isTrivia)).filter (!·.kind.isTrivia) = [] := by
  rw [List.filter_eq_nil_iff]
  intro token htoken
  have htrivia := List.all_eq_true.mp (List.all_takeWhile (l := tokens)) token htoken
  rw [htrivia]
  exact Bool.false_ne_true

theorem byteLen_pos {text : List Char} (h : text ≠ []) : 0 < byteLen text := by
  rcases List.exists_cons_of_ne_nil h with ⟨c, rest, rfl⟩
  have hc := Char.utf8Size_pos c
  simp only [byteLen, List.map_cons, List.sum_cons]
  omega

/-- A token that is taken moves the cursor. -/
theorem Takes.here_lt {token : Token} (h : Takes a b [token]) (htext : token.text ≠ []) :
    a.here < b.here := by
  rcases h with ⟨consumed, hadded, htaken⟩
  have htoken : a.tokens[a.significantPos]? = some token := by
    rw [getElem?_significantPos, hadded.ahead, htaken]
    rfl
  have hpos : a.significantPos + 1 ≤ b.significantPos := by
    have hfirst : (a.rest.takeWhile (·.kind.isTrivia)).length < consumed.length := by
      rw [hadded.rest, List.takeWhile_append]
      split
      · -- Not all that was consumed is trivia.
        rename_i hall
        have heq := (List.takeWhile_prefix (l := consumed) (·.kind.isTrivia)).eq_of_length hall
        have htrivia := filter_trivia consumed
        rw [heq, htaken] at htrivia
        cases htrivia
      · rename_i hnot
        have hle := (List.takeWhile_prefix (l := consumed) (·.kind.isTrivia)).length_le
        omega
    have hnext : b.pos = a.pos + consumed.length := by rw [hadded.eq]
    rw [significantPos, significantPos, hnext]
    omega
  have htokens : b.tokens = a.tokens := by rw [hadded.eq]
  have hmono := bytesBefore_mono a.tokens hpos
  rw [bytesBefore_succ htoken] at hmono
  have hbytes := byteLen_pos htext
  rw [here, here, htokens]
  omega

theorem Takes.clear_of_valid {token : Token} (h : Takes a b [token]) (htext : token.text ≠ [])
    (ha : a.Valid) : b.Clear := by
  have hlt := h.here_lt htext
  rcases h with ⟨consumed, hadded, -⟩
  intro error herror
  rw [hadded.errors] at herror
  exact Nat.lt_of_le_of_lt (ha.passed error herror) hlt

theorem foldl_token (tokens : List Token) (builder : GreenBuilder) :
    tokens.foldl (fun builder token => GreenNodeBuilder.token builder token.kind token.text)
        builder =
      { builder with children := builder.children ++ tokens.map leaf } := by
  induction tokens generalizing builder with
  | nil => rw [List.map_nil, List.append_nil]; rfl
  | cons token tokens ih =>
      rw [List.foldl_cons, ih]
      show GreenBuilder.mk _ (builder.children ++ [leaf token] ++ tokens.map leaf) = _
      rw [List.append_assoc, List.map_cons, List.singleton_append]
      rfl

theorem added_eaten (parser : Parser GreenBuilder) :
    Added parser parser.eaten (parser.rest.takeWhile (·.kind.isTrivia))
      ((parser.rest.takeWhile (·.kind.isTrivia)).map leaf) where
  eq := by
    rw [eaten, foldl_token]
    rfl
  rest := by rw [rest_eaten, List.takeWhile_append_dropWhile]
  leaves := leavesAll_leaf _

end Parser

/-- The next significant token is taken. -/
theorem Clean.bump {next : Parser GreenBuilder} {token : Token} {list : List Token}
    (hahead : parser.ahead = token :: list) (h : Clean bump parser () next) :
    Parser.Takes parser next [token] := by
  have hrun := h.run
  rw [bump_eq, hahead] at hrun
  cases hrun
  have htoken : parser.eaten.tokens[parser.eaten.pos]? = some token := by
    rw [Parser.getElem?_eaten, hahead]
    rfl
  have hpush : Parser.Added parser.eaten (parser.eaten.push token.kind token) [token]
      [leaf token] :=
    ⟨rfl, Parser.rest_push token.kind htoken, rfl⟩
  have hsignificant : token.kind.isTrivia = false := by
    have hmem : token ∈ parser.ahead := by rw [hahead]; exact List.mem_cons_self
    simpa using (List.mem_filter.1 hmem).2
  refine ⟨parser.rest.takeWhile (·.kind.isTrivia) ++ [token], ?_, ?_⟩
  · have hadded := parser.added_eaten.trans hpush
    rw [← List.map_singleton (f := leaf), ← List.map_append] at hadded
    exact hadded
  · rw [List.filter_append, Parser.filter_trivia, List.nil_append, List.filter_cons_of_pos
      (by rw [hsignificant]; rfl), List.filter_nil]

/-- The state in a node that is started at the cursor, after the trivia there. -/
def Parser.started (parser : Parser GreenBuilder) (kind : SyntaxKind) : Parser GreenBuilder :=
  parser.eaten.building (GreenBuilder.startNode parser.eaten.builder kind)

theorem Parser.ahead_started (parser : Parser GreenBuilder) (kind : SyntaxKind) :
    (parser.started kind).ahead = parser.ahead := parser.ahead_eaten

theorem Parser.Valid.started (h : parser.Valid) (kind : SyntaxKind) : (parser.started kind).Valid :=
  (h.step parser.step_eaten rfl).building _

theorem Parser.Clear.started (h : parser.Clear) (kind : SyntaxKind) : (parser.started kind).Clear :=
  parser.added_eaten.clear h

theorem Clean.node {body : ParseM GreenBuilder α}
    {next : Parser GreenBuilder} {a : α} (h : Clean (node kind body) parser a next)
    (hbody : Reports body) :
    ∃ mid, Clean body (parser.started kind) a mid ∧
      ∀ consumed new, Parser.Added (parser.started kind) mid consumed new →
        Parser.Added parser next (parser.rest.takeWhile (·.kind.isTrivia) ++ consumed)
          ((parser.rest.takeWhile (·.kind.isTrivia)).map leaf ++ [.node kind new]) := by
  have hstart : Clean (body >>= fun a => finishNode >>= fun _ => Pure.pure a)
      (parser.started kind) a next := ⟨h.run, h.errors⟩
  rcases hstart.bind hbody fun _ => Reports.finishNode.bind fun _ => Reports.pure _ with
    ⟨a', mid, hrun, hrest⟩
  rcases hrest.bind Reports.finishNode fun _ => Reports.pure _ with ⟨_, closed, hfinish, hpure⟩
  rcases hpure.pure with ⟨rfl, rfl⟩
  refine ⟨mid, hrun, fun consumed new hadded => ?_⟩
  have heaten := parser.added_eaten
  -- The node takes what was built since it was started.
  have hbuilder : GreenNodeBuilder.finishNode mid.builder = some
      { parents := parser.builder.parents
        children := parser.eaten.builder.children ++ [.node kind new] } := by
    have hparents : mid.builder.parents =
        (kind, parser.eaten.builder.children.length) :: parser.builder.parents := by
      rw [hadded.eq]
      show (kind, _) :: parser.eaten.builder.parents = _
      rw [heaten.eq]
    have hchildren : mid.builder.children = parser.eaten.builder.children ++ new := by
      rw [hadded.eq]
      rfl
    show GreenBuilder.finishNode mid.builder = _
    rw [GreenBuilder.finishNode, hparents]
    dsimp only
    rw [hchildren, if_pos (by rw [List.length_append]; omega), List.take_left, List.drop_left]
  have hclosed : next = mid.building
      { parents := parser.builder.parents
        children := parser.eaten.builder.children ++ [.node kind new] } := by
    have hunfold : finishNode mid
        = ((liftM (GreenNodeBuilder.finishNode mid.builder) : ParseM GreenBuilder GreenBuilder) >>=
            fun builder => set (mid.building builder)) mid := rfl
    have hlift := hfinish.run
    rw [hunfold, lift_bind, hbuilder] at hlift
    cases hlift
    rfl
  refine ⟨?_, ?_, ?_⟩
  · rw [hclosed, hadded.eq, List.length_append]
    simp only [Parser.building, Parser.started, heaten.eq, List.append_assoc, Nat.add_assoc]
  · have hinner : parser.eaten.rest = consumed ++ next.rest := by
      rw [hclosed]
      exact hadded.rest
    rw [List.append_assoc, ← hinner]
    exact heaten.rest
  · rw [Green.leavesAll_eq, List.map_append, List.flatten_append, ← Green.leavesAll_eq,
      leavesAll_leaf, List.map_singleton, List.flatten_singleton, Green.leaves, hadded.leaves]

theorem exists_ahead {list : List Token} (h : kindAt list 0 = some kind) :
    ∃ token rest, list = token :: rest ∧ token.kind = kind := by
  cases list with
  | nil => cases h
  | cons token rest => exact ⟨token, rest, rfl, Option.some.inj h⟩

theorem Clean.expect_takes {next : Parser GreenBuilder}
    (hvalid : parser.Valid) (hclear : parser.Clear)
    (h : Clean (Syntax.expect kind) parser () next) :
    ∃ token, token.kind = kind ∧ Parser.Takes parser next [token] := by
  rcases h.expect hvalid hclear with ⟨hkind, hbump⟩
  rcases exists_ahead hkind with ⟨token, rest, hahead, htoken⟩
  exact ⟨token, htoken, hbump.bump hahead⟩

/-- A token that may be there, and what is done then. -/
theorem Clean.optional {f : Bool → Unit → ParseM GreenBuilder β}
    {next : Parser GreenBuilder} {b : β}
    (h : Clean (Syntax.atKind kind >>= fun has =>
      if has = true then Syntax.bump >>= f has else f has ()) parser b next)
    (hf : ∀ has u, Reports (f has u)) :
    ∃ (taken : Option Token) (mid : Parser GreenBuilder), (∀ token ∈ taken, token.kind = kind) ∧
      Parser.Takes parser mid taken.toList ∧ Clean (f taken.isSome ()) mid b next := by
  have hread := h.atKind
  by_cases hkind : kindAt parser.ahead 0 = some kind
  · rw [decide_eq_true hkind] at hread
    rcases exists_ahead hkind with ⟨token, rest, hahead, htoken⟩
    rcases Clean.bind hread Reports.bump (hf true) with ⟨_, mid, hbump, hrest⟩
    exact ⟨some token, mid, fun other hother => Option.some.inj hother ▸ htoken,
      hbump.bump hahead, hrest⟩
  · rw [decide_eq_false hkind] at hread
    exact ⟨none, parser, nofun, Parser.Takes.refl parser, hread⟩

end Syntax

end Ridl
