import Ridl.Syntax.Clean
import Ridl.Syntax.Node
import Ridl.Syntax.Spelling

/-!
# Timing Annotations

The typed view of a timing annotation. Its parts are the children of its node that
are of the right kind: a duration that stands for a strict period, or a node with
the bounds of a range, where the side of the `..` says which bound a duration is.

An annotation that parsed without an error is one of two forms, and its parts are
what was written (`Accepted.form`). For any other annotation they are what the
parser could keep of it.

## Main definitions

* `Annot.duration`, `Annot.range`, `TimingRange.min`, `TimingRange.max`: The parts
  of an annotation.
* `Written`: The bounds that are written, by the tokens of the text.

## Theorems

* `timing_form`: What a run of the parser without an error has built.
* `Accepted.form`: An accepted annotation is a strict period or a range.
-/

namespace Ridl

namespace Timing

open Syntax
open Contract (IsDuration)

/-! ### The parts of an annotation -/

namespace Annot

def duration (annot : SyntaxNode) : Option SyntaxToken := supportToken annot .duration

def range (annot : SyntaxNode) : Option SyntaxNode := supportChild annot .timingRange

end Annot

namespace TimingRange

/-- The first duration on one side of the `..`, after it or before it. -/
def endpointFrom (afterDots seenDots : Bool) : List SyntaxToken → Option SyntaxToken
  | [] => none
  | token :: tokens =>
      if token.kind = .dotDot then endpointFrom afterDots true tokens
      else if token.kind = .duration ∧ seenDots = afterDots then some token
      else endpointFrom afterDots seenDots tokens

def endpoint (range : SyntaxNode) (afterDots : Bool) : Option SyntaxToken :=
  endpointFrom afterDots false range.tokens

def min (range : SyntaxNode) : Option SyntaxToken := endpoint range false

def max (range : SyntaxNode) : Option SyntaxToken := endpoint range true

end TimingRange

/-! ### What is written -/

/-- What an annotation says: a strict period, or a range with at least one bound. -/
inductive Form
  | strict (period : List Char)
  | range (min max : Option (List Char))

namespace Form

/-- The bounds that are written. A strict period is both. -/
def min : Form → Option (List Char)
  | .strict period => some period
  | .range min _ => min

def max : Form → Option (List Char)
  | .strict period => some period
  | .range _ max => max

end Form

/-- The tokens that are no trivia. -/
def significant (tokens : List Token) : List Token := tokens.filter (!·.kind.isTrivia)

/-- The kinds of tokens, and the texts of the durations among them. -/
def outline (tokens : List Token) : List (SyntaxKind × List Char) :=
  (significant tokens).map fun token =>
    (token.kind, if token.kind = .duration then token.text else [])

/-- An optional bound of a range. -/
def boundOutline (bound : Option (List Char)) : List (SyntaxKind × List Char) :=
  bound.toList.map fun text => (.duration, text)

/-- How the tokens of an annotation spell it. -/
def Form.spelling : Form → List (SyntaxKind × List Char)
  | .strict period => [(.atSign, []), (.duration, period)]
  | .range min max =>
      [(.atSign, []), (.lBracket, [])] ++ boundOutline min ++ [(.dotDot, [])] ++
        boundOutline max ++ [(.rBracket, [])]

theorem outline_append (front back : List Token) :
    outline (front ++ back) = outline front ++ outline back := by
  rw [outline, significant, List.filter_append, List.map_append]
  rfl

/-! ### What a run of the parser has built -/

/-- The tree of an annotation of a form. The bounds of a range are in a node of their
    own, and all else are tokens. -/
def Form.Built (green : Green) : Form → Prop
  | .strict period => ∃ inner : List Token, green = .node .timing (inner.map leaf) ∧
      outline inner = [(.atSign, []), (.duration, period)]
  | .range min max => ∃ front bounds back : List Token,
      green = .node .timing
        (front.map leaf ++ .node .timingRange (bounds.map leaf) :: back.map leaf) ∧
      outline front = [(.atSign, []), (.lBracket, [])] ∧
      outline bounds = boundOutline min ++ [(.dotDot, [])] ++ boundOutline max ∧
      outline back = [(.rBracket, [])] ∧ (min ≠ none ∨ max ≠ none)

theorem Form.Built.outline_leaves {green : Green} {form : Form} (h : form.Built green) :
    outline green.leaves = form.spelling := by
  cases form with
  | strict period =>
      rcases h with ⟨inner, rfl, houtline⟩
      rw [Green.leaves, leavesAll_leaf, houtline]
      rfl
  | range min max =>
      rcases h with ⟨front, bounds, back, rfl, hfront, hbounds, hback, -⟩
      have hleaves : (Green.node .timing
          (front.map leaf ++ .node .timingRange (bounds.map leaf) :: back.map leaf)).leaves =
            front ++ bounds ++ back := by
        rw [Green.leaves, Green.leavesAll_eq, List.map_append, List.flatten_append,
          ← Green.leavesAll_eq, leavesAll_leaf, List.map_cons, List.flatten_cons,
          ← Green.leavesAll_eq, leavesAll_leaf, Green.leaves, leavesAll_leaf, List.append_assoc]
      rw [hleaves, outline_append, outline_append, hfront, hbounds, hback, Form.spelling]
      simp only [List.append_assoc]

theorem outline_takes {consumed taken : List Token} (h : significant consumed = taken) :
    outline consumed = taken.map fun token =>
      (token.kind, if token.kind = .duration then token.text else []) := by
  rw [outline, h]

theorem outline_optional {taken : Option Token} (h : ∀ token ∈ taken, token.kind = .duration) :
    (taken.toList.map fun token =>
        (token.kind, if token.kind = .duration then token.text else [])) =
      boundOutline (taken.map (·.text)) := by
  cases taken with
  | none => rfl
  | some token =>
      have hkind := h token rfl
      simp only [Option.toList_some, List.map_cons, List.map_nil, hkind, if_true, boundOutline,
        Option.map_some]

section Runs

variable {parser next : Parser GreenBuilder}

/-- The end of a range, which has a bound. -/
def rangeEnd (min max : Bool) : ParseM GreenBuilder Unit :=
  if (!min && !max) = true then errorAtCurrent "FORM-101" "expected a duration" else pure ()

/-- A range after its first bound. -/
def rangeRest (min : Bool) : ParseM GreenBuilder Unit :=
  expect .dotDot >>= fun _ => atKind .duration >>= fun max =>
    if max = true then bump >>= fun _ => rangeEnd min max else rangeEnd min max

theorem timingRange_eq : (timingRange : ParseM GreenBuilder Unit) =
    node .timingRange (atKind .duration >>= fun min =>
      if min = true then bump >>= fun _ => rangeRest min else rangeRest min) := rfl

theorem reports_rangeEnd (min max : Bool) : Reports (rangeEnd min max) :=
  Reports.ite (Reports.errorAtCurrent _ _) (Reports.pure _)

theorem reports_rangeRest (min : Bool) : Reports (rangeRest min) :=
  (Reports.expect _).bind fun _ => (Reports.atKind _).bind fun max =>
    Reports.ite (Reports.bump.bind fun _ => reports_rangeEnd min max) (reports_rangeEnd min max)

theorem reports_timingRange : Reports (timingRange : ParseM GreenBuilder Unit) := by
  rw [timingRange_eq]
  exact Reports.node _ ((Reports.atKind _).bind fun min =>
    Reports.ite (Reports.bump.bind fun _ => reports_rangeRest min) (reports_rangeRest min))

/-- The bounds of a range that is read without an error. -/
theorem timingRange_form (hvalid : parser.Valid) (hclear : parser.Clear)
    (h : Clean timingRange parser () next) :
    ∃ (trivia bounds : List Token) (min max : Option (List Char)),
      Parser.Added parser next (trivia ++ bounds)
        (trivia.map leaf ++ [.node .timingRange (bounds.map leaf)]) ∧
      significant trivia = [] ∧
      outline bounds = boundOutline min ++ [(.dotDot, [])] ++ boundOutline max ∧
      (min ≠ none ∨ max ≠ none) := by
  rw [timingRange_eq] at h
  rcases h.node ((Reports.atKind _).bind fun min => Reports.ite
    (Reports.bump.bind fun _ => reports_rangeRest min) (reports_rangeRest min)) with
    ⟨closed, hbody, hadded⟩
  rcases Clean.optional (f := fun min _ => rangeRest min) hbody fun min _ =>
    reports_rangeRest min with ⟨min, afterMin, hmin, htakesMin, hrest⟩
  have hvalidMin := htakesMin.valid (hvalid.started .timingRange)
  have hclearMin := htakesMin.clear (hclear.started .timingRange)
  rcases Clean.bind hrest (Reports.expect _) (fun _ => (Reports.atKind _).bind fun max =>
    Reports.ite (Reports.bump.bind fun _ => reports_rangeEnd _ max) (reports_rangeEnd _ max)) with
    ⟨_, afterDots, hdots, hrest⟩
  rcases hdots.expect_takes hvalidMin hclearMin with ⟨dots, hdotsKind, htakesDots⟩
  rcases Clean.optional (f := fun max _ => rangeEnd min.isSome max) hrest fun max _ =>
    reports_rangeEnd _ max with ⟨max, afterMax, hmax, htakesMax, hend⟩
  have hvalidMax := htakesMax.valid (htakesDots.valid hvalidMin)
  have hclearMax := htakesMax.clear (htakesDots.clear hclearMin)
  -- Without a bound the end of the range reports.
  have hbound : min ≠ none ∨ max ≠ none := by
    by_contra hnone
    rw [not_or, not_not, not_not] at hnone
    rw [hnone.1, hnone.2] at hend
    exact Clean.not_error hvalidMax hclearMax hend
  have hclosed : closed = afterMax := by
    cases hsome : min <;> cases hsome' : max
    · rcases hbound with hne | hne
      · exact absurd hsome hne
      · exact absurd hsome' hne
    all_goals
      rw [hsome, hsome'] at hend
      exact (Clean.pure hend).2
  rcases (htakesMin.trans htakesDots).trans htakesMax with ⟨bounds, hbounds, htaken⟩
  rw [← hclosed] at hbounds
  refine ⟨_, bounds, min.map (·.text), max.map (·.text), hadded _ _ hbounds,
    Parser.filter_trivia _, ?_, ?_⟩
  · rw [outline_takes htaken, List.map_append, List.map_append, outline_optional hmin,
      outline_optional hmax, List.map_singleton, hdotsKind]
    rfl
  · rcases hbound with hne | hne
    · exact .inl fun h => hne (Option.map_eq_none_iff.mp h)
    · exact .inr fun h => hne (Option.map_eq_none_iff.mp h)

/-- What stands in the brackets, up to the closing one. -/
def bracketed : ParseM GreenBuilder Unit :=
  bump >>= fun _ => timingRange >>= fun _ => expect .rBracket

/-- An annotation after its `@`. -/
def timingRest : ParseM GreenBuilder Unit :=
  atKind .duration >>= fun strict => if strict = true then bump else
    atKind .lBracket >>= fun open_ => if open_ = true then bracketed
      else errorAtCurrent "FORM-101" "expected a duration or `[`"

theorem timing_eq : (timing : ParseM GreenBuilder Unit) =
    node .timing (bump >>= fun _ => timingRest) := rfl

theorem reports_bracketed : Reports bracketed :=
  Reports.bump.bind fun _ => reports_timingRange.bind fun _ => Reports.expect _

theorem reports_timingRest : Reports timingRest :=
  (Reports.atKind _).bind fun _ => Reports.ite Reports.bump ((Reports.atKind _).bind fun _ =>
    Reports.ite reports_bracketed (Reports.errorAtCurrent _ _))

theorem bump_seen {kind : SyntaxKind} (hkind : kindAt parser.ahead 0 = some kind)
    (h : Clean bump parser () next) : ∃ token ∈ parser.ahead, token.kind = kind ∧
      Parser.Takes parser next [token] := by
  rcases exists_ahead hkind with ⟨token, rest, hahead, htoken⟩
  exact ⟨token, by rw [hahead]; exact List.mem_cons_self, htoken, h.bump hahead⟩

theorem timing_form (hvalid : parser.Valid) (htexts : ∀ token ∈ parser.ahead, token.text ≠ [])
    (hat : kindAt parser.ahead 0 = some .atSign) (h : Clean timing parser () next) :
    ∃ (form : Form) (trivia : List Token) (green : Green), form.Built green ∧
      Parser.Added parser next (trivia ++ green.leaves) (trivia.map leaf ++ [green]) := by
  rw [timing_eq] at h
  rcases h.node (Reports.bump.bind fun _ => reports_timingRest) with ⟨closed, hbody, hadded⟩
  rcases Clean.bind hbody Reports.bump fun _ => reports_timingRest with
    ⟨_, afterAt, hbump, hrest⟩
  have hahead := parser.ahead_started .timing
  rcases bump_seen (hahead ▸ hat) hbump with ⟨at_, hmem, hatKind, htakesAt⟩
  have hvalidAt := htakesAt.valid (hvalid.started .timing)
  -- The `@` has moved the cursor past every error there was.
  have hclearAt := htakesAt.clear_of_valid (htexts at_ (hahead ▸ hmem)) (hvalid.started .timing)
  have hstrict := Clean.atKind hrest
  by_cases hduration : kindAt afterAt.ahead 0 = some .duration
  · rw [decide_eq_true hduration] at hstrict
    rcases bump_seen hduration hstrict with ⟨period, -, hperiodKind, htakesPeriod⟩
    rcases htakesAt.trans htakesPeriod with ⟨inner, hinner, htaken⟩
    refine ⟨.strict period.text, parser.rest.takeWhile (·.kind.isTrivia),
      .node .timing (inner.map leaf), ⟨inner, rfl, ?_⟩, ?_⟩
    · rw [outline_takes htaken, List.singleton_append, List.map_cons, List.map_singleton, hatKind,
        hperiodKind]
      rfl
    · rw [Green.leaves, leavesAll_leaf]
      exact hadded _ _ hinner
  · rw [decide_eq_false hduration] at hstrict
    have hopen := Clean.atKind hstrict
    by_cases hbracket : kindAt afterAt.ahead 0 = some .lBracket
    · rw [decide_eq_true hbracket] at hopen
      rcases Clean.bind hopen Reports.bump (fun _ => reports_timingRange.bind fun _ =>
        Reports.expect _) with ⟨_, afterOpen, hbumpOpen, hrange⟩
      rcases bump_seen hbracket hbumpOpen with ⟨open_, -, hopenKind, htakesOpen⟩
      have hvalidOpen := htakesOpen.valid hvalidAt
      have hclearOpen := htakesOpen.clear hclearAt
      rcases Clean.bind hrange reports_timingRange (fun _ => Reports.expect _) with
        ⟨_, afterRange, hrange, hexpect⟩
      rcases timingRange_form hvalidOpen hclearOpen hrange with
        ⟨trivia, bounds, min, max, haddedRange, htrivia, hbounds, hbound⟩
      rcases hexpect.expect_takes (haddedRange.valid hvalidOpen) (haddedRange.clear hclearOpen)
        with ⟨close, hcloseKind, back, hback, hbackTaken⟩
      rcases htakesAt.trans htakesOpen with ⟨front, hfront, hfrontTaken⟩
      have hall := (hfront.trans haddedRange).trans hback
      refine ⟨.range min max, parser.rest.takeWhile (·.kind.isTrivia), .node .timing
          ((front ++ trivia).map leaf ++ .node .timingRange (bounds.map leaf) :: back.map leaf),
        ⟨front ++ trivia, bounds, back, rfl, ?_, hbounds, ?_, hbound⟩, ?_⟩
      · rw [outline_append, outline_takes hfrontTaken, List.singleton_append, List.map_cons,
          List.map_singleton, hatKind, hopenKind, outline_takes htrivia]
        rfl
      · rw [outline_takes hbackTaken, List.map_singleton, hcloseKind]
        rfl
      · have hnode : front.map leaf ++
            (trivia.map leaf ++ [.node .timingRange (bounds.map leaf)]) ++
            back.map leaf = (front ++ trivia).map leaf ++
              .node .timingRange (bounds.map leaf) :: back.map leaf := by
          rw [List.map_append, List.append_assoc, List.append_assoc, List.append_assoc,
            List.singleton_append]
        rw [hnode] at hall
        rw [Green.leaves, hall.leaves]
        exact hadded _ _ hall
    · rw [decide_eq_false hbracket] at hopen
      exact absurd hopen (Clean.not_error hvalidAt hclearAt)

end Runs

/-! ### Accepted annotations -/

/-- The annotation is one that the parser builds at an `@` of some text, without an
    error. -/
def Accepted (green : Green) : Prop :=
  ∃ (input : List Char) (profile : Profile) (parser next : Parser GreenBuilder),
    parser.Valid ∧ parser.tokens = lex input profile ∧
    kindAt parser.ahead 0 = some .atSign ∧ Clean timing parser () next ∧
    next.builder.children.getLast? = some green

theorem mem_outline {tokens : List Token} {text : List Char}
    (h : (SyntaxKind.duration, text) ∈ outline tokens) :
    ∃ token ∈ tokens, token.kind = .duration ∧ token.text = text := by
  rcases List.mem_map.mp h with ⟨token, htoken, heq⟩
  have hkind : token.kind = .duration := congrArg Prod.fst heq
  have htext := congrArg Prod.snd heq
  simp only [hkind, if_true] at htext
  exact ⟨token, List.mem_of_mem_filter htoken, hkind, htext⟩

theorem Form.mem_spelling {form : Form} {text : List Char}
    (h : form.min = some text ∨ form.max = some text) : (.duration, text) ∈ form.spelling := by
  cases form with
  | strict period =>
      have heq : period = text := by rcases h with h | h <;> exact Option.some.inj h
      rw [heq]
      simp [Form.spelling]
  | range min max =>
      rcases h with h | h
      · have hmin : min = some text := h
        simp [Form.spelling, boundOutline, hmin]
      · have hmax : max = some text := h
        simp [Form.spelling, boundOutline, hmax]

theorem Accepted.form {green : Green} (h : Accepted green) :
    ∃ form : Form, form.Built green ∧
      ∀ text, form.min = some text ∨ form.max = some text → IsDuration text := by
  rcases h with ⟨input, profile, parser, next, hvalid, htokens, hat, hclean, hlast⟩
  have hlex : ∀ token ∈ parser.rest, token ∈ lex input profile := fun token htoken =>
    htokens ▸ List.mem_of_mem_drop htoken
  rcases timing_form hvalid (fun token htoken => lex_ne_nil (hlex token
    (List.mem_of_mem_filter htoken))) hat hclean with ⟨form, trivia, built, hbuilt, hadded⟩
  have hgreen : built = green := by
    rw [hadded.eq] at hlast
    simpa using hlast
  subst hgreen
  refine ⟨form, hbuilt, fun text htext => ?_⟩
  have hmem := Form.mem_spelling htext
  rw [← hbuilt.outline_leaves] at hmem
  rcases mem_outline hmem with ⟨token, htoken, hkind, rfl⟩
  refine lex_duration (hlex token ?_) hkind
  rw [hadded.rest]
  exact List.mem_append_left _ (List.mem_append_right _ htoken)

/-! ### The parts of an accepted annotation -/

/-- What the outline says of a token. -/
def entry (token : Token) : SyntaxKind × List Char :=
  (token.kind, if token.kind = .duration then token.text else [])

theorem outline_cons (token : Token) (tokens : List Token) :
    outline (token :: tokens) =
      if token.kind.isTrivia then outline tokens else entry token :: outline tokens := by
  unfold outline significant
  by_cases htrivia : token.kind.isTrivia = true
  · rw [if_pos htrivia]
    simp [htrivia]
  · rw [if_neg htrivia]
    simp [htrivia, entry]

@[simp]
theorem entry_kind (token : Token) : (entry token).1 = token.kind := rfl

theorem find_outline {kind : SyntaxKind} (hkind : kind.isTrivia = false) (tokens : List Token) :
    (tokens.find? (fun token => token.kind = kind)).map entry =
      (outline tokens).find? (fun said => said.1 = kind) := by
  induction tokens with
  | nil => rfl
  | cons token tokens ih =>
      rw [outline_cons, List.find?_cons]
      by_cases heq : token.kind = kind
      · have htrivia : ¬ token.kind.isTrivia = true := by rw [heq, hkind]; exact Bool.false_ne_true
        rw [decide_eq_true heq, if_neg htrivia, List.find?_cons, entry_kind, decide_eq_true heq]
        rfl
      · rw [decide_eq_false heq]
        dsimp only
        rw [ih]
        split
        · rfl
        · rw [List.find?_cons, entry_kind, decide_eq_false heq]

/-- The first duration on one side of the `..`, by the outline. -/
def sideOf (afterDots seenDots : Bool) : List (SyntaxKind × List Char) → Option (List Char)
  | [] => none
  | said :: rest =>
      if said.1 = .dotDot then sideOf afterDots true rest
      else if said.1 = .duration ∧ seenDots = afterDots then some said.2
      else sideOf afterDots seenDots rest

theorem endpointFrom_outline (afterDots seenDots : Bool) (tokens : List SyntaxToken) :
    (TimingRange.endpointFrom afterDots seenDots tokens).map SyntaxToken.text =
      sideOf afterDots seenDots (outline (tokens.map (·.token))) := by
  induction tokens generalizing seenDots with
  | nil => rfl
  | cons token tokens ih =>
      have hkind : (entry token.token).1 = token.kind := rfl
      rw [List.map_cons, outline_cons, TimingRange.endpointFrom]
      by_cases hdots : token.kind = .dotDot
      · have htrivia : ¬ token.token.kind.isTrivia = true := by
          rw [show token.token.kind = .dotDot from hdots]; exact Bool.false_ne_true
        rw [if_pos hdots, if_neg htrivia, sideOf, hkind, if_pos hdots, ih]
      · rw [if_neg hdots]
        by_cases hduration : token.kind = .duration
        · have htrivia : ¬ token.token.kind.isTrivia = true := by
            rw [show token.token.kind = .duration from hduration]; exact Bool.false_ne_true
          have htext : (entry token.token).2 = token.text := if_pos hduration
          rw [if_neg htrivia, sideOf, hkind, if_neg hdots]
          by_cases hside : seenDots = afterDots
          · rw [if_pos ⟨hduration, hside⟩, if_pos ⟨hduration, hside⟩, htext, Option.map_some]
          · rw [if_neg fun h => hside h.2, if_neg fun h => hside h.2, ih]
        · rw [if_neg fun h => hduration h.1, ih]
          split
          · rfl
          · rw [sideOf, hkind, if_neg hdots, if_neg fun h => hduration h.1]

theorem supportToken_outline (kind : SyntaxKind) (hkind : kind.isTrivia = false)
    (node : SyntaxNode) :
    (supportToken node kind).map (fun token => entry token.token) =
      (outline (node.tokens.map (·.token))).find? (fun said => said.1 = kind) := by
  rw [← find_outline hkind, List.find?_map, Option.map_map]
  rfl

theorem hasToken_outline (kind : SyntaxKind) (hkind : kind.isTrivia = false) (node : SyntaxNode) :
    hasToken node kind =
      ((outline (node.tokens.map (·.token))).find? (fun said => said.1 = kind)).isSome := by
  rw [← supportToken_outline kind hkind, Option.isSome_map, supportToken, List.isSome_find?]
  rfl

theorem Form.Built.strict_parts {green : Green} {period : List Char}
    (h : (Form.strict period).Built green) (offset : Nat) :
    Annot.range ⟨green, offset⟩ = none ∧
      (Annot.duration ⟨green, offset⟩).map SyntaxToken.text = some period := by
  rcases h with ⟨inner, rfl, houtline⟩
  refine ⟨find_placed_leaf _ inner offset, ?_⟩
  have hfind := supportToken_outline .duration rfl
    ⟨.node .timing (inner.map leaf), offset⟩
  rw [tokens_node, filterMap_leaf, houtline] at hfind
  rcases Option.map_eq_some_iff.mp hfind with ⟨token, htoken, hentry⟩
  have hkind : token.token.kind = .duration := congrArg Prod.fst hentry
  have htext : (entry token.token).2 = token.text := if_pos hkind
  rw [Annot.duration, htoken, Option.map_some, ← htext, hentry]

/-- The parts of a range, which parsed whole. -/
theorem Form.Built.range_parts {green : Green} {min max : Option (List Char)}
    (h : (Form.range min max).Built green) (offset : Nat) :
    ∃ range, Annot.range ⟨green, offset⟩ = some range ∧
      (TimingRange.min range).map SyntaxToken.text = min ∧
      (TimingRange.max range).map SyntaxToken.text = max ∧
      hasToken range .dotDot = true ∧ hasToken ⟨green, offset⟩ .rBracket = true := by
  rcases h with ⟨front, bounds, back, rfl, hfront, hbounds, hback, -⟩
  rcases find_placed .timingRange (bounds.map leaf) front (back.map leaf)
    offset with ⟨offset', hrange⟩
  have htokens : (SyntaxNode.mk (.node .timingRange (bounds.map leaf)) offset').tokens.map
      (·.token) = bounds := by rw [tokens_node, filterMap_leaf]
  refine ⟨_, hrange, ?_, ?_, ?_, ?_⟩
  · rw [TimingRange.min, TimingRange.endpoint, endpointFrom_outline, htokens, hbounds]
    cases min <;> cases max <;> rfl
  · rw [TimingRange.max, TimingRange.endpoint, endpointFrom_outline, htokens, hbounds]
    cases min <;> cases max <;> rfl
  · rw [hasToken_outline _ rfl, htokens, hbounds]
    cases min <;> cases max <;> rfl
  · rw [hasToken_outline _ rfl, tokens_node, List.filterMap_append, List.filterMap_cons,
      filterMap_leaf, filterMap_leaf, asToken, outline_append, hfront, hback]
    rfl

end Timing

end Ridl
