import Ridl.Syntax.Productions

/-!
# The Parser Loses Nothing

Parsing a text ends, whatever the text is. Every token of the text is a leaf of
the tree, once and in order, so the text of the tree is the text that was
parsed. The errors are in the order of their positions, and errors of the
profile boundary apart, there is at most one at a position.

Positions are 32 bits wide, so this is so for a text of less than 4 GiB. In a
longer one an error past that size is reported at a position that has wrapped
around.

## Theorems

* `sourceFile_run`: A file is parsed to its end.
* `parse_lossless`: The tree has the tokens of the text, and the errors are in order.
* `wideText_out_of_order`: Errors out of order in a text that is too long.
-/

namespace Ridl

namespace Syntax

open Library.Descent

section Lossless

variable {σ : Type} [GreenNodeBuilder σ]

theorem textOf_attached {leaves tokens : List Token} (h : List.Forall₂ Attached leaves tokens) :
    textOf leaves = textOf tokens := by
  induction h with
  | nil => rfl
  | cons hattached _ ih => rw [textOf_cons, textOf_cons, hattached.1, ih]

/-- The state before the file, in the node of the file. -/
def opened (tokens : List Token) (profile : Profile) : Parser σ :=
  (Parser.new tokens profile).building
    (GreenNodeBuilder.startNode (GreenNodeBuilder.new : σ) .sourceFile)

theorem opened_valid (tokens : List Token) (profile : Profile)
    (hshort : byteLen (textOf tokens) < TEXT_SIZE) :
    (opened tokens profile : Parser σ).Valid where
  placed := Nat.zero_le _
  offsets := rfl
  short := hshort
  sorted := List.Pairwise.nil
  passed := nofun
  single := List.Pairwise.nil

theorem opened_founded (tokens : List Token) (profile : Profile) :
    (opened tokens profile : Parser σ).Founded 0 := by
  refine ⟨Nat.zero_le _, fun first hfirst => ?_⟩
  simp only [opened, Parser.building, GreenNodeBuilder.parents_startNode,
    GreenNodeBuilder.children_new] at hfirst
  exact Nat.le_of_eq (Option.some.inj hfirst).symm

theorem sourceFile_run (tokens : List Token) (profile : Profile)
    (hshort : byteLen (textOf tokens) < TEXT_SIZE) :
    ∃ parsed : Parser σ, sourceFile.run (Parser.new tokens profile) = some ((), parsed) ∧
      parsed.Valid ∧
      ∃ tree, GreenNodeBuilder.finish parsed.builder = some tree ∧
        List.Forall₂ Attached (GreenNodeBuilder.leaves tree) tokens := by
  have hroom : roomy (opened tokens profile : Parser σ).depth :=
    ⟨Nat.zero_le _, by simp [opened, Parser.building, Parser.new]⟩
  have hbody : Parses roomy 0 Any Plain
      (sourceFileHead >>= fun _ => sourceFileItems : ParseM σ Unit) :=
    sourceFileHead_parses.bind fun _ => sourceFileItems_parses
  rcases hbody _ ⟨opened_valid tokens profile hshort, opened_founded tokens profile⟩ hroom trivial
    with ⟨_, closed, hrun, ⟨hclosed, -⟩, hstep, -⟩
  rcases bind_eq_some hrun with ⟨_, headed, hhead, hitems⟩
  have hrest := sourceFileItems_rest hitems
  have hparents : GreenNodeBuilder.parents closed.builder = [0] := by
    rw [hstep.parents]
    simp [opened, Parser.building, Parser.new, GreenNodeBuilder.parents_startNode,
      GreenNodeBuilder.children_new, GreenNodeBuilder.parents_new]
  rcases finishNode_eq hparents (Nat.zero_le _) with
    ⟨finished, hfinish, hfinishNode, hchildren, hparents'⟩
  have hsingle : GreenNodeBuilder.children finished = [closed.leaves] := by
    rw [hchildren]
    rfl
  rcases GreenNodeBuilder.finish_eq _ _ _ hfinish hparents' hsingle with ⟨tree, htree, hleaves⟩
  refine ⟨closed.building finished, ?_, hclosed.building finished, tree, htree, ?_⟩
  · have hunfold : sourceFile.run (Parser.new tokens profile : Parser σ)
        = (sourceFileHead (opened tokens profile)).bind fun result =>
            (sourceFileItems result.2).bind fun result => finishNode result.2 := rfl
    rw [hunfold, hhead]
    change (sourceFileItems headed).bind _ = _
    rw [hitems]
    exact hfinishNode
  · rcases hstep.attached with ⟨consumed, new, hconsumed, -, hnew, hattached⟩
    have hopened : (opened tokens profile : Parser σ).leaves = [] := by
      simp [Parser.leaves, opened, Parser.building, GreenNodeBuilder.children_startNode,
        GreenNodeBuilder.children_new]
    have htokens : tokens = consumed := by
      rw [hrest, List.append_nil] at hconsumed
      exact hconsumed
    rw [hleaves, hnew, hopened, htokens]
    exact hattached

/-- Parsing a text loses nothing. The tokens of the text concatenate to it, and, of a text of less
    than 4 GiB, they are the leaves of the tree, each once and in order. The errors start in order,
    and errors of the profile boundary apart, no two start at one place. -/
theorem parse_lossless (σ : Type) [GreenNodeBuilder σ] (input : List Char) (profile : Profile) :
    textOf (lex input profile) = input ∧
      (byteLen input < TEXT_SIZE →
        ∃ result, parse σ input profile = some result ∧
          List.Forall₂ Attached (GreenNodeBuilder.leaves result.green) (lex input profile) ∧
          textOf (GreenNodeBuilder.leaves result.green) = input ∧
          result.errors.Pairwise (fun a b => a.start ≤ b.start) ∧
          (result.errors.filter (·.code ≠ "TYPL-302")).Pairwise fun a b => a.start < b.start) := by
  refine ⟨lex_text input profile, fun hshort => ?_⟩
  have hshort' : byteLen (textOf (lex input profile)) < TEXT_SIZE := by rwa [lex_text]
  rcases sourceFile_run (σ := σ) (lex input profile) profile hshort' with
    ⟨parsed, hrun, hvalid, tree, htree, hattached⟩
  refine ⟨{ green := tree, errors := parsed.errors }, ?_, hattached, ?_, hvalid.sorted,
    hvalid.single⟩
  · rw [parse, hrun]
    change (GreenNodeBuilder.finish parsed.builder).bind _ = _
    rw [htree]
    rfl
  · rw [textOf_attached hattached, lex_text]

/-- The parse of a text with an error at its end. -/
theorem parse_lossless_broken :
    ∃ result, parse GreenBuilder "package a\ntype".toList .typl = some result ∧
      textOf (GreenNodeBuilder.leaves result.green) = "package a\ntype".toList := by
  rcases (parse_lossless GreenBuilder "package a\ntype".toList .typl).2 (by decide) with
    ⟨result, hparse, -, htext, -⟩
  exact ⟨result, hparse, htext⟩

-- A duration in a typl file is reported for what it is besides the missing backing type.
example :
    ((parse GreenBuilder "package a\ntype A : 10ms".toList .typl).map fun result =>
      result.errors.map fun error => (error.code, error.start))
      = some [("FORM-101", 19), ("TYPL-302", 19)] := by
  decide +kernel

end Lossless

section Wide

/-- A text without a package, with a definition that is cut short by the end of the text. -/
def spacedText (n : Nat) : List Char :=
  ' ' :: '=' :: (List.replicate (n + 1) ' ' ++ ['t', 'y', 'p', 'e'])

/-- Such a text of 4 GiB. -/
def wideText : List Char := spacedText 4294967289

/-- The tokens of such a text. -/
def spacedTokens (n : Nat) : List Token :=
  [{ kind := .whitespace, text := [' '] }, { kind := .eq, text := ['='] },
    { kind := .whitespace, text := List.replicate (n + 1) ' ' },
    { kind := .typeKw, text := ['t', 'y', 'p', 'e'] }]

theorem takeWhile_blanks (n : Nat) (rest : List Char) :
    (List.replicate n ' ' ++ 't' :: rest).takeWhile isBlank = List.replicate n ' ' := by
  induction n with
  | zero => rfl
  | succ n ih =>
      rw [List.replicate_succ, List.cons_append, List.takeWhile_cons_of_pos (by decide), ih]

theorem nextRaw_blanks (prev : Option Token) (n : Nat) :
    nextRaw prev ' ' (List.replicate n ' ' ++ ['t', 'y', 'p', 'e'])
      = { kind := .whitespace, text := List.replicate (n + 1) ' ' } := by
  have hraw (rest : List Char) :
      rawToken ' ' rest = (.whitespace, (rest.takeWhile isBlank).length) := rfl
  simp [nextRaw, hraw, takeWhile_blanks, List.replicate_succ]

theorem lex_spacedText (n : Nat) : lex (spacedText n) .typl = spacedTokens n := by
  have hraws : rawTokens (spacedText n)
      = [{ kind := .whitespace, text := [' '] }, { kind := .eq, text := ['='] },
        { kind := .whitespace, text := List.replicate (n + 1) ' ' },
        { kind := .ident, text := ['t', 'y', 'p', 'e'] }] := by
    have hlength : (spacedText n).length = n + 7 := by simp [spacedText]
    have hfirst (rest : List Char) : nextRaw none ' ' ('=' :: rest)
        = { kind := .whitespace, text := [' '] } := rfl
    have hsecond (rest : List Char) : nextRaw none '=' (' ' :: rest)
        = { kind := .eq, text := ['='] } := rfl
    rw [rawTokens, hlength, spacedText, List.replicate_succ, List.cons_append]
    simp [rawTokensFrom, hfirst, hsecond, nextRaw_blanks, SyntaxKind.isTrivia]
    exact ⟨List.replicate_succ, rfl, rfl⟩
  rw [lex, hraws]
  rfl

theorem byteLen_blanks (n : Nat) : byteLen (List.replicate n ' ') = n := by
  induction n with
  | zero => rfl
  | succ n ih =>
      rw [List.replicate_succ, byteLen, List.map_cons, List.sum_cons]
      change 1 + byteLen (List.replicate n ' ') = n + 1
      rw [ih, Nat.add_comm]

/-- The parser before such a text, with the offsets of its tokens. -/
def spacedParser (n : Nat) : Parser GreenBuilder :=
  { (Parser.new (spacedTokens n) .typl : Parser GreenBuilder) with
    offsets := [0, 1, 2, n + 3, n + 7] }

theorem new_spacedTokens (n : Nat) : Parser.new (spacedTokens n) .typl = spacedParser n := by
  have hoffsets : offsetsFrom 0 (spacedTokens n) = [0, 1, 2, n + 3, n + 7] := by
    have hblanks := byteLen_blanks (n + 1)
    simp only [spacedTokens, offsetsFrom, hblanks]
    change [0, 1, 2, 2 + (n + 1), 2 + (n + 1) + 4] = _
    rw [show 2 + (n + 1) = n + 3 by omega]
  rw [spacedParser, ← hoffsets]
  rfl

theorem wideText_errors :
    (sourceFile.run (spacedParser 4294967289)).map (fun result =>
      ((GreenNodeBuilder.finish result.2.builder).isSome, result.2.errors.map (·.start)))
      = some (true, [1, 0]) := by
  decide +kernel

/-- In a text of 4 GiB the position of an error at its end wraps around, and comes before the
    position of an error that was reported earlier. -/
theorem wideText_out_of_order :
    ∃ result, parse GreenBuilder wideText .typl = some result ∧
      ¬ result.errors.Pairwise fun a b => a.start ≤ b.start := by
  rcases Option.map_eq_some_iff.1 wideText_errors with ⟨result, hrun, hresult⟩
  have hfinish := congrArg Prod.fst hresult
  have herrors := congrArg Prod.snd hresult
  rcases Option.isSome_iff_exists.1 hfinish with ⟨tree, htree⟩
  refine ⟨{ green := tree, errors := result.2.errors }, ?_, fun hsorted => ?_⟩
  · rw [parse, wideText, lex_spacedText, new_spacedTokens, hrun]
    change (GreenNodeBuilder.finish result.2.builder).bind _ = _
    rw [htree]
    rfl
  · have hstarts : (result.2.errors.map (·.start)).Pairwise (· ≤ ·) := List.pairwise_map.2 hsorted
    have hdecreasing : result.2.errors.map (·.start) = [1, 0] := herrors
    rw [hdecreasing] at hstarts
    revert hstarts
    decide

end Wide

end Syntax

end Ridl
