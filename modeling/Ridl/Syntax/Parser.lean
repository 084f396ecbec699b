import Mathlib.Algebra.Ring.Nat
import Ridl.Library.Descent
import Ridl.Syntax.Green

/-!
# The State of the Parser

The recursive-descent parser has the tokens, a cursor that moves forward only,
the builder of the tree, and the errors so far. It decides by the significant
tokens ahead of the cursor, those that are not trivia. Trivia is attached to
the node that is open when the next node starts or the next significant token
is consumed.

An operation of the parser returns `none` where the parser panics. A loop of
the parser is given one iteration more than there are significant tokens
ahead, and is `none` where that is not enough.

## Main definitions

* `ParseM`: What reads and changes the state, and may panic.
-/

namespace Ridl

namespace Syntax

open Library.Descent

/-- A diagnostic of the parser, with the text range of the token it is about. -/
structure SyntaxError where
  message : String
  code : String
  start : Nat
  stop : Nat
deriving DecidableEq, Repr

/-- How many bytes a text takes. -/
def byteLen (text : List Char) : Nat := (text.map Char.utf8Size).sum

/-- The recursive-descent state. -/
structure Parser (σ : Type) where
  tokens : List Token
  /-- Where each token starts, and where the text ends. -/
  offsets : List Nat
  pos : Nat
  /-- How deep the cursor is nested: under types and values outside an expression, under
      expression nodes inside one. -/
  depth : Nat
  /-- Whether the expression being parsed has already been reported as too high. -/
  exprRefused : Bool
  profile : Profile
  builder : σ
  errors : List SyntaxError

/-- The deepest nesting of types, values and expressions that the parser follows. -/
def MAX_TYPE_DEPTH : Nat := 128

/-- Text positions are 32 bits wide. -/
def TEXT_SIZE : Nat := 2 ^ 32

section Offsets

/-- Where each of the tokens starts, the first at `acc`, and where the last one ends. -/
def offsetsFrom (acc : Nat) : List Token → List Nat
  | [] => [acc]
  | token :: tokens => acc :: offsetsFrom (acc + byteLen token.text) tokens

end Offsets

namespace Parser

variable {σ : Type} [GreenNodeBuilder σ]

def new (tokens : List Token) (profile : Profile) : Parser σ :=
  { tokens := tokens
    offsets := offsetsFrom 0 tokens
    pos := 0
    depth := 0
    exprRefused := false
    profile := profile
    builder := GreenNodeBuilder.new
    errors := [] }

/-- The tokens that are not consumed. -/
def rest (parser : Parser σ) : List Token := parser.tokens.drop parser.pos

/-- The significant tokens that are not consumed. -/
def ahead (parser : Parser σ) : List Token := parser.rest.filter (!·.kind.isTrivia)

/-- The index of the next significant token. -/
def significantPos (parser : Parser σ) : Nat :=
  parser.pos + (parser.rest.takeWhile (·.kind.isTrivia)).length

end Parser

abbrev ParseM (σ : Type) := StateT (Parser σ) Option

variable {σ : Type} [GreenNodeBuilder σ] {α β : Type}

section Cursor

/-- The kind of the next significant token, if the input does not end. -/
def current : ParseM σ (Option SyntaxKind) := do
  let parser ← get
  return (parser.tokens[parser.significantPos]?).map (·.kind)

/-- The kind of the `n`-th significant token ahead. -/
def nth (n : Nat) : ParseM σ (Option SyntaxKind) := do
  return ((← get).ahead[n]?).map (·.kind)

def atKind (kind : SyntaxKind) : ParseM σ Bool := do
  return (← current) = some kind

/-- The text of the next significant token, empty at the end of the input. -/
def currentText : ParseM σ String := do
  let parser ← get
  return ((parser.tokens[parser.significantPos]?).map (String.ofList ·.text)).getD ""

/-- The text of the `n`-th significant token ahead, empty past the end of the input. -/
def nthText (n : Nat) : ParseM σ String := do
  return (((← get).ahead[n]?).map (String.ofList ·.text)).getD ""

/-- The next significant token, where the caller has seen that there is one. -/
def currentToken : ParseM σ Token := do
  let parser ← get
  parser.tokens[parser.significantPos]?

def profile : ParseM σ Profile := return (← get).profile

end Cursor

section Loop

/-- A loop of the parser, each of whose iterations but the last consumes a significant token. -/
def loop (b : β) (body : β → ParseM σ (ForInStep β)) : ParseM σ β := do
  iterate body ((← get).ahead.length + 1) b

end Loop

section Consume

/-- Attaches the trivia at the cursor to the node that is open. -/
def eatTrivia : ParseM σ Unit :=
  modify fun parser =>
    let trivia := parser.rest.takeWhile (·.kind.isTrivia)
    { parser with
      builder :=
        trivia.foldl (fun builder token => GreenNodeBuilder.token builder token.kind token.text)
          parser.builder
      pos := parser.pos + trivia.length }

/-- Starts a node, after the trivia before it. -/
def start (kind : SyntaxKind) : ParseM σ Unit := do
  eatTrivia
  modify fun parser => { parser with builder := GreenNodeBuilder.startNode parser.builder kind }

def finishNode : ParseM σ Unit := do
  let parser ← get
  let builder ← (GreenNodeBuilder.finishNode parser.builder : Option σ)
  set { parser with builder := builder }

/-- A node around what `body` consumes. -/
def node (kind : SyntaxKind) (body : ParseM σ α) : ParseM σ α := do
  start kind
  let a ← body
  finishNode
  return a

def checkpoint : ParseM σ Nat := return GreenNodeBuilder.checkpoint (← get).builder

/-- A node around what was built since the checkpoint and what `body` consumes. -/
def nodeAt (checkpoint : Nat) (kind : SyntaxKind) (body : ParseM σ α) : ParseM σ α := do
  let parser ← get
  let builder ← (GreenNodeBuilder.startNodeAt parser.builder checkpoint kind : Option σ)
  set { parser with builder := builder }
  let a ← body
  finishNode
  return a

/-- Consumes one significant token, after the trivia before it. -/
def bump : ParseM σ Unit := do
  eatTrivia
  modify fun parser =>
    match parser.tokens[parser.pos]? with
    | some token =>
        { parser with
          builder := GreenNodeBuilder.token parser.builder token.kind token.text
          pos := parser.pos + 1 }
    | none => parser

/-- Consumes the significant token that the caller has seen, as a token of another kind. -/
def bumpAs (kind : SyntaxKind) : ParseM σ Unit := do
  eatTrivia
  let parser ← get
  let token ← (parser.tokens[parser.pos]? : Option Token)
  set
    { parser with
      builder := GreenNodeBuilder.token parser.builder kind token.text
      pos := parser.pos + 1 }

/-- One level deeper for `body`. -/
def deeper (body : ParseM σ α) : ParseM σ α := do
  modify fun parser => { parser with depth := parser.depth + 1 }
  let a ← body
  modify fun parser => { parser with depth := parser.depth - 1 }
  return a

end Consume

section Report

/-- Records an error at the next significant token, or at the end of the input, unless the last
    error is already there. The profile boundary TYPL-302 is recorded all the same. The range of
    the token has to fit the width of text positions. -/
def errorAtCurrent (code message : String) : ParseM σ Unit := do
  let parser ← get
  let i := parser.significantPos
  let offset ← (parser.offsets[i]? : Option Nat)
  let start := offset % TEXT_SIZE
  if code ≠ "TYPL-302" ∧ (parser.errors.getLast?).map (·.start) = some start then return
  let stop := ((parser.tokens[i]?).map fun token => start + byteLen token.text).getD start
  guard (stop < TEXT_SIZE)
  let error := { message := message, code := code, start := start, stop := stop : SyntaxError }
  set { parser with errors := parser.errors ++ [error] }

/-- Consumes the next token if it is of the kind, and reports it otherwise. -/
def expect (kind : SyntaxKind) : ParseM σ Unit := do
  if ← atKind kind then bump
  else errorAtCurrent "FORM-101" ("expected " ++ kind.debug)

/-- The code and the message for a token that does not belong where it is. -/
def unexpectedTokenDiag (context : String) : ParseM σ (String × String) := do
  let generic := ("FORM-102", "unexpected token " ++ context)
  if (← profile) = .typl then
    match ← current with
    | some .duration => return ("TYPL-302", "duration literal in typl context")
    | some .atSign => return ("TYPL-302", "timing annotation in typl context")
    | _ => return generic
  else return generic

/-- Consumes significant tokens while there is one that `more` accepts. -/
def bumpWhile (more : SyntaxKind → Bool) : ParseM σ Unit :=
  loop () fun _ => do
    match ← current with
    | none => return .done ()
    | some kind =>
        if more kind then
          bump
          return .yield ()
        else return .done ()

/-- Consumes the next token and those after it up to one that `isSync` accepts, into one node. -/
def recover (isSync : SyntaxKind → Bool) : ParseM σ Unit :=
  node .errorNode do
    bump
    bumpWhile (!isSync ·)

/-- Reports the next token and recovers from it. -/
def errAndRecover (context : String) (isSync : SyntaxKind → Bool) : ParseM σ Unit := do
  let (code, message) ← unexpectedTokenDiag context
  errorAtCurrent code message
  recover isSync

end Report

end Syntax

end Ridl
