import Ridl.Syntax.Parser

/-!
# Parsing Expressions

The expression grammar, one function for each level of precedence, the loosest
first: `||`, `&&`, comparison, sums, products, one prefix, member access. The
levels of binary operators but comparison associate to the left: each iteration
wraps the run so far in a new node from the same checkpoint. A comparison does
not chain.

Each function returns the height of the tree that it built, 0 when it built
none. A node is built only where it fits under `MAX_TYPE_DEPTH`. Past the limit
an expression is reported once, and the rest of its group goes flat into an
error node.
-/

namespace Ridl

namespace Syntax

variable {σ : Type} [GreenNodeBuilder σ]

section Kinds

/-- Whether a kind starts a top-level construct, where recovery stops. -/
def isTopLevelStart : SyntaxKind → Bool
  | .packageKw | .importKw | .internalKw | .errorKw | .typeKw | .constKw | .structKw | .enumKw
  | .enumsetKw | .unionKw | .interfaceKw | .serviceKw | .systemKw | .componentKw
  | .distributionKw | .deploymentKw => true
  | _ => false

/-- Whether a kind starts an interaction inside an interface body. -/
def isInteractionStart : SyntaxKind → Bool
  | .signalKw | .eventKw | .commandKw | .queryKw | .fixedKw => true
  | _ => false

/-- What ends an expression wherever it stands. -/
def endsExpr : SyntaxKind → Bool
  | .rBracket | .comma | .lBrace | .rBrace | .requireKw | .ensureKw | .reservedWord => true
  | _ => false

/-- The last token of an operand. -/
def endsOperand : SyntaxKind → Bool
  | .ident | .intNumber | .floatNumber | .string | .trueKw | .falseKw | .duration | .rParen => true
  | _ => false

def isComparison : SyntaxKind → Bool
  | .eqEq | .neq | .lt | .le | .gt | .ge => true
  | _ => false

def isSum : SyntaxKind → Bool
  | .plus | .minus => true
  | _ => false

def isProduct : SyntaxKind → Bool
  | .star | .slash | .percent => true
  | _ => false

def isPrefix : SyntaxKind → Bool
  | .bang | .minus => true
  | _ => false

/-- The literals of an expression. -/
def isExprLiteral : SyntaxKind → Bool
  | .intNumber | .floatNumber | .string | .trueKw | .falseKw | .duration => true
  | _ => false

end Kinds

/-- Reports the expression, unless it was reported before. -/
def refuseExpr : ParseM σ Unit := do
  if !(← get).exprRefused then
    modify fun parser => { parser with exprRefused := true }
    errorAtCurrent "FORM-102"
      ("expression nesting deeper than " ++ toString MAX_TYPE_DEPTH ++
        " levels (each operator, member access, parenthesised group and prefix nests one level)")

/-- Whether an expression node of this height fits at the current depth. -/
def exprFits (height : Nat) : ParseM σ Bool := do
  if (← get).depth + height ≤ MAX_TYPE_DEPTH then return true
  refuseExpr
  return false

/-- Consumes the rest of the current level of an expression: up to the parenthesis that closes the
    group around it, what ends an expression, a token that starts another construct, or an
    identifier right after an operand. A group that opens inside is consumed to its own end. -/
def skipExprTokens : ParseM σ Unit := do
  let _ ← loop (0, false) fun (opened, afterOperand) => do
    match ← current with
    | none => return .done (opened, afterOperand)
    | some kind =>
        if endsExpr kind then return .done (opened, afterOperand)
        else if kind = .rParen ∧ opened = 0 then return .done (opened, afterOperand)
        else if kind = .ident ∧ afterOperand then return .done (opened, afterOperand)
        else if isInteractionStart kind || isTopLevelStart kind then
          return .done (opened, afterOperand)
        else
          let opened :=
            if kind = .rParen then opened - 1
            else if kind = .lParen then opened + 1
            else opened
          bump
          return .yield (opened, endsOperand kind)

/-- The rest of the current level of an expression, flat in an error node. -/
def skipExprRest : ParseM σ Unit := node .errorNode skipExprTokens

/-- An integer with leading zeros is one token, and reported here. -/
def flagLeadingZeros : ParseM σ Unit := do
  let token ← currentToken
  if 1 < byteLen token.text ∧ token.text.head? = some '0' then
    errorAtCurrent "FORM-005" "integer literal has leading zeros"

/-- Operands with operators between them, each operator around all that is before it. -/
def chain (isOp : SyntaxKind → Bool) (operand : ParseM σ Nat) : ParseM σ Nat := do
  eatTrivia
  let checkpoint ← checkpoint
  let height ← operand
  loop height fun height => do
    if (← current).any isOp then
      -- A missing left operand has height 0, and the wrap still holds the right one.
      if ← exprFits (max height 1 + 1) then
        let rhs ← nodeAt checkpoint .binaryExpr do
          bump
          deeper operand
        return .yield (1 + max height rhs)
      else
        skipExprRest
        return .done height
    else return .done height

/-- A literal, a path, or a group around an expression. -/
def primary (orExpr : ParseM σ Nat) : ParseM σ Nat := do
  match ← current with
  | none =>
      errorAtCurrent "FORM-101" "expected an expression"
      return 0
  | some kind =>
      if isExprLiteral kind then
        node .literalExpr do
          if ← atKind .intNumber then flagLeadingZeros
          bump
        return 1
      else if kind = .ident then
        node .pathExpr bump
        return 1
      else if kind = .lParen then
        if ← exprFits 2 then
          let inner ← node .parenExpr do
            bump
            let inner ← deeper orExpr
            expect .rParen
            return inner
          return 1 + inner
        else
          node .errorNode do
            bump
            skipExprTokens
            if ← atKind .rParen then bump
          return 1
      else
        errorAtCurrent "FORM-101" "expected an expression"
        return 0

/-- A primary and the members that are named after it. -/
def postfixExpr (orExpr : ParseM σ Nat) : ParseM σ Nat := do
  eatTrivia
  let checkpoint ← checkpoint
  let height ← primary orExpr
  loop height fun height => do
    if ← atKind .dot then
      if ← exprFits (height + 1) then
        nodeAt checkpoint .memberExpr do
          bump
          if ← atKind .ident then bump
          else errorAtCurrent "FORM-101" "expected a member name"
        return .yield (height + 1)
      else
        skipExprRest
        return .done height
    else return .done height

/-- At most one prefix. -/
def unaryExpr (orExpr : ParseM σ Nat) : ParseM σ Nat := do
  if (← current).any isPrefix then
    if ← exprFits 2 then
      let operand ← node .prefixExpr do
        bump
        deeper (postfixExpr orExpr)
      return 1 + operand
    else
      skipExprRest
      return 1
  else postfixExpr orExpr

def mulExpr (orExpr : ParseM σ Nat) : ParseM σ Nat := chain isProduct (unaryExpr orExpr)

def addExpr (orExpr : ParseM σ Nat) : ParseM σ Nat := chain isSum (mulExpr orExpr)

/-- At most one comparison. A second comparison operator is left to what is around. -/
def cmpExpr (orExpr : ParseM σ Nat) : ParseM σ Nat := do
  eatTrivia
  let checkpoint ← checkpoint
  let height ← addExpr orExpr
  if (← current).any isComparison then
    if ← exprFits (max height 1 + 1) then
      let rhs ← nodeAt checkpoint .binaryExpr do
        bump
        deeper (addExpr orExpr)
      return 1 + max height rhs
    else
      skipExprRest
      return height
  else return height

def andExpr (orExpr : ParseM σ Nat) : ParseM σ Nat := chain (· = .ampAmp) (cmpExpr orExpr)

/-- An expression, in groups that are nested less deep than `fuel`. -/
def orExpr : Nat → ParseM σ Nat
  | 0 => failure
  | fuel + 1 => chain (· = .pipePipe) (andExpr (orExpr fuel))

/-- The expression of a predicate. -/
def expr : ParseM σ Unit := do
  modify fun parser => { parser with exprRefused := false }
  let _ ← orExpr (MAX_TYPE_DEPTH + 1)

end Syntax

end Ridl
