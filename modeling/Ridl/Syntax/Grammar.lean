import Ridl.Syntax.Expression

/-!
# Parsing a File

The productions of the grammar family under its three profiles, with recovery.
The loops over the items of a body, a list or a file each consume a significant
token or end: an item starts with a token that its loop has looked at, and what
starts no item is skipped up to the next token where the loop can go on.

A few productions are used under another word in front of them, and take what
differs as a parameter: the name of the enclosing construct, what a line of a
body is, whether `reserved` entries are admitted.

## Main definitions

* `constraint`: A constraint, which is a range or a bound of lengths.
* `attrBlock`: The attributes of an interaction.
-/

namespace Ridl

namespace Syntax

open Library.Descent

variable {σ : Type} [GreenNodeBuilder σ]

section Kinds

/-- Whether a kind can be the value token of a literal. -/
def isValueToken : SyntaxKind → Bool
  | .intNumber | .floatNumber | .string | .trueKw | .falseKw | .regex | .ident => true
  | _ => false

/-- How a message names the literal that a tombstone refused. -/
def ungrammaticalReservedNoun : SyntaxKind → String
  | .floatNumber => "a floating-point literal"
  | .string => "a string literal"
  | .trueKw | .falseKw => "a boolean literal"
  | .regex => "a regex literal"
  | .ident => "a constant reference"
  | _ => "a literal of that shape"

/-- Whether a kind starts a declaration of the rsdl profile. -/
def isRsdlDeclarationStart : SyntaxKind → Bool
  | .systemKw | .componentKw | .distributionKw | .deploymentKw | .machineKw => true
  | _ => false

def isPrimitive : SyntaxKind → Bool
  | .booleanKw | .integerKw | .floatKw | .stringKw | .bytesKw => true
  | _ => false

/-- The backings whose constraints bound a length. -/
def isStringish : SyntaxKind → Bool
  | .stringKw | .bytesKw => true
  | _ => false

/-- Primitive keywords can be segments of a path too. -/
def isPathSegment (kind : SyntaxKind) : Bool := kind = .ident || isPrimitive kind

def isUnitPart : SyntaxKind → Bool
  | .ident | .slash | .dot | .percent => true
  | _ => false

def isModifier : SyntaxKind → Bool
  | .internalKw | .errorKw => true
  | _ => false

def isTyplDefinitionStart : SyntaxKind → Bool
  | .typeKw | .constKw | .structKw | .enumKw | .enumsetKw | .unionKw => true
  | _ => false

/-- What starts a definition at the top level, its modifiers among it. -/
def isDefinitionStart (kind : SyntaxKind) : Bool :=
  isModifier kind || isTyplDefinitionStart kind || kind = .interfaceKw

def isAttributeStart : SyntaxKind → Bool
  | .ident | .requireKw | .ensureKw | .reservedWord => true
  | _ => false

/-- Where the members of an interface body begin or end. -/
def isInterfaceSync (kind : SyntaxKind) : Bool :=
  kind = .rBrace || kind = .comma || kind = .reservedKw || isInteractionStart kind ||
    isTopLevelStart kind

/-- Where recovery from a rejected return type stops. -/
def isReturnSync (kind : SyntaxKind) : Bool :=
  kind = .rBrace || kind = .comma || kind = .reservedKw || kind = .atSign ||
    isInteractionStart kind || isTopLevelStart kind

/-- Where a list inside an interaction is unclosed. -/
def isListBoundary (kind : SyntaxKind) : Bool :=
  kind = .rBrace || isInteractionStart kind || isTopLevelStart kind

end Kinds

section Names

/-- A declared name. A reserved word is held in an error node, so that the rest of the declaration
    is still parsed. -/
def name : ParseM σ Unit := do
  if ← atKind .ident then node .name bump
  else if ← atKind .reservedWord then
    let token ← currentToken
    errorAtCurrent "FORM-105"
      ("reserved word `" ++ String.ofList token.text ++ "` used as identifier")
    node .errorNode bump
  else errorAtCurrent "FORM-101" "expected a name"

def atPathSegment : ParseM σ Bool := do
  return (← current).any isPathSegment

def qualifiedName : ParseM σ Unit := do
  if ← atPathSegment then
    node .qualifiedName do
      bump
      loop () fun _ => do
        if ← atKind .dot then
          bump
          if ← atPathSegment then
            bump
            return .yield ()
          else
            errorAtCurrent "FORM-101" "expected a name after `.`"
            return .done ()
        else return .done ()
  else errorAtCurrent "FORM-101" "expected a name"

def pathType : ParseM σ Unit := do
  if ← atPathSegment then node .pathType qualifiedName
  else errorAtCurrent "FORM-101" "expected a type name"

def dottedName : ParseM σ Unit :=
  node .dottedName do
    if ← atKind .ident then
      bump
      loop () fun _ => do
        if ← atKind .dot then
          bump
          if ← atKind .ident then
            bump
            return .yield ()
          else
            errorAtCurrent "FORM-101" "expected a name segment after `.`"
            return .done ()
        else return .done ()
    else errorAtCurrent "FORM-101" "expected a service name"

/-- A reference of the rsdl profile. -/
def reference : ParseM σ Unit := do
  if ← atPathSegment then node .reference qualifiedName
  else errorAtCurrent "FORM-101" "expected a reference"

end Names

section Literals

/-- How many significant tokens the literal has that starts at the `n`-th one, 0 where none
    does. -/
def literalLenAt (n : Nat) : ParseM σ Nat := do
  match ← nth n with
  | some .minus => return if (← nth (n + 1)).any isValueToken then 2 else 0
  | some kind => return if isValueToken kind then 1 else 0
  | none => return 0

/-- The value token of the literal that starts at the `n`-th significant token. -/
def literalValueKindAt (n : Nat) : ParseM σ (Option SyntaxKind) := do
  match ← nth n with
  | some .minus => return (← nth (n + 1)).filter isValueToken
  | some kind => return if isValueToken kind then some kind else none
  | none => return none

def literalIsFloatAt (n : Nat) : ParseM σ Bool := do
  match ← nth n with
  | some .floatNumber => return true
  | some .minus => return (← nth (n + 1)) = some .floatNumber
  | _ => return false

/-- A literal. A duration is the profile boundary in a typl file. -/
def literal : ParseM σ Unit := do
  if (← profile) = .typl ∧ (← atKind .duration) then
    errorAtCurrent "TYPL-302" "duration literal in typl context"
    node .errorNode bump
  else if (← literalLenAt 0) = 0 then errorAtCurrent "FORM-101" "expected a value"
  else
    node .literal do
      if ← atKind .minus then bump
      if ← atKind .intNumber then flagLeadingZeros
      bump

def initValueOpt : ParseM σ Unit := do
  if ← atKind .eq then
    node .initValue do
      bump
      literal

def stepOpt : ParseM σ Unit := do
  if ← atKind .stepKw then
    bump
    literal

def matchOpt : ParseM σ Unit := do
  if ← atKind .matchKw then
    bump
    literal

def bound : ParseM σ Unit := do
  if (← literalLenAt 0) = 0 then errorAtCurrent "FORM-101" "expected a bound"
  else
    node .bound do
      literal
      if ← atKind .dotDot then
        bump
        literal

/-- A constraint that starts with a literal: a bound of lengths, or a scalar range. -/
def constraintLedByLiteral (stringish : Bool) : ParseM σ Unit := do
  let firstLen ← literalLenAt 0
  match ← nth firstLen with
  | some .dotDot =>
      let secondLen ← literalLenAt (firstLen + 1)
      let afterSecond ← nth (firstLen + 1 + secondLen)
      let boundShape :=
        stringish && secondLen > 0 && !(← literalIsFloatAt 0) &&
          !(← literalIsFloatAt (firstLen + 1)) &&
          (afterSecond = some .rBracket || afterSecond = some .matchKw || afterSecond = none)
      if boundShape then
        bound
        matchOpt
      else
        literal
        bump
        if 0 < (← literalLenAt 0) then literal
        stepOpt
  -- A single literal is a length, and what follows it is checked at the closing bracket.
  | _ =>
      bound
      matchOpt

def constraintBody (stringish : Bool) : ParseM σ Unit := do
  match ← current with
  | some .matchKw =>
      bump
      literal
  | some .dotDot =>
      bump
      literal
      stepOpt
  | _ =>
      if 0 < (← literalLenAt 0) then constraintLedByLiteral stringish
      else errorAtCurrent "FORM-101" "expected a constraint"

def constraint (stringish : Bool) : ParseM σ Unit :=
  node .constraint do
    bump
    constraintBody stringish
    expect .rBracket

def reservedEntry : ParseM σ Unit :=
  node .reservedEntry do
    bump
    if ← atKind .ident then name
    else
      match ← literalValueKindAt 0 with
      | some kind =>
          if kind = .intNumber then literal
          else
            node .errorNode do
              -- The sign is not what makes the literal ungrammatical.
              if ← atKind .minus then bump
              errorAtCurrent "FORM-102"
                ("a `reserved` tombstone takes a retired member name or a retired integer " ++
                  "value, not " ++ ungrammaticalReservedNoun kind)
              bump
      | none => errorAtCurrent "FORM-101" "expected a name or an integer value"

end Literals

section Types

def streamType : ParseM σ Unit :=
  node .streamType do
    bump
    if (← current).any isStringish ∧ (← nth 1) = some .gt then bump
    else if ← atPathSegment then pathType
    else errorAtCurrent "FORM-101" "expected an element type"
    expect .gt

def tupleField (fieldType : ParseM σ Unit) : ParseM σ Unit :=
  node .tupleField do
    name
    expect .colon
    fieldType

def tupleType (fieldType : ParseM σ Unit) : ParseM σ Unit :=
  node .tupleType do
    bump
    loop () fun _ => do
      eatTrivia
      match ← current with
      | none =>
          errorAtCurrent "FORM-103" "unclosed `(`"
          return .done ()
      | some kind =>
          if kind = .rParen then
            bump
            return .done ()
          else if kind = .comma then
            bump
            return .yield ()
          else if kind = .ident then
            tupleField fieldType
            return .yield ()
          -- The tuple ran into the end of a block or the next declaration.
          else if kind = .rBrace || isTopLevelStart kind then
            errorAtCurrent "FORM-103" "unclosed `(`"
            return .done ()
          else
            errAndRecover "in a tuple type" fun kind =>
              kind = .rParen || kind = .comma || kind = .ident || kind = .rBrace ||
                isTopLevelStart kind
            return .yield ()

/-- An array or a map, by the token after the first type. -/
def arrayOrMap (fieldType : ParseM σ Unit) (checkpoint : Nat) : ParseM σ Unit := do
  let bounded := do
    expect .semicolon
    bound
    expect .rBracket
  bump
  fieldType
  if ← atKind .colon then
    nodeAt checkpoint .mapType do
      bump
      fieldType
      bounded
  else nodeAt checkpoint .arrayType bounded

/-- The `?` after a type, each around all that is before it. Past the limit they go flat into an
    error node. -/
def optionalWraps (checkpoint : Nat) : ParseM σ Unit := do
  let _ ← loop 0 fun wraps => do
    if ← atKind .question then
      if wraps < MAX_TYPE_DEPTH then
        nodeAt checkpoint .optionalType bump
        return .yield (wraps + 1)
      else
        errorAtCurrent "FORM-102"
          ("type nesting deeper than " ++ toString MAX_TYPE_DEPTH ++ " levels")
        node .errorNode (bumpWhile (· = .question))
        return .done wraps
    else return .done wraps

def fieldTypeInner (fieldType : ParseM σ Unit) : ParseM σ Unit := do
  eatTrivia
  let checkpoint ← checkpoint
  match ← current with
  | none => errorAtCurrent "FORM-101" "expected a type"
  | some kind =>
      if isPrimitive kind then
        node .primitiveType do
          bump
          if ← atKind .lBracket then constraint (isStringish kind)
        optionalWraps checkpoint
      else if kind = .ident then
        pathType
        optionalWraps checkpoint
      else if kind = .lParen then
        tupleType fieldType
        optionalWraps checkpoint
      else if kind = .lBracket then
        arrayOrMap fieldType checkpoint
        optionalWraps checkpoint
      else if kind = .lt then
        if (← profile) = .typl then errorAtCurrent "TYPL-301" "stream type in typl context"
        streamType
        optionalWraps checkpoint
      else errorAtCurrent "FORM-101" "expected a type"

/-- A type that is nested less deep than `fuel`. -/
def fieldTypeAt : Nat → ParseM σ Unit
  | 0 => failure
  | fuel + 1 => do
      if (← get).depth < MAX_TYPE_DEPTH then deeper (fieldTypeInner (fieldTypeAt fuel))
      else
        errorAtCurrent "FORM-102"
          ("type nesting deeper than " ++ toString MAX_TYPE_DEPTH ++ " levels")
        node .errorNode bump

/-- The type of a field, of a tuple field or of an element. -/
def fieldType : ParseM σ Unit := fieldTypeAt (MAX_TYPE_DEPTH + 1)

/-- The type behind a declared type. Returns whether constraints on it bound a length. -/
def backing : ParseM σ Bool := do
  match ← current with
  | some kind =>
      if isPrimitive kind then
        node .primitiveType bump
        return isStringish kind
      else if isUnitPart kind then
        node .unitExpr (bumpWhile isUnitPart)
        return false
      else
        errorAtCurrent "FORM-101" "expected a backing type"
        return false
  | none =>
      errorAtCurrent "FORM-101" "expected a backing type"
      return false

/-- The return type of a command or of a query. What is none goes into an error node, so that it is
    not read as an annotation. -/
def returnType : ParseM σ Unit := do
  eatTrivia
  if ← atKind .lParen then node .returnType (tupleType fieldType)
  else if ← atKind .lt then node .returnType streamType
  else if ← atPathSegment then
    node .returnType do
      let checkpoint ← checkpoint
      pathType
      if ← atKind .pipe then
        nodeAt checkpoint .fallibleType do
          bump
          pathType
  else
    errorAtCurrent "FORM-101"
      ("a return type must be a named type, a named-field tuple `(a: A, b: B)`, a stream `<T>`, " ++
        "or a fallible `T | E` (ridl reference §7.1)")
    if (← current).any (!isReturnSync ·) then recover isReturnSync

end Types

section Attributes

/-- Part of a value of an attribute: a literal, or a list of values. -/
def attrValueInner (attrValue : ParseM σ Unit) : ParseM σ Unit := do
  eatTrivia
  if ← atKind .lParen then
    node .attrValue do
      bump
      loop () fun _ => do
        eatTrivia
        match ← current with
        | none =>
            errorAtCurrent "FORM-103" "unclosed `(`"
            return .done ()
        | some kind =>
            if kind = .rParen then
              bump
              return .done ()
            else if kind = .comma then
              bump
              return .yield ()
            else if kind = .lParen then
              attrValue
              return .yield ()
            else if kind = .rBracket || isListBoundary kind then
              errorAtCurrent "FORM-103" "unclosed `(`"
              return .done ()
            else if 0 < (← literalLenAt 0) then
              attrValue
              return .yield ()
            else
              errAndRecover "in an attribute value" fun kind =>
                kind = .rParen || kind = .comma || kind = .lParen || kind = .rBracket ||
                  isListBoundary kind
              return .yield ()
  else if 0 < (← literalLenAt 0) then node .attrValue literal
  else errorAtCurrent "FORM-101" "expected a value"

/-- A value that is nested less deep than `fuel`. -/
def attrValueAt : Nat → ParseM σ Unit
  | 0 => failure
  | fuel + 1 => do
      if (← get).depth < MAX_TYPE_DEPTH then deeper (attrValueInner (attrValueAt fuel))
      else
        errorAtCurrent "FORM-102"
          ("value nesting deeper than " ++ toString MAX_TYPE_DEPTH ++ " levels")
        node .errorNode bump

def attrValue : ParseM σ Unit := attrValueAt (MAX_TYPE_DEPTH + 1)

/-- The predicate keyword that a token is. Under the rsdl profile the words are reserved ones, and
    their placement is checked later. -/
def predicateOf (profile : Profile) (text : String) : Option SyntaxKind → Option SyntaxKind
  | some .requireKw => some .requireKw
  | some .ensureKw => some .ensureKw
  | some .reservedWord =>
      if profile = .rsdl then
        if text = "require" then some .requireKw
        else if text = "ensure" then some .ensureKw
        else none
      else none
  | _ => none

/-- The predicate keyword that an attribute starts with. -/
def predicateKind : ParseM σ (Option SyntaxKind) := do
  return predicateOf (← profile) (← currentText) (← current)

def attribute_ : ParseM σ Unit :=
  node .attribute do
    match ← predicateKind with
    | some kind =>
        bumpAs kind
        expr
    | none =>
        name
        -- Only the rsdl profile has dotted keys.
        if (← profile) = .rsdl ∧ (← atKind .dot) then
          bump
          name
        if ← atKind .eq then
          bump
          attrValue

def attrBlock : ParseM σ Unit :=
  node .attrBlock do
    bump
    let _ ← loop false fun sawAttribute => do
      match ← current with
      | none =>
          errorAtCurrent "FORM-103" "unclosed `[`"
          return .done sawAttribute
      | some kind =>
          if kind = .rBracket then
            if !sawAttribute then errorAtCurrent "FORM-101" "expected an attribute"
            bump
            return .done sawAttribute
          else if kind = .comma then
            bump
            return .yield sawAttribute
          else if isAttributeStart kind then
            attribute_
            return .yield true
          else if isListBoundary kind then
            errorAtCurrent "FORM-103" "unclosed `[`"
            return .done sawAttribute
          else
            errAndRecover "in an attribute block" fun kind =>
              kind = .rBracket || kind = .comma || isAttributeStart kind || isListBoundary kind
            return .yield sawAttribute

end Attributes

section Interactions

def timingRange : ParseM σ Unit :=
  node .timingRange do
    let hasMin ← atKind .duration
    if hasMin then bump
    expect .dotDot
    let hasMax ← atKind .duration
    if hasMax then bump
    if !hasMin && !hasMax then errorAtCurrent "FORM-101" "expected a duration"

def timing : ParseM σ Unit :=
  node .timing do
    bump
    if ← atKind .duration then bump
    else if ← atKind .lBracket then
      bump
      timingRange
      expect .rBracket
    else errorAtCurrent "FORM-101" "expected a duration or `[`"

/-- At most one timing and at most one block of attributes, in either order. -/
def interactionAnnotations : ParseM σ Unit := do
  let _ ← loop (false, false) fun (seenTiming, seenAttrs) => do
    if (← atKind .atSign) ∧ !seenTiming then
      timing
      return .yield (true, seenAttrs)
    else if (← atKind .lBracket) ∧ !seenAttrs then
      attrBlock
      return .yield (seenTiming, true)
    else return .done (seenTiming, seenAttrs)

def param : ParseM σ Unit :=
  node .param do
    name
    expect .colon
    fieldType

def paramList : ParseM σ Unit := do
  if ← atKind .lParen then
    node .paramList do
      bump
      loop () fun _ => do
        eatTrivia
        match ← current with
        | none =>
            errorAtCurrent "FORM-103" "unclosed `(`"
            return .done ()
        | some kind =>
            if kind = .rParen then
              bump
              return .done ()
            else if kind = .comma then
              bump
              return .yield ()
            else if kind = .ident then
              param
              return .yield ()
            else if isListBoundary kind then
              errorAtCurrent "FORM-103" "unclosed `(`"
              return .done ()
            else
              errAndRecover "in a parameter list" fun kind =>
                kind = .rParen || kind = .comma || kind = .ident || isListBoundary kind
              return .yield ()
  else errorAtCurrent "FORM-101" "expected `(`"

/-- A signal, an event or a fixed value. -/
def valueInteraction (kind : SyntaxKind) : ParseM σ Unit :=
  node kind do
    bump
    name
    expect .colon
    fieldType
    initValueOpt
    interactionAnnotations

/-- A command, or a query, whose return type is mandatory. -/
def callableInteraction (kind : SyntaxKind) : ParseM σ Unit :=
  node kind do
    bump
    name
    paramList
    if ← atKind .colon then
      bump
      returnType
    else if kind = .queryDef then errorAtCurrent "FORM-101" "expected `:` and a return type"
    interactionAnnotations

/-- Whether the body being parsed is closed before the input ends or a package, an import, an
    interface or a service begins, `depth` braces down. -/
def closeAhead : Nat → List Token → Bool
  | _, [] => false
  | depth, token :: tokens =>
      match token.kind with
      | .lBrace => closeAhead (depth + 1) tokens
      | .rBrace => if depth = 0 then true else closeAhead (depth - 1) tokens
      | .packageKw | .importKw | .interfaceKw | .serviceKw =>
          if depth = 0 then false else closeAhead depth tokens
      | _ => closeAhead depth tokens

def interfaceBodyCloseAhead : ParseM σ Bool := do
  return closeAhead 0 (← get).ahead

/-- Consumes what follows up to a token outside all braces where `isSync` accepts. -/
def bumpBalanced (isSync : SyntaxKind → Bool) : ParseM σ Unit := do
  let _ ← loop 0 fun depth => do
    match ← current with
    | none => return .done depth
    | some kind =>
        if kind = .lBrace then
          bump
          return .yield (depth + 1)
        else if kind = .rBrace ∧ 0 < depth then
          bump
          return .yield (depth - 1)
        else if depth = 0 ∧ isSync kind then return .done depth
        else
          bump
          return .yield depth

/-- A stray definition inside an interface body, its own body whole, in one error node. -/
def recoverDefinitionInBody : ParseM σ Unit :=
  node .errorNode do
    bump
    bumpBalanced isInterfaceSync

/-- The body of an interface or of a service, after its brace. A definition in it is reported for
    what it is, in the words `noun` and `shape` for the construct around. -/
def interfaceBody (noun shape : String) : ParseM σ Unit :=
  loop () fun _ => do
    eatTrivia
    match ← current with
    | none =>
        errorAtCurrent "FORM-103" "unclosed `\x7b`"
        return .done ()
    | some kind =>
        if kind = .rBrace then
          bump
          return .done ()
        else if kind = .comma then
          bump
          return .yield ()
        else if kind = .reservedKw then
          reservedEntry
          return .yield ()
        else if kind = .signalKw then
          valueInteraction .signalDef
          return .yield ()
        else if kind = .eventKw then
          valueInteraction .eventDef
          return .yield ()
        else if kind = .commandKw then
          callableInteraction .commandDef
          return .yield ()
        else if kind = .queryKw then
          callableInteraction .queryDef
          return .yield ()
        else if kind = .fixedKw then
          valueInteraction .fixedDef
          return .yield ()
        else if isTyplDefinitionStart kind && (← interfaceBodyCloseAhead) then
          errorAtCurrent "RIDL-107"
            ("`" ++ (← currentText) ++ "` starts a typl declaration, and " ++ noun ++
              " body holds interactions and `reserved` tombstones only — move the declaration " ++
              "to package level, beside the " ++ shape ++ " (ridl reference §14.1)")
          recoverDefinitionInBody
          return .yield ()
        -- The body ran into the next declaration.
        else if isTopLevelStart kind then
          errorAtCurrent "FORM-103" "unclosed `\x7b`"
          return .done ()
        else
          errAndRecover "in an interface body" isInterfaceSync
          return .yield ()

end Interactions

section Definitions

/-- Whether the `n`-th significant token ahead is the modifier `open`: the identifier of that
    spelling, with `enum` or `enumset` after it. -/
def openModifierAt (n : Nat) : ParseM σ Bool := do
  let next ← nth (n + 1)
  return (← nth n) = some .ident && (← nthText n) = "open" &&
    (next = some .enumKw || next = some .enumsetKw)

/-- How many modifiers there are ahead. -/
def modifierRun : ParseM σ Nat := do
  return ((← get).ahead.takeWhile fun token => isModifier token.kind).length

def modifiers : ParseM σ Unit := do
  bumpWhile isModifier
  if ← openModifierAt 0 then bumpAs .openKw

/-- Consumes the brace that opens a body. Without it the caller has no body to parse. -/
def blockOpen : ParseM σ Bool := do
  if ← atKind .lBrace then
    bump
    return true
  else
    errorAtCurrent "FORM-101" "expected `\x7b`"
    return false

/-- The body of a struct, an enum, an enumset or a union. An identifier announces a member. -/
def blockBody (context : String) (allowReserved : Bool) (member : ParseM σ Unit) :
    ParseM σ Unit := do
  if ← blockOpen then
    loop () fun _ => do
      eatTrivia
      match ← current with
      | none =>
          errorAtCurrent "FORM-103" "unclosed `\x7b`"
          return .done ()
      | some kind =>
          if kind = .rBrace then
            bump
            return .done ()
          else if kind = .comma then
            bump
            return .yield ()
          else if kind = .reservedKw && allowReserved then
            reservedEntry
            return .yield ()
          else if kind = .ident then
            member
            return .yield ()
          else if isTopLevelStart kind then
            errorAtCurrent "FORM-103" "unclosed `\x7b`"
            return .done ()
          else
            errAndRecover context fun kind =>
              kind = .rBrace || kind = .comma || kind = .ident ||
                (allowReserved && kind = .reservedKw) || isTopLevelStart kind
            return .yield ()

def fieldDef : ParseM σ Unit :=
  node .fieldDef do
    name
    expect .colon
    fieldType
    initValueOpt

/-- A name and its value, of an enum or of an enumset. -/
def valueAssignment (kind : SyntaxKind) : ParseM σ Unit :=
  node kind do
    name
    expect .eq
    literal

def enumValue : ParseM σ Unit := valueAssignment .enumValue

def enumSetBit : ParseM σ Unit := valueAssignment .enumSetBit

def unionArm : ParseM σ Unit :=
  node .unionArm do
    name
    expect .colon
    pathType

def typeDef : ParseM σ Unit :=
  node .typeDef do
    modifiers
    bump
    name
    expect .colon
    let stringish ← backing
    if ← atKind .lBracket then constraint stringish
    initValueOpt

def constDef : ParseM σ Unit :=
  node .constDef do
    modifiers
    bump
    name
    if ← atKind .colon then
      bump
      pathType
    expect .eq
    literal

def structDef : ParseM σ Unit :=
  node .structDef do
    modifiers
    bump
    name
    blockBody "in a struct body" true fieldDef

def enumDef : ParseM σ Unit :=
  node .enumDef do
    modifiers
    bump
    name
    blockBody "in an enum body" true enumValue

def enumSetDef : ParseM σ Unit :=
  node .enumSetDef do
    modifiers
    bump
    name
    if ← atKind .colon then
      bump
      pathType
    else blockBody "in an enumset body" false enumSetBit

def unionDef : ParseM σ Unit :=
  node .unionDef do
    modifiers
    bump
    name
    blockBody "in a union body" true unionArm

def interfaceDef : ParseM σ Unit :=
  node .interfaceDef do
    modifiers
    bump
    name
    if ← blockOpen then interfaceBody "an interface" "interface"

/-- A definition, by the keyword after its modifiers. -/
def definition : ParseM σ Unit := do
  let n ← modifierRun
  if !(← openModifierAt n) && (← nth n) = some .ident && (← nthText n) = "open" then
    -- A misplaced `open`, which modifies only what directly follows it.
    times n bump
    errorAtCurrent "FORM-102"
      ("unexpected token after `open`: expected `enum` or `enumset`, because `open` modifies " ++
        "only an enum or an enumset definition and directly precedes its keyword")
    recover isTopLevelStart
  else
    let n := if ← openModifierAt n then n + 1 else n
    match ← nth n with
    | some .typeKw => typeDef
    | some .constKw => constDef
    | some .structKw => structDef
    | some .enumKw => enumDef
    | some .enumsetKw => enumSetDef
    | some .unionKw => unionDef
    | some .interfaceKw => interfaceDef
    | _ => errAndRecover "in a definition" isTopLevelStart

/-- The shapes of a service. The list ends where no comma follows. -/
def serviceShapeList : ParseM σ Unit := do
  pathType
  loop () fun _ => do
    if ← atKind .comma then
      bump
      if ← atPathSegment then
        pathType
        return .yield ()
      else return .done ()
    else return .done ()

def serviceDef : ParseM σ Unit :=
  node .serviceDef do
    bump
    dottedName
    match ← current with
    | some .colon =>
        bump
        serviceShapeList
    | some .lBrace =>
        bump
        interfaceBody "a service" "service"
    | _ =>
        errorAtCurrent "FORM-101"
          "expected `:` and an interface list, or `\x7b` and an inline shape"

def packageDecl : ParseM σ Unit :=
  node .packageDecl do
    bump
    qualifiedName

def importDecl : ParseM σ Unit :=
  node .importLine do
    bump
    qualifiedName
    if ← atKind .asKw then
      bump
      name

end Definitions

section Rsdl

/-- The three kinds of bodies of the rsdl containers. -/
inductive RsdlBody
  /-- Bare references, in a system, a distribution or a machine. -/
  | members
  /-- The lines of a component. -/
  | componentLines
  /-- The machines of a deployment. -/
  | machines
deriving DecidableEq, Repr

def RsdlBody.startsLine : RsdlBody → SyntaxKind → Bool
  | .members, kind => isPathSegment kind
  | .componentLines, kind => kind = .offersKw || kind = .requiresKw
  | .machines, kind => kind = .machineKw

/-- How a message names a body. -/
def RsdlBody.context : RsdlBody → String
  | .members => "in a member list"
  | .componentLines => "in a component body"
  | .machines => "in a deployment body"

/-- The message for a declaration of another profile in an rsdl file. -/
def rsdlForeignDeclarationMessage (word : String) : String :=
  "`" ++ word ++ "` starts a declaration of another profile, and an `.rsdl` file declares " ++
    "`system`, `component`, `distribution` and `deployment` only — a type is declared in a " ++
    "`.typl` file, an interface or a service in a `.ridl` file (rsdl reference §2)"

def memberLine : ParseM σ Unit :=
  node .memberLine do
    reference
    if ← atKind .lBracket then attrBlock

def componentLine : ParseM σ Unit :=
  node .componentLine do
    bump
    reference
    if ← atKind .lBracket then attrBlock

/-- The lines of a body, with `line` for one of them. -/
def rsdlBodyOf (body : RsdlBody) (line : ParseM σ Unit) : ParseM σ Unit := do
  if ← blockOpen then
    loop () fun _ => do
      eatTrivia
      match ← current with
      | none =>
          errorAtCurrent "FORM-103" "unclosed `\x7b`"
          return .done ()
      | some kind =>
          if kind = .rBrace then
            bump
            return .done ()
          else if kind = .comma then
            bump
            return .yield ()
          else if body.startsLine kind then
            line
            return .yield ()
          else if isTopLevelStart kind then
            errorAtCurrent "FORM-103" "unclosed `\x7b`"
            return .done ()
          else
            let sync := fun kind =>
              kind = .rBrace || kind = .comma || body.startsLine kind || isTopLevelStart kind
            if body = .componentLines ∧ (← atPathSegment) then
              errorAtCurrent "FORM-102"
                ("`" ++ (← currentText) ++ "` is a second reference — a component line takes " ++
                  "one reference, so write its own `offers` or `requires` before it (rsdl " ++
                  "reference §3.2)")
              recover sync
            else errAndRecover body.context sync
            return .yield ()

/-- A container of the rsdl profile without a clause, around its body. -/
def rsdlContainerOf (kind : SyntaxKind) (body : ParseM σ Unit) : ParseM σ Unit :=
  node kind do
    bump
    name
    if ← atKind .lBracket then attrBlock
    body

def machineDef : ParseM σ Unit :=
  rsdlContainerOf .machineDef (rsdlBodyOf .members memberLine)

def rsdlBody : RsdlBody → ParseM σ Unit
  | .members => rsdlBodyOf .members memberLine
  | .componentLines => rsdlBodyOf .componentLines componentLine
  | .machines => rsdlBodyOf .machines machineDef

def rsdlContainer (kind : SyntaxKind) (body : RsdlBody) : ParseM σ Unit :=
  rsdlContainerOf kind (rsdlBody body)

def deploymentDef : ParseM σ Unit :=
  node .deploymentDef do
    bump
    name
    if ← atKind .forKw then
      bump
      reference
    else errorAtCurrent "FORM-101" "expected `for` and the system this deployment places"
    if ← atKind .lBracket then attrBlock
    rsdlBody .machines

/-- A declaration of another profile in an rsdl file, reported once, its modifiers and its body with
    it. -/
def rsdlForeignDeclaration (modifiers : Nat) : ParseM σ Unit := do
  errorAtCurrent "RSDL-604" (rsdlForeignDeclarationMessage (← nthText modifiers))
  node .errorNode do
    times (modifiers + 1) bump
    bumpBalanced fun kind => isTopLevelStart kind || kind = .reservedWord

def rsdlTyplWordAtTopLevel : ParseM σ Unit := do
  let run ← modifierRun
  let modifiers := if ← openModifierAt run then run + 1 else run
  if 0 < modifiers && (← nth modifiers).any isRsdlDeclarationStart then
    times modifiers do
      errorAtCurrent "FORM-102"
        ("`" ++ (← currentText) ++ "` cannot modify an rsdl declaration — the closure is " ++
          "workspace-wide, so every declaration it names is visible from the system's package " ++
          "(rsdl reference §2)")
      node .errorNode bump
  else rsdlForeignDeclaration modifiers

end Rsdl

section File

/-- A reserved word at the top level that belongs to another profile. Returns whether it did. -/
def profileBoundaryAtTopLevel : ParseM σ Bool := do
  let text := String.ofList (← currentToken).text
  match ← profile with
  | .typl =>
      match ridlKeyword text with
      | none => return false
      | some kind =>
          if kind = .requireKw || kind = .ensureKw then
            errorAtCurrent "TYPL-303" "require/ensure attribute in typl context"
          else
            errorAtCurrent "TYPL-304"
              ("interaction declaration in typl context: `" ++ text ++ "`")
          recover isTopLevelStart
          return true
  | .ridl =>
      errorAtCurrent "RIDL-403"
        ("`" ++ text ++ "` is reserved by another profile of the family, so it cannot start a " ++
          "declaration here — a `.ridl` file declares `interface` and `service`. Move the " ++
          "declaration to the profile that owns the word, or, if `" ++ text ++ "` was meant as a " ++
          "name, choose one the family does not reserve (ridl reference §16.4)")
      recover isTopLevelStart
      return true
  | .rsdl =>
      rsdlForeignDeclaration 0
      return true

/-- One construct at the top level, by its first token. -/
def topLevel (kind : SyntaxKind) : ParseM σ Unit := do
  let profile ← profile
  let text ← currentText
  if kind = .packageKw then packageDecl
  else if kind = .importKw then importDecl
  else if isDefinitionStart kind then
    if profile = .rsdl then rsdlTyplWordAtTopLevel else definition
  else if kind = .ident && text = "open" then
    if profile = .rsdl && (← openModifierAt 0) then rsdlForeignDeclaration 1 else definition
  else if kind = .serviceKw then serviceDef
  else if kind = .systemKw then rsdlContainer .systemDef .members
  else if kind = .componentKw then rsdlContainer .componentDef .componentLines
  else if kind = .distributionKw then rsdlContainer .distributionDef .members
  else if kind = .deploymentKw then deploymentDef
  else if kind = .reservedWord then
    if !(← profileBoundaryAtTopLevel) then errAndRecover "at top level" isTopLevelStart
  else errAndRecover "at top level" isTopLevelStart

/-- A package, or the report that there is none. -/
def sourceFileHead : ParseM σ Unit := do
  eatTrivia
  if ← atKind .packageKw then packageDecl
  else errorAtCurrent "FORM-104" "missing `package` declaration"

/-- The constructs of the top level, up to the end of the input. -/
def sourceFileItems : ParseM σ Unit :=
  loop () fun _ => do
    eatTrivia
    match ← current with
    | none => return .done ()
    | some kind =>
        topLevel kind
        return .yield ()

/-- A whole file. Its node starts before the first trivia. -/
def sourceFile : ParseM σ Unit := do
  modify fun parser =>
    { parser with builder := GreenNodeBuilder.startNode parser.builder .sourceFile }
  sourceFileHead
  sourceFileItems
  finishNode

/-- What parsing results in: the tree, and the errors in the order in which they were reported. -/
structure Parse (σ : Type) [GreenNodeBuilder σ] where
  green : GreenNodeBuilder.Tree σ
  errors : List SyntaxError

/-- The tree of a text under a profile. -/
def parse (σ : Type) [GreenNodeBuilder σ] (input : List Char) (profile : Profile) :
    Option (Parse σ) := do
  let (_, parser) ← sourceFile.run (Parser.new (lex input profile) profile : Parser σ)
  let green ← GreenNodeBuilder.finish parser.builder
  return { green := green, errors := parser.errors }

end File

end Syntax

end Ridl
