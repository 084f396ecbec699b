import Ridl.Fmt.Reference

/-!
# The Incremental Renderer

Rendering line by line, resuming at the last construct of a line that is too long.

What is still to be rendered is a chain of instructions in an arena, so that a
continuation is saved by keeping its cursor. Once a line is complete, later
instructions cannot change its width or its last candidate: the line is committed when
it needs no break, and otherwise the construct is broken and rendering resumes from its
candidate. A construct is known by its address, which is here the number of constructs
before it in the layout.

## Main definitions

* `Instruction`: What there is to render.
* `Renderer`: The state of a rendering.
* `Renderer.finishLine`: Commits a line or rewinds.
* `Renderer.step`: Renders one instruction.
* `render`: The lines of a layout.
-/

namespace Ridl

namespace Fmt

open Library

abbrev Cursor := Option Nat

inductive Instruction
  | layout (group : Nat) (layout : Layout) (inline : Bool)
  | text (text : Text)
  | spaces (count : Nat)
  | comment (text : Text)
  | lineBreak

structure Continuation where
  instruction : Instruction
  next : Cursor

structure LineState where
  columns : Nat
  codeColumns : Option Nat
  indent : Nat
  hasCode : Bool

structure Candidate where
  group : Nat
  cursor : Cursor
  /-- The length of the line before the construct. -/
  bytes : Nat
  state : LineState
  previous : Cursor

structure Renderer where
  pending : Cursor
  continuations : List Continuation
  candidates : List Candidate
  lastCandidate : Cursor
  broken : List Nat
  line : Text
  state : LineState
  lines : List Text
  width : Option Nat
  /-- Whether the text so far ends inside a block comment. -/
  inBlockComment : Bool

def LineState.default : LineState :=
  { columns := 0, codeColumns := none, indent := 0, hasCode := false }

/-- The line before a line break, and the text after it. -/
def splitLine : Text → Option (Text × Text)
  | [] => none
  | c :: rest =>
      if c = '\n' then some ([], rest)
      else (splitLine rest).map fun (line, rest) => (c :: line, rest)

section Instructions

/-- The parts of a concatenation, the first of them numbered `group`. -/
def concatInstructions (inline : Bool) : Nat → List Layout → List Instruction
  | _, [] => []
  | group, part :: parts =>
      .layout group part inline :: concatInstructions inline (group + part.constructs) parts

def tupleItems (broken : Bool) (indent count : Nat) :
    Nat → Nat → List Layout → List Instruction
  | _, _, [] => []
  | i, group, item :: items =>
      (if broken then [.lineBreak, .spaces (indent + 2)]
        else if i > 0 then [.text [',', ' ']] else []) ++
      [.layout group item (!broken)] ++
      (if broken ∧ i + 1 < count then [.text [',']] else []) ++
      tupleItems broken indent count (i + 1) (group + item.constructs) items

def tupleInstructions (broken : Bool) (indent group : Nat) (items : List Layout) :
    List Instruction :=
  [.text ['(']] ++ tupleItems broken indent items.length 0 (group + 1) items ++
    (if broken then [.lineBreak, .spaces indent] else []) ++ [.text [')']]

def shapeItems (broken : Bool) (indent count : Nat) : Nat → List Text → List Instruction
  | _, [] => []
  | i, item :: items =>
      (if broken then [.lineBreak, .spaces (indent + 2)]
        else if i > 0 then [.text [',', ' ']] else []) ++
      [.text item] ++ (if broken ∧ i + 1 < count then [.text [',']] else []) ++
      shapeItems broken indent count (i + 1) items

def shapesInstructions (broken : Bool) (indent : Nat) (items : List Text) :
    List Instruction :=
  (if !broken then [.text [' ']] else []) ++ shapeItems broken indent items.length 0 items

def leadingInstructions (indent : Nat) : Nat → List PendingComment → List Instruction
  | _, [] => []
  | i, comment :: comments =>
      (if i > 0 ∧ comment.blankBefore then [.lineBreak] else []) ++
      [.lineBreak, .spaces (indent + 2), .text comment.text] ++
      leadingInstructions indent (i + 1) comments

def blockInstructions (broken : Bool) (indent : Nat) :
    Nat → Nat → List (AttributeLayout Layout) → List Instruction
  | _, _, [] => []
  | index, group, block :: blocks =>
      (if broken then
        (if index > 0 ∧ block.gapBlank then [.lineBreak] else []) ++
        leadingInstructions indent 0 block.leading ++
        (if block.blankBeforeNode then [.lineBreak] else []) ++
        (match block.layout with
          | some item => [.lineBreak, .spaces (indent + 2), .layout group item false]
          | none => []) ++
        block.trailing.map .comment
      else
        (if index > 0 then [.text [',', ' ']] else []) ++
        (match block.layout with
          | some item => [.layout group item true]
          | none => [])) ++
      blockInstructions broken indent (index + 1)
        (group + (block.layout.map Layout.constructs).getD 0) blocks

def attributesInstructions (broken : Bool) (indent group : Nat)
    (blocks : List (AttributeLayout Layout)) : List Instruction :=
  [.text (if broken then ['['] else ['[', ' '])] ++
    blockInstructions broken indent 0 (group + 1) blocks ++
    (if broken then [.lineBreak, .spaces indent, .text [']']] else [.text [' ', ']']])

end Instructions

namespace Renderer

def prepend (instruction : Instruction) (r : Renderer) : Renderer :=
  { r with
    pending := some r.continuations.length
    continuations := r.continuations ++ [⟨instruction, r.pending⟩] }

def prependAll (instructions : List Instruction) (r : Renderer) : Renderer :=
  instructions.foldr prepend r

def appendChar (state : LineState) (c : Char) : LineState :=
  let state := { state with columns := state.columns + 1 }
  if state.hasCode then state
  else if c = ' ' then { state with indent := state.indent + 1 }
  else { state with hasCode := true }

def append (text : Text) (r : Renderer) : Renderer :=
  { r with state := text.foldl appendChar r.state, line := r.line ++ text }

def commit (r : Renderer) : Renderer :=
  { r with
    line := []
    lines := r.lines ++ [r.line]
    state := LineState.default
    lastCandidate := none }

/-- Breaks the construct of a candidate and resumes from it. -/
def rewind (candidate : Candidate) (r : Renderer) : Renderer :=
  { r with
    broken := candidate.group :: r.broken
    pending := candidate.cursor
    line := r.line.take candidate.bytes
    state := candidate.state
    lastCandidate := candidate.previous }

/-- Answers false after rewinding. It fails where the candidate is not there. -/
def finishLine (r : Renderer) : Option (Bool × Renderer) :=
  match r.width, r.lastCandidate with
  | some width, some candidate =>
      if r.state.codeColumns.getD r.state.columns > width then do
        let candidate ← r.candidates[candidate]?
        some (false, r.rewind candidate)
      else some (true, r.commit)
  | _, _ => some (true, r.commit)

/-- The columns so far are the code's, unless a comment came before. -/
def markCode (r : Renderer) : Renderer :=
  { r with state := { r.state with
      codeColumns := some (r.state.codeColumns.getD r.state.columns) } }

def appendLine (line : Text) (r : Renderer) : Renderer :=
  let (found, inBlock) := lineCommentStart line r.inBlockComment
  let r := { r with inBlockComment := inBlock }
  match found with
  | some start =>
      let code := trimEnd (line.take start)
      ((r.append code).markCode).append (line.drop code.length)
  | none => r.append line

def text (text : Text) (r : Renderer) : Option Renderer :=
  match splitLine text with
  | some (line, rest) => (((r.appendLine line).prepend (.text rest)).finishLine).map Prod.snd
  | none => some (r.appendLine text)

/-- Whether a construct is broken; one that is not may become a candidate. -/
def group (group : Nat) (nonempty insideInline : Bool) (cursor : Cursor) (r : Renderer) :
    Bool × Renderer :=
  if group ∈ r.broken then (true, r)
  else if nonempty ∧ !insideInline ∧ r.width.isSome then
    (false, { r with
      lastCandidate := some r.candidates.length
      candidates := r.candidates ++ [{
        group := group
        cursor := cursor
        bytes := r.line.length
        state := r.state
        previous := r.lastCandidate }] })
  else (false, r)

def layout (id : Nat) (layout : Layout) (insideInline : Bool) (cursor : Cursor)
    (r : Renderer) : Option Renderer :=
  match layout with
  | .text body => r.text body
  | .trailingComment body => some (r.prepend (.comment body))
  | .lineBreak => some ((r.prepend (.spaces r.state.indent)).prepend .lineBreak)
  | .concat parts => some (r.prependAll (concatInstructions insideInline id parts))
  | .tuple items =>
      let (broken, r) := r.group id (items ≠ []) insideInline cursor
      some (r.prependAll (tupleInstructions broken r.state.indent id items))
  | .shapes items =>
      let (broken, r) := r.group id (items ≠ []) insideInline cursor
      some (r.prependAll (shapesInstructions broken r.state.indent items))
  | .attributes blocks forceBlock =>
      let (broken, r) :=
        if forceBlock then (true, r) else r.group id (blocks ≠ []) insideInline cursor
      some (r.prependAll (attributesInstructions broken r.state.indent id blocks))

/-- Renders one instruction, or answers the lines when there is none left. -/
def step (r : Renderer) : Option (Renderer ⊕ List Text) :=
  match r.pending with
  | some cursor => do
      let entry ← r.continuations[cursor]?
      let r := { r with pending := entry.next }
      match entry.instruction with
      | .layout id layout inline => (r.layout id layout inline (some cursor)).map .inl
      | .text text => (r.text text).map .inl
      | .spaces count => some (.inl (r.append (spaces count)))
      | .comment comment => some (.inl ((r.markCode.append [' ']).prepend (.text comment)))
      | .lineBreak => (r.finishLine).map fun (_, r) => .inl r
  | none => (r.finishLine).map fun (finished, r) => if finished then .inr r.lines else .inl r

/-- At most `fuel` steps. -/
def run : Nat → Renderer → Option (List Text)
  | 0, _ => none
  | fuel + 1, r =>
      match r.step with
      | some (.inl r) => run fuel r
      | some (.inr lines) => some lines
      | none => none

def start (layout : Layout) (indent : Nat) (width : Option Nat) : Renderer :=
  let r : Renderer := {
    pending := none
    continuations := []
    candidates := []
    lastCandidate := none
    broken := []
    line := []
    state := LineState.default
    lines := []
    width := width
    inBlockComment := false }
  (r.append (indentStr indent)).prepend (.layout 0 layout false)

end Renderer

def render (fuel : Nat) (layout : Layout) (indent : Nat) (width : Option Nat) :
    Option (List Text) :=
  (Renderer.start layout indent width).run fuel

end Fmt

end Ridl
