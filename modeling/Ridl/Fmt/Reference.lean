import Ridl.Fmt.Layout

/-!
# The Reference Renderer

Rendering from the start until no line breaks.

A layout is rendered with a set of broken constructs. Then the first line that is too
long and on which a construct can be broken is looked for, its last such construct is
broken, and everything is rendered again. A construct is known by its place in the
order the constructs are visited in.

## Main definitions

* `Rendering`: What was rendered so far.
* `Rendering.layout`: The rendering of a layout.
* `Rendering.breakCandidate`: The construct to break next.
-/

namespace Ridl

namespace Fmt

open Library

structure Rendering where
  text : Text
  line : Nat
  nextId : Nat
  /-- The last outermost unbroken construct on each line. -/
  lastCandidates : List (Option Nat)
  codeColumns : List (Nat × Nat)

def lastLine (text : Text) : Text := (text.reverse.takeWhile (· ≠ '\n')).reverse

/-- How many spaces a line starts with. -/
def indentOf (line : Text) : Nat := (line.takeWhile (· = ' ')).length

namespace Rendering

def empty : Rendering :=
  { text := [], line := 0, nextId := 0, lastCandidates := [], codeColumns := [] }

def recordCandidate (id : Nat) (r : Rendering) : Rendering :=
  let resized := (r.lastCandidates ++
    List.replicate (r.line + 1 - r.lastCandidates.length) none).take (r.line + 1)
  { r with lastCandidates := resized.set r.line (some id) }

/-- The construct to break on the first line that is too long and has one. -/
def breakCandidate (width : Nat) (r : Rendering) : Option Nat :=
  (r.text.splitOn '\n').zipIdx.findSome? fun (text, line) =>
    if (r.codeColumns.lookup line).getD text.length ≤ width then none
    else r.lastCandidates[line]?.join

def push (text : Text) (r : Rendering) : Rendering :=
  { r with line := r.line + text.count '\n', text := r.text ++ text }

def currentIndent (r : Rendering) : Nat := indentOf (lastLine r.text)

def recordCodeColumns (r : Rendering) : Rendering :=
  match r.codeColumns.lookup r.line with
  | some _ => r
  | none => { r with codeColumns := (r.line, (lastLine r.text).length) :: r.codeColumns }

def trailingComment (comment : Text) (r : Rendering) : Rendering :=
  (r.recordCodeColumns.push [' ']).push comment

/-- One line of text, where a line comment counts as a trailing comment. -/
def pushLine (line : Text) (found : Option Nat) (r : Rendering) : Rendering :=
  match found with
  | some start =>
      let code := trimEnd (line.take start)
      ((r.push code).recordCodeColumns).push (line.drop code.length)
  | none => r.push line

def pushLines : Nat → Bool → List Text → Rendering → Rendering
  | _, _, [], r => r
  | i, inBlock, line :: lines, r =>
      let r := if i > 0 then r.push ['\n'] else r
      let (found, inBlock) := lineCommentStart line inBlock
      pushLines (i + 1) inBlock lines (r.pushLine line found)

def pushText (text : Text) (r : Rendering) : Rendering :=
  pushLines 0 false (text.splitOn '\n') r

/-- The comments before an attribute, each on its own line. -/
def leadingComments (indent : Nat) : Nat → List PendingComment → Rendering → Rendering
  | _, [], r => r
  | i, comment :: comments, r =>
      let r := if i > 0 ∧ comment.blankBefore then r.push ['\n'] else r
      leadingComments indent (i + 1) comments
        (((r.push ['\n']).push (spaces (indent + 2))).push comment.text)

def brokenShapes (indent count : Nat) : Nat → List Text → Rendering → Rendering
  | _, [], r => r
  | i, item :: items, r =>
      let r := ((r.push ['\n']).push (spaces (indent + 2))).push item
      brokenShapes indent count (i + 1) items (if i + 1 < count then r.push [','] else r)

/-- Takes the next number for a construct. -/
def takeId (r : Rendering) : Rendering := { r with nextId := r.nextId + 1 }

section Layouts

variable (broken : List Nat)

mutual

def layout : Layout → Bool → Rendering → Rendering
  | .text body, _, r => r.pushText body
  | .trailingComment body, _, r => r.trailingComment body
  | .lineBreak, _, r => (r.push ['\n']).push (spaces r.currentIndent)
  | .concat parts, insideInline, r => concat parts insideInline r
  | .attributes blocks forceBlock, insideInline, r =>
      let id := r.nextId
      let r := r.takeId
      if forceBlock ∨ id ∈ broken then
        let indent := r.currentIndent
        ((brokenBlocks indent 0 blocks (r.push ['['])).push ['\n']).push (spaces indent) |>.push
          [']']
      else
        let r := if !insideInline ∧ blocks ≠ [] then r.recordCandidate id else r
        (inlineBlocks 0 blocks (r.push ['[', ' '])).push [' ', ']']
  | .shapes items, insideInline, r =>
      let id := r.nextId
      let r := r.takeId
      if id ∈ broken then brokenShapes r.currentIndent items.length 0 items r
      else
        let r := if !insideInline ∧ items ≠ [] then r.recordCandidate id else r
        (r.push [' ']).push ([',', ' '].intercalate items)
  | .tuple items, insideInline, r =>
      let id := r.nextId
      let r := r.takeId
      if id ∈ broken then
        let indent := r.currentIndent
        ((brokenItems indent items.length 0 items (r.push ['('])).push ['\n']).push
          (spaces indent) |>.push [')']
      else
        let r := if !insideInline ∧ items ≠ [] then r.recordCandidate id else r
        (inlineItems 0 items (r.push ['('])).push [')']

def concat : List Layout → Bool → Rendering → Rendering
  | [], _, r => r
  | part :: parts, insideInline, r => concat parts insideInline (layout part insideInline r)

def brokenItems (indent count : Nat) : Nat → List Layout → Rendering → Rendering
  | _, [], r => r
  | i, item :: items, r =>
      let r := layout item false ((r.push ['\n']).push (spaces (indent + 2)))
      brokenItems indent count (i + 1) items (if i + 1 < count then r.push [','] else r)

def inlineItems : Nat → List Layout → Rendering → Rendering
  | _, [], r => r
  | i, item :: items, r =>
      let r := if i > 0 then r.push [',', ' '] else r
      inlineItems (i + 1) items (layout item true r)

def brokenBlocks (indent : Nat) :
    Nat → List (AttributeLayout Layout) → Rendering → Rendering
  | _, [], r => r
  | index, ⟨gapBlank, leading, blankBeforeNode, none, trailing⟩ :: blocks, r =>
      let r := if index > 0 ∧ gapBlank then r.push ['\n'] else r
      let r := leadingComments indent 0 leading r
      let r := if blankBeforeNode then r.push ['\n'] else r
      brokenBlocks indent (index + 1) blocks
        (trailing.foldl (fun r comment => r.trailingComment comment) r)
  | index, ⟨gapBlank, leading, blankBeforeNode, some item, trailing⟩ :: blocks, r =>
      let r := if index > 0 ∧ gapBlank then r.push ['\n'] else r
      let r := leadingComments indent 0 leading r
      let r := if blankBeforeNode then r.push ['\n'] else r
      let r := layout item false ((r.push ['\n']).push (spaces (indent + 2)))
      brokenBlocks indent (index + 1) blocks
        (trailing.foldl (fun r comment => r.trailingComment comment) r)

def inlineBlocks : Nat → List (AttributeLayout Layout) → Rendering → Rendering
  | _, [], r => r
  | i, ⟨_, _, _, none, _⟩ :: blocks, r =>
      inlineBlocks (i + 1) blocks (if i > 0 then r.push [',', ' '] else r)
  | i, ⟨_, _, _, some item, _⟩ :: blocks, r =>
      inlineBlocks (i + 1) blocks (layout item true (if i > 0 then r.push [',', ' '] else r))

end

end Layouts

end Rendering

/-- The layout rendered from the start with some constructs broken. -/
def rendered (layout : Layout) (indent : Nat) (broken : List Nat) : Rendering :=
  Rendering.layout broken layout false (Rendering.empty.push (indentStr indent))

/-- Breaks one construct after the other, for as many rounds as `fuel` says. -/
def renderLayoutReference (layout : Layout) (indent : Nat) (width : Option Nat) :
    Nat → List Nat → Option (List Text)
  | 0, _ => none
  | fuel + 1, broken =>
      let rendering := rendered layout indent broken
      match width.bind rendering.breakCandidate with
      | some id => renderLayoutReference layout indent width fuel (id :: broken)
      | none => some (rendering.text.splitOn '\n')

end Fmt

end Ridl
