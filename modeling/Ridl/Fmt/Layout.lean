import Ridl.Library.Lines

/-!
# Layouts

What the formatter renders, and where the code of a line ends.

A layout is text, a concatenation, or a construct that can be broken over lines. A
line comment inside verbatim text does not count for the width of its line, so each
line of text is scanned for one, outside strings and outside block comments. Whether
a line starts inside a block comment that an earlier line opened is handed from line
to line.

## Main definitions

* `Layout.Closed`, `Layout.Plain`: The properties the two renderers agree under.
-/

namespace Ridl

namespace Fmt

open Library

structure PendingComment where
  blankBefore : Bool
  text : Text

structure AttributeLayout (L : Type) where
  gapBlank : Bool
  leading : List PendingComment
  blankBeforeNode : Bool
  layout : Option L
  trailing : List Text

/-- A text, a concatenation, or a breakable tuple, attribute block or shape list. -/
inductive Layout
  | text (text : Text)
  | trailingComment (text : Text)
  | lineBreak
  | concat (parts : List Layout)
  | tuple (items : List Layout)
  | shapes (items : List Text)
  | attributes (blocks : List (AttributeLayout Layout)) (forceBlock : Bool)

/-- Where a block comment closes. -/
def findClose : Text → Option Nat
  | [] => none
  | c :: rest =>
      if c = '*' ∧ rest.head? = some '/' then some 0 else (findClose rest).map (· + 1)

/-- The scan of a line from the character `i` on, with the number of characters it
    jumps first. -/
def lineCommentFrom : Nat → Bool → Nat → Text → Option Nat × Bool
  | _, _, _, [] => (none, false)
  | i, inString, skip + 1, _ :: rest => lineCommentFrom (i + 1) inString skip rest
  | i, inString, 0, c :: rest =>
      if c = '\\' ∧ inString then lineCommentFrom (i + 1) inString 1 rest
      else if c = '"' then lineCommentFrom (i + 1) (!inString) 0 rest
      else if c = '/' ∧ !inString ∧ rest.head? = some '/' then (some i, false)
      else if c = '/' ∧ !inString ∧ rest.head? = some '*' then
        match findClose (rest.drop 1) with
        | some close => lineCommentFrom (i + 1) inString (close + 3) rest
        | none => (none, true)
      else lineCommentFrom (i + 1) inString 0 rest

/-- Where a line comment starts in a line, and whether the line ends inside a block
    comment; `inBlock` says whether it starts inside one. -/
def lineCommentStart (line : Text) (inBlock : Bool) : Option Nat × Bool :=
  if inBlock then
    match findClose line with
    | some close => lineCommentFrom 0 false (close + 2) line
    | none => (none, true)
  else lineCommentFrom 0 false 0 line

def spaces (count : Nat) : Text := List.replicate count ' '

def indentStr (level : Nat) : Text := (List.replicate level "  ".toList).flatten

section Constructs

mutual

/-- The constructs of a layout, broken or not. -/
def Layout.constructs : Layout → Nat
  | .text _ | .trailingComment _ | .lineBreak => 0
  | .concat parts => Layout.constructsOf parts
  | .tuple items => 1 + Layout.constructsOf items
  | .shapes _ => 1
  | .attributes blocks _ => 1 + Layout.constructsIn blocks

def Layout.constructsOf : List Layout → Nat
  | [] => 0
  | part :: parts => part.constructs + Layout.constructsOf parts

def Layout.constructsIn : List (AttributeLayout Layout) → Nat
  | [] => 0
  | ⟨_, _, _, none, _⟩ :: blocks => Layout.constructsIn blocks
  | ⟨_, _, _, some item, _⟩ :: blocks => item.constructs + Layout.constructsIn blocks

end

end Constructs

/-- Where a text stands in a layout. -/
inductive Role
  | text
  | trailing
  | shape
  | attributeComment
deriving DecidableEq

section Each

variable (P : Role → Text → Prop)

mutual

/-- Every text of a layout satisfies `P` where it stands. -/
def Layout.Each : Layout → Prop
  | .text body => P .text body
  | .trailingComment body => P .trailing body
  | .lineBreak => True
  | .concat parts => Layout.EachOf parts
  | .tuple items => Layout.EachOf items
  | .shapes items => ∀ item ∈ items, P .shape item
  | .attributes blocks _ => Layout.EachIn blocks

def Layout.EachOf : List Layout → Prop
  | [] => True
  | part :: parts => part.Each ∧ Layout.EachOf parts

def Layout.EachIn : List (AttributeLayout Layout) → Prop
  | [] => True
  | ⟨_, leading, _, none, trailing⟩ :: blocks =>
      (∀ comment ∈ leading, P .attributeComment comment.text) ∧
        (∀ comment ∈ trailing, P .attributeComment comment) ∧ Layout.EachIn blocks
  | ⟨_, leading, _, some item, trailing⟩ :: blocks =>
      (∀ comment ∈ leading, P .attributeComment comment.text) ∧
        (∀ comment ∈ trailing, P .attributeComment comment) ∧ item.Each ∧
          Layout.EachIn blocks

end

end Each

/-- Whether lines end inside a block comment. -/
def blockAfter (inBlock : Bool) (lines : List Text) : Bool :=
  lines.foldl (fun inBlock line => (lineCommentStart line inBlock).2) inBlock

/-- No line comment is found in any of the lines. -/
def Bare : Bool → List Text → Prop
  | _, [] => True
  | inBlock, line :: lines =>
      (lineCommentStart line inBlock).1 = none ∧ Bare (lineCommentStart line inBlock).2 lines

/-- The text closes every block comment it opens. -/
def Closes (text : Text) : Prop := blockAfter false (text.splitOn '\n') = false

/-- Each text and comment closes every block comment it opens. -/
def Layout.Closed (layout : Layout) : Prop := layout.Each fun _ text => Closes text

/-- No line comment is in a shape, nor in a trailing comment after its first line. -/
def PlainAt : Role → Text → Prop
  | .shape, text => Bare false (text.splitOn '\n')
  | .trailing, text =>
      match text.splitOn '\n' with
      | [] => True
      | line :: lines => Bare (lineCommentStart line false).2 lines
  | .text, _ | .attributeComment, _ => True

def Layout.Plain (layout : Layout) : Prop := layout.Each PlainAt

end Fmt

end Ridl
