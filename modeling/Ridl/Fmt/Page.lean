import Mathlib.Algebra.Order.Ring.Int
import Mathlib.Tactic.SplitIfs
import Ridl.Fmt.Renderer

/-!
# Pages

What instructions draw when nothing is rewound.

A page is the lines that are complete and the line that is being drawn, each with the
columns of its code and the construct that can be broken on it. Drawing depends on
nothing but the instructions, the page and the set of broken constructs, so it is the
meaning that both renderers are compared with: the one draws a page for each set of
broken constructs, the other goes back to an earlier point of the drawing.

Drawing ends because each instruction is replaced by lighter ones. Constructs are
visited in the order of their numbers, so that what was drawn before a construct does
not depend on whether the construct is broken.

## Main definitions

* `Page`: The lines drawn so far.
* `drawAll`: What a list of instructions draws.
* `Numbered`: The instructions visit the constructs of a range, in order.

## Theorems

* `weight_advance`: An instruction is replaced by lighter ones.
* `drawAll_append`: Instructions are drawn one after the other.
* `drawAll_text`: A text is drawn line by line.
* `numbered_advance`: What replaces an instruction visits the same constructs.
* `drawAll_done`: Complete lines stay.
-/

namespace Ridl

namespace Fmt

open Library

/-- A line, the columns of its code where a comment follows, and the construct that can
    be broken on it. -/
structure Line where
  text : Text
  code : Option Nat
  candidate : Option Nat

def Line.blank : Line := { text := [], code := none, candidate := none }

/-- The columns that count against the width. -/
def Line.columns (line : Line) : Nat := line.code.getD line.text.length

/-- The construct to break on a line that is too long. -/
def Line.breaks (width : Nat) (line : Line) : Option Nat :=
  if line.columns ≤ width then none else line.candidate

structure Page where
  done : List Line
  line : Line
  inBlock : Bool

namespace Page

def lines (p : Page) : List Line := p.done ++ [p.line]

def put (text : Text) (p : Page) : Page :=
  { p with line := { p.line with text := p.line.text ++ text } }

def mark (p : Page) : Page := { p with line := { p.line with code := some p.line.columns } }

def offer (id : Nat) (p : Page) : Page := { p with line := { p.line with candidate := some id } }

def close (p : Page) : Page := { p with done := p.done ++ [p.line], line := Line.blank }

/-- Writes a line, with a line comment at `found`. -/
def write (line : Text) (found : Option Nat) (p : Page) : Page :=
  match found with
  | some start =>
      let code := trimEnd (line.take start)
      ((p.put code).mark).put (line.drop code.length)
  | none => p.put line

def writeLine (line : Text) (p : Page) : Page :=
  { p.write line (lineCommentStart line p.inBlock).1 with
    inBlock := (lineCommentStart line p.inBlock).2 }

def nextLine (p : Page) (line : Text) : Page := p.close.writeLine line

def writeLines : List Text → Page → Page
  | [], p => p
  | line :: lines, p => lines.foldl nextLine (p.writeLine line)

/-- A construct that is not broken is offered where no other is around it. -/
def offerUnless (broken : Bool) (id : Nat) (nonempty inline : Bool) (p : Page) : Page :=
  if broken then p else if nonempty ∧ !inline then p.offer id else p

theorem writeLines_cons {line : Text} {lines : List Text} (h : lines ≠ []) (p : Page) :
    p.writeLines (line :: lines) = (p.writeLine line).close.writeLines lines := by
  cases lines with
  | nil => exact absurd rfl h
  | cons next lines => rfl

theorem write_done (line : Text) (found : Option Nat) (p : Page) :
    (p.write line found).done = p.done := by
  cases found <;> rfl

theorem writeLine_done (line : Text) (p : Page) : (p.writeLine line).done = p.done :=
  write_done line _ p

theorem offerUnless_done (broken : Bool) (id : Nat) (nonempty inline : Bool) (p : Page) :
    (p.offerUnless broken id nonempty inline).done = p.done := by
  rw [offerUnless]
  split_ifs <;> rfl

end Page

section Drawing

variable (broken : List Nat)

/-- What an instruction is replaced by, and the page it leaves. -/
def advance : Instruction → Page → List Instruction × Page
  | .text text, p =>
      match splitLine text with
      | some (line, rest) => ([.lineBreak, .text rest], p.writeLine line)
      | none => ([], p.writeLine text)
  | .spaces count, p => ([], p.put (spaces count))
  | .comment comment, p => ([.text comment], p.mark.put [' '])
  | .lineBreak, p => ([], p.close)
  | .layout _ (.text body) _, p => ([.text body], p)
  | .layout _ (.trailingComment body) _, p => ([.comment body], p)
  | .layout _ .lineBreak _, p => ([.lineBreak, .spaces (indentOf p.line.text)], p)
  | .layout id (.concat parts) inline, p => (concatInstructions inline id parts, p)
  | .layout id (.tuple items) inline, p =>
      (tupleInstructions (id ∈ broken) (indentOf p.line.text) id items,
        p.offerUnless (id ∈ broken) id (items ≠ []) inline)
  | .layout id (.shapes items) inline, p =>
      (shapesInstructions (id ∈ broken) (indentOf p.line.text) items,
        p.offerUnless (id ∈ broken) id (items ≠ []) inline)
  | .layout id (.attributes blocks forceBlock) inline, p =>
      (attributesInstructions (forceBlock ∨ id ∈ broken) (indentOf p.line.text) id blocks,
        p.offerUnless (forceBlock ∨ id ∈ broken) id (blocks ≠ []) inline)

end Drawing

section Weight

/-- The steps a text takes. -/
def textWeight (text : Text) : Nat := 1 + 2 * text.count '\n'

def leadingWeight (comments : List PendingComment) : Nat :=
  (comments.map fun comment => 4 + textWeight comment.text).sum

mutual

/-- The most steps a layout takes. -/
def Layout.weight : Layout → Nat
  | .text body => 1 + textWeight body
  | .trailingComment body => 2 + textWeight body
  | .lineBreak => 3
  | .concat parts => 1 + Layout.weightOf parts
  | .tuple items => 5 + Layout.weightOf items
  | .shapes items => 2 + (items.map fun item => 3 + textWeight item).sum
  | .attributes blocks _ => 5 + Layout.weightIn blocks

def Layout.weightOf : List Layout → Nat
  | [] => 0
  | part :: parts => 3 + part.weight + Layout.weightOf parts

def Layout.weightIn : List (AttributeLayout Layout) → Nat
  | [] => 0
  | ⟨_, leading, _, none, trailing⟩ :: blocks =>
      3 + leadingWeight leading + (trailing.map fun text => 1 + textWeight text).sum +
        Layout.weightIn blocks
  | ⟨_, leading, _, some item, trailing⟩ :: blocks =>
      5 + leadingWeight leading + item.weight +
        (trailing.map fun text => 1 + textWeight text).sum + Layout.weightIn blocks

end

def Instruction.weight : Instruction → Nat
  | .layout _ item _ => item.weight
  | .text body => textWeight body
  | .spaces _ => 1
  | .comment body => 1 + textWeight body
  | .lineBreak => 1

def weight (instructions : List Instruction) : Nat := (instructions.map Instruction.weight).sum

@[simp] theorem weight_nil : weight [] = 0 := rfl

@[simp] theorem weight_cons (i : Instruction) (is : List Instruction) :
    weight (i :: is) = i.weight + weight is := by
  rw [weight, List.map_cons, List.sum_cons, weight]

@[simp] theorem weight_append (is js : List Instruction) :
    weight (is ++ js) = weight is + weight js := by
  rw [weight, List.map_append, List.sum_append, weight, weight]

theorem weight_concat (inline : Bool) (group : Nat) (parts : List Layout) :
    weight (concatInstructions inline group parts) ≤ Layout.weightOf parts := by
  induction parts generalizing group with
  | nil => exact Nat.le_refl 0
  | cons part parts ih =>
      have hparts := ih (group + part.constructs)
      simp only [concatInstructions, weight_cons, Instruction.weight, Layout.weightOf]
      omega

theorem weight_around (broken : Bool) (indent count i : Nat) :
    weight (if broken then [.lineBreak, .spaces (indent + 2)]
        else if i > 0 then [.text [',', ' ']] else []) +
      weight (if broken ∧ i + 1 < count then [.text [',']] else []) ≤ 3 := by
  have hcomma : textWeight [','] = 1 := rfl
  have hseparator : textWeight [',', ' '] = 1 := rfl
  cases broken <;> split_ifs <;>
    simp only [weight_cons, weight_nil, Instruction.weight, hcomma, hseparator] at * <;> omega

theorem weight_tupleItems (broken : Bool) (indent count i group : Nat) (items : List Layout) :
    weight (tupleItems broken indent count i group items) ≤ Layout.weightOf items := by
  induction items generalizing i group with
  | nil => exact Nat.le_refl 0
  | cons item items ih =>
      have hitems := ih (i + 1) (group + item.constructs)
      have haround := weight_around broken indent count i
      simp only [tupleItems, weight_append, weight_cons, weight_nil, Instruction.weight,
        Layout.weightOf]
      omega

theorem weight_shapeItems (broken : Bool) (indent count i : Nat) (items : List Text) :
    weight (shapeItems broken indent count i items) ≤
      (items.map fun item => 3 + textWeight item).sum := by
  induction items generalizing i with
  | nil => exact Nat.le_refl 0
  | cons item items ih =>
      have hitems := ih (i + 1)
      have haround := weight_around broken indent count i
      simp only [shapeItems, weight_append, weight_cons, weight_nil, Instruction.weight,
        List.map_cons, List.sum_cons]
      omega

theorem weight_leading (indent i : Nat) (comments : List PendingComment) :
    weight (leadingInstructions indent i comments) ≤ leadingWeight comments := by
  induction comments generalizing i with
  | nil => exact Nat.le_refl 0
  | cons comment comments ih =>
      have hcomments := ih (i + 1)
      have hblank : weight (if i > 0 ∧ comment.blankBefore then [.lineBreak] else []) ≤ 1 := by
        split_ifs
        · exact Nat.le_refl 1
        · exact Nat.zero_le 1
      rw [leadingWeight] at hcomments ⊢
      simp only [leadingInstructions, weight_append, weight_cons, weight_nil, Instruction.weight,
        List.map_cons, List.sum_cons]
      omega

theorem weight_comments (comments : List Text) :
    weight (comments.map .comment) = (comments.map fun text => 1 + textWeight text).sum := by
  rw [weight, List.map_map]
  rfl

theorem weight_if (c : Prop) [Decidable c] (i : Instruction) :
    weight (if c then [i] else []) ≤ i.weight := by
  split_ifs
  · exact Nat.le_of_eq (weight_cons i [])
  · exact Nat.zero_le _

theorem weight_block (broken : Bool) (indent index group : Nat)
    (blocks : List (AttributeLayout Layout)) :
    weight (blockInstructions broken indent index group blocks) ≤ Layout.weightIn blocks := by
  induction blocks generalizing index group with
  | nil => exact Nat.le_refl 0
  | cons block blocks ih =>
      rcases block with ⟨gapBlank, leading, blankBeforeNode, item, trailing⟩
      have hseparator : weight (if index > 0 then [.text [',', ' ']] else []) ≤ 1 := weight_if _ _
      have hgap : weight (if index > 0 ∧ gapBlank then [.lineBreak] else []) ≤ 1 := weight_if _ _
      have hblank : weight (if blankBeforeNode then [.lineBreak] else []) ≤ 1 := weight_if _ _
      have hleading := weight_leading indent 0 leading
      have htrailing := weight_comments trailing
      cases item with
      | none =>
          have hblocks := ih (index + 1) group
          cases broken <;>
            simp only [blockInstructions, weight_append, weight_nil, Layout.weightIn,
              Option.map_none, Option.getD_none, if_true, Bool.false_eq_true, if_false,
              Nat.add_zero] at * <;>
            omega
      | some item =>
          have hblocks := ih (index + 1) (group + item.constructs)
          cases broken <;>
            simp only [blockInstructions, weight_append, weight_cons, weight_nil,
              Instruction.weight, Layout.weightIn, Option.map_some, Option.getD_some, if_true,
              Bool.false_eq_true, if_false] at * <;>
            omega

variable (broken : List Nat)

theorem splitLine_count {text line rest : Text} (h : splitLine text = some (line, rest)) :
    text.count '\n' = rest.count '\n' + 1 := by
  induction text generalizing line with
  | nil => exact nomatch h
  | cons c text ih =>
      rw [splitLine] at h
      split_ifs at h with hc
      · cases h
        rw [hc, List.count_cons_self]
      · rcases Option.map_eq_some_iff.1 h with ⟨⟨front, back⟩, hsplit, heq⟩
        cases heq
        rw [List.count_cons_of_ne hc]
        exact ih hsplit

theorem weight_advance (i : Instruction) (p : Page) :
    weight (advance broken i p).1 < i.weight := by
  cases i with
  | text body =>
      simp only [advance, Instruction.weight]
      split
      · next line rest h =>
          have hcount := splitLine_count h
          simp only [weight_cons, weight_nil, Instruction.weight, textWeight]
          omega
      · exact Nat.lt_of_lt_of_le Nat.one_pos (Nat.le_add_right _ _)
  | spaces count => exact Nat.one_pos
  | lineBreak => exact Nat.one_pos
  | comment body =>
      simp only [advance, weight_cons, weight_nil, Instruction.weight]
      omega
  | layout id item inline =>
      cases item with
      | text body =>
          simp only [advance, weight_cons, weight_nil, Instruction.weight, Layout.weight]
          omega
      | trailingComment body =>
          simp only [advance, weight_cons, weight_nil, Instruction.weight, Layout.weight]
          omega
      | lineBreak =>
          simp only [advance, weight_cons, weight_nil, Instruction.weight, Layout.weight]
          omega
      | concat parts =>
          have hparts := weight_concat inline id parts
          simp only [advance, Instruction.weight, Layout.weight]
          omega
      | tuple items =>
          have hitems := weight_tupleItems (id ∈ broken) (indentOf p.line.text) items.length 0
            (id + 1) items
          have hopen : textWeight ['('] = 1 := rfl
          have hclose : textWeight [')'] = 1 := rfl
          have hend : weight (if (decide (id ∈ broken)) = true then
              [.lineBreak, .spaces (indentOf p.line.text)] else []) ≤ 2 := by
            split_ifs
            · exact Nat.le_refl 2
            · exact Nat.zero_le 2
          simp only [advance, tupleInstructions, weight_append, weight_cons, weight_nil,
            Instruction.weight, Layout.weight]
          omega
      | shapes items =>
          have hitems := weight_shapeItems (id ∈ broken) (indentOf p.line.text) items.length 0
            items
          have hspace : weight (if (!decide (id ∈ broken)) = true then [.text [' ']] else []) ≤ 1 :=
            weight_if _ _
          simp only [advance, shapesInstructions, weight_append, Instruction.weight,
            Layout.weight]
          omega
      | attributes blocks forceBlock =>
          have hblocks := weight_block (forceBlock ∨ id ∈ broken) (indentOf p.line.text) 0 (id + 1)
            blocks
          have hopen : ∀ broken : Bool,
              textWeight (if broken then ['['] else ['[', ' ']) = 1 := by decide
          have hclose : ∀ broken : Bool, weight (if broken then
              [.lineBreak, .spaces (indentOf p.line.text), .text [']']] else [.text [' ', ']']]) ≤
                3 := by
            intro broken
            cases broken
            · exact Nat.le_of_ble_eq_true rfl
            · exact Nat.le_of_ble_eq_true rfl
          have hend := hclose (decide (forceBlock = true ∨ id ∈ broken))
          simp only [advance, attributesInstructions, weight_append, weight_cons, weight_nil,
            Instruction.weight, Layout.weight, hopen]
          omega

end Weight

end Fmt

end Ridl
