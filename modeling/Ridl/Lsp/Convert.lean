import Ridl.Library.Newlines

/-!
# Positions and Offsets

The server is told a place as a line and a count of UTF-16 code units; the compiler spells
a place as a byte offset. A line index converts both ways.

A line ends at a line feed, a carriage return, or both. Offsets are 32 bits, and a text
that is longer is refused by a panic where its length is asked.

## Main definitions

* `lineIndex`: The starts of the lines of a text.
* `LineIndex.position`, `LineIndex.offset`: The position of an offset, and back.
* `LineIndex.range`, `LineIndex.textRange`: The same for the ends of a range.
-/

namespace Ridl

namespace Lsp

open Library (Text byteLen splitAtByte)

/-- What the conversion panics at: a length above 32 bits, an offset that is inside a
    character or outside the text, an index, or a range that ends before it starts. -/
inductive Panic
  | textLen
  | slice
  | index
  | range
deriving DecidableEq

/-- How many values 32 bits have. -/
def U32_COUNT : Nat := 2 ^ 32

/-- A cast to 32 bits. -/
def asU32 (n : Nat) : Nat := n % U32_COUNT

/-- A position in the protocol: a line, and UTF-16 code units on it. -/
structure Position where
  line : Nat
  character : Nat
deriving DecidableEq

/-- A text with the starts of its lines, which ascend from 0. -/
structure LineIndex where
  text : Text
  lineStarts : List Nat

/-- How many UTF-16 code units a character takes. -/
def lenUtf16 (c : Char) : Nat := if c.toNat < 0x10000 then 1 else 2

/-- How many UTF-16 code units a text takes. -/
def utf16Len (text : Text) : Nat := (text.map lenUtf16).sum

/-- The starts of the lines after an offset. -/
def lineStartsFrom (offset : Nat) : Text → List Nat
  | [] => []
  | c :: text =>
      let endsLine :=
        if c = '\n' then true
        -- The line feed of a pair ends the line, not the carriage return.
        else if c = '\r' then text.head? != some '\n'
        else false
      let rest := lineStartsFrom (offset + c.utf8Size) text
      if endsLine then asU32 (asU32 offset + 1) :: rest else rest

def lineIndex (text : Text) : LineIndex where
  text := text
  lineStarts := 0 :: lineStartsFrom 0 text

/-- The length of a text, if it fits in 32 bits. -/
def TextSize.of (text : Text) : Except Panic Nat :=
  if byteLen text < U32_COUNT then .ok (byteLen text) else .error .textLen

/-- The text between two offsets. -/
def slice (text : Text) (start stop : Nat) : Except Panic Text :=
  match splitAtByte text stop with
  | none => .error .slice
  | some (front, _) =>
      match splitAtByte front start with
      | none => .error .slice
      | some (_, between) => .ok between

/-- The bytes at an offset spell an ASCII text. No byte inside a character does. -/
def bytesStartWith (text : Text) (offset : Nat) (ascii : Text) : Bool :=
  (splitAtByte text offset).any (fun (_, back) => ascii.isPrefixOf back)

namespace LineIndex

/-- The position of an offset. The line feed of a pair has the position of its carriage
    return. -/
def position (index : LineIndex) (offset : Nat) : Except Panic Position :=
  (TextSize.of index.text).bind (fun len =>
    let clamped := min offset len
    let offset :=
      if clamped > 0 && bytesStartWith index.text (clamped - 1) ['\r', '\n'] then clamped - 1
      else clamped
    let line := (index.lineStarts.takeWhile (· ≤ offset)).length - 1
    match index.lineStarts[line]? with
    | none => .error .index
    | some start =>
        (slice index.text start offset).map (fun between =>
          { line := asU32 line, character := asU32 (utf16Len between) }))

/-- The offset after so many code units, a character that is begun being taken whole. -/
def walk (character : Nat) (units offset : Nat) : Text → Nat
  | [] => offset
  | c :: text =>
      if units ≥ character then offset
      else walk character (asU32 (units + lenUtf16 c)) (offset + c.utf8Size) text

/-- The end of a line, before what ends it. -/
def lineEnd (index : LineIndex) (line : Nat) : Except Panic Nat :=
  match index.lineStarts[line + 1]? with
  | some next =>
      (slice index.text 0 next).map (fun front =>
        if ['\r', '\n'].isSuffixOf front then next - 2 else next - 1)
  | none => .ok (byteLen index.text)

def offset (index : LineIndex) (position : Position) : Except Panic Nat :=
  match index.lineStarts[position.line]? with
  | none => TextSize.of index.text
  | some start =>
      (index.lineEnd position.line).bind (fun stop =>
        (slice index.text start stop).map (fun between =>
          asU32 (walk position.character 0 start between)))

/-- The positions of the ends of a range. -/
def range (index : LineIndex) (start stop : Nat) : Except Panic (Position × Position) :=
  (index.position start).bind (fun start =>
    (index.position stop).map (fun stop => (start, stop)))

def textRange (index : LineIndex) (range : Position × Position) : Except Panic (Nat × Nat) :=
  (index.offset range.1).bind (fun start =>
    (index.offset range.2).bind (fun stop =>
      if start ≤ stop then .ok (start, stop) else .error .range))

end LineIndex

end Lsp

end Ridl
