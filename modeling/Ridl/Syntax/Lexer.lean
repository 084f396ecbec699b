import Mathlib.Data.List.Basic
import Ridl.Syntax.Kind

/-!
# The Family Lexer

The tokens of a text. A raw token is the longest match of the token patterns
at the front of what is left of the text; strings and comments are scanned to
their end from their opening. Two refinements look at more than one token: a
slash after `=` or after the word `match` begins a regular expression, which
is scanned from the text, and a number directly before a unit of time is one
duration. Words are then looked up among those of the profile.

The lexer is total. Text that no pattern recognises is an error token, so the
texts of the tokens, one after another, are the text that was lexed.

## Main definitions

* `rawTokens`: The raw tokens, with regular expressions lifted out.
* `refine`: Durations merged and words looked up.
* `lex`: The tokens of a text.

## Theorems

* `lex_text`: The tokens of a text concatenate to it.
-/

namespace Ridl

namespace Syntax

/-- A token: its kind and the text it covers. -/
structure Token where
  kind : SyntaxKind
  text : List Char
deriving DecidableEq, Repr

/-- The text that tokens cover. -/
def textOf (tokens : List Token) : List Char := (tokens.map (·.text)).flatten

@[simp]
theorem textOf_nil : textOf [] = [] := rfl

@[simp]
theorem textOf_cons (token : Token) (tokens : List Token) :
    textOf (token :: tokens) = token.text ++ textOf tokens := by
  simp [textOf]

section Raw

def isLetter (c : Char) : Bool := ('A' ≤ c && c ≤ 'Z') || ('a' ≤ c && c ≤ 'z')

def isDigit (c : Char) : Bool := '0' ≤ c && c ≤ '9'

def isWord (c : Char) : Bool := isLetter c || isDigit c || c = '_'

def isBlank (c : Char) : Bool := c = ' ' || c = '\t' || c = '\r' || c = '\n'

/-- Whether the text begins with the end of a line: a line feed, or a carriage return that no line
    feed follows. -/
def isLineBreak : List Char → Bool
  | '\n' :: _ => true
  | '\r' :: rest => rest.head? ≠ some '\n'
  | _ => false

/-- How far a string reaches after its opening quote, and whether it is closed there. -/
def lexString : List Char → Nat × Bool
  | [] => (0, false)
  | c :: rest =>
      if isLineBreak (c :: rest) then (0, false)
      else if c = '\\' then
        match rest with
        | [] => (1, false)
        | d :: rest =>
            if isLineBreak (d :: rest) then (1, false)
            else ((lexString rest).1 + 2, (lexString rest).2)
      else if c = '"' then (1, true)
      else ((lexString rest).1 + 1, (lexString rest).2)

/-- How far a line comment reaches after its opening slashes. -/
def lexLineComment : List Char → Nat
  | [] => 0
  | c :: rest => if isLineBreak (c :: rest) then 0 else lexLineComment rest + 1

/-- How much of a text there is to the end of the first `*/` in it. -/
def findClose : List Char → Option Nat
  | [] => none
  | c :: rest => if c = '*' ∧ rest.head? = some '/' then some 2 else (findClose rest).map (· + 1)

/-- The kind of a block comment and how far it reaches, after its opening. -/
def lexBlockComment (rest : List Char) : SyntaxKind × Nat :=
  let isDoc := rest.head? = some '*' ∧ rest.tail.head? ≠ some '/'
  match findClose rest with
  | some length => (if isDoc then .docComment else .blockComment, length)
  | none => (.error, rest.length)

/-- The raw token at the front of a text: its kind and how many characters it takes after the
    first. Where several patterns match, the longest does. -/
def rawToken (c : Char) (rest : List Char) : SyntaxKind × Nat :=
  if isLetter c then (.ident, (rest.takeWhile isWord).length)
  else if isDigit c then
    let digits := (rest.takeWhile isDigit).length
    match rest.drop digits with
    | '.' :: d :: fraction =>
        if isDigit d then (.floatNumber, digits + 2 + (fraction.takeWhile isDigit).length)
        else (.intNumber, digits)
    | _ => (.intNumber, digits)
  else if isBlank c then (.whitespace, (rest.takeWhile isBlank).length)
  else match c, rest with
    | '"', rest =>
        (if (lexString rest).2 then .string else .error, (lexString rest).1)
    | '/', '/' :: '/' :: rest => (.docComment, lexLineComment rest + 2)
    | '/', '/' :: rest => (.lineComment, lexLineComment rest + 1)
    | '/', '*' :: rest => ((lexBlockComment rest).1, (lexBlockComment rest).2 + 1)
    | '/', _ => (.slash, 0)
    | ':', _ => (.colon, 0)
    | '=', '=' :: _ => (.eqEq, 1)
    | '=', _ => (.eq, 0)
    | '[', _ => (.lBracket, 0)
    | ']', _ => (.rBracket, 0)
    | '{', _ => (.lBrace, 0)
    | '}', _ => (.rBrace, 0)
    | '(', _ => (.lParen, 0)
    | ')', _ => (.rParen, 0)
    | '.', '.' :: _ => (.dotDot, 1)
    | '.', _ => (.dot, 0)
    | ',', _ => (.comma, 0)
    | '?', _ => (.question, 0)
    | ';', _ => (.semicolon, 0)
    | '@', _ => (.atSign, 0)
    | '|', '|' :: _ => (.pipePipe, 1)
    | '|', _ => (.pipe, 0)
    | '%', _ => (.percent, 0)
    | '-', _ => (.minus, 0)
    | '<', '=' :: _ => (.le, 1)
    | '<', _ => (.lt, 0)
    | '>', '=' :: _ => (.ge, 1)
    | '>', _ => (.gt, 0)
    | '!', '=' :: _ => (.neq, 1)
    | '!', _ => (.bang, 0)
    | '&', '&' :: _ => (.ampAmp, 1)
    | '+', _ => (.plus, 0)
    | '*', _ => (.star, 0)
    -- No pattern begins like this.
    | _, _ => (.error, 0)

/-- Whether a slash after this token begins a regular expression: after `=`, an initial or constant
    value, and after `match`, which is still an identifier here. -/
def startsRegex : Option Token → Bool
  | some prev => prev.kind = .eq || (prev.kind = .ident && prev.text = "match".toList)
  | none => false

/-- The kind of a regular expression and how far it reaches after its opening slash. It does not
    reach past the end of its line. -/
def scanRegex : List Char → SyntaxKind × Nat
  | [] => (.error, 0)
  | c :: rest =>
      if c = '\\' then
        match rest with
        | [] => (.error, 1)
        | d :: rest =>
            if isLineBreak (d :: rest) then (.error, 1)
            else ((scanRegex rest).1, (scanRegex rest).2 + 2)
      else if c = '/' then (.regex, 1)
      else if isLineBreak (c :: rest) then (.error, 0)
      else ((scanRegex rest).1, (scanRegex rest).2 + 1)

/-- The token at the front of a text after the significant token `prev`. -/
def nextRaw (prev : Option Token) (c : Char) (rest : List Char) : Token :=
  if (rawToken c rest).1 = .slash && startsRegex prev then
    { kind := (scanRegex rest).1, text := c :: rest.take (scanRegex rest).2 }
  else { kind := (rawToken c rest).1, text := c :: rest.take (rawToken c rest).2 }

/-- The raw tokens of a text of at most `fuel` characters. -/
def rawTokensFrom : Nat → Option Token → List Char → List Token
  | 0, _, _ => []
  | _ + 1, _, [] => []
  | fuel + 1, prev, c :: rest =>
      let token := nextRaw prev c rest
      token :: rawTokensFrom fuel (if token.kind.isTrivia then prev else some token)
        ((c :: rest).drop token.text.length)

def rawTokens (input : List Char) : List Token := rawTokensFrom input.length none input

end Raw

section Refine

/-- The units of time that a duration may use. -/
def isTimeAtom (text : List Char) : Bool :=
  ["us", "ms", "s", "min", "h"].contains (String.ofList text)

/-- Whether two neighbouring tokens are one duration. -/
def isDuration (raw next : Token) : Bool :=
  (raw.kind = .intNumber || raw.kind = .floatNumber) && next.kind = .ident && isTimeAtom next.text

/-- What a word is under the profile: one of its keywords, a reserved word of another profile, or
    an identifier. -/
def wordKind (profile : Profile) (text : List Char) : SyntaxKind :=
  (keywordIn profile (String.ofList text)).getD
    (if isReserved (String.ofList text) then .reservedWord else .ident)

def refineToken (profile : Profile) (raw : Token) : Token :=
  if raw.kind = .ident then { kind := wordKind profile raw.text, text := raw.text } else raw

def refine (profile : Profile) : List Token → List Token
  | [] => []
  | [raw] => [refineToken profile raw]
  | raw :: next :: raws =>
      if isDuration raw next then
        { kind := .duration, text := raw.text ++ next.text } :: refine profile raws
      else refineToken profile raw :: refine profile (next :: raws)

end Refine

def lex (input : List Char) (profile : Profile) : List Token := refine profile (rawTokens input)

section Text

theorem nextRaw_text (prev : Option Token) (c : Char) (rest : List Char) :
    (nextRaw prev c rest).text <+: c :: rest := by
  have htake (n : Nat) : c :: rest.take n <+: c :: rest :=
    (List.prefix_cons_inj c).2 (List.take_prefix n rest)
  rw [nextRaw]
  split
  · exact htake _
  · exact htake _

theorem nextRaw_length (prev : Option Token) (c : Char) (rest : List Char) :
    0 < (nextRaw prev c rest).text.length := by
  rw [nextRaw]
  split <;> simp

theorem rawTokensFrom_text (fuel : Nat) (prev : Option Token) (input : List Char)
    (hfuel : input.length ≤ fuel) : textOf (rawTokensFrom fuel prev input) = input := by
  induction fuel generalizing prev input with
  | zero =>
      rw [List.length_eq_zero_iff.1 (Nat.le_zero.1 hfuel)]
      rfl
  | succ fuel ih =>
      cases input with
      | nil => rfl
      | cons c rest =>
          have hlength := nextRaw_length prev c rest
          have hfuel' : ((c :: rest).drop (nextRaw prev c rest).text.length).length ≤ fuel := by
            rw [List.length_drop]
            omega
          simp only [rawTokensFrom, textOf_cons, ih _ _ hfuel']
          exact (List.prefix_iff_eq_append.1 (nextRaw_text prev c rest))

theorem rawTokens_text (input : List Char) : textOf (rawTokens input) = input :=
  rawTokensFrom_text input.length none input (Nat.le_refl _)

@[simp]
theorem refineToken_text (profile : Profile) (raw : Token) :
    (refineToken profile raw).text = raw.text := by
  rw [refineToken]
  split <;> rfl

theorem refine_text (profile : Profile) (raws : List Token) :
    textOf (refine profile raws) = textOf raws := by
  induction raws using refine.induct with
  | case1 => rfl
  | case2 raw => simp [refine]
  | case3 raw next raws hduration ih => simp [refine, hduration, ih]
  | case4 raw next raws hduration ih => simp [refine, hduration, ih]

theorem lex_text (input : List Char) (profile : Profile) : textOf (lex input profile) = input := by
  rw [lex, refine_text, rawTokens_text]

end Text

example : (lex "a = /x\\/y/ 10ms".toList .typl).map (·.kind)
    = [.ident, .whitespace, .eq, .whitespace, .regex, .whitespace, .duration] := by
  decide +kernel

end Syntax

end Ridl
