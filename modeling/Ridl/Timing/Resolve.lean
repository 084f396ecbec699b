import Ridl.Timing.Form
import Ridl.Timing.Duration

/-!
# Resolving Timing

What an interaction promises about its timing, in exact microseconds. A bound that
is written is resolved from its literal. A bound that is not may come from the
default for the kind: the whole default where no annotation is written or nothing of
it could be read, and the maximum alone where a command or a query has a range
without one.

What is wrong with an annotation is reported and the bounds are resolved all the
same.
-/

namespace Ridl

namespace Timing

open Contract (ExactValue TextRange durationUs trim stripSuffix)
open Library (Text)
open Syntax (SyntaxNode SyntaxToken hasToken FileId Severity Diagnostic)

/-- Whether a timing is a strict period or a range. -/
inductive TimingMode
  | strictPeriodic
  | range
deriving DecidableEq, Repr

/-- Resolved bounds, in microseconds: the rate floor and the staleness bound. -/
structure TimingSpec where
  mode : TimingMode
  minUs : Option ExactValue
  maxUs : Option ExactValue
  /-- Whether a bound is taken from the default. -/
  defaultApplied : Bool
deriving DecidableEq

inductive InteractionKind
  | signal
  | event
  | command
  | query
  | fixed
deriving DecidableEq, Repr

/-- Whether an interaction is called, so that its timing is about the answer. -/
def InteractionKind.isRpc : InteractionKind → Bool
  | .command | .query => true
  | _ => false

/-! ### Diagnostics -/

inductive DiagCode
  | FORM_102
  | RIDL_100
  | RIDL_101
  | RIDL_102
  | RIDL_103
  | RIDL_108
  | RIDL_112
deriving DecidableEq, Repr

def diagnostic (code : DiagCode) (severity : Severity) (file : FileId) (range : TextRange)
    (message : String) : Diagnostic DiagCode :=
  { code := code, severity := severity, message := message, primary := ⟨file, range⟩ }

def error (code : DiagCode) (file : FileId) (range : TextRange) (message : String) :
    Diagnostic DiagCode :=
  diagnostic code .error file range message

def quoted (text : Text) : String := "`" ++ String.ofList text ++ "`"

/-! ### Bounds -/

def isZero (value : ExactValue) : Bool := value.num = 0

def isPositive (value : ExactValue) : Bool := 0 < value.num

/-- One bound of a configured default, which has to be whole. -/
def wholeBound (text : Text) : Except String ExactValue :=
  match durationUs text with
  | none => .error ("invalid duration " ++ quoted text)
  | some duration =>
      if duration.whole then .ok duration.us
      else .error ("duration " ++ quoted text ++ " must be a whole number of us/ms/s/min/h")

/-- The exact value of a bound that is written. A literal that is no whole number of
    units is reported. -/
def boundUs (token : Option SyntaxToken) (file : FileId) :
    Option ExactValue × List (Diagnostic DiagCode) :=
  match token with
  | none => (none, [])
  | some token =>
      match durationUs token.text with
      | some duration =>
          (some duration.us,
            if duration.whole then []
            else [error .FORM_102 file token.textRange ("duration " ++ quoted token.text ++
              " must be a whole number of us/ms/s/min/h (ridl §2.1)")])
      | none =>
          (none, [error .FORM_102 file token.textRange
            (quoted token.text ++ " is not a valid duration (ridl §2.1)")])

/-- The text of a bound that is written. -/
def written (token : Option SyntaxToken) : Text :=
  match token with
  | some token => token.text
  | none => ['…']

def kindNoun : InteractionKind → String
  | .signal => "signal"
  | .event => "event"
  | .command => "command"
  | .query => "query"
  | .fixed => "fixed"

/-- The bounds of a timing as a range, a bound that is not set as an empty side. -/
def renderBounds (spec : TimingSpec) : String :=
  let render (bound : Option ExactValue) : String :=
    (bound.map fun value => String.ofList (renderDuration value)).getD ""
  "[" ++ render spec.minUs ++ ".." ++ render spec.maxUs ++ "]"

/-! ### Defaults -/

/-- The text before the first `..`, and the text after it. -/
def splitOnceDots : Text → Option (Text × Text)
  | '.' :: '.' :: rest => some ([], rest)
  | c :: rest => (splitOnceDots rest).map fun halves => (c :: halves.1, halves.2)
  | [] => none

/-- What stands between the brackets. -/
def stripBrackets : Text → Option Text
  | '[' :: rest => stripSuffix [']'] rest
  | _ => none

/-- A bound of a configured default that may be absent. -/
def optionalBound (text : Text) : Except String (Option ExactValue) :=
  if text = [] then .ok none else (wholeBound text).map some

/-- The default range that a text configures, which needs a lower bound if
    `requireMin`. -/
def parseDefaultRange (text : Text) (requireMin : Bool) : Except String TimingSpec :=
  match stripBrackets (trim text) with
  | none => .error ("expected a bracketed range like `[100ms..1000ms]`, found " ++ quoted text)
  | some inner =>
    match splitOnceDots inner with
    | none => .error ("expected `min..max`, found " ++ quoted text)
    | some (minText, maxText) =>
      let minText := trim minText
      let maxText := trim maxText
      if requireMin = true ∧ (minText = [] ∨ maxText = []) then
        .error ("the default timing must set both bounds, e.g. `[100ms..1000ms]`, found " ++
          quoted text)
      else if maxText = [] then
        .error ("a response-bound default must set a maximum, e.g. `[..1s]`, found " ++ quoted text)
      else do
        let min ← optionalBound minText
        let max ← wholeBound maxText
        if min.any (fun min => !isPositive min) || !isPositive max then
          .error ("a timing bound must be greater than zero, found " ++ quoted text)
        else if min.any (fun min => decide (max < min)) then
          .error ("the lower bound exceeds the upper bound in " ++ quoted text)
        else .ok { mode := .range, minUs := min, maxUs := some max, defaultApplied := false }

/-- The configured default of signals and events. -/
def parseDefaultTiming (text : Text) : Except String TimingSpec := parseDefaultRange text true

/-- The configured default of commands or of queries. -/
def parseRpcDefaultTiming (text : Text) : Except String TimingSpec := parseDefaultRange text false

/-- The default of signals and events where none is configured. -/
def builtinDefaultTiming : Except String TimingSpec := parseDefaultTiming "[100ms..1000ms]".toList

def builtinCommandTiming : Except String TimingSpec := parseRpcDefaultTiming "[..1s]".toList

def builtinQueryTiming : Except String TimingSpec := parseRpcDefaultTiming "[..3s]".toList

def appliedDefault (default : TimingSpec) : TimingSpec :=
  { mode := .range, minUs := default.minUs, maxUs := default.maxUs, defaultApplied := true }

/-- How much of a timing is taken from the default. -/
inductive Applied
  | whole
  | maxOnly

/-- The warning for a command or a query that declares no response bound. -/
def missingResponseBound (kind : InteractionKind) (spec : TimingSpec) (applied : Applied)
    (file : FileId) (anchor : TextRange) : Diagnostic DiagCode :=
  let responding :=
    match kind with
    | .command => "acceptance (the §6.1 acknowledgment, not execution)"
    | _ => "the reply"
  let bounds := renderBounds spec
  let what :=
    match applied with
    | .whole => "the default `@" ++ bounds ++ "` is applied"
    | .maxOnly =>
        "the maximum `" ++
          (spec.maxUs.map fun value => String.ofList (renderDuration value)).getD "" ++
          "` is taken from the default, giving `@" ++ bounds ++ "`"
  diagnostic .RIDL_112 .warning file anchor
    (kindNoun kind ++ " without a declared response bound — " ++ what ++
      ": the provider must settle " ++ responding ++
      " within the bound. Write `@[..max]` to declare the bound this " ++ kindNoun kind ++
      " really promises (ridl §9.3)")

/-- An interaction without an annotation. -/
def untimed (kind : InteractionKind) (default : TimingSpec) (file : FileId) (anchor : TextRange) :
    Option TimingSpec × List (Diagnostic DiagCode) :=
  let spec := appliedDefault default
  match kind with
  | .signal | .event =>
      (some spec, [diagnostic .RIDL_100 .warning file anchor
        (kindNoun kind ++ " without a timing annotation — the default `@" ++ renderBounds spec ++
          "` is applied: it publishes no slower than the rate floor and a subscriber may treat " ++
          "a value older than the staleness bound as stale. Write the bounds this " ++
          kindNoun kind ++ " really promises (ridl §9.1)")])
  | _ => (some spec, [missingResponseBound kind spec .whole file anchor])

/-! ### Annotations -/

/-- Whether a range parsed to its end, so that both the `..` and the closing bracket
    were where they belong. -/
def rangeParsedWhole (annot range : SyntaxNode) : Bool :=
  hasToken range .dotDot && hasToken annot .rBracket

/-- The report about the first bound of a range that is zero. -/
def zeroBound (file : FileId) (node : TextRange) (min max : Option ExactValue)
    (minText maxText : Text) : List (Diagnostic DiagCode) :=
  let zero := [(min, minText, "rate floor"), (max, maxText, "staleness bound")].find?
    fun bound => bound.1.any isZero
  match zero with
  | some (_, text, role) =>
      [error .RIDL_102 file node
        ("the " ++ role ++ " is " ++ quoted text ++ " — a timing bound is a duration greater " ++
          "than zero, because a bound of zero promises a publication with no delay at all " ++
          "(ridl §9.2)")]
  | none => []

/-- The report about a lower bound that is not below a maximum from the default. -/
def filledOrder (kind : InteractionKind) (file : FileId) (node : TextRange) (lo hi : ExactValue)
    (minText maxText : Text) (parsedWhole : Bool) : List (Diagnostic DiagCode) :=
  let (code, severity, relation) :=
    if hi < lo then (DiagCode.RIDL_101, Severity.error, "is longer than")
    else (.RIDL_108, .warning, "equals")
  if parsedWhole = true ∧ hi ≤ lo then
    [diagnostic code severity file node
      ("the call throttle " ++ quoted minText ++ " " ++ relation ++
        " the default response bound " ++ quoted maxText ++ " that this `" ++ kindNoun kind ++
        "` takes from `[defaults]." ++ kindNoun kind ++
        "_timing` or the built-in default, because `@[" ++ String.ofList minText ++
        "..]` writes no maximum. Write an explicit maximum longer than the throttle, `@[" ++
        String.ofList minText ++ "..max]` (ridl §9.3)")]
  else []

/-- The report about bounds that are written in the wrong order, or are equal. -/
def writtenOrder (kind : InteractionKind) (file : FileId) (node : TextRange) (lo hi : ExactValue)
    (minText maxText : Text) : List (Diagnostic DiagCode) :=
  if hi < lo then
    [error .RIDL_101 file node
      ("the rate floor " ++ quoted minText ++ " is longer than the staleness bound " ++
        quoted maxText ++ " — in `@[min..max]` the first bound is how often the value is " ++
        "published and the second how old it may get, so the first must not exceed the second " ++
        "(ridl §9.2)")]
  else if lo = hi then
    let alternative :=
      match kind with
      | .signal =>
          ", or write the strict period `@" ++ String.ofList minText ++ "` if the rate really " ++
            "is isochronous — that is a separate mode, not a spelling of this range"
      | _ => ""
    [diagnostic .RIDL_108 .warning file node
      ("the rate floor and the staleness bound are both " ++ quoted minText ++ " — a " ++
        "subscriber may then call the value stale the moment the next publication is due, " ++
        "leaving no margin for jitter. Widen the staleness bound" ++ alternative ++
        " (ridl §9.2)")]
  else []

/-- The bounds of a range, and what is wrong with them. -/
def resolveRange (annot range : SyntaxNode) (kind : InteractionKind) (default : TimingSpec)
    (file : FileId) (anchor : TextRange) : TimingSpec × List (Diagnostic DiagCode) :=
  let minToken := TimingRange.min range
  let maxToken := TimingRange.max range
  let (min, minDiags) := boundUs minToken file
  let (writtenMax, maxDiags) := boundUs maxToken file
  let boundRejected := (minDiags ++ maxDiags).any (·.code = .FORM_102)
  let node := range.textRange
  let minText := written minToken
  -- A command or a query without a response bound takes it from the default.
  let defaultApplied := kind.isRpc && writtenMax.isNone
  let max := if defaultApplied then default.maxUs else writtenMax
  let maxText :=
    if defaultApplied then (max.map renderDuration).getD (written maxToken) else written maxToken
  let zeros := zeroBound file node min max minText maxText
  let parsedWhole := rangeParsedWhole annot range
  let filledMax := defaultApplied && max.isSome
  let order :=
    match min, max, boundRejected with
    | some lo, some hi, false =>
        if filledMax then filledOrder kind file node lo hi minText maxText parsedWhole
        else writtenOrder kind file node lo hi minText maxText
    | _, _, _ => []
  let spec : TimingSpec :=
    { mode := .range, minUs := min, maxUs := max, defaultApplied := defaultApplied }
  let missing :=
    if kind.isRpc ∧ minToken.isSome ∧ maxToken.isNone ∧ parsedWhole then
      [missingResponseBound kind spec .maxOnly file anchor]
    else []
  (spec, minDiags ++ maxDiags ++ zeros ++ order ++ missing)

/-- Why a strict period is not for a kind: the article of the kind, and the reason. -/
def strictSubject : InteractionKind → String × String
  | .event => ("an", "an event reports occurrences that arrive when they arrive")
  | _ => ("a", "a caller is not isochronous by contract (ADR-0015 decision 5)")

/-- The bounds of a strict period, which is for signals only. -/
def resolveStrict (annot : SyntaxNode) (token : SyntaxToken) (kind : InteractionKind)
    (file : FileId) : TimingSpec × List (Diagnostic DiagCode) :=
  let (value, diags) := boundUs (some token) file
  let node := annot.textRange
  let zeros :=
    if value.any isZero then
      [error .RIDL_102 file node
        ("the strict period is " ++ quoted token.text ++ " — a period is a duration greater " ++
          "than zero, because a period of zero promises a publication with no delay at all " ++
          "(ridl §9.2)")]
    else []
  let misplaced :=
    if kind = .signal then []
    else
      let (article, subject) := strictSubject kind
      [error .RIDL_103 file node
        ("the strict period `@" ++ String.ofList token.text ++ "` is not valid on " ++ article ++
          " " ++ kindNoun kind ++ " — a strict period is an isochronous publication rate, and " ++
          subject ++ ". Write a range `@[min..max]` instead (ridl §9.2)")]
  ({ mode := .strictPeriodic, minUs := value, maxUs := value, defaultApplied := false },
    diags ++ zeros ++ misplaced)

/-- The bounds of an interaction, and what is wrong with its annotation. -/
def resolveTiming (annot : Option SyntaxNode) (kind : InteractionKind) (default : TimingSpec)
    (file : FileId) (anchor : TextRange) : Option TimingSpec × List (Diagnostic DiagCode) :=
  if kind = .fixed then (none, [])
  else
    match annot with
    | none => untimed kind default file anchor
    | some annot =>
        match Annot.range annot with
        | some range =>
            let (spec, diags) := resolveRange annot range kind default file anchor
            (some spec, diags)
        | none =>
            match Annot.duration annot with
            | some token =>
                let (spec, diags) := resolveStrict annot token kind file
                (some spec, diags)
            -- Nothing of the annotation could be read.
            | none => (some (appliedDefault default), [])

end Timing

end Ridl
