import Ridl.Library.Search
import Ridl.Syntax.Node

/-!
# Package Imports

Which package an import line names, and the search for cycles among packages. A path
is first a package of the unit that the importing package is in, or a member of the
workspace. Otherwise it is looked up by the longest key of an `[imports]` map that
is the path or a dotted prefix of it, and names a package of the remote unit that was
loaded for the URL of that key. Only a member falls back on the map of the workspace.

A line whose package leads back to the importing one is reported. The search follows
every import line of every package on the way, each by the rule for the package that
it is in.
-/

namespace Ridl

namespace Resolve

open Syntax (SyntaxNode SyntaxToken SyntaxKind supportChild FileId Severity Diagnostic byteLen)
open Contract (TextRange)

abbrev Text := List Char

/-! ### Workspaces -/

/-- Where the sources of a package come from. -/
inductive PackageOrigin
  | workspaceMember
  | remote (url : Text)
  | std
deriving DecidableEq, Repr

/-- The entries of an `[imports]` map in the order of the keys. -/
abbrev ImportMap := List (Text × Text)

/-- A file, with its tree. -/
structure InputFile where
  path : Text
  source : SyntaxNode

/-- What is known of the packages, which are known by their identity. -/
structure Database (Package : Type) where
  name : Package → Text
  files : Package → List InputFile
  origin : Package → PackageOrigin
  imports : Package → ImportMap

/-- The packages that are loaded. -/
structure Workspace (Package : Type) where
  packages : List Package
  imports : ImportMap

/-! ### Import lines -/

/-- The shape of an import line. -/
inductive ImportShape
  | wildcard
  | relative
  | named (packagePath symbolName : Text)
  | malformed
deriving DecidableEq, Repr

/-- The tokens of a name that are no trivia. -/
def significantTokens (node : SyntaxNode) : List SyntaxToken :=
  node.tokens.filter (fun token => !token.kind.isTrivia)

/-- The segments of a dotted name from its tokens, the first one after `current`. -/
def segmentsFrom (current : Text) : List SyntaxToken → List Text
  | [] => [current]
  | token :: tokens =>
      if token.kind = .dot then current :: segmentsFrom [] tokens
      else segmentsFrom (current ++ token.text) tokens

def qualifiedSegments (qualified : SyntaxNode) : List Text :=
  segmentsFrom [] (significantTokens qualified)

def lastSignificantIsDot (qualified : SyntaxNode) : Bool :=
  (significantTokens qualified).getLast?.any (·.kind = .dot)

/-- Segments with a dot between them. -/
def joinDots : List Text → Text
  | [] => []
  | [segment] => segment
  | segment :: segments => segment ++ '.' :: joinDots segments

/-- Whether the path of an import was kept as an error that starts with a dot, by what
    follows the import. -/
def importHasRelativePrefix : List SyntaxNode → Bool
  | [] => false
  | element :: siblings =>
      match element.intoToken with
      | some token => if token.kind.isTrivia then importHasRelativePrefix siblings else false
      | none =>
          element.isNode .errorNode &&
            (significantTokens element).head?.any (fun token =>
              token.kind = .dot || token.kind = .dotDot)

/-- The shape of an import, by what it is and what follows it. -/
def importShape (import_ : SyntaxNode) (siblings : List SyntaxNode) : ImportShape :=
  match supportChild import_ .qualifiedName with
  | some qualified =>
      if lastSignificantIsDot qualified then .wildcard
      else
        let segments := qualifiedSegments qualified
        if segments.length < 2 then .malformed
        else .named (joinDots segments.dropLast) (segments.getLastD [])
  | none => if importHasRelativePrefix siblings then .relative else .malformed

/-- The imports among the children of a file, each with what follows it. -/
def importsAmong : List SyntaxNode → List (SyntaxNode × List SyntaxNode)
  | [] => []
  | element :: siblings =>
      if element.isNode .importLine then (element, siblings) :: importsAmong siblings
      else importsAmong siblings

def fileImports (source : SyntaxNode) : List (TextRange × ImportShape) :=
  (importsAmong source.childrenWithTokens).map fun line =>
    (line.1.textRange, importShape line.1 line.2)

/-! ### Which package a path names -/

/-- Whether a path is a key, or goes on after it with a dot. -/
def keyMatches (key path : Text) : Bool := path = key || (key ++ ['.']).isPrefixOf path

/-- The last one of the entries with the greatest key. -/
def maxByLength : ImportMap → Option (Text × Text)
  | [] => none
  | entry :: entries =>
      match maxByLength entries with
      | none => some entry
      | some last => if byteLen entry.1 ≤ byteLen last.1 then some last else some entry

/-- The URL of the longest key that matches a path. -/
def longestImportPrefix (map : ImportMap) (path : Text) : Option Text :=
  (maxByLength (map.filter fun entry => keyMatches entry.1 path)).map Prod.snd

/-- Where a reference to a package leads. -/
inductive PackageSource (Package : Type)
  | member (package : Package)
  | remote (url : Text) (package : Option Package)
  | unknown

section Sources

variable {Package : Type} [DecidableEq Package] (db : Database Package) (ws : Workspace Package)

/-- The first loaded package of a name. -/
def packageOf (name : Text) : Option Package := ws.packages.find? (fun p => db.name p = name)

/-- Whether a package belongs to the unit of another one: one of a remote unit to the
    unit that was loaded for its URL, and each other one to all of them. -/
def sameUnit (candidate pkg : Package) : Bool :=
  match db.origin candidate with
  | .remote _ => db.origin candidate = db.origin pkg
  | _ => true

/-- The URL of the key that pins a path in a package. -/
def pinnedUrl (pkg : Package) (path : Text) : Option Text :=
  (longestImportPrefix (db.imports pkg) path).or
    (if db.origin pkg = .workspaceMember then longestImportPrefix ws.imports path else none)

def resolveSource (pkg : Package) (path : Text) : PackageSource Package :=
  match (packageOf db ws path).filter (fun member => sameUnit db member pkg) with
  | some member => .member member
  | none =>
      match pinnedUrl db ws pkg path with
      | some url =>
          .remote url (ws.packages.find? fun candidate =>
            db.name candidate = path ∧ db.origin candidate = .remote url)
      | none => .unknown

/-- The loaded package that a source is. -/
def PackageSource.target {Package : Type} : PackageSource Package → Option Package
  | .member package => some package
  | .remote _ package => package
  | .unknown => none

/-- The loaded package that a path names in a package. -/
def visiblePackage (pkg : Package) (path : Text) : Option Package :=
  (resolveSource db ws pkg path).target

/-- The packages that a package imports. -/
def memberEdges (package : Package) : List Package :=
  (db.files package).flatMap fun file =>
    (fileImports file.source).filterMap fun line =>
      match line.2 with
      | .named path _ => (visiblePackage db ws package path).filter (· ≠ package)
      | _ => none

/-- Whether a package is found from another one, with the packages that were visited.
    The number bounds how deep the search goes. -/
def reaches (fuel : Nat) (start target : Package) (visited : List Package) :
    Option (Bool × List Package) :=
  Library.Graph.search (memberEdges db ws) target fuel start visited

/-! ### Cycles -/

inductive DiagCode
  | TYPL_003
  | TYPL_004
deriving DecidableEq, Repr

def diagnostic (code : DiagCode) (file : FileId) (range : TextRange) (message : String) :
    Diagnostic DiagCode :=
  { code := code, severity := .error, message := message, primary := ⟨file, range⟩ }

/-- An import line as it is resolved. -/
structure ImportRecord (Package : Type) where
  baseName : Text
  packagePath : Text
  fileId : FileId
  range : TextRange
  /-- The loaded package that the path names. -/
  target : Option Package
  /-- The URL of the remote unit that does not have the package. -/
  missingRemote : Option Text
  unknown : Bool

/-- The numbers of paths, the ones in `seen` being numbered. A path has one number. -/
def internPaths (seen : List Text) : List Text → List FileId
  | [] => []
  | path :: paths =>
      match seen.idxOf? path with
      | some i => i :: internPaths seen paths
      | none => seen.length :: internPaths (seen ++ [path]) paths

def fileIds (files : List InputFile) : List FileId := internPaths [] (files.map InputFile.path)

/-- A named import as it is resolved. -/
def importRecord (pkg : Package) (fileId : FileId) (range : TextRange) (path symbol : Text) :
    ImportRecord Package :=
  let source := resolveSource db ws pkg path
  { baseName := symbol
    packagePath := path
    fileId := fileId
    range := range
    target := source.target
    missingRemote :=
      match source with
      | .remote url none => some url
      | _ => none
    unknown :=
      match source with
      | .unknown => true
      | _ => false }

/-- The named imports of a package, and the reports about the others. -/
def collectImports (pkg : Package) : List (ImportRecord Package) × List (Diagnostic DiagCode) :=
  let lines := (fileIds (db.files pkg)).zip (db.files pkg) |>.flatMap fun entry =>
    (fileImports entry.2.source).map fun line => (entry.1, line)
  (lines.filterMap fun line =>
    match line.2.2 with
    | .named path symbol => some (importRecord db ws pkg line.1 line.2.1 path symbol)
    | _ => none,
   lines.filterMap fun line =>
    match line.2.2 with
    | .wildcard =>
        some (diagnostic .TYPL_003 line.1 line.2.1 "wildcard imports are not permitted")
    | .relative =>
        some (diagnostic .TYPL_003 line.1 line.2.1 "relative imports are not permitted")
    | _ => none)

/-- The report about an import that closes a cycle. -/
def cycleDiagnostic (pkg : Package) (record : ImportRecord Package) : Diagnostic DiagCode :=
  diagnostic .TYPL_004 record.fileId record.range
    ("circular package import: `" ++ String.ofList (db.name pkg) ++ "` and `" ++
      String.ofList record.packagePath ++ "` import each other")

/-- The reports about the imports of a package that close a cycle. -/
def detectCycles (fuel : Nat) (pkg : Package) :
    List (ImportRecord Package) → Option (List (Diagnostic DiagCode))
  | [] => some []
  | record :: records =>
      match record.target with
      | none => detectCycles fuel pkg records
      | some target =>
          if target = pkg then detectCycles fuel pkg records
          else
            match reaches db ws fuel target pkg [] with
            | none => none
            | some (true, _) =>
                (detectCycles fuel pkg records).map (cycleDiagnostic db pkg record :: ·)
            | some (false, _) => detectCycles fuel pkg records

/-- The reports about cycles when the names of a package are resolved. -/
def cycleReports (fuel : Nat) (pkg : Package) : Option (List (Diagnostic DiagCode)) :=
  detectCycles db ws fuel pkg (collectImports db ws pkg).1

end Sources

end Resolve

end Ridl
