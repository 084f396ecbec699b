import Ridl.Contract.Tree
import Ridl.Syntax.Clean

/-!
# Typed Views of a Tree

How the parts of a tree are found: the children of a node, each with where it is in
the text, and the first one among them that is a token or a node of a kind.

What is found does not depend on where the node is, so it is known from the children
alone (`tokens_node`).

## Theorems

* `tokens_node`: The tokens of a node are those among its children.
* `find_placed`: The first node after tokens is found.
-/

namespace Ridl

namespace Syntax

open Contract (TextRange)

/-! ### Parts of a tree -/

/-- A tree, and where in the text it starts. -/
structure SyntaxNode where
  green : Green
  offset : Nat

/-- A token of the tree, and where in the text it starts. -/
structure SyntaxToken where
  token : Token
  offset : Nat

def SyntaxToken.kind (token : SyntaxToken) : SyntaxKind := token.token.kind

def SyntaxToken.text (token : SyntaxToken) : List Char := token.token.text

def SyntaxToken.textRange (token : SyntaxToken) : TextRange :=
  ⟨token.offset, token.offset + byteLen token.text⟩

/-- Trees one after another, each with where it starts. -/
def placed (offset : Nat) : List Green → List SyntaxNode
  | [] => []
  | green :: greens =>
      ⟨green, offset⟩ :: placed (offset + byteLen (textOf green.leaves)) greens

namespace SyntaxNode

def textRange (node : SyntaxNode) : TextRange :=
  ⟨node.offset, node.offset + byteLen (textOf node.green.leaves)⟩

def childrenWithTokens (node : SyntaxNode) : List SyntaxNode :=
  match node.green with
  | .token _ _ => []
  | .node _ children => placed node.offset children

/-- The token that a child is, if it is one. -/
def intoToken (node : SyntaxNode) : Option SyntaxToken :=
  match node.green with
  | .token kind text => some ⟨⟨kind, text⟩, node.offset⟩
  | .node _ _ => none

/-- Whether a child is a node of a kind. -/
def isNode (kind : SyntaxKind) (node : SyntaxNode) : Bool :=
  match node.green with
  | .token _ _ => false
  | .node kind' _ => kind' = kind

def tokens (node : SyntaxNode) : List SyntaxToken :=
  node.childrenWithTokens.filterMap intoToken

end SyntaxNode

/-- The first child that is a token of a kind. -/
def supportToken (node : SyntaxNode) (kind : SyntaxKind) : Option SyntaxToken :=
  node.tokens.find? (·.kind = kind)

/-- The first child that is a node of a kind. -/
def supportChild (node : SyntaxNode) (kind : SyntaxKind) : Option SyntaxNode :=
  node.childrenWithTokens.find? (·.isNode kind)

/-- Whether a child is a token of a kind. -/
def hasToken (node : SyntaxNode) (kind : SyntaxKind) : Bool := node.tokens.any (·.kind = kind)

/-! ### Diagnostics -/

inductive Severity
  | error
  | warning
deriving DecidableEq, Repr

/-- A file, by its number. -/
abbrev FileId := Nat

structure Span where
  file : FileId
  range : TextRange
deriving DecidableEq, Repr

/-- A report about a place in a file, with a code. -/
structure Diagnostic (Code : Type) where
  code : Code
  severity : Severity
  message : String
  primary : Span
deriving DecidableEq, Repr

/-! ### What is found -/

/-- The token that a tree is, if it is one. -/
def asToken : Green → Option Token
  | .token kind text => some ⟨kind, text⟩
  | .node _ _ => none

theorem filterMap_leaf (tokens : List Token) : (tokens.map leaf).filterMap asToken = tokens := by
  rw [List.filterMap_map]
  exact List.filterMap_some

theorem placed_tokens (offset : Nat) (greens : List Green) :
    ((placed offset greens).filterMap SyntaxNode.intoToken).map (·.token) =
      greens.filterMap asToken := by
  induction greens generalizing offset with
  | nil => rfl
  | cons green greens ih =>
      rw [placed, List.filterMap_cons, List.filterMap_cons]
      cases green with
      | token kind text =>
          rw [← ih]
          rfl
      | node kind children => exact ih _

theorem tokens_node (kind : SyntaxKind) (children : List Green) (offset : Nat) :
    (SyntaxNode.mk (.node kind children) offset).tokens.map (·.token) =
      children.filterMap asToken := placed_tokens offset children

theorem find_placed (kind : SyntaxKind) (children : List Green) (front : List Token)
    (back : List Green) (offset : Nat) :
    ∃ offset', (placed offset (front.map leaf ++ .node kind children :: back)).find?
      (·.isNode kind) = some ⟨.node kind children, offset'⟩ := by
  induction front generalizing offset with
  | nil => exact ⟨offset, List.find?_cons_of_pos (decide_eq_true rfl)⟩
  | cons token front ih =>
      rcases ih (offset + byteLen (textOf (leaf token).leaves)) with ⟨offset', hfind⟩
      exact ⟨offset', (List.find?_cons_of_neg Bool.false_ne_true).trans hfind⟩

theorem find_placed_leaf (kind : SyntaxKind) (tokens : List Token) (offset : Nat) :
    (placed offset (tokens.map leaf)).find? (·.isNode kind) = none := by
  induction tokens generalizing offset with
  | nil => rfl
  | cons token tokens ih => exact (List.find?_cons_of_neg Bool.false_ne_true).trans (ih _)

end Syntax

end Ridl
