import Ridl.Syntax.Kind
import Ridl.Contract.Scalar

/-!
# Contract Expressions

The typed view of a contract expression. A broken parse can leave a node without
a child or without its token: a child that is not there is `missing`, and a token
that is not there is `none`.

## Main definitions

* `Token`: A token, with where it is in the file.
* `Expr.height`: How many nodes there are on the longest path down.
* `Expr.Spelled`: Whether the literals are spelled as the lexer spells them.
* `Expr.Sub`: The expressions that an expression is made of.
-/

namespace Ridl

namespace Contract

open Ridl.Syntax

structure TextRange where
  start : Nat
  stop : Nat
deriving DecidableEq, Repr

structure Token where
  kind : SyntaxKind
  text : String
  range : TextRange
deriving DecidableEq, Repr

/-- An expression of the guaranteed subset. -/
inductive Expr
  | missing
  | literal (range : TextRange) (token : Option Token)
  | paren (range : TextRange) (inner : Expr)
  | path (range : TextRange) (name : Option Token)
  | prefixed (range : TextRange) (op : Option Token) (operand : Expr)
  | member (range : TextRange) (base : Expr) (name : Option Token)
  | binary (range : TextRange) (lhs : Expr) (op : Option Token) (rhs : Expr)
deriving DecidableEq, Repr

/-- The greatest height of the tree that the parser builds for an expression. -/
def MAX_TYPE_DEPTH : Nat := 128

/-- How a literal token is spelled. -/
def Token.Spelled (token : Token) : Prop :=
  match token.kind with
  | .intNumber => IsInteger token.text.toList
  | .floatNumber => IsDecimal token.text.toList
  | .duration => IsDuration token.text.toList
  | _ => True

namespace Expr

def range : Expr → TextRange
  | .missing => ⟨0, 0⟩
  | .literal range _ | .paren range _ | .path range _ | .prefixed range _ _ | .member range _ _
  | .binary range _ _ _ => range

/-- How many nodes there are on the longest path down. -/
def height : Expr → Nat
  | .missing => 0
  | .literal _ _ | .path _ _ => 1
  | .paren _ inner => inner.height + 1
  | .prefixed _ _ operand => operand.height + 1
  | .member _ base _ => base.height + 1
  | .binary _ lhs _ rhs => max lhs.height rhs.height + 1

/-- The literals are spelled as the lexer spells them. -/
def Spelled : Expr → Prop
  | .missing | .path _ _ => True
  | .literal _ token => ∀ t ∈ token, t.Spelled
  | .paren _ inner => inner.Spelled
  | .prefixed _ _ operand => operand.Spelled
  | .member _ base _ => base.Spelled
  | .binary _ lhs _ rhs => lhs.Spelled ∧ rhs.Spelled

/-- The expressions that an expression is made of, itself among them. -/
inductive Sub : Expr → Expr → Prop
  | refl (expr : Expr) : Sub expr expr
  | paren (range : TextRange) {sub inner : Expr} : Sub sub inner → Sub sub (.paren range inner)
  | prefixed (range : TextRange) (op : Option Token) {sub operand : Expr} :
      Sub sub operand → Sub sub (.prefixed range op operand)
  | member (range : TextRange) (name : Option Token) {sub base : Expr} :
      Sub sub base → Sub sub (.member range base name)
  | lhs (range : TextRange) (op : Option Token) {sub lhs rhs : Expr} :
      Sub sub lhs → Sub sub (.binary range lhs op rhs)
  | rhs (range : TextRange) (op : Option Token) {sub lhs rhs : Expr} :
      Sub sub rhs → Sub sub (.binary range lhs op rhs)

theorem Sub.height_le {sub expr : Expr} (h : Sub sub expr) : sub.height ≤ expr.height := by
  induction h with
  | refl => exact Nat.le_refl _
  | paren | prefixed | member => simp only [height]; omega
  | lhs | rhs => simp only [height]; omega

theorem Sub.spelled {sub expr : Expr} (h : Sub sub expr) (hexpr : expr.Spelled) :
    sub.Spelled := by
  induction h with
  | refl => exact hexpr
  | paren _ _ ih | prefixed _ _ _ ih | member _ _ _ ih => exact ih hexpr
  | lhs _ _ _ ih => exact ih hexpr.1
  | rhs _ _ _ ih => exact ih hexpr.2

end Expr

end Contract

end Ridl
