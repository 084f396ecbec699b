import Ridl.Syntax.Lexer

/-!
# Building a Tree

What the parser uses of the builder of green trees, and what it relies on. A
builder is told of tokens and of the start and the end of nodes, in the order
of the text. A checkpoint remembers where it stands, and a node can be started
there later on, around what was built since.

The class states the behaviour of a builder by two observations: what it holds
that no finished node contains, each piece by its leaves, and where among
these the nodes begin that are not finished. An operation that the builder
refuses, because there is no node to finish or because the checkpoint is not
inside the innermost node, is `none`.
-/

namespace Ridl

namespace Syntax

/-- A builder of trees over tokens. -/
class GreenNodeBuilder (σ : Type) where
  Tree : Type
  /-- The tokens of a tree, in order. -/
  leaves : Tree → List Token
  new : σ
  token : σ → SyntaxKind → List Char → σ
  startNode : σ → SyntaxKind → σ
  finishNode : σ → Option σ
  checkpoint : σ → Nat
  startNodeAt : σ → Nat → SyntaxKind → Option σ
  finish : σ → Option Tree
  /-- The tokens of each child of the nodes that are not finished. -/
  children : σ → List (List Token)
  /-- Where the children of each unfinished node begin, of the innermost first. -/
  parents : σ → List Nat
  children_new : children new = []
  parents_new : parents new = []
  children_token : ∀ builder kind text,
    children (token builder kind text) = children builder ++ [[{ kind := kind, text := text }]]
  parents_token : ∀ builder kind text, parents (token builder kind text) = parents builder
  children_startNode : ∀ builder kind, children (startNode builder kind) = children builder
  parents_startNode : ∀ builder kind,
    parents (startNode builder kind) = (children builder).length :: parents builder
  checkpoint_eq : ∀ builder, checkpoint builder = (children builder).length
  startNodeAt_eq : ∀ builder at_ kind, at_ ≤ (children builder).length →
    (∀ first ∈ (parents builder).head?, first ≤ at_) →
    ∃ next, startNodeAt builder at_ kind = some next ∧ children next = children builder ∧
      parents next = at_ :: parents builder
  finishNode_eq : ∀ builder first rest, parents builder = first :: rest →
    first ≤ (children builder).length →
    ∃ next, finishNode builder = some next ∧
      children next
        = (children builder).take first ++ [((children builder).drop first).flatten] ∧
      parents next = rest
  /-- What is left when the last node is finished is a tree. -/
  finish_eq : ∀ builder next tokens, finishNode builder = some next → parents next = [] →
    children next = [tokens] → ∃ tree, finish next = some tree ∧ leaves tree = tokens

/-- A tree whose leaves are tokens. -/
inductive Green
  | token (kind : SyntaxKind) (text : List Char)
  | node (kind : SyntaxKind) (children : List Green)
deriving Repr

namespace Green

mutual

/-- The tokens of a tree, in order. -/
def leaves : Green → List Token
  | .token kind text => [{ kind := kind, text := text }]
  | .node _ children => leavesAll children

def leavesAll : List Green → List Token
  | [] => []
  | child :: children => leaves child ++ leavesAll children

end

theorem leavesAll_eq (children : List Green) :
    leavesAll children = (children.map leaves).flatten := by
  induction children with
  | nil => rfl
  | cons child children ih => simp [leavesAll, ih]

end Green

/-- A builder of trees: the nodes that are not finished, the innermost first, with where their
    children begin among what was built. -/
structure GreenBuilder where
  parents : List (SyntaxKind × Nat)
  children : List Green

namespace GreenBuilder

def new : GreenBuilder := { parents := [], children := [] }

def token (builder : GreenBuilder) (kind : SyntaxKind) (text : List Char) : GreenBuilder :=
  { builder with children := builder.children ++ [.token kind text] }

def startNode (builder : GreenBuilder) (kind : SyntaxKind) : GreenBuilder :=
  { builder with parents := (kind, builder.children.length) :: builder.parents }

def finishNode (builder : GreenBuilder) : Option GreenBuilder :=
  match builder.parents with
  | [] => none
  | (kind, first) :: rest =>
      if first ≤ builder.children.length then
        some
          { parents := rest
            children :=
              builder.children.take first ++ [.node kind (builder.children.drop first)] }
      else none

def startNodeAt (builder : GreenBuilder) (checkpoint : Nat) (kind : SyntaxKind) :
    Option GreenBuilder :=
  if checkpoint ≤ builder.children.length ∧
      ∀ parent ∈ builder.parents.head?, parent.2 ≤ checkpoint then
    some { builder with parents := (kind, checkpoint) :: builder.parents }
  else none

/-- The tree, when the one thing built is a node. -/
def finish (builder : GreenBuilder) : Option Green :=
  match builder.children with
  | [.node kind children] => some (.node kind children)
  | _ => none

theorem finish_eq (builder next : GreenBuilder) (tokens : List Token)
    (hfinish : finishNode builder = some next) (hnext : next.children.map Green.leaves = [tokens]) :
    ∃ tree, finish next = some tree ∧ tree.leaves = tokens := by
  rw [finishNode] at hfinish
  cases hparents : builder.parents with
  | nil => simp [hparents] at hfinish
  | cons parent rest =>
      rw [hparents] at hfinish
      have hnext' := (Option.ite_none_right_eq_some.1 hfinish).2
      cases Option.some.inj hnext'
      rcases List.map_eq_cons_iff.1 hnext with ⟨tree, rest', hchildren, htree, hrest⟩
      rw [List.map_eq_nil_iff.1 hrest] at hchildren
      -- The last child is the node that was finished, so it is the only one.
      have hnode : tree = .node parent.1 (builder.children.drop parent.2) := by
        have hlast := congrArg List.getLast? hchildren
        simpa using hlast.symm
      rw [hnode] at hchildren htree
      exact ⟨_, by rw [finish, hchildren], htree⟩

instance : GreenNodeBuilder GreenBuilder where
  Tree := Green
  leaves := Green.leaves
  new := new
  token := token
  startNode := startNode
  finishNode := finishNode
  checkpoint builder := builder.children.length
  startNodeAt := startNodeAt
  finish := finish
  children builder := builder.children.map Green.leaves
  parents builder := builder.parents.map (·.2)
  children_new := rfl
  parents_new := rfl
  children_token builder kind text := by simp [token, Green.leaves]
  parents_token _ _ _ := rfl
  children_startNode _ _ := rfl
  parents_startNode builder kind := by simp [startNode]
  checkpoint_eq builder := by simp
  startNodeAt_eq builder checkpoint kind hlength hfirst := by
    refine ⟨_, if_pos ⟨by simpa using hlength, fun parent hparent => ?_⟩, rfl, rfl⟩
    exact hfirst parent.2 (by simp [Option.mem_def.1 hparent])
  finishNode_eq builder first rest hparents hfirst := by
    rcases List.map_eq_cons_iff.1 hparents with ⟨parent, rest', hparent, rfl, rfl⟩
    have hlength : parent.2 ≤ builder.children.length := by simpa using hfirst
    refine ⟨_, by rw [finishNode, hparent]; exact if_pos hlength, ?_, rfl⟩
    simp [Green.leaves, Green.leavesAll_eq, List.map_take, List.map_drop]
  finish_eq builder next tokens hfinish _ hnext := finish_eq builder next tokens hfinish hnext

end GreenBuilder

end Syntax

end Ridl
