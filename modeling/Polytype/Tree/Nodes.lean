import Polytype.Tree.Basic

/-!
# The nodes of a tree

`Program.nodes` lists every node with its kind, position and note, a node before its children and
the children in the order in which they are written. An expression statement has no node of its
own, and both forms of arrow are of one kind.
-/

namespace Polytype

inductive NodeKind where
  | declaration (keyword : Keyword)
  | function
  | ret
  | branch
  | block
  | name
  | param
  | number
  | text
  | boolean
  | null
  | ident
  | unary
  | binary
  | conditional
  | call
  | lambda
  | assign
  deriving DecidableEq, Inhabited

structure Node (α : Type) extends Tag α where
  kind : NodeKind

variable {α : Type}

namespace Tag

def node (kind : NodeKind) (tag : Tag α) : Node α := ⟨tag, kind⟩

end Tag

mutual
def Expr.nodes : Expr α → List (Node α)
  | .number tag _ => [tag.node .number]
  | .text tag _ => [tag.node .text]
  | .boolean tag _ => [tag.node .boolean]
  | .null tag => [tag.node .null]
  | .name n => [n.node .ident]
  | .unary tag _ e => tag.node .unary :: e.nodes
  | .binary tag _ l r => tag.node .binary :: (l.nodes ++ r.nodes)
  | .conditional tag t c a => tag.node .conditional :: (t.nodes ++ c.nodes ++ a.nodes)
  | .call tag callee args => tag.node .call :: (callee.nodes ++ Expr.nodesAll args)
  | .arrow tag ps body => tag.node .lambda :: (ps.map (·.node .param) ++ body.nodes)
  | .arrowBlock tag ps body => tag.node .lambda :: (ps.map (·.node .param) ++ body.nodes)
  | .assign tag target e => tag.node .assign :: target.node .name :: e.nodes

def Expr.nodesAll : List (Expr α) → List (Node α)
  | [] => []
  | e :: es => e.nodes ++ Expr.nodesAll es

def Stmt.nodes : Stmt α → List (Node α)
  | .declare tag keyword name init =>
    tag.node (.declaration keyword) :: name.node .name :: init.nodes
  | .function tag name ps body =>
    tag.node .function :: name.node .name :: (ps.map (·.node .param) ++ body.nodes)
  | .ret tag none => [tag.node .ret]
  | .ret tag (some e) => tag.node .ret :: e.nodes
  | .ifElse branch => branch.nodes
  | .block b => b.nodes
  | .expr e => e.nodes

def Stmt.nodesAll : List (Stmt α) → List (Node α)
  | [] => []
  | s :: ss => s.nodes ++ Stmt.nodesAll ss

def Block.nodes : Block α → List (Node α)
  | ⟨tag, body⟩ => tag.node .block :: Stmt.nodesAll body

def If.nodes : If α → List (Node α)
  | ⟨tag, test, consequent, alternate⟩ =>
    tag.node .branch :: (test.nodes ++ consequent.nodes ++ alternate.nodes)

def Alternate.nodes : Alternate α → List (Node α)
  | .absent => []
  | .block b => b.nodes
  | .elseIf branch => branch.nodes
end

namespace Program

def nodes (p : Program α) : List (Node α) := Stmt.nodesAll p.body

end Program

end Polytype
