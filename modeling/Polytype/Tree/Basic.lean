import Polytype.Operator

/-!
# Programs

A program is a list of statements. Every node of the tree carries a tag: its position in the text
and a note of type `α`. Nodes are unannotated at first (`α` is `Unit`) and hold what was inferred
for them later.
-/

namespace Polytype

/-- A place in the program text. Lines start at 1, and line 0 marks a node not placed yet. -/
structure Position where
  line : Nat := 0
  column : Nat := 0
  deriving DecidableEq, Inhabited

namespace Position

def text (p : Position) : String := "Line " ++ toString p.line

end Position

structure Tag (α : Type) where
  pos : Position
  note : α

namespace Tag

def annotate {α β : Type} (tag : Tag α) (note : β) : Tag β := { tag with note }

end Tag

/-- A name with the tag of the node it makes. -/
structure Name (α : Type) extends Tag α where
  text : String

namespace Name

def annotate {α β : Type} (name : Name α) (note : β) : Name β := { name with note }

end Name

/-- The two keywords that declare a value: a constant, or a variable that can be assigned to. -/
inductive Keyword where
  | constant
  | mutable
  deriving DecidableEq, Inhabited

namespace Keyword

def text : Keyword → String
  | .constant => "const"
  | .mutable => "let"

end Keyword

mutual
inductive Expr (α : Type) where
  | number (tag : Tag α) (value : Float)
  | text (tag : Tag α) (value : String)
  | boolean (tag : Tag α) (value : Bool)
  | null (tag : Tag α)
  | name (name : Name α)
  | unary (tag : Tag α) (op : UnaryOp) (operand : Expr α)
  | binary (tag : Tag α) (op : BinaryOp) (left right : Expr α)
  | conditional (tag : Tag α) (test consequent alternate : Expr α)
  | call (tag : Tag α) (callee : Expr α) (args : List (Expr α))
  | arrow (tag : Tag α) (params : List (Name α)) (body : Expr α)
  | arrowBlock (tag : Tag α) (params : List (Name α)) (body : Block α)
  | assign (tag : Tag α) (target : Name α) (value : Expr α)

inductive Stmt (α : Type) where
  | declare (tag : Tag α) (keyword : Keyword) (name : Name α) (init : Expr α)
  | function (tag : Tag α) (name : Name α) (params : List (Name α)) (body : Block α)
  | ret (tag : Tag α) (value : Option (Expr α))
  | ifElse (branch : If α)
  | block (block : Block α)
  | expr (expr : Expr α)

structure Block (α : Type) where
  tag : Tag α
  body : List (Stmt α)

structure If (α : Type) where
  tag : Tag α
  test : Expr α
  consequent : Block α
  alternate : Alternate α

/-- What follows `else`. -/
inductive Alternate (α : Type) where
  | absent
  | block (block : Block α)
  | elseIf (branch : If α)
end

structure Program (α : Type) where
  body : List (Stmt α)

variable {α : Type}

namespace Expr

def tag : Expr α → Tag α
  | .number tag _ | .text tag _ | .boolean tag _ | .null tag => tag
  | .name n => n.toTag
  | .unary tag _ _ | .binary tag _ _ _ | .conditional tag _ _ _ => tag
  | .call tag _ _ | .arrow tag _ _ | .arrowBlock tag _ _ | .assign tag _ _ => tag

def pos (e : Expr α) : Position := e.tag.pos

def note (e : Expr α) : α := e.tag.note

end Expr

namespace Alternate

def isAbsent : Alternate α → Bool
  | .absent => true
  | _ => false

end Alternate

namespace Stmt

def pos : Stmt α → Position
  | .declare tag _ _ _ | .function tag _ _ _ | .ret tag _ => tag.pos
  | .ifElse branch => branch.tag.pos
  | .block b => b.tag.pos
  | .expr e => e.pos

/-- The name that the statement declares in its block. -/
def declared? : Stmt α → Option (Name α)
  | .declare _ _ name _ | .function _ name _ _ => some name
  | _ => none

end Stmt

end Polytype
