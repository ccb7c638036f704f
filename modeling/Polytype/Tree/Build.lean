import Polytype.Tree.Basic

/-!
# Building programs by hand

Expressions are built without a place. A statement is built with the line it starts on, and gives
that line to every part of its expressions that has none yet. The statements inside a block arrow
keep the lines they were built with.
-/

namespace Polytype

variable {α : Type}

/-! ## Giving lines to expressions -/

namespace Tag

/-- Gives the node a line, unless it has one. -/
def locate (line : Nat) (tag : Tag α) : Tag α :=
  if tag.pos.line = 0 then { tag with pos.line := line } else tag

end Tag

namespace Name

def locate (line : Nat) (name : Name α) : Name α := { name with toTag := name.toTag.locate line }

end Name

namespace Block

/-- The statements have lines of their own. -/
def locate (line : Nat) (block : Block α) : Block α := { block with tag := block.tag.locate line }

end Block

namespace Expr

mutual
/-- Gives `line` to this node and to every node below it that has no line yet. -/
def locate (line : Nat) : Expr α → Expr α
  | .number tag x => .number (tag.locate line) x
  | .text tag s => .text (tag.locate line) s
  | .boolean tag b => .boolean (tag.locate line) b
  | .null tag => .null (tag.locate line)
  | .name n => .name (n.locate line)
  | .unary tag op e => .unary (tag.locate line) op (e.locate line)
  | .binary tag op l r => .binary (tag.locate line) op (l.locate line) (r.locate line)
  | .conditional tag t c a =>
    .conditional (tag.locate line) (t.locate line) (c.locate line) (a.locate line)
  | .call tag f args => .call (tag.locate line) (f.locate line) (locateAll line args)
  | .arrow tag ps body => .arrow (tag.locate line) (ps.map (·.locate line)) (body.locate line)
  | .arrowBlock tag ps body =>
    .arrowBlock (tag.locate line) (ps.map (·.locate line)) (body.locate line)
  | .assign tag target e => .assign (tag.locate line) (target.locate line) (e.locate line)

def locateAll (line : Nat) : List (Expr α) → List (Expr α)
  | [] => []
  | e :: es => e.locate line :: locateAll line es
end

/-- Moves this node alone. -/
def moveTo (pos : Position) : Expr α → Expr α
  | .number tag x => .number { tag with pos } x
  | .text tag s => .text { tag with pos } s
  | .boolean tag b => .boolean { tag with pos } b
  | .null tag => .null { tag with pos }
  | .name n => .name { n with pos }
  | .unary tag op e => .unary { tag with pos } op e
  | .binary tag op l r => .binary { tag with pos } op l r
  | .conditional tag t c a => .conditional { tag with pos } t c a
  | .call tag f args => .call { tag with pos } f args
  | .arrow tag ps body => .arrow { tag with pos } ps body
  | .arrowBlock tag ps body => .arrowBlock { tag with pos } ps body
  | .assign tag target e => .assign { tag with pos } target e

end Expr

namespace Build

def onLine (line : Nat) : Tag Unit := ⟨{ line }, ()⟩

/-- The tag of a node that has no place yet. -/
def unplaced : Tag Unit := onLine 0

def name (tag : Tag Unit) (text : String) : Name Unit := ⟨tag, text⟩

/-! ## Expressions -/

def number (x : Float) : Expr Unit := .number unplaced x

def text (s : String) : Expr Unit := .text unplaced s

def boolean (b : Bool) : Expr Unit := .boolean unplaced b

def null : Expr Unit := .null unplaced

def ident (s : String) : Expr Unit := .name (name unplaced s)

def unary (op : UnaryOp) (operand : Expr Unit) : Expr Unit := .unary unplaced op operand

def binary (op : BinaryOp) (left right : Expr Unit) : Expr Unit := .binary unplaced op left right

def conditional (test consequent alternate : Expr Unit) : Expr Unit :=
  .conditional unplaced test consequent alternate

def call (callee : Expr Unit) (args : List (Expr Unit)) : Expr Unit := .call unplaced callee args

def callNamed (callee : String) (args : List (Expr Unit)) : Expr Unit := call (ident callee) args

def arrow (params : List String) (body : Expr Unit) : Expr Unit :=
  .arrow unplaced (params.map (name unplaced)) body

def arrowBlock (params : List String) (body : List (Stmt Unit)) : Expr Unit :=
  .arrowBlock unplaced (params.map (name unplaced)) ⟨unplaced, body⟩

def assign (target : String) (value : Expr Unit) : Expr Unit :=
  .assign unplaced (name unplaced target) value

/-! ## Statements -/

def declare (keyword : Keyword) (line : Nat) (target : String) (init : Expr Unit) : Stmt Unit :=
  .declare (onLine line) keyword (name (onLine line) target) (init.locate line)

def function (line : Nat) (target : String) (params : List String) (body : List (Stmt Unit)) :
    Stmt Unit :=
  .function (onLine line) (name (onLine line) target) (params.map (name (onLine line)))
    ⟨onLine line, body⟩

def ret (line : Nat) (value : Expr Unit) : Stmt Unit :=
  .ret (onLine line) (some (value.locate line))

def retNothing (line : Nat) : Stmt Unit := .ret (onLine line) none

def branch (line : Nat) (test : Expr Unit) (consequent : List (Stmt Unit))
    (alternate : Alternate Unit) : Stmt Unit :=
  .ifElse ⟨onLine line, test.locate line, ⟨onLine line, consequent⟩, alternate⟩

def ifElse (line : Nat) (test : Expr Unit) (consequent : List (Stmt Unit))
    (alternate : Option (List (Stmt Unit))) : Stmt Unit :=
  branch line test consequent <|
    match alternate with
    | none => .absent
    | some body => .block ⟨onLine line, body⟩

/-- A statement in the place of an `else` branch. An `if` continues the chain, a block is the
branch, and anything else gets a block around it. -/
def alternate : Stmt Unit → Alternate Unit
  | .ifElse branch => .elseIf branch
  | .block b => .block b
  | other => .block ⟨⟨other.pos, ()⟩, [other]⟩

def ifElseIf (line : Nat) (test : Expr Unit) (consequent : List (Stmt Unit))
    (otherwise : Stmt Unit) : Stmt Unit :=
  branch line test consequent (alternate otherwise)

def expr (line : Nat) (e : Expr Unit) : Stmt Unit := .expr (e.locate line)

def block (line : Nat) (body : List (Stmt Unit)) : Stmt Unit := .block ⟨onLine line, body⟩

end Build

end Polytype
