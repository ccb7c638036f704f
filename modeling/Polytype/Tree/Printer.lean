import Polytype.Decimal.Positional
import Polytype.Text.Quoted
import Polytype.Tree.Basic

/-!
# Printing programs

Expressions are printed in full, with parentheses only where a part binds less tightly than its
place asks. A block inside an expression is shortened to dots, and so are the blocks in the header
of a statement. Inside a printed program each block is indented by two spaces.
-/

namespace Polytype

variable {α : Type}

/-! ## Expressions -/

namespace Precedence

/-- The places that take any expression. -/
def lowest : Nat := 0

def assignment : Nat := 1

def conditional : Nat := 2

def unary : Nat := 9

def call : Nat := 10

end Precedence

def parenthesize (needed : Bool) (text : String) : String :=
  if needed then "(" ++ text ++ ")" else text

namespace UnaryOp

/-- A minus keeps its distance from the operand. -/
def leadText : UnaryOp → String
  | .minus => "- "
  | .not => "!"

end UnaryOp

namespace Name

def listText (names : List (Name α)) : String := ", ".intercalate (names.map (·.text))

/-- The parameters of an arrow. A single one stands bare. -/
def arrowText : List (Name α) → String
  | [param] => param.text
  | params => "(" ++ listText params ++ ")"

end Name

namespace Expr

mutual
/-- The text of an expression in a place that asks for at least `place`. -/
def print (place : Nat) : Expr α → String
  | .number _ x => Decimal.numberText x
  | .text _ s => Text.quote s
  | .boolean _ b => if b then "true" else "false"
  | .null _ => "null"
  | .name n => n.text
  | .unary _ op e =>
    parenthesize (Precedence.unary < place) (op.leadText ++ e.print Precedence.unary)
  | .binary _ op l r =>
    parenthesize (op.precedence < place)
      (l.print op.precedence ++ " " ++ op.symbol ++ " " ++ r.print (op.precedence + 1))
  | .conditional _ t c a =>
    parenthesize (Precedence.conditional < place)
      (t.print (Precedence.conditional + 1) ++ " ? " ++ c.print Precedence.assignment ++ " : " ++
        a.print Precedence.assignment)
  | .call _ callee args =>
    callee.print Precedence.call ++ "(" ++ ", ".intercalate (printAll args) ++ ")"
  | .arrow _ ps body =>
    parenthesize (Precedence.assignment < place)
      (Name.arrowText ps ++ " => " ++ body.print Precedence.assignment)
  | .arrowBlock _ ps _ =>
    parenthesize (Precedence.assignment < place) (Name.arrowText ps ++ " => \x7b ... \x7d")
  | .assign _ target e =>
    parenthesize (Precedence.assignment < place)
      (target.text ++ " = " ++ e.print Precedence.assignment)

def printAll : List (Expr α) → List String
  | [] => []
  | e :: es => e.print Precedence.assignment :: printAll es
end

theorem printAll_eq (es : List (Expr α)) : printAll es = es.map (print Precedence.assignment) := by
  induction es with
  | nil => rfl
  | cons e es ih => rw [printAll, ih, List.map_cons]

def source (e : Expr α) : String := e.print Precedence.lowest

/-- The branches of a conditional are left out. -/
def conditionalHeader (test : Expr α) : String :=
  test.print (Precedence.conditional + 1) ++ " ? ... : ..."

/-- How a diagnostic quotes the expression. -/
def header : Expr α → String
  | .conditional _ test _ _ => conditionalHeader test
  | e => e.source

end Expr

/-! ## Headers of statements -/

namespace Stmt

def declareHeader (keyword : Keyword) (name : Name α) (init : Expr α) : String :=
  keyword.text ++ " " ++ name.text ++ " = " ++ init.source ++ ";"

def functionStart (name : Name α) (params : List (Name α)) : String :=
  "function " ++ name.text ++ "(" ++ Name.listText params ++ ") "

def functionHeader (name : Name α) (params : List (Name α)) : String :=
  functionStart name params ++ "\x7b ... \x7d"

end Stmt

namespace If

def start (test : Expr α) : String := "if (" ++ test.source ++ ") "

def header (branch : If α) : String :=
  start branch.test ++ "\x7b ... \x7d" ++
    if branch.alternate.isAbsent then "" else " else \x7b ... \x7d"

end If

namespace Stmt

/-- How a diagnostic quotes the statement. A block and an empty return are not quoted. -/
def header? : Stmt α → Option String
  | .declare _ keyword name init => some (declareHeader keyword name init)
  | .function _ name params _ => some (functionHeader name params)
  | .ret _ value => value.map (·.source)
  | .ifElse branch => some branch.header
  | .block _ => none
  | .expr e => some e.header

end Stmt

/-! ## Programs -/

def indent (depth : Nat) : String := String.join (List.replicate depth "  ")

mutual
/-- A statement without the indentation of its first line. -/
def Stmt.print (depth : Nat) : Stmt α → String
  | .declare _ keyword name init => Stmt.declareHeader keyword name init
  | .function _ name params body => Stmt.functionStart name params ++ body.print depth
  | .ret _ none => "return;"
  | .ret _ (some e) => "return " ++ e.source ++ ";"
  | .ifElse branch => branch.print depth
  | .block b => b.print depth
  | .expr e => e.source ++ ";"

/-- Each statement on a line of its own. -/
def Stmt.printAll (depth : Nat) : List (Stmt α) → String
  | [] => ""
  | s :: ss => indent depth ++ s.print depth ++ "\n" ++ Stmt.printAll depth ss

def Block.print (depth : Nat) : Block α → String
  | ⟨_, body⟩ => "\x7b\n" ++ Stmt.printAll (depth + 1) body ++ indent depth ++ "\x7d"

def If.print (depth : Nat) : If α → String
  | ⟨_, test, consequent, alternate⟩ =>
    If.start test ++ consequent.print depth ++ alternate.print depth

def Alternate.print (depth : Nat) : Alternate α → String
  | .absent => ""
  | .block b => " else " ++ b.print depth
  | .elseIf branch => " else " ++ branch.print depth
end

namespace Program

def source (p : Program α) : String := Stmt.printAll 0 p.body

end Program

end Polytype
