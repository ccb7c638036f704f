import Polytype.Tree.Basic
import Polytype.Ty.Printer

/-!
# Type errors

An error holds what went wrong, with the text of the construct and the types as they were known at
the time, and the position of the construct. Every type in a message is printed on its own, except
in an infinite type, where the variable and the type share their names.
-/

namespace Polytype

/-- The kind of construct an error is about. -/
inductive Construct where
  | conditionalExpression
  | ifStatement
  | functionCall
  | binaryExpression
  | unaryExpression
  | assignment
  | functionDeclaration
  | constantDeclaration
  | variableDeclaration
  deriving DecidableEq, Inhabited

namespace Construct

def name : Construct → String
  | .conditionalExpression => "conditional expression"
  | .ifStatement => "if statement"
  | .functionCall => "function call"
  | .binaryExpression => "binary expression"
  | .unaryExpression => "unary expression"
  | .assignment => "assignment"
  | .functionDeclaration => "function declaration"
  | .constantDeclaration => "constant declaration"
  | .variableDeclaration => "variable declaration"

end Construct

inductive Problem where
  | unboundName (name : String)
  /-- The operands do not fit the operator. A single operand belongs to a unary one. -/
  | operands (operator source : String) (expected found : List Ty)
  /-- A call with the wrong number of arguments. -/
  | argumentCount (source : String) (expected found : List Ty)
  /-- A call whose arguments do not fit the parameters. -/
  | arguments (source : String) (expected found : List Ty)
  /-- A test that is no boolean. -/
  | test (construct : Construct) (source : String) (found : Ty)
  | branches (construct : Construct) (source : String) (consequent alternate : Ty)
  /-- A variable that would have to contain itself. -/
  | infinite (construct : Construct) (source : String) (v : Var) (ty : Ty)
  | mismatch (construct : Construct) (source : String) (expected found : Ty)
  deriving Inhabited

namespace Problem

def typesText (separator : String) (types : List Ty) : String :=
  separator.intercalate (types.map Ty.text)

def argumentsText : List Ty → String
  | [] => "no arguments,"
  | [t] => "an argument of type:\n  " ++ t.text
  | ts => toString ts.length ++ " arguments of types:\n  " ++ typesText ", " ts

def callText (source : String) (expected found : List Ty) : String :=
  "A type mismatch was detected in the function call:\n  " ++ source ++
  "\nThe function expected " ++ argumentsText expected ++
  "\nbut instead received " ++ argumentsText found

def unaryText (operator source : String) (expected found : Ty) : String :=
  "A type mismatch was detected in the unary expression:\n  " ++ source ++
  "\nThe unary operator (" ++ operator ++ ") expected its operand to be of type:\n  " ++
  expected.text ++
  "\nbut instead it received an operand of type:\n  " ++ found.text

def binaryText (operator source : String) (expected found : List Ty) : String :=
  let separator := " " ++ operator ++ " "
  "A type mismatch was detected in the binary expression:\n  " ++ source ++
  "\nThe binary operator (" ++ operator ++ ") expected two operands with types:\n  " ++
  typesText separator expected ++
  "\nbut instead it received two operands of types:\n  " ++ typesText separator found

def infiniteText (construct : Construct) (source : String) (v : Var) (ty : Ty) : String :=
  let (v, namer) := (Ty.var v).print.run {}
  let (ty, _) := ty.print.run namer
  "An infinite type was detected in the " ++ construct.name ++ ":\n  " ++ source ++
  "\nThe type variable:\n  " ++ v ++
  "\nwould have to contain itself in the type:\n  " ++ ty

def message : Problem → String
  | .unboundName name => "Name " ++ name ++ " not declared."
  | .operands operator source [expected] [found] => unaryText operator source expected found
  | .operands operator source expected found => binaryText operator source expected found
  | .argumentCount source expected found => callText source expected found
  | .arguments source expected found => callText source expected found
  | .test construct source found =>
    "Expected the test part of the " ++ construct.name ++ ":\n  " ++ source ++
    "\nto have type boolean, but instead it is type:\n  " ++ found.text
  | .branches construct source consequent alternate =>
    "The two branches of the " ++ construct.name ++ ":\n  " ++ source ++
    "\nproduce different types!\nThe true branch has type:\n  " ++ consequent.text ++
    "\nbut the false branch has type:\n  " ++ alternate.text
  | .infinite construct source v ty => infiniteText construct source v ty
  | .mismatch construct source expected found =>
    "A type mismatch was detected in the " ++ construct.name ++ ":\n  " ++ source ++
    "\nExpected type:\n  " ++ expected.text ++
    "\nbut instead got type:\n  " ++ found.text

end Problem

structure TypeError where
  problem : Problem
  pos : Position
  deriving Inhabited

namespace TypeError

def message (e : TypeError) : String := e.pos.text ++ ": " ++ e.problem.message

/-- The messages of several errors, one after another. -/
def report (errors : List TypeError) : String := "\n".intercalate (errors.map message)

end TypeError

end Polytype
