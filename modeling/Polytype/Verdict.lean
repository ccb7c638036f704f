import Polytype.Tree.Basic
import Polytype.Ty.Printer

/-!
# Verdicts

What inference has found out about a node. `declarationTypes` sums up a program by the types of its
top-level declarations.
-/

namespace Polytype

inductive Verdict where
  | pending
  | typed (ty : Ty)
  /-- An error was reported at the node or below it. -/
  | untypable
  deriving Inhabited

namespace Verdict

def isUntypable : Verdict → Bool
  | .untypable => true
  | _ => false

def mapTy (f : Ty → Ty) : Verdict → Verdict
  | .typed t => .typed (f t)
  | other => other

/-- The verdict on a declaration as it is shown to people. -/
def text : Verdict → String
  | .typed t => t.text
  | _ => "Couldn't infer type"

end Verdict

namespace Stmt

def declarationType? : Stmt Verdict → Option String
  | .declare tag _ name _ | .function tag name _ _ => some (name.text ++ ": " ++ tag.note.text)
  | _ => none

end Stmt

namespace Program

/-- One line for each top-level declaration. -/
def declarationTypes (p : Program Verdict) : String :=
  "\n".intercalate (p.body.filterMap Stmt.declarationType?)

end Program

end Polytype
