import Polytype.Verdict
import Polytype.Chapter
import Polytype.Tree.Traverse

/-!
# Validation

Before inference a program is checked for what does not need types: `return` stands inside
functions, `let` and assignment wait for chapter 3, no list of statements declares a name twice,
and constants and functions are not assigned to. All faults are collected. Those of a list's own
declarations come before those inside its statements.
-/

namespace Polytype

inductive Fault where
  | returnOutside
  | notOffered (construct : String) (chapter : Chapter)
  | declaredTwice (name : String)
  | assignedConstant (name : String)

namespace Fault

def message : Fault → String
  | .returnOutside => "return statement outside of a function body"
  | .notOffered construct chapter => construct ++ " is not available in " ++ chapter.text
  | .declaredTwice name => "name " ++ name ++ " declared twice in the same block"
  | .assignedConstant name => "cannot assign to constant " ++ name

end Fault

structure ValidationError where
  fault : Fault
  pos : Position

namespace ValidationError

def message (e : ValidationError) : String := e.pos.text ++ ": " ++ e.fault.message

end ValidationError

namespace Validation

/-- What a name in scope may be used for. -/
inductive Standing where
  | fixed
  | assignable
  deriving DecidableEq

/-- Names of one scope. The first entry for a name counts. -/
abbrev Frame := List (String × Standing)

/-- What surrounds a piece of program: the chapter, the scopes from the inside out, and whether
there is a function to return from. -/
structure Place where
  chapter : Chapter
  frames : List Frame
  inFunction : Bool

namespace Place

def resolve (p : Place) (name : String) : Option Standing :=
  p.frames.findSome? (List.lookup name)

def enter (p : Place) (frame : Frame) : Place := { p with frames := frame :: p.frames }

def enterFunction (p : Place) (frame : Frame) : Place :=
  { p.enter frame with inFunction := true }

end Place

variable {α : Type}

/-- A name and its standing, if the statement declares one. -/
def declaration? : Stmt α → Option (String × Standing)
  | .declare _ .mutable name _ => some (name.text, .assignable)
  | .declare _ .constant name _ | .function _ name _ _ => some (name.text, .fixed)
  | _ => none

/-- The scope of a list of statements. The last declaration of a name counts. -/
def blockFrame (body : List (Stmt α)) : Frame := (body.filterMap declaration?).reverse

def paramFrame (params : List (Name α)) : Frame := params.map fun p => (p.text, .assignable)

/-- A fault at every statement that declares one of the names `seen` before it. -/
def repeats (seen : List String) : List (Stmt α) → List ValidationError
  | [] => []
  | s :: rest =>
    match s.declared? with
    | none => repeats seen rest
    | some name =>
      if seen.contains name.text then
        ⟨.declaredTwice name.text, s.pos⟩ :: repeats seen rest
      else repeats (name.text :: seen) rest

def needsAssignment (p : Place) (construct : String) (pos : Position) : List ValidationError :=
  if p.chapter.offers .three then [] else [⟨.notOffered construct p.chapter, pos⟩]

mutual
def checkExpr (p : Place) : Expr α → List ValidationError
  | .number _ _ | .text _ _ | .boolean _ _ | .null _ | .name _ => []
  | .unary _ _ e => checkExpr p e
  | .binary _ _ l r => checkExpr p l ++ checkExpr p r
  | .conditional _ t c a => checkExpr p t ++ checkExpr p c ++ checkExpr p a
  | .call _ callee args => checkExpr p callee ++ checkExprs p args
  | .arrow _ ps body => checkExpr (p.enter (paramFrame ps)) body
  | .arrowBlock _ ps body => checkBlock (p.enterFunction (paramFrame ps)) body
  | .assign tag target e =>
    needsAssignment p "assignment" tag.pos ++
    (if p.resolve target.text = some .fixed then [⟨.assignedConstant target.text, tag.pos⟩]
     else []) ++
    checkExpr p e

def checkExprs (p : Place) : List (Expr α) → List ValidationError
  | [] => []
  | e :: es => checkExpr p e ++ checkExprs p es

def checkStmt (p : Place) : Stmt α → List ValidationError
  | .declare _ .constant _ init => checkExpr p init
  | .declare tag .mutable _ init =>
    needsAssignment p "variable declaration" tag.pos ++ checkExpr p init
  | .function _ _ ps body => checkBlock (p.enterFunction (paramFrame ps)) body
  | .ret tag none => if p.inFunction then [] else [⟨.returnOutside, tag.pos⟩]
  | .ret tag (some e) =>
    (if p.inFunction then [] else [⟨.returnOutside, tag.pos⟩]) ++ checkExpr p e
  | .ifElse branch => checkIf p branch
  | .block b => checkBlock p b
  | .expr e => checkExpr p e

def checkStmts (p : Place) : List (Stmt α) → List ValidationError
  | [] => []
  | s :: ss => checkStmt p s ++ checkStmts p ss

def checkBlock (p : Place) : Block α → List ValidationError
  | ⟨_, body⟩ => repeats [] body ++ checkStmts (p.enter (blockFrame body)) body

def checkIf (p : Place) : If α → List ValidationError
  | ⟨_, test, consequent, alternate⟩ =>
    checkExpr p test ++ checkBlock p consequent ++ checkAlternate p alternate

def checkAlternate (p : Place) : Alternate α → List ValidationError
  | .absent => []
  | .block b => checkBlock p b
  | .elseIf branch => checkIf p branch
end

def errors (chapter : Chapter) (program : Program α) : List ValidationError :=
  let p : Place := ⟨chapter, [blockFrame program.body], false⟩
  repeats [] program.body ++ checkStmts p program.body

end Validation

/-- A program without faults, every node ready to be typed. -/
def validate {α : Type} (chapter : Chapter) (program : Program α) :
    Except (List ValidationError) (Program Verdict) :=
  match Validation.errors chapter program with
  | [] => .ok (program.map fun _ => .pending)
  | errors => .error errors

end Polytype
