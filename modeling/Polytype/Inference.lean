import Polytype.Context
import Polytype.Tree.Printer
import Polytype.Validation

/-!
# Inference

One walk over the program, from left to right, gives every node its verdict. A list of statements
first binds each name it declares to a variable, so that all of its functions can refer to each
other. When a declaration is reached, its type is unified with that variable, and the name is bound
again: a constant or a function to its generalized type, a `let` to the type as it is.

A failed check is reported and the walk goes on. A node with an error at it or below it is
untypable. Its parent gets a fresh variable for it and skips its own check, and an untypable
declaration binds its name to any type at all, so that one mistake is not reported twice.

A call that returns a pair of a head and a list is given the list type, when the head and the
element unify without a binding that the environment could see.
-/

namespace Polytype

variable {α : Type}

/-- A step of the walk. -/
abbrev Walk := StateM Context

namespace Walk

/-! ## Steps -/

def freshTy : Walk Ty := modifyGet (·.freshTy)

def instantiate (scheme : Scheme) : Walk Ty := modifyGet (·.instantiate scheme)

def apply (t : Ty) : Walk Ty := do return (← get).apply t

def resolve (t : Ty) : Walk Ty := do return (← get).resolve t

def resolveAll (ts : List Ty) : Walk (List Ty) := do return ts.map (← get).resolve

def lookup (name : String) : Walk (Option Scheme) := do return (← get).env.lookup name

def lookupLocal (name : String) : Walk (Option Scheme) := do return (← get).env.lookupLocal name

def modifyEnv (f : Env → Env) : Walk Unit := modify fun c => { c with env := f c.env }

def bind (name : String) (scheme : Scheme) : Walk Unit := modifyEnv (·.bind name scheme)

/-- The number of errors so far. What is reported later adds to it. -/
def errorCount : Walk Nat := do return (← get).errors.length

def report (problem : Problem) (pos : Position) : Walk Unit := modify (·.report problem pos)

/-- Unifies two types, or says why they cannot be. -/
def equate (a b : Ty) : Walk (Option UnifyError) := do
  match (← get).unify a b with
  | .ok c => set c; return none
  | .error e => return some e

/-- What to report for a failed unification: an infinite type as such, and otherwise `problem`. -/
def blame (construct : Construct) (source : String) (problem : Problem) : UnifyError → Walk Problem
  | .occurs v t => do return .infinite construct source v (← resolve t)
  | _ => return problem

/-- The verdict on a node whose parts were inferred since `before` errors, and the type that its
parent works with. -/
def settle (before : Nat) (ty : Ty) : Walk (Verdict × Ty) := do
  if before < (← errorCount) then return (.untypable, ← freshTy)
  else return (.typed ty, ty)

/-! ## Names -/

/-- Binds every declared name to a variable of its own. -/
def hoist : List (Stmt α) → Walk Unit
  | [] => return
  | s :: rest => do
    match s.declared? with
    | some name => bind name.text (.mono (← freshTy))
    | none => pure ()
    hoist rest

def bindParams : List (Name α) → Walk (List Ty × List (Name Verdict))
  | [] => return ([], [])
  | p :: rest => do
    let ty ← freshTy
    bind p.text (.mono ty)
    let (tys, params) ← bindParams rest
    return (ty :: tys, p.annotate (.typed ty) :: params)

/-- An instance of the name's scheme. -/
def useName (name : String) (pos : Position) : Walk Ty := do
  match ← lookup name with
  | some scheme => instantiate scheme
  | none =>
    report (.unboundName name) pos
    freshTy

/-! ## Checks -/

/-- Unifies the operands with the operator's parameters from left to right, up to the first
failure. -/
def checkOperands (params operands : List Ty) (construct : Construct) (operator source : String)
    (pos : Position) : List (Ty × Ty) → Walk Unit
  | [] => return
  | (param, operand) :: rest => do
    match ← equate param operand with
    | none => checkOperands params operands construct operator source pos rest
    | some e =>
      let problem := .operands operator source (← resolveAll params) (← resolveAll operands)
      report (← blame construct source problem e) pos

/-- The result of an operator on typed operands. A name of the program may stand where the prelude
has the operator; if it is no function there is nothing to check. -/
def useOperator (key operator source : String) (construct : Construct) (operands : List Ty)
    (pos : Position) : Walk Ty := do
  match ← useName key pos with
  | .func params result =>
    checkOperands params operands construct operator source pos (params.zip operands)
    apply result
  | _ => freshTy

/-- Reports a test that is no boolean. -/
def checkTest (construct : Construct) (source : String) (pos : Position) (test : Ty) :
    Walk Unit := do
  match ← equate test .boolean with
  | none => return
  | some _ => report (.test construct source (← resolve test)) pos

/-- Reports two branches of different types. -/
def checkBranches (construct : Construct) (source : String) (pos : Position)
    (consequent alternate : Ty) : Walk Unit := do
  match ← equate consequent alternate with
  | none => return
  | some e =>
    let problem := .branches construct source (← resolve consequent) (← resolve alternate)
    report (← blame construct source problem e) pos

/-- Reports a type that is not the expected one. -/
def checkSame (construct : Construct) (source : String) (pos : Position) (expected found : Ty) :
    Walk Unit := do
  match ← equate expected found with
  | none => return
  | some e =>
    let problem := .mismatch construct source (← resolve expected) (← resolve found)
    report (← blame construct source problem e) pos

/-- A pair of a head and a list becomes the list, if nothing in the environment is bound by that. -/
def collapseList : Ty → Walk Ty
  | .pair head (.list element) => do
    match (← get).unifyUnseen? element head with
    | some c =>
      set c
      apply (.list element)
    | none => return .pair head (.list element)
  | t => return t

/-- Unifies the callee with a function from the arguments to a fresh result. A callee that is
already known to be a function is right, and its arguments are to blame. -/
def applyCallee (callee : Ty) (args : List Ty) (source : String) (pos : Position) : Walk Ty := do
  let result ← freshTy
  let expected := .func args result
  match ← equate callee expected with
  | none => collapseList (← apply result)
  | some e =>
    match callee with
    | .func params _ =>
      report (.arguments source (← resolveAll params) (← resolveAll args)) pos
    | _ =>
      let problem := .mismatch .functionCall source (← resolve expected) (← resolve callee)
      report (← blame .functionCall source problem e) pos
    freshTy

/-- The result of a call with typed arguments. -/
def useCallee (callee : Ty) (args : List Ty) (source : String) (pos : Position) : Walk Ty := do
  match ← apply callee with
  | .func params result =>
    if params.length = args.length then applyCallee (.func params result) args source pos
    else
      report (.argumentCount source (← resolveAll params) (← resolveAll args)) pos
      freshTy
  | callee => applyCallee callee args source pos

/-! ## Declarations -/

/-- A function declaration, or a constant or variable one. -/
inductive Binding where
  | function
  | value (keyword : Keyword)

namespace Binding

def construct : Binding → Construct
  | .function => .functionDeclaration
  | .value .constant => .constantDeclaration
  | .value .mutable => .variableDeclaration

/-- A variable keeps one type, since it can be assigned to. -/
def isGeneral : Binding → Bool
  | .value .mutable => false
  | _ => true

end Binding

/-- Unifies a declared type with what the uses before the declaration have found out. -/
def checkPlaceholder (name : String) (binding : Binding) (source : String) (pos : Position)
    (ty : Ty) : Walk Unit := do
  match ← lookupLocal name with
  | none => return
  | some placeholder => checkSame binding.construct source pos (← instantiate placeholder) ty

/-- Binds a declared name for the statements to come, and gives the verdict on its declaration. -/
def declare (name : String) (binding : Binding) (source : String) (pos : Position) (before : Nat)
    (ty : Ty) : Walk Verdict := do
  if (← errorCount) = before then checkPlaceholder name binding source pos ty
  modifyEnv (·.erase name)
  if before < (← errorCount) then
    let any ← modifyGet (·.freshVar false)
    bind name ⟨[any], .var any⟩
    return .untypable
  else
    let c ← get
    let scheme := if binding.isGeneral then c.generalize ty else .mono (c.apply ty)
    bind name scheme
    return .typed scheme.ty

/-! ## Expressions and statements -/

/-- The earlier of two returns. -/
def firstReturn (first second : Option Ty) : Option Ty :=
  match first with
  | some t => some t
  | none => second

/-- The type of a block that may return. -/
def returnTy (returned : Option Ty) : Ty := returned.getD .undefined

/-- The outcome of an `if`. If one branch returns, the other has to return with the same type, and
without a return it counts as `undefined`. -/
def joinBranches (source : String) (pos : Position) (checked : Bool)
    (consequent alternate : Option Ty) : Walk (Option Ty) := do
  if consequent.isNone && alternate.isNone then return none
  else
    if checked then
      checkBranches .ifStatement source pos (returnTy consequent) (returnTy alternate)
    return some (returnTy consequent)

mutual
/-- The type of an expression for its parent, and the annotated expression. -/
def inferExpr : Expr α → Walk (Ty × Expr Verdict)
  | .number tag x => return (.number, .number (tag.annotate (.typed .number)) x)
  | .text tag s => return (.string, .text (tag.annotate (.typed .string)) s)
  | .boolean tag b => return (.boolean, .boolean (tag.annotate (.typed .boolean)) b)
  | .null tag => do
    let before ← errorCount
    let (note, ty) ← settle before (← useName Prelude.null tag.pos)
    return (ty, .null (tag.annotate note))
  | .name n => do
    let before ← errorCount
    let (note, ty) ← settle before (← useName n.text n.pos)
    return (ty, .name (n.annotate note))
  | .unary tag op e => do
    let before ← errorCount
    let (operand, e') ← inferExpr e
    let result ←
      if e'.note.isUntypable then freshTy
      else
        useOperator op.key op.symbol (Expr.unary tag op e).source .unaryExpression [operand]
          tag.pos
    let (note, ty) ← settle before result
    return (ty, .unary (tag.annotate note) op e')
  | .binary tag op l r => do
    let before ← errorCount
    let (left, l') ← inferExpr l
    let (right, r') ← inferExpr r
    let result ←
      if l'.note.isUntypable || r'.note.isUntypable then freshTy
      else
        useOperator op.key op.symbol (Expr.binary tag op l r).source .binaryExpression [left, right]
          tag.pos
    let (note, ty) ← settle before result
    return (ty, .binary (tag.annotate note) op l' r')
  | .conditional tag t c a => do
    let before ← errorCount
    let (test, t') ← inferExpr t
    unless t'.note.isUntypable do
      checkTest .conditionalExpression (Expr.conditionalHeader t) tag.pos test
    let (consequent, c') ← inferExpr c
    let (alternate, a') ← inferExpr a
    let result ←
      if c'.note.isUntypable || a'.note.isUntypable then freshTy
      else do
        checkBranches .conditionalExpression (Expr.conditionalHeader t) tag.pos consequent alternate
        apply consequent
    let (note, ty) ← settle before result
    return (ty, .conditional (tag.annotate note) t' c' a')
  | .call tag f args => do
    let before ← errorCount
    let (callee, f') ← inferExpr f
    let (tys, args') ← inferExprs args
    let result ←
      if f'.note.isUntypable || args'.any (·.note.isUntypable) then freshTy
      else useCallee callee tys (Expr.call tag f args).source tag.pos
    let (note, ty) ← settle before result
    return (ty, .call (tag.annotate note) f' args')
  | .arrow tag ps body => do
    let before ← errorCount
    modifyEnv Env.push
    let (params, ps') ← bindParams ps
    let (result, body') ← inferExpr body
    modifyEnv Env.pop
    let (note, ty) ← settle before (.func params result)
    return (ty, .arrow (tag.annotate note) ps' body')
  | .arrowBlock tag ps body => do
    let before ← errorCount
    modifyEnv Env.push
    let (params, ps') ← bindParams ps
    let (returned, body') ← inferBlock body
    modifyEnv Env.pop
    let (note, ty) ← settle before (.func params (returnTy returned))
    return (ty, .arrowBlock (tag.annotate note) ps' body')
  | .assign tag target e => do
    let before ← errorCount
    let (value, e') ← inferExpr e
    match ← lookup target.text with
    | none =>
      report (.unboundName target.text) target.pos
      let (note, ty) ← settle before (← freshTy)
      return (ty, .assign (tag.annotate note) (target.annotate .untypable) e')
    | some scheme =>
      let expected ← instantiate scheme
      let result ←
        if e'.note.isUntypable then pure value
        else do
          checkSame .assignment (Expr.assign tag target e).source tag.pos expected value
          apply value
      let (note, ty) ← settle before result
      return (ty, .assign (tag.annotate note) (target.annotate (.typed expected)) e')

def inferExprs : List (Expr α) → Walk (List Ty × List (Expr Verdict))
  | [] => return ([], [])
  | e :: es => do
    let (ty, e') ← inferExpr e
    let (tys, es') ← inferExprs es
    return (ty :: tys, e' :: es')

/-- The type with which a statement leaves the function around it, if it does, and the annotated
statement. -/
def inferStmt : Stmt α → Walk (Option Ty × Stmt Verdict)
  | .declare tag keyword name init => do
    let before ← errorCount
    let (ty, init') ← inferExpr init
    let note ←
      declare name.text (.value keyword) (Stmt.declareHeader keyword name init) tag.pos before ty
    return (none, .declare (tag.annotate note) keyword (name.annotate note) init')
  | .function tag name ps body => do
    let before ← errorCount
    modifyEnv Env.push
    let (params, ps') ← bindParams ps
    let (returned, body') ← inferBlock body
    modifyEnv Env.pop
    let note ←
      declare name.text .function (Stmt.functionHeader name ps) tag.pos before
        (.func params (returnTy returned))
    return (none, .function (tag.annotate note) (name.annotate note) ps' body')
  | .ret tag none => return (some .undefined, .ret (tag.annotate (.typed .undefined)) none)
  | .ret tag (some e) => do
    let before ← errorCount
    let (value, e') ← inferExpr e
    let (note, ty) ← settle before value
    return (some ty, .ret (tag.annotate note) (some e'))
  | .ifElse branch => do
    let (returned, branch') ← inferIf branch
    return (returned, .ifElse branch')
  | .block b => do
    let (returned, b') ← inferBlock b
    return (returned, .block b')
  | .expr e => do
    let (_, e') ← inferExpr e
    return (none, .expr e')

/-- The first return counts, and the statements after it are inferred all the same. -/
def inferStmts : List (Stmt α) → Walk (Option Ty × List (Stmt Verdict))
  | [] => return (none, [])
  | s :: ss => do
    let (first, s') ← inferStmt s
    let (second, ss') ← inferStmts ss
    return (firstReturn first second, s' :: ss')

def inferBlock : Block α → Walk (Option Ty × Block Verdict)
  | ⟨tag, body⟩ => do
    let before ← errorCount
    modifyEnv Env.push
    hoist body
    let (returned, body') ← inferStmts body
    modifyEnv Env.pop
    let (note, ty) ← settle before (returnTy returned)
    return (returned.map fun _ => ty, ⟨tag.annotate note, body'⟩)

def inferIf : If α → Walk (Option Ty × If Verdict)
  | ⟨tag, test, consequent, alternate⟩ => do
    let before ← errorCount
    let source := If.header ⟨tag, test, consequent, alternate⟩
    let (testTy, test') ← inferExpr test
    unless test'.note.isUntypable do checkTest .ifStatement source tag.pos testTy
    let (first, consequent') ← inferBlock consequent
    let (second, sound, alternate') ← inferAlternate alternate
    let checked := !consequent'.tag.note.isUntypable && sound
    let returned ← joinBranches source tag.pos checked first second
    let (note, ty) ← settle before (returnTy returned)
    return (returned.map fun _ => ty, ⟨tag.annotate note, test', consequent', alternate'⟩)

/-- The flag says whether the branch could be typed. -/
def inferAlternate : Alternate α → Walk (Option Ty × Bool × Alternate Verdict)
  | .absent => return (none, true, .absent)
  | .block b => do
    let (returned, b') ← inferBlock b
    return (returned, !b'.tag.note.isUntypable, .block b')
  | .elseIf branch => do
    let (returned, branch') ← inferIf branch
    return (returned, !branch'.tag.note.isUntypable, .elseIf branch')
end

def inferProgram (p : Program α) : Walk (Program Verdict) := do
  modifyEnv Env.push
  hoist p.body
  let (_, body) ← inferStmts p.body
  modifyEnv Env.pop
  return ⟨body⟩

end Walk

/-- Infers a program in a context. Verdicts are resolved with all that is known in the end. -/
def analyse (p : Program α) (c : Context) : Program Verdict × Context :=
  let (annotated, c) := (Walk.inferProgram p).run c
  (annotated.map (·.mapTy c.resolve), c)

/-- Validates a program and infers it in a context of its own. -/
def infer (chapter : Chapter) (p : Program α) :
    Except (List ValidationError) (Program Verdict × Context) := do
  return analyse (← validate chapter p) (Context.new chapter)

end Polytype
