import Polytype.Proofs.Walk.Equations
import Polytype.Tree.Nodes

/-!
# The moments of a walk

The walk over a program comes to its statements and expressions one after another, and each time it
holds what it has found before: the left operand while it infers the right one, the parameters while
it infers a body, the statements before with what they return. A `Frame` is what the walk over a
piece holds while it is at a part of it, and all that the rest of that walk depends on
(`Frame.resume`). `Part` says how the walk over each construct comes to its parts: it runs up to the
part, where it holds a frame, goes over the part and resumes the frame with what it gets
(`Part.walk_eq`).

`Visits` follows these steps down from a program. The frames on the way make up a `Stack`, and at
each visit what is left of the run is to walk the piece and to resume the stack (`Visits.run_eq`).
-/

namespace Polytype

variable {α : Type}

/-! ## Types in an outcome -/

def Verdict.types : Verdict → List Ty
  | .typed t => [t]
  | _ => []

/-- The types in the notes. -/
def notedTypes (nodes : List (Node Verdict)) : List Ty := nodes.flatMap (·.note.types)

/-- What the walk comes to. -/
inductive Piece (α : Type) where
  | program (p : Program α)
  | stmt (s : Stmt α)
  | expr (e : Expr α)
  | block (b : Block α)
  | branch (b : If α)
  | alternate (a : Alternate α)

namespace Piece

def Outcome : Piece α → Type
  | .program _ => Program Verdict
  | .stmt _ => Option Ty × Stmt Verdict
  | .expr _ => Ty × Expr Verdict
  | .block _ => Option Ty × Block Verdict
  | .branch _ => Option Ty × If Verdict
  | .alternate _ => Option Ty × Bool × Alternate Verdict

def walk : (p : Piece α) → Walk p.Outcome
  | .program p => Walk.inferProgram p
  | .stmt s => Walk.inferStmt s
  | .expr e => Walk.inferExpr e
  | .block b => Walk.inferBlock b
  | .branch b => Walk.inferIf b
  | .alternate a => Walk.inferAlternate a

/-- All types that the walk gets from a piece. -/
def types : (p : Piece α) → p.Outcome → List Ty
  | .program _, p => notedTypes p.nodes
  | .stmt _, (returned, s) => returned.toList ++ notedTypes s.nodes
  | .expr _, (t, e) => t :: notedTypes e.nodes
  | .block _, (returned, b) => returned.toList ++ notedTypes b.nodes
  | .branch _, (returned, b) => returned.toList ++ notedTypes b.nodes
  | .alternate _, (returned, _, a) => returned.toList ++ notedTypes a.nodes

end Piece

/-! ## Frames -/

/-- `Frame p q` is what the walk over `p` holds while it is at the part `q`. The number in most of
them is that of the errors when the walk came to `p`. -/
inductive Frame : Piece α → Piece α → Type
  | operand (tag : Tag α) (op : UnaryOp) (e : Expr α) (before : Nat) :
      Frame (.expr (.unary tag op e)) (.expr e)
  | left (tag : Tag α) (op : BinaryOp) (l r : Expr α) (before : Nat) :
      Frame (.expr (.binary tag op l r)) (.expr l)
  | right (tag : Tag α) (op : BinaryOp) (l r : Expr α) (before : Nat) (left : Ty × Expr Verdict) :
      Frame (.expr (.binary tag op l r)) (.expr r)
  | test (tag : Tag α) (t c a : Expr α) (before : Nat) :
      Frame (.expr (.conditional tag t c a)) (.expr t)
  | consequent (tag : Tag α) (t c a : Expr α) (before : Nat) (test : Ty × Expr Verdict) :
      Frame (.expr (.conditional tag t c a)) (.expr c)
  | alternate (tag : Tag α) (t c a : Expr α) (before : Nat) (test consequent : Ty × Expr Verdict) :
      Frame (.expr (.conditional tag t c a)) (.expr a)
  | callee (tag : Tag α) (f : Expr α) (args : List (Expr α)) (before : Nat) :
      Frame (.expr (.call tag f args)) (.expr f)
  | arg (tag : Tag α) (f : Expr α) (earlier : List (Expr α)) (e : Expr α) (later : List (Expr α))
      (before : Nat) (callee : Ty × Expr Verdict) (done : List Ty × List (Expr Verdict)) :
      Frame (.expr (.call tag f (earlier ++ e :: later))) (.expr e)
  | arrow (tag : Tag α) (ps : List (Name α)) (body : Expr α) (before : Nat)
      (params : List Ty × List (Name Verdict)) : Frame (.expr (.arrow tag ps body)) (.expr body)
  | arrowBlock (tag : Tag α) (ps : List (Name α)) (body : Block α) (before : Nat)
      (params : List Ty × List (Name Verdict)) : Frame (.expr (.arrowBlock tag ps body)) (.block body)
  | assign (tag : Tag α) (target : Name α) (e : Expr α) (before : Nat) :
      Frame (.expr (.assign tag target e)) (.expr e)
  | declare (tag : Tag α) (keyword : Keyword) (n : Name α) (e : Expr α) (before : Nat) :
      Frame (.stmt (.declare tag keyword n e)) (.expr e)
  | function (tag : Tag α) (n : Name α) (ps : List (Name α)) (body : Block α) (before : Nat)
      (params : List Ty × List (Name Verdict)) :
      Frame (.stmt (.function tag n ps body)) (.block body)
  | ret (tag : Tag α) (e : Expr α) (before : Nat) : Frame (.stmt (.ret tag (some e))) (.expr e)
  | ifElse (b : If α) : Frame (.stmt (.ifElse b)) (.branch b)
  | blockStmt (b : Block α) : Frame (.stmt (.block b)) (.block b)
  | exprStmt (e : Expr α) : Frame (.stmt (.expr e)) (.expr e)
  | stmt (tag : Tag α) (earlier : List (Stmt α)) (s : Stmt α) (later : List (Stmt α)) (before : Nat)
      (done : Option Ty × List (Stmt Verdict)) : Frame (.block ⟨tag, earlier ++ s :: later⟩) (.stmt s)
  | branchTest (tag : Tag α) (t : Expr α) (c : Block α) (a : Alternate α) (before : Nat) :
      Frame (.branch ⟨tag, t, c, a⟩) (.expr t)
  | branchConsequent (tag : Tag α) (t : Expr α) (c : Block α) (a : Alternate α) (before : Nat)
      (test : Ty × Expr Verdict) : Frame (.branch ⟨tag, t, c, a⟩) (.block c)
  | branchAlternate (tag : Tag α) (t : Expr α) (c : Block α) (a : Alternate α) (before : Nat)
      (test : Ty × Expr Verdict) (consequent : Option Ty × Block Verdict) :
      Frame (.branch ⟨tag, t, c, a⟩) (.alternate a)
  | otherwise (b : Block α) : Frame (.alternate (.block b)) (.block b)
  | elseIf (b : If α) : Frame (.alternate (.elseIf b)) (.branch b)
  | toplevel (earlier : List (Stmt α)) (s : Stmt α) (later : List (Stmt α))
      (done : Option Ty × List (Stmt Verdict)) : Frame (.program ⟨earlier ++ s :: later⟩) (.stmt s)

/-- The types in the parameters of a function. -/
def paramTypes (params : List Ty × List (Name Verdict)) : List Ty :=
  params.1 ++ notedTypes (params.2.map (·.node .param))

/-- The types that the walk gets from the first arguments of a call. -/
def argTypes (done : List Ty × List (Expr Verdict)) : List Ty :=
  done.1 ++ notedTypes (Expr.nodesAll done.2)

/-- The types that the walk gets from the first statements of a body. -/
def stmtTypes (done : Option Ty × List (Stmt Verdict)) : List Ty :=
  done.1.toList ++ notedTypes (Stmt.nodesAll done.2)

/-- All types in a frame. -/
def Frame.types : {p q : Piece α} → Frame p q → List Ty
  | _, _, .right _ _ l _ _ lhs => (Piece.expr l).types lhs
  | _, _, .consequent _ t _ _ _ tested => (Piece.expr t).types tested
  | _, _, .alternate _ t c _ _ tested chosen =>
    (Piece.expr t).types tested ++ (Piece.expr c).types chosen
  | _, _, .arg _ f _ _ _ _ called done => (Piece.expr f).types called ++ argTypes done
  | _, _, .arrow _ _ _ _ params => paramTypes params
  | _, _, .arrowBlock _ _ _ _ params => paramTypes params
  | _, _, .function _ _ _ _ _ params => paramTypes params
  | _, _, .stmt _ _ _ _ _ done => stmtTypes done
  | _, _, .branchConsequent _ t _ _ _ tested => (Piece.expr t).types tested
  | _, _, .branchAlternate _ t c _ _ tested chosen =>
    (Piece.expr t).types tested ++ (Piece.block c).types chosen
  | _, _, .toplevel _ _ _ done => stmtTypes done
  | _, _, _ => []

namespace Walk

/-! ## The end of a walk -/

/-- The check of a test, unless it is untypable. -/
def checkTested (construct : Construct) (source : String) (pos : Position)
    (test : Ty × Expr Verdict) : Walk Unit :=
  if test.2.note.isUntypable then pure () else checkTest construct source pos test.1

def finishBinary (tag : Tag α) (op : BinaryOp) (l r : Expr α) (before : Nat)
    (left right : Ty × Expr Verdict) : Walk (Ty × Expr Verdict) := do
  let result ← (if left.2.note.isUntypable || right.2.note.isUntypable then freshTy
    else useOperator op.key op.symbol (Expr.binary tag op l r).source .binaryExpression
      [left.1, right.1] tag.pos)
  let (note, ty) ← settle before result
  return (ty, .binary (tag.annotate note) op left.2 right.2)

def finishConditional (tag : Tag α) (t : Expr α) (before : Nat)
    (test consequent alternate : Ty × Expr Verdict) : Walk (Ty × Expr Verdict) := do
  let result ← (if consequent.2.note.isUntypable || alternate.2.note.isUntypable then freshTy
    else do
      checkBranches .conditionalExpression (Expr.conditionalHeader t) tag.pos consequent.1
        alternate.1
      apply consequent.1)
  let (note, ty) ← settle before result
  return (ty, .conditional (tag.annotate note) test.2 consequent.2 alternate.2)

def finishCall (tag : Tag α) (f : Expr α) (args : List (Expr α)) (before : Nat)
    (callee : Ty × Expr Verdict) (done : List Ty × List (Expr Verdict)) :
    Walk (Ty × Expr Verdict) := do
  let result ← (if callee.2.note.isUntypable || done.2.any (·.note.isUntypable) then freshTy
    else useCallee callee.1 done.1 (Expr.call tag f args).source tag.pos)
  let (note, ty) ← settle before result
  return (ty, .call (tag.annotate note) callee.2 done.2)

def finishBlock (tag : Tag α) (before : Nat) (done : Option Ty × List (Stmt Verdict)) :
    Walk (Option Ty × Block Verdict) := do
  modifyEnv Env.pop
  let (note, ty) ← settle before (returnTy done.1)
  return (done.1.map fun _ => ty, ⟨tag.annotate note, done.2⟩)

def finishIf (tag : Tag α) (source : String) (before : Nat) (test : Ty × Expr Verdict)
    (consequent : Option Ty × Block Verdict) (alternate : Option Ty × Bool × Alternate Verdict) :
    Walk (Option Ty × If Verdict) := do
  let checked := !consequent.2.tag.note.isUntypable && alternate.2.1
  let returned ← joinBranches source tag.pos checked consequent.1 alternate.1
  let (note, ty) ← settle before (returnTy returned)
  return (returned.map fun _ => ty, ⟨tag.annotate note, test.2, consequent.2, alternate.2.2⟩)

end Walk

open Walk

/-- What is left of the walk over `p` once the part `q` is done. -/
def Frame.resume : {p q : Piece α} → Frame p q → q.Outcome → Walk p.Outcome
  | _, _, .operand tag op e before, (t, e') => do
    let result ← (if e'.note.isUntypable then freshTy
      else useOperator op.key op.symbol (Expr.unary tag op e).source .unaryExpression [t] tag.pos)
    let (note, ty) ← settle before result
    return (ty, .unary (tag.annotate note) op e')
  | _, _, .left tag op l r before, lhs => do
    let rhs ← inferExpr r
    finishBinary tag op l r before lhs rhs
  | _, _, .right tag op l r before lhs, rhs => finishBinary tag op l r before lhs rhs
  | _, _, .test tag t c a before, tested => do
    checkTested .conditionalExpression (Expr.conditionalHeader t) tag.pos tested
    let chosen ← inferExpr c
    let other ← inferExpr a
    finishConditional tag t before tested chosen other
  | _, _, .consequent tag t _ a before tested, chosen => do
    let other ← inferExpr a
    finishConditional tag t before tested chosen other
  | _, _, .alternate tag t _ _ before tested chosen, other =>
    finishConditional tag t before tested chosen other
  | _, _, .callee tag f args before, called => do
    let done ← inferExprs args
    finishCall tag f args before called done
  | _, _, .arg tag f earlier e later before called done, (t, e') => do
    let (ts, later') ← inferExprs later
    finishCall tag f (earlier ++ e :: later) before called (done.1 ++ t :: ts, done.2 ++ e' :: later')
  | _, _, .arrow tag _ _ before (params, ps'), (result, body') => do
    modifyEnv Env.pop
    let (note, ty) ← settle before (.func params result)
    return (ty, .arrow (tag.annotate note) ps' body')
  | _, _, .arrowBlock tag _ _ before (params, ps'), (returned, body') => do
    modifyEnv Env.pop
    let (note, ty) ← settle before (.func params (returnTy returned))
    return (ty, .arrowBlock (tag.annotate note) ps' body')
  | _, _, .assign tag target e before, (value, e') => do
    let found ← lookup target.text
    found.elim
      (do
        report (.unboundName target.text) target.pos
        let (note, ty) ← settle before (← freshTy)
        return (ty, .assign (tag.annotate note) (target.annotate .untypable) e'))
      fun scheme => do
        let expected ← instantiate scheme
        let result ← (if e'.note.isUntypable then pure value
          else do
            checkSame .assignment (Expr.assign tag target e).source tag.pos expected value
            apply value)
        let (note, ty) ← settle before result
        return (ty, .assign (tag.annotate note) (target.annotate (.typed expected)) e')
  | _, _, .declare tag keyword name init before, (ty, init') => do
    let note ← Walk.declare name.text (.value keyword) (Stmt.declareHeader keyword name init) tag.pos
      before ty
    return (none, .declare (tag.annotate note) keyword (name.annotate note) init')
  | _, _, .function tag name ps _ before (params, ps'), (returned, body') => do
    modifyEnv Env.pop
    let note ← Walk.declare name.text .function (Stmt.functionHeader name ps) tag.pos before
      (.func params (returnTy returned))
    return (none, .function (tag.annotate note) (name.annotate note) ps' body')
  | _, _, .ret tag _ before, (value, e') => do
    let (note, ty) ← settle before value
    return (some ty, .ret (tag.annotate note) (some e'))
  | _, _, .ifElse _, (returned, b') => return (returned, .ifElse b')
  | _, _, .blockStmt _, (returned, b') => return (returned, .block b')
  | _, _, .exprStmt _, (_, e') => return (none, .expr e')
  | _, _, .stmt tag _ _ later before done, (returned, s') => do
    let (last, later') ← inferStmts later
    finishBlock tag before
      (firstReturn done.1 (firstReturn returned last), done.2 ++ s' :: later')
  | _, _, .branchTest tag t c a before, tested => do
    checkTested .ifStatement (If.header ⟨tag, t, c, a⟩) tag.pos tested
    let chosen ← inferBlock c
    let other ← inferAlternate a
    finishIf tag (If.header ⟨tag, t, c, a⟩) before tested chosen other
  | _, _, .branchConsequent tag t c a before tested, chosen => do
    let other ← inferAlternate a
    finishIf tag (If.header ⟨tag, t, c, a⟩) before tested chosen other
  | _, _, .branchAlternate tag t c a before tested chosen, other =>
    finishIf tag (If.header ⟨tag, t, c, a⟩) before tested chosen other
  | _, _, .otherwise _, (returned, b') => return (returned, !b'.tag.note.isUntypable, .block b')
  | _, _, .elseIf _, (returned, b') => return (returned, !b'.tag.note.isUntypable, .elseIf b')
  | _, _, .toplevel _ _ later done, (_, s') => do
    let (_, later') ← inferStmts later
    modifyEnv Env.pop
    return ⟨done.2 ++ s' :: later'⟩

/-! ## Parts -/

namespace Walk

/-- A test and its check. -/
def enterTest (construct : Construct) (source : String) (pos : Position) (test : Expr α) :
    Walk (Ty × Expr Verdict) := do
  let found ← inferExpr test
  checkTested construct source pos found
  return found

/-- The parameters of a function, in a scope of their own. -/
def enterParams (ps : List (Name α)) : Walk (List Ty × List (Name Verdict)) := do
  modifyEnv Env.push
  bindParams ps

/-- The first statements of a body, in a scope of its own. -/
def enterStmts (body earlier : List (Stmt α)) : Walk (Option Ty × List (Stmt Verdict)) := do
  modifyEnv Env.push
  hoist body
  inferStmts earlier

end Walk

/-- `Part enter`, where `enter` gives a frame of `p` around `q`: the walk over `p` comes to `q` by
`enter`. -/
inductive Part : {p q : Piece α} → Walk (Frame p q) → Prop
  | operand (tag : Tag α) (op : UnaryOp) (e : Expr α) :
      Part (do return .operand tag op e (← errorCount))
  | left (tag : Tag α) (op : BinaryOp) (l r : Expr α) :
      Part (do return .left tag op l r (← errorCount))
  | right (tag : Tag α) (op : BinaryOp) (l r : Expr α) :
      Part (do
        let before ← errorCount
        let lhs ← inferExpr l
        return .right tag op l r before lhs)
  | test (tag : Tag α) (t c a : Expr α) : Part (do return .test tag t c a (← errorCount))
  | consequent (tag : Tag α) (t c a : Expr α) :
      Part (do
        let before ← errorCount
        let tested ← enterTest .conditionalExpression (Expr.conditionalHeader t) tag.pos t
        return .consequent tag t c a before tested)
  | alternate (tag : Tag α) (t c a : Expr α) :
      Part (do
        let before ← errorCount
        let tested ← enterTest .conditionalExpression (Expr.conditionalHeader t) tag.pos t
        let chosen ← inferExpr c
        return .alternate tag t c a before tested chosen)
  | callee (tag : Tag α) (f : Expr α) (args : List (Expr α)) :
      Part (do return .callee tag f args (← errorCount))
  | arg (tag : Tag α) (f : Expr α) (earlier : List (Expr α)) (e : Expr α) (later : List (Expr α)) :
      Part (do
        let before ← errorCount
        let called ← inferExpr f
        let done ← inferExprs earlier
        return .arg tag f earlier e later before called done)
  | arrow (tag : Tag α) (ps : List (Name α)) (body : Expr α) :
      Part (do
        let before ← errorCount
        let params ← enterParams ps
        return .arrow tag ps body before params)
  | arrowBlock (tag : Tag α) (ps : List (Name α)) (body : Block α) :
      Part (do
        let before ← errorCount
        let params ← enterParams ps
        return .arrowBlock tag ps body before params)
  | assign (tag : Tag α) (target : Name α) (e : Expr α) :
      Part (do return .assign tag target e (← errorCount))
  | declare (tag : Tag α) (keyword : Keyword) (n : Name α) (e : Expr α) :
      Part (do return .declare tag keyword n e (← errorCount))
  | function (tag : Tag α) (n : Name α) (ps : List (Name α)) (body : Block α) :
      Part (do
        let before ← errorCount
        let params ← enterParams ps
        return .function tag n ps body before params)
  | ret (tag : Tag α) (e : Expr α) : Part (do return .ret tag e (← errorCount))
  | ifElse (b : If α) : Part (return .ifElse b)
  | blockStmt (b : Block α) : Part (return .blockStmt b)
  | exprStmt (e : Expr α) : Part (return .exprStmt e)
  | stmt (tag : Tag α) (earlier : List (Stmt α)) (s : Stmt α) (later : List (Stmt α)) :
      Part (do
        let before ← errorCount
        let done ← enterStmts (earlier ++ s :: later) earlier
        return .stmt tag earlier s later before done)
  | branchTest (tag : Tag α) (t : Expr α) (c : Block α) (a : Alternate α) :
      Part (do return .branchTest tag t c a (← errorCount))
  | branchConsequent (tag : Tag α) (t : Expr α) (c : Block α) (a : Alternate α) :
      Part (do
        let before ← errorCount
        let tested ← enterTest .ifStatement (If.header ⟨tag, t, c, a⟩) tag.pos t
        return .branchConsequent tag t c a before tested)
  | branchAlternate (tag : Tag α) (t : Expr α) (c : Block α) (a : Alternate α) :
      Part (do
        let before ← errorCount
        let tested ← enterTest .ifStatement (If.header ⟨tag, t, c, a⟩) tag.pos t
        let chosen ← inferBlock c
        return .branchAlternate tag t c a before tested chosen)
  | otherwise (b : Block α) : Part (return .otherwise b)
  | elseIf (b : If α) : Part (return .elseIf b)
  | toplevel (earlier : List (Stmt α)) (s : Stmt α) (later : List (Stmt α)) :
      Part (do return .toplevel earlier s later (← enterStmts (earlier ++ s :: later) earlier))

namespace Walk

theorem firstReturn_assoc (a b c : Option Ty) :
    firstReturn a (firstReturn b c) = firstReturn (firstReturn a b) c := by
  cases a <;> rfl

theorem inferExprs_append (before : List (Expr α)) (e : Expr α) (after : List (Expr α)) :
    inferExprs (before ++ e :: after) = (do
      let xs ← inferExprs before
      let y ← inferExpr e
      let zs ← inferExprs after
      return (xs.1 ++ y.1 :: zs.1, xs.2 ++ y.2 :: zs.2)) := by
  induction before with
  | nil => simp only [List.nil_append, inferExprs, pure_bind]
  | cons x before ih => simp only [List.cons_append, inferExprs, ih, bind_assoc, pure_bind]

theorem inferStmts_append (before : List (Stmt α)) (s : Stmt α) (after : List (Stmt α)) :
    inferStmts (before ++ s :: after) = (do
      let xs ← inferStmts before
      let y ← inferStmt s
      let zs ← inferStmts after
      return (firstReturn xs.1 (firstReturn y.1 zs.1), xs.2 ++ y.2 :: zs.2)) := by
  induction before with
  | nil => simp only [List.nil_append, inferStmts, pure_bind]; rfl
  | cons x before ih =>
    simp only [List.cons_append, inferStmts, ih, bind_assoc, pure_bind, firstReturn_assoc]

end Walk

/-- The walk over a piece runs up to the part, goes over the part and resumes. -/
theorem Part.walk_eq {p q : Piece α} {enter : Walk (Frame p q)} (h : Part enter) :
    p.walk = enter >>= fun frame => q.walk >>= frame.resume := by
  cases h with
  | operand tag op e => exact inferExpr_unary tag op e
  | left tag op l r | right tag op l r => exact inferExpr_binary tag op l r
  | test tag t c a | consequent tag t c a | alternate tag t c a =>
    exact inferExpr_conditional tag t c a
  | callee tag f args => exact inferExpr_call tag f args
  | arg tag f earlier e later =>
    refine (inferExpr_call tag f _).trans ?_
    rw [inferExprs_append]
    rfl
  | arrow tag ps body => exact inferExpr.eq_def (.arrow tag ps body)
  | arrowBlock tag ps body => exact inferExpr.eq_def (.arrowBlock tag ps body)
  | assign tag target e => exact inferExpr_assign tag target e
  | declare tag keyword n e => exact inferStmt.eq_def (.declare tag keyword n e)
  | function tag n ps body => exact inferStmt.eq_def (.function tag n ps body)
  | ret tag e => exact inferStmt.eq_def (.ret tag (some e))
  | ifElse b => exact inferStmt.eq_def (.ifElse b)
  | blockStmt b => exact inferStmt.eq_def (.block b)
  | exprStmt e => exact inferStmt.eq_def (.expr e)
  | stmt tag earlier s later =>
    show inferBlock _ = _
    rw [inferBlock, inferStmts_append]
    rfl
  | branchTest tag t c a | branchConsequent tag t c a | branchAlternate tag t c a =>
    exact inferIf_eq tag t c a
  | otherwise b => exact inferAlternate.eq_def (.block b)
  | elseIf b => exact inferAlternate.eq_def (.elseIf b)
  | toplevel earlier s later =>
    show inferProgram _ = _
    rw [inferProgram, inferStmts_append]
    rfl

/-! ## Visits -/

/-- The frames of a walk over the program `p` that is at a piece, the innermost one last. -/
inductive Stack (p : Program α) : Piece α → Type
  | empty : Stack p (.program p)
  | push {q r : Piece α} (outer : Stack p q) (frame : Frame q r) : Stack p r

namespace Stack

variable {p : Program α}

/-- All types that the walk holds. -/
def types : {q : Piece α} → Stack p q → List Ty
  | _, .empty => []
  | _, .push outer frame => outer.types ++ frame.types

/-- What is left of the walk over the program once the piece is done. -/
def resume : {q : Piece α} → Stack p q → q.Outcome → Walk (Program Verdict)
  | _, .empty, found => return found
  | _, .push outer frame, found => do
    let next ← frame.resume found
    outer.resume next

end Stack

/-- The walk over the program `p`, run from `c₀`, comes to a piece in a context, with a stack. -/
inductive Visits (p : Program α) (c₀ : Context) : (q : Piece α) → Context → Stack p q → Prop
  | start : Visits p c₀ (.program p) c₀ .empty
  | part {q r : Piece α} {enter : Walk (Frame q r)} {c : Context} {stack : Stack p q}
      (visit : Visits p c₀ q c stack) (part : Part enter) :
      Visits p c₀ r (enter.run c).2 (stack.push (enter.run c).1)

/-- At every visit, the rest of the run is to walk the piece and to resume the stack. -/
theorem Visits.run_eq {p : Program α} {c₀ c : Context} {q : Piece α} {stack : Stack p q}
    (h : Visits p c₀ q c stack) :
    (inferProgram p).run c₀ = (q.walk >>= stack.resume).run c := by
  induction h with
  | start => rfl
  | @part q r enter c stack _ part ih =>
    rw [ih, part.walk_eq, bind_assoc, run_bind]
    rfl

end Polytype
