import Mathlib.Data.List.Forall2
import Polytype.Proofs.Notes
import Polytype.Tree.Build

/-!
# Lines of programs built by hand

A draft is a program as it is put together: which constructors are called, with which lines, and which
expressions are located beforehand. `origins` reads off a draft, from the outside in, what stands
around each node: the innermost statement constructor, and the innermost expression in that statement
that was located beforehand. The program itself gets its lines from the inside out, by `locate`. Both
agree on every node (`build_places`), so no node is left without a line.
-/

namespace Polytype

variable {α : Type}

/-! ## Giving lines -/

namespace Node

/-- The node is as before, or it had no line and has got this one. -/
def Placed (line : Nat) (before after : Node α) : Prop :=
  after = before ∨ before.pos.line = 0 ∧ after = { before with pos.line := line }

end Node

namespace Tag

def unplace (tag : Tag α) : Tag α := { tag with pos := {} }

theorem locate_placed (line : Nat) (tag : Tag α) (kind : NodeKind) :
    (tag.node kind).Placed line ((tag.locate line).node kind) := by
  unfold Node.Placed Tag.locate Tag.node
  split
  next unplaced => exact .inr ⟨unplaced, rfl⟩
  next => exact .inl rfl

@[simp] theorem unplace_locate (line : Nat) (tag : Tag α) : (tag.locate line).unplace = tag.unplace := by
  unfold locate
  split <;> rfl

theorem locate_locate {line : Nat} (h : line ≠ 0) (other : Nat) (tag : Tag α) :
    (tag.locate line).locate other = tag.locate line := by
  have placed : (tag.locate line).pos.line ≠ 0 := by
    unfold locate
    split
    · exact h
    · assumption
  exact if_neg placed

end Tag

namespace Name

def unplace (n : Name α) : Name α := { n with toTag := n.toTag.unplace }

@[simp] theorem unplace_locate (line : Nat) (n : Name α) : (n.locate line).unplace = n.unplace := by
  simp [locate, unplace]

theorem locate_locate {line : Nat} (h : line ≠ 0) (other : Nat) (n : Name α) :
    (n.locate line).locate other = n.locate line := by
  simp [locate, Tag.locate_locate h]

end Name

namespace Expr

mutual
/-- Takes the places away from all nodes that `locate` comes to. -/
def unplace : Expr α → Expr α
  | .number tag x => .number tag.unplace x
  | .text tag s => .text tag.unplace s
  | .boolean tag b => .boolean tag.unplace b
  | .null tag => .null tag.unplace
  | .name n => .name n.unplace
  | .unary tag op e => .unary tag.unplace op e.unplace
  | .binary tag op l r => .binary tag.unplace op l.unplace r.unplace
  | .conditional tag t c a => .conditional tag.unplace t.unplace c.unplace a.unplace
  | .call tag f args => .call tag.unplace f.unplace (unplaceAll args)
  | .arrow tag ps body => .arrow tag.unplace (ps.map (·.unplace)) body.unplace
  | .arrowBlock tag ps body =>
    .arrowBlock tag.unplace (ps.map (·.unplace)) { body with tag := body.tag.unplace }
  | .assign tag target e => .assign tag.unplace target.unplace e.unplace

def unplaceAll : List (Expr α) → List (Expr α)
  | [] => []
  | e :: es => e.unplace :: unplaceAll es
end

theorem unplaceAll_eq (es : List (Expr α)) : unplaceAll es = es.map unplace := by
  induction es with
  | nil => rfl
  | cons e es ih => rw [unplaceAll, ih, List.map_cons]

theorem locateAll_eq (line : Nat) (es : List (Expr α)) : locateAll line es = es.map (locate line) := by
  induction es with
  | nil => rfl
  | cons e es ih => rw [locateAll, ih, List.map_cons]

theorem unplace_locate (line : Nat) (e : Expr α) : (e.locate line).unplace = e.unplace := by
  induction e using Expr.ind with
  | call tag f args ihf ihargs => simp_all [locate, unplace, locateAll_eq, unplaceAll_eq]
  | _ => simp_all [locate, unplace, Block.locate]

theorem locate_locate {line : Nat} (h : line ≠ 0) (other : Nat) (e : Expr α) :
    (e.locate line).locate other = e.locate line := by
  induction e using Expr.ind with
  | call tag f args ihf ihargs => simp_all [locate, locateAll_eq, Tag.locate_locate h]
  | _ =>
    simp_all [locate, Block.locate, Tag.locate_locate h, Name.locate_locate h]

theorem params_locate (line : Nat) (ps : List (Name α)) :
    List.Forall₂ (Node.Placed line) (ps.map (·.node .param))
      ((ps.map (·.locate line)).map (·.node .param)) := by
  rw [List.map_map, List.forall₂_map_left_iff, List.forall₂_map_right_iff, List.forall₂_same]
  exact fun n _ => n.toTag.locate_placed line .param

theorem nodes_locate (line : Nat) (e : Expr α) :
    List.Forall₂ (Node.Placed line) e.nodes (e.locate line).nodes := by
  induction e using Expr.ind with
  | number tag | text tag | boolean tag | null tag => exact .cons (tag.locate_placed line _) .nil
  | name n => exact .cons (n.toTag.locate_placed line _) .nil
  | unary tag op e ih => exact .cons (tag.locate_placed line _) ih
  | binary tag op l r ihl ihr =>
    exact .cons (tag.locate_placed line _) (List.rel_append ihl ihr)
  | conditional tag t c a iht ihc iha =>
    exact .cons (tag.locate_placed line _) (List.rel_append (List.rel_append iht ihc) iha)
  | call tag f args ihf ihargs =>
    simp only [nodes, locate, nodesAll_eq, locateAll_eq, List.flatMap_map]
    refine .cons (tag.locate_placed line _) (List.rel_append ihf ?_)
    induction args with
    | nil => exact .nil
    | cons e es ih =>
      obtain ⟨first, rest⟩ := List.forall_mem_cons.mp ihargs
      exact List.rel_append first (ih rest)
  | arrow tag ps body ih =>
    exact .cons (tag.locate_placed line _) (List.rel_append (params_locate line ps) ih)
  | arrowBlock tag ps body =>
    obtain ⟨blockTag, stmts⟩ := body
    refine .cons (tag.locate_placed line _) (List.rel_append (params_locate line ps) ?_)
    exact .cons (blockTag.locate_placed line _) (List.forall₂_same.mpr fun _ _ => .inl rfl)
  | assign tag target e ih =>
    exact .cons (tag.locate_placed line _) (.cons (target.toTag.locate_placed line _) ih)

end Expr

/-! ## Drafts -/

/-- A line of a program text. -/
abbrev Line := { n : Nat // n ≠ 0 }

mutual
/-- An expression as it is put together. -/
inductive ExprDraft where
  | number (x : Float)
  | text (s : String)
  | boolean (b : Bool)
  | null
  | ident (s : String)
  | unary (op : UnaryOp) (operand : ExprDraft)
  | binary (op : BinaryOp) (left right : ExprDraft)
  | conditional (test consequent alternate : ExprDraft)
  | call (callee : ExprDraft) (args : List ExprDraft)
  | callNamed (callee : String) (args : List ExprDraft)
  | arrow (params : List String) (body : ExprDraft)
  | arrowBlock (params : List String) (body : List StmtDraft)
  | assign (target : String) (value : ExprDraft)
  /-- The expression is located before it becomes part of anything else. -/
  | located (line : Line) (e : ExprDraft)

inductive StmtDraft where
  | declare (keyword : Keyword) (line : Line) (target : String) (init : ExprDraft)
  | function (line : Line) (target : String) (params : List String) (body : List StmtDraft)
  | ret (line : Line) (value : ExprDraft)
  | retNothing (line : Line)
  | ifOnly (line : Line) (test : ExprDraft) (consequent : List StmtDraft)
  | ifElse (line : Line) (test : ExprDraft) (consequent alternate : List StmtDraft)
  | ifElseIf (line : Line) (test : ExprDraft) (consequent : List StmtDraft) (otherwise : StmtDraft)
  | expr (line : Line) (e : ExprDraft)
  | block (line : Line) (body : List StmtDraft)
end

mutual
def ExprDraft.build : ExprDraft → Expr Unit
  | .number x => Build.number x
  | .text s => Build.text s
  | .boolean b => Build.boolean b
  | .null => Build.null
  | .ident s => Build.ident s
  | .unary op e => Build.unary op e.build
  | .binary op l r => Build.binary op l.build r.build
  | .conditional t c a => Build.conditional t.build c.build a.build
  | .call f args => Build.call f.build (ExprDraft.buildAll args)
  | .callNamed f args => Build.callNamed f (ExprDraft.buildAll args)
  | .arrow ps body => Build.arrow ps body.build
  | .arrowBlock ps body => Build.arrowBlock ps (StmtDraft.buildAll body)
  | .assign target e => Build.assign target e.build
  | .located line e => e.build.locate line

def ExprDraft.buildAll : List ExprDraft → List (Expr Unit)
  | [] => []
  | e :: es => e.build :: ExprDraft.buildAll es

def StmtDraft.build : StmtDraft → Stmt Unit
  | .declare keyword line target e => Build.declare keyword line target e.build
  | .function line target ps body => Build.function line target ps (StmtDraft.buildAll body)
  | .ret line e => Build.ret line e.build
  | .retNothing line => Build.retNothing line
  | .ifOnly line test consequent =>
    Build.ifElse line test.build (StmtDraft.buildAll consequent) none
  | .ifElse line test consequent alternate =>
    Build.ifElse line test.build (StmtDraft.buildAll consequent)
      (some (StmtDraft.buildAll alternate))
  | .ifElseIf line test consequent otherwise =>
    Build.ifElseIf line test.build (StmtDraft.buildAll consequent) otherwise.build
  | .expr line e => Build.expr line e.build
  | .block line body => Build.block line (StmtDraft.buildAll body)

def StmtDraft.buildAll : List StmtDraft → List (Stmt Unit)
  | [] => []
  | s :: ss => s.build :: StmtDraft.buildAll ss
end

/-- A draft of a program: its statements. -/
structure ProgramDraft where
  body : List StmtDraft

def ProgramDraft.build (p : ProgramDraft) : Program Unit := ⟨StmtDraft.buildAll p.body⟩

/-! ## What stands around a node -/

structure Origin where
  /-- The line of the innermost statement constructor around the node. -/
  statement : Line
  /-- The line of the innermost expression around the node, inside that statement, that was located
  beforehand. -/
  located : Option Line := none

namespace Origin

/-- A part of a statement on this line, not located beforehand. -/
def on (line : Line) : Origin := { statement := line }

def line (o : Origin) : Nat := (o.located.getD o.statement).1

theorem line_ne_zero (o : Origin) : o.line ≠ 0 := (o.located.getD o.statement).2

end Origin

/-- Continues a chain of `if`s or is the branch after `else`, with no block around it. -/
def StmtDraft.isClause : StmtDraft → Bool
  | .ifOnly .. | .ifElse .. | .ifElseIf .. | .block .. => true
  | _ => false

mutual
/-- One entry for each node, in the order of `nodes`, for an expression with `o` around it. -/
def ExprDraft.origins (o : Origin) : ExprDraft → List Origin
  | .number _ | .text _ | .boolean _ | .null | .ident _ => [o]
  | .unary _ e => o :: e.origins o
  | .binary _ l r => o :: (l.origins o ++ r.origins o)
  | .conditional t c a => o :: (t.origins o ++ c.origins o ++ a.origins o)
  | .call f args => o :: (f.origins o ++ ExprDraft.originsAll o args)
  | .callNamed _ args => o :: o :: ExprDraft.originsAll o args
  | .arrow ps body => o :: (ps.map (fun _ => o) ++ body.origins o)
  | .arrowBlock ps body => o :: (ps.map (fun _ => o) ++ o :: StmtDraft.originsAll body)
  | .assign _ e => o :: o :: e.origins o
  | .located line e => e.origins { o with located := some line }

def ExprDraft.originsAll (o : Origin) : List ExprDraft → List Origin
  | [] => []
  | e :: es => e.origins o ++ ExprDraft.originsAll o es

def StmtDraft.origins : StmtDraft → List Origin
  | .declare _ line _ e => .on line :: .on line :: e.origins (.on line)
  | .function line _ ps body =>
    .on line :: .on line ::
      (ps.map (fun _ => .on line) ++ .on line :: StmtDraft.originsAll body)
  | .ret line e => .on line :: e.origins (.on line)
  | .retNothing line => [.on line]
  | .ifOnly line test consequent =>
    .on line :: (test.origins (.on line) ++ .on line :: StmtDraft.originsAll consequent)
  | .ifElse line test consequent alternate =>
    .on line :: (test.origins (.on line) ++ .on line :: StmtDraft.originsAll consequent ++
      .on line :: StmtDraft.originsAll alternate)
  | .ifElseIf line test consequent otherwise =>
    -- A block around the alternative stands where the alternative starts.
    .on line :: (test.origins (.on line) ++ .on line :: StmtDraft.originsAll consequent ++
      ((if otherwise.isClause then [] else otherwise.origins.take 1) ++ otherwise.origins))
  | .expr line e => e.origins (.on line)
  | .block line body => .on line :: StmtDraft.originsAll body

def StmtDraft.originsAll : List StmtDraft → List Origin
  | [] => []
  | s :: ss => s.origins ++ StmtDraft.originsAll ss
end

def ProgramDraft.origins (p : ProgramDraft) : List Origin := StmtDraft.originsAll p.body

/-! ## Lines -/

/-- The line of each node. -/
def lines (nodes : List (Node α)) : List Nat := nodes.map (·.pos.line)

@[simp] theorem lines_nil : lines ([] : List (Node α)) = [] := rfl

@[simp] theorem lines_cons (n : Node α) (ns : List (Node α)) :
    lines (n :: ns) = n.pos.line :: lines ns := rfl

@[simp] theorem lines_append (ns ms : List (Node α)) : lines (ns ++ ms) = lines ns ++ lines ms :=
  List.map_append

@[simp] theorem lines_replicate (k : Nat) (n : Node α) :
    lines (List.replicate k n) = List.replicate k n.pos.line := List.map_replicate

@[simp] theorem Tag.node_line (tag : Tag α) (kind : NodeKind) :
    (tag.node kind).pos.line = tag.pos.line := rfl

namespace Build

@[simp] theorem locate_unplaced (line : Nat) : unplaced.locate line = onLine line := rfl

@[simp] theorem onLine_line (line : Nat) : (onLine line).pos.line = line := rfl

@[simp] theorem locate_name (line : Nat) (s : String) :
    (name unplaced s).locate line = name (onLine line) s := rfl

@[simp] theorem name_toTag (tag : Tag Unit) (s : String) : (name tag s).toTag = tag := rfl

end Build

theorem Stmt.take_lines (s : Stmt α) : (lines s.nodes).take 1 = [s.pos.line] := by
  cases s with
  | ret tag e => cases e <;> rfl
  | expr e => cases e <;> rfl
  | ifElse b | block b => cases b; rfl
  | _ => rfl

theorem StmtDraft.lines_alternate (s : StmtDraft) : lines (Build.alternate s.build).nodes =
    (if s.isClause then [] else (lines s.build.nodes).take 1) ++ lines s.build.nodes := by
  rw [Stmt.take_lines]
  cases s with
  | ifOnly | ifElse | ifElseIf | block => rfl
  | _ => simp [build, Build.declare, Build.function, Build.ret, Build.retNothing, Build.expr,
      Build.alternate, Alternate.nodes, Block.nodes, Stmt.nodesAll, isClause]

@[simp] theorem Origin.line_on (line : Line) : (Origin.on line).line = line := rfl

mutual
theorem ExprDraft.lines_build (o : Origin) : (e : ExprDraft) →
    lines (e.build.locate o.line).nodes = (e.origins o).map Origin.line
  | .number _ | .text _ | .boolean _ | .null | .ident _ => rfl
  | .unary op e => by
    simp [ExprDraft.build, ExprDraft.origins, Build.unary, Expr.locate, Expr.nodes,
      ExprDraft.lines_build o e]
  | .binary op l r => by
    simp [ExprDraft.build, ExprDraft.origins, Build.binary, Expr.locate, Expr.nodes,
      ExprDraft.lines_build o l, ExprDraft.lines_build o r]
  | .conditional t c a => by
    simp [ExprDraft.build, ExprDraft.origins, Build.conditional, Expr.locate, Expr.nodes,
      ExprDraft.lines_build o t, ExprDraft.lines_build o c, ExprDraft.lines_build o a]
  | .call f args => by
    simp [ExprDraft.build, ExprDraft.origins, Build.call, Expr.locate, Expr.nodes,
      ExprDraft.lines_build o f, ExprDraft.lines_buildAll o args]
  | .callNamed f args => by
    simp [ExprDraft.build, ExprDraft.origins, Build.callNamed, Build.call, Build.ident, Expr.locate,
      Expr.nodes, ExprDraft.lines_buildAll o args]
  | .arrow ps body => by
    simp [ExprDraft.build, ExprDraft.origins, Build.arrow, Expr.locate, Expr.nodes,
      Function.comp_def, ExprDraft.lines_build o body]
  | .arrowBlock ps body => by
    simp [ExprDraft.build, ExprDraft.origins, Build.arrowBlock, Expr.locate, Expr.nodes, Block.locate,
      Block.nodes, Function.comp_def, StmtDraft.lines_buildAll body]
  | .assign target e => by
    simp [ExprDraft.build, ExprDraft.origins, Build.assign, Expr.locate, Expr.nodes,
      ExprDraft.lines_build o e]
  | .located line e => by
    rw [ExprDraft.build, ExprDraft.origins, Expr.locate_locate line.2]
    exact ExprDraft.lines_build { o with located := some line } e

theorem ExprDraft.lines_buildAll (o : Origin) : (es : List ExprDraft) →
    lines (Expr.nodesAll (Expr.locateAll o.line (ExprDraft.buildAll es))) =
      (ExprDraft.originsAll o es).map Origin.line
  | [] => rfl
  | e :: es => by
    simp [ExprDraft.buildAll, ExprDraft.originsAll, Expr.locateAll, Expr.nodesAll,
      ExprDraft.lines_build o e, ExprDraft.lines_buildAll o es]

theorem StmtDraft.lines_build : (s : StmtDraft) → lines s.build.nodes = s.origins.map Origin.line
  | .declare keyword line target e => by
    simp [StmtDraft.build, StmtDraft.origins, Build.declare, Stmt.nodes,
      ← ExprDraft.lines_build (.on line) e]
  | .function line target ps body => by
    simp [StmtDraft.build, StmtDraft.origins, Build.function, Stmt.nodes, Block.nodes,
      Function.comp_def, StmtDraft.lines_buildAll body]
  | .ret line e => by
    simp [StmtDraft.build, StmtDraft.origins, Build.ret, Stmt.nodes,
      ← ExprDraft.lines_build (.on line) e]
  | .retNothing line => rfl
  | .ifOnly line test consequent => by
    simp [StmtDraft.build, StmtDraft.origins, Build.ifElse, Build.branch, Stmt.nodes, If.nodes,
      Block.nodes, Alternate.nodes, ← ExprDraft.lines_build (.on line) test,
      StmtDraft.lines_buildAll consequent]
  | .ifElse line test consequent alternate => by
    simp [StmtDraft.build, StmtDraft.origins, Build.ifElse, Build.branch, Stmt.nodes, If.nodes,
      Block.nodes, Alternate.nodes, ← ExprDraft.lines_build (.on line) test,
      StmtDraft.lines_buildAll consequent, StmtDraft.lines_buildAll alternate]
  | .ifElseIf line test consequent otherwise => by
    have wrapped := StmtDraft.lines_alternate otherwise
    rw [StmtDraft.lines_build otherwise] at wrapped
    simp [StmtDraft.build, StmtDraft.origins, Build.ifElseIf, Build.branch, Stmt.nodes, If.nodes,
      Block.nodes, ← ExprDraft.lines_build (.on line) test, StmtDraft.lines_buildAll consequent,
      wrapped]
    cases otherwise.isClause <;> simp
  | .expr line e => by
    simp [StmtDraft.build, StmtDraft.origins, Build.expr, Stmt.nodes,
      ← ExprDraft.lines_build (.on line) e]
  | .block line body => by
    simp [StmtDraft.build, StmtDraft.origins, Build.block, Stmt.nodes, Block.nodes,
      StmtDraft.lines_buildAll body]

theorem StmtDraft.lines_buildAll : (ss : List StmtDraft) →
    lines (Stmt.nodesAll (StmtDraft.buildAll ss)) = (StmtDraft.originsAll ss).map Origin.line
  | [] => rfl
  | s :: ss => by
    simp [StmtDraft.buildAll, StmtDraft.originsAll, Stmt.nodesAll, StmtDraft.lines_build s,
      StmtDraft.lines_buildAll ss]
end

theorem ProgramDraft.lines_build (p : ProgramDraft) : lines p.build.nodes = p.origins.map Origin.line :=
  StmtDraft.lines_buildAll p.body

/-- Every node of a program that was built by hand has a line: that of the innermost expression around
it that was located beforehand, and that of the innermost statement constructor where there is none.
To locate an expression changes nothing but lines that were missing. -/
theorem build_places (p : ProgramDraft) (e : Expr α) (n : Nat) :
    (∀ node ∈ p.build.nodes, node.pos.line ≠ 0) ∧
    List.Forall₂ (fun node origin => node.pos.line = origin.line) p.build.nodes p.origins ∧
    (e.locate n).unplace = e.unplace ∧
    List.Forall₂ (Node.Placed n) e.nodes (e.locate n).nodes := by
  have places := p.lines_build
  refine ⟨fun node mem => ?_, ?_, e.unplace_locate n, e.nodes_locate n⟩
  · have line : node.pos.line ∈ p.origins.map Origin.line := places ▸ List.mem_map_of_mem mem
    obtain ⟨origin, -, line⟩ := List.mem_map.mp line
    exact line ▸ origin.line_ne_zero
  · rw [← List.forall₂_eq_eq_eq] at places
    exact List.forall₂_map_left_iff.mp (List.forall₂_map_right_iff.mp places)

end Polytype
