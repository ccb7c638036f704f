import Mathlib.Algebra.Order.Group.Multiset
import Mathlib.Tactic.Abel
import Polytype.Proofs.Scopes
import Polytype.Verdict

/-!
# Accounts of errors

An account of a tree says at which node each error was found. Its notes hold the verdict on a node
and the errors of the node's own checks, and `reports` puts them together in the order in which the
walk finds them. An account is settled if every verdict goes by the errors at the node and below it,
every error is of a kind that a check at its node finds, a use of a name has an error exactly when
the name is not in scope, and a function or an `if` has no error after those of the statements in it.
-/

namespace Polytype

variable {α : Type}

/-! ## Notes -/

/-- An `if` and a conditional check their test before the branches, so their own errors can come in
two parts, with those of the branches in between. -/
structure Account where
  verdict : Verdict
  early : List TypeError := []
  late : List TypeError := []

def Account.own (note : Account) : List TypeError := note.early ++ note.late

/-- The construct that the message is about. -/
def Problem.construct? : Problem → Option Construct
  | .unboundName _ => none
  | .operands _ _ _ [_] => some .unaryExpression
  | .operands _ _ _ _ => some .binaryExpression
  | .argumentCount _ _ _ | .arguments _ _ _ => some .functionCall
  | .test construct _ _ => some construct
  | .branches construct _ _ _ => some construct
  | .infinite construct _ _ _ => some construct
  | .mismatch construct _ _ _ => some construct

namespace NodeKind

/-- What messages call the nodes that have a check. -/
def construct? : NodeKind → Option Construct
  | .declaration .constant => some .constantDeclaration
  | .declaration .mutable => some .variableDeclaration
  | .function => some .functionDeclaration
  | .branch => some .ifStatement
  | .unary => some .unaryExpression
  | .binary => some .binaryExpression
  | .conditional => some .conditionalExpression
  | .call => some .functionCall
  | .assign => some .assignment
  | _ => none

/-- The nodes that can use a name. -/
def isUse : NodeKind → Bool
  | .null | .ident | .name => true
  | _ => false

end NodeKind

/-- A check at a node of this kind can find the problem. -/
def Problem.Concerns (problem : Problem) (kind : NodeKind) : Prop :=
  match problem.construct? with
  | some construct => kind.construct? = some construct
  | none => kind.isUse = true

def TypeError.At (e : TypeError) (kind : NodeKind) (pos : Position) : Prop :=
  e.pos = pos ∧ e.problem.Concerns kind

/-- The name and position of an unbound name. -/
def TypeError.unbound? (e : TypeError) : Option (String × Position) :=
  match e.problem with
  | .unboundName name => some (name, e.pos)
  | _ => none

/-- The verdict on a node with these errors at it and below it. -/
def Verdict.Judges (note : Verdict) (errors : List TypeError) : Prop :=
  (errors = [] ∧ ∃ t, note = .typed t) ∨ (errors ≠ [] ∧ note = .untypable)

@[simp] theorem Verdict.judges_nil {note : Verdict} : note.Judges [] ↔ ∃ t, note = .typed t := by
  simp [Judges]

/-- The error of a name that is looked up in a scope, if it is not there. -/
def missing (scope : List String) (name : String) (pos : Position) : List TypeError :=
  if name ∈ scope then [] else [⟨.unboundName name, pos⟩]

namespace Tag

/-- The note of a node with a check, where `errors` are those at the node and below it. -/
structure Settles (tag : Tag Account) (kind : NodeKind) (errors : List TypeError) : Prop where
  verdict : tag.note.verdict.Judges errors
  own : ∀ e ∈ tag.note.own, e.At kind tag.pos

/-- A node with a last check, which is left out if there are errors in the parts before it. -/
structure Spares (tag : Tag Account) (kind : NodeKind) (errors inside last : List TypeError) : Prop
    extends tag.Settles kind errors where
  spares : inside = [] ∨ last = []

/-- The note of a node that uses a name. -/
structure Names (tag : Tag Account) (scope : List String) (name : String) : Prop where
  verdict : tag.note.verdict.Judges tag.note.own
  own : tag.note.own = missing scope name tag.pos

theorem Settles.own_unchecked {tag : Tag Account} {kind : NodeKind} {errors : List TypeError}
    (h : tag.Settles kind errors) (unchecked : kind.construct? = none) (unused : kind.isUse = false) :
    tag.note.own = [] := by
  refine List.eq_nil_iff_forall_not_mem.mpr fun e he => ?_
  have concerns := (h.own e he).2
  unfold Problem.Concerns at concerns
  split at concerns
  · cases unchecked.symm.trans concerns
  · cases unused.symm.trans concerns

theorem Settles.pos {tag : Tag Account} {kind : NodeKind} {errors : List TypeError}
    (h : tag.Settles kind errors) {e : TypeError} (mem : e ∈ tag.note.own) : e.pos = tag.pos :=
  (h.own e mem).1

theorem Names.pos {tag : Tag Account} {scope : List String} {name : String}
    (h : tag.Names scope name) {e : TypeError} (mem : e ∈ tag.note.own) : e.pos = tag.pos := by
  rw [h.own, missing] at mem
  split at mem
  · cases mem
  · rw [List.mem_singleton.mp mem]

end Tag

/-! ## Trees -/

mutual
def Expr.reports : Expr Account → List TypeError
  | .number tag _ | .text tag _ | .boolean tag _ | .null tag => tag.note.own
  | .name n => n.note.own
  | .unary tag _ e => e.reports ++ tag.note.own
  | .binary tag _ l r => l.reports ++ r.reports ++ tag.note.own
  | .conditional tag t c a =>
    t.reports ++ tag.note.early ++ c.reports ++ a.reports ++ tag.note.late
  | .call tag f args => f.reports ++ Expr.reportsAll args ++ tag.note.own
  | .arrow tag ps body => ps.flatMap (·.note.own) ++ body.reports ++ tag.note.own
  | .arrowBlock tag ps body => ps.flatMap (·.note.own) ++ body.reports ++ tag.note.own
  | .assign tag target e => e.reports ++ target.note.own ++ tag.note.own

def Expr.reportsAll : List (Expr Account) → List TypeError
  | [] => []
  | e :: es => e.reports ++ Expr.reportsAll es

def Stmt.reports : Stmt Account → List TypeError
  | .declare tag _ n e => n.note.own ++ e.reports ++ tag.note.own
  | .function tag n ps body =>
    n.note.own ++ ps.flatMap (·.note.own) ++ body.reports ++ tag.note.own
  | .ret tag none => tag.note.own
  | .ret tag (some e) => e.reports ++ tag.note.own
  | .ifElse b => b.reports
  | .block b => b.reports
  | .expr e => e.reports

def Stmt.reportsAll : List (Stmt Account) → List TypeError
  | [] => []
  | s :: ss => s.reports ++ Stmt.reportsAll ss

def Block.reports : Block Account → List TypeError
  | ⟨tag, body⟩ => Stmt.reportsAll body ++ tag.note.own

def If.reports : If Account → List TypeError
  | ⟨tag, test, consequent, alternate⟩ =>
    test.reports ++ tag.note.early ++ consequent.reports ++ alternate.reports ++ tag.note.late

def Alternate.reports : Alternate Account → List TypeError
  | .absent => []
  | .block b => b.reports
  | .elseIf b => b.reports
end

def Program.reports (p : Program Account) : List TypeError := Stmt.reportsAll p.body

mutual
def Expr.Settled (scope : List String) : Expr Account → Prop
  | .number tag _ => tag.Settles .number tag.note.own
  | .text tag _ => tag.Settles .text tag.note.own
  | .boolean tag _ => tag.Settles .boolean tag.note.own
  | .null tag => tag.Names scope Prelude.null
  | .name n => n.Names scope n.text
  | .unary tag op e => tag.Settles .unary (Expr.unary tag op e).reports ∧ e.Settled scope
  | .binary tag op l r =>
    tag.Settles .binary (Expr.binary tag op l r).reports ∧ l.Settled scope ∧ r.Settled scope
  | .conditional tag t c a =>
    tag.Settles .conditional (Expr.conditional tag t c a).reports ∧
      t.Settled scope ∧ c.Settled scope ∧ a.Settled scope
  | .call tag f args =>
    tag.Settles .call (Expr.call tag f args).reports ∧ f.Settled scope ∧ Expr.SettledAll scope args
  | .arrow tag ps body =>
    tag.Settles .lambda (Expr.arrow tag ps body).reports ∧ (∀ p ∈ ps, p.Settles .param []) ∧
      body.Settled (ps.map (·.text) ++ scope)
  | .arrowBlock tag ps body =>
    tag.Settles .lambda (Expr.arrowBlock tag ps body).reports ∧ (∀ p ∈ ps, p.Settles .param []) ∧
      body.Settled (ps.map (·.text) ++ scope)
  | .assign tag target e =>
    tag.Settles .assign (Expr.assign tag target e).reports ∧ target.Names scope target.text ∧
      e.Settled scope

def Expr.SettledAll (scope : List String) : List (Expr Account) → Prop
  | [] => True
  | e :: es => e.Settled scope ∧ Expr.SettledAll scope es

def Stmt.Settled (scope : List String) : Stmt Account → Prop
  | .declare tag keyword n e =>
    tag.Settles (.declaration keyword) (Stmt.declare tag keyword n e).reports ∧
      n.note = { verdict := tag.note.verdict } ∧ e.Settled scope
  | .function tag n ps body =>
    tag.Spares .function (Stmt.function tag n ps body).reports body.reports tag.note.own ∧
      n.note = { verdict := tag.note.verdict } ∧ (∀ p ∈ ps, p.Settles .param []) ∧
      body.Settled (ps.map (·.text) ++ scope)
  | .ret tag none => tag.Settles .ret tag.note.own
  | .ret tag (some e) => tag.Settles .ret (Stmt.ret tag (some e)).reports ∧ e.Settled scope
  | .ifElse b => b.Settled scope
  | .block b => b.Settled scope
  | .expr e => e.Settled scope

def Stmt.SettledAll (scope : List String) : List (Stmt Account) → Prop
  | [] => True
  | s :: ss => s.Settled scope ∧ Stmt.SettledAll scope ss

def Block.Settled (scope : List String) : Block Account → Prop
  | ⟨tag, body⟩ =>
    tag.Settles .block (Block.mk tag body).reports ∧ Stmt.SettledAll (declaredNames body ++ scope) body

def If.Settled (scope : List String) : If Account → Prop
  | ⟨tag, test, consequent, alternate⟩ =>
    tag.Spares .branch (If.mk tag test consequent alternate).reports
        (consequent.reports ++ alternate.reports) tag.note.late ∧
      test.Settled scope ∧ consequent.Settled scope ∧ alternate.Settled scope

def Alternate.Settled (scope : List String) : Alternate Account → Prop
  | .absent => True
  | .block b => b.Settled scope
  | .elseIf b => b.Settled scope
end

def Program.Settled (scope : List String) (p : Program Account) : Prop :=
  Stmt.SettledAll (declaredNames p.body ++ scope) p.body

theorem Expr.reportsAll_eq (es : List (Expr Account)) : reportsAll es = es.flatMap reports := by
  induction es with
  | nil => rfl
  | cons e es ih => rw [reportsAll, ih, List.flatMap_cons]

theorem Stmt.reportsAll_eq (ss : List (Stmt Account)) : reportsAll ss = ss.flatMap reports := by
  induction ss with
  | nil => rfl
  | cons s ss ih => rw [reportsAll, ih, List.flatMap_cons]

theorem Expr.settledAll_iff {scope : List String} {es : List (Expr Account)} :
    SettledAll scope es ↔ ∀ e ∈ es, e.Settled scope := by
  induction es with
  | nil => simp [SettledAll]
  | cons e es ih => rw [SettledAll, ih, List.forall_mem_cons]

theorem Stmt.settledAll_iff {scope : List String} {ss : List (Stmt Account)} :
    SettledAll scope ss ↔ ∀ s ∈ ss, s.Settled scope := by
  induction ss with
  | nil => simp [SettledAll]
  | cons s ss ih => rw [SettledAll, ih, List.forall_mem_cons]

end Polytype
