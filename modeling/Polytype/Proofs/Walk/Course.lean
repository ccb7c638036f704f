import Mathlib.Logic.Relation
import Polytype.Proofs.Notes
import Polytype.Proofs.Walk.Equations

/-!
# What a walk can change

`Change N` lists all that a step of the walk can do to a context: hand out a variable, commit what a
unification has found, open or close a scope, bind or remove a name of `N`, report a problem. Every
run of the walk is a `Course` of such changes, from any context whatever (`Changes`), where `N` holds
the names that the tree declares. So what one change keeps, inference keeps.
-/

namespace Polytype

variable {α β γ : Type} {N : Set String} {c c' : Context}

/-- The keys of the operators, each with its number of operands. -/
inductive OperatorKey : String → Nat → Prop
  | unary (op : UnaryOp) : OperatorKey op.key 1
  | binary (op : BinaryOp) : OperatorKey op.key 2

/-- An operator of so many operands stands for a function of so many parameters. -/
def Env.Operates (env : Env) (params operands : Nat) : Prop :=
  ∃ key scheme ts t, ∃ d : Context, OperatorKey key operands ∧ env.lookup key = some scheme ∧
    (d.instantiate scheme).1 = .func ts t ∧ ts.length = params

/-- A problem with operands is one with an operator of the environment. -/
def Problem.Shaped (env : Env) : Problem → Prop
  | .operands _ _ expected found => env.Operates expected.length found.length
  | _ => True

inductive Change (N : Set String) : Context → Context → Prop
  | fresh (c : Context) (addable : Bool) : Change N c (c.freshVar addable).2
  | commit {c : Context} {a b : Ty} {f : Subst} (found : unify (c.apply a) (c.apply b) = .ok f) :
      Change N c { c with subst := c.subst.compose f }
  | push (c : Context) : Change N c { c with env := c.env.push }
  | pop (c : Context) : Change N c { c with env := c.env.pop }
  | bind (c : Context) {name : String} (scheme : Scheme) (h : name ∈ N) :
      Change N c { c with env := c.env.bind name scheme }
  | erase (c : Context) {name : String} (h : name ∈ N) :
      Change N c { c with env := c.env.erase name }
  | report (c : Context) {problem : Problem} (pos : Position) (h : problem.Shaped c.env) :
      Change N c (c.report problem pos)

/-- Changes one after another. -/
abbrev Course (N : Set String) : Context → Context → Prop := Relation.ReflTransGen (Change N)

theorem Course.errors (course : Course N c c') : c.errors <+: c'.errors := by
  induction course with
  | refl => exact List.prefix_rfl
  | tail _ change ih =>
    refine ih.trans ?_
    cases change with
    | report => exact List.prefix_append _ _
    | _ => exact List.prefix_rfl

theorem freshen_course (c : Context) (vs : List Var) (s : Subst) :
    Course N c (c.freshen vs s).2 ∧
      (c.freshen vs s).2 = { c with nextVar := c.nextVar + vs.length } := by
  induction vs generalizing c s with
  | nil => exact ⟨.refl, rfl⟩
  | cons v vs ih =>
    obtain ⟨course, same⟩ := ih (c.freshVar v.addable).2 (s.insert v (.var (c.freshVar v.addable).1))
    refine ⟨.head (.fresh c v.addable) course, same.trans ?_⟩
    rw [List.length_cons, Nat.add_comm vs.length, ← Nat.add_assoc]
    rfl

theorem instantiate_course (c : Context) (scheme : Scheme) :
    Course N c (c.instantiate scheme).2 ∧ ∃ n, (c.instantiate scheme).2 = { c with nextVar := n } := by
  unfold Context.instantiate
  split
  · exact ⟨.refl, c.nextVar, rfl⟩
  · obtain ⟨course, same⟩ := freshen_course (N := N) c scheme.vars .empty
    exact ⟨course, _, same⟩

theorem instantiate_quiet (scheme : Scheme) (c : Context) :
    (c.instantiate scheme).2.env = c.env ∧ (c.instantiate scheme).2.errors = c.errors := by
  obtain ⟨_, n, same⟩ := instantiate_course (N := ∅) c scheme
  rw [same]
  exact ⟨rfl, rfl⟩

namespace Walk

/-- Run from any context, the walk makes changes only. -/
class Changes (N : Set String) (m : Walk β) : Prop where
  course (c : Context) : Course N c (m.run c).2

variable {m m' : Walk β} {f : β → Walk γ}

namespace Changes

instance pure (b : β) : Changes N (pure b : Walk β) := ⟨fun _ => .refl⟩

instance get : Changes N (get : Walk Context) := ⟨fun _ => .refl⟩

instance bind [hm : Changes N m] [hf : ∀ b, Changes N (f b)] : Changes N (m >>= f) :=
  ⟨fun c => (hm.course c).trans ((hf _).course _)⟩

instance ite {p : Prop} [Decidable p] [Changes N m] [Changes N m'] :
    Changes N (if p then m else m') := by
  split <;> infer_instance

instance elim {o : Option β} {m : Walk γ} [Changes N m] [∀ b, Changes N (f b)] :
    Changes N (o.elim m f) := by
  cases o <;> dsimp only [Option.elim] <;> infer_instance

end Changes

/-! ## Steps -/

instance (addable : Bool) : Changes N (modifyGet (·.freshVar addable) : Walk Var) :=
  ⟨fun c => .single (.fresh c addable)⟩

instance : Changes N freshTy := ⟨fun c => .single (.fresh c false)⟩

instance (t : Ty) : Changes N (apply t) := ⟨fun _ => .refl⟩

instance (t : Ty) : Changes N (resolve t) := ⟨fun _ => .refl⟩

instance (ts : List Ty) : Changes N (resolveAll ts) := ⟨fun _ => .refl⟩

instance (name : String) : Changes N (lookup name) := ⟨fun _ => .refl⟩

instance (name : String) : Changes N (lookupLocal name) := ⟨fun _ => .refl⟩

instance : Changes N errorCount := ⟨fun _ => .refl⟩

instance : Changes N (modifyEnv Env.push) := ⟨fun c => .single (.push c)⟩

instance : Changes N (modifyEnv Env.pop) := ⟨fun c => .single (.pop c)⟩

instance (scheme : Scheme) : Changes N (instantiate scheme) :=
  ⟨fun c => (instantiate_course c scheme).1⟩

instance (a b : Ty) : Changes N (equate a b) := by
  refine ⟨fun c => ?_⟩
  rw [equate_run]
  cases found : Polytype.unify (c.apply a) (c.apply b) with
  | error e => exact .refl
  | ok f => exact .single (.commit found)

theorem bind_changes {name : String} (h : name ∈ N) (scheme : Scheme) :
    Changes N (bind name scheme) := ⟨fun c => .single (.bind c scheme h)⟩

theorem erase_changes {name : String} (h : name ∈ N) : Changes N (modifyEnv (·.erase name)) :=
  ⟨fun c => .single (.erase c h)⟩

theorem report_changes (problem : Problem) (pos : Position) (h : ∀ env, problem.Shaped env) :
    Changes N (report problem pos) := ⟨fun c => .single (.report c pos (h c.env))⟩

theorem blame_report_changes (problem : Problem) (construct : Construct) (source : String)
    (pos : Position) (e : UnifyError) (h : ∀ env, problem.Shaped env) :
    Changes N (do report (← blame construct source problem e) pos) := by
  cases e with
  | occurs v t =>
    refine ⟨fun c => .single (.report c pos ?_)⟩
    trivial
  | mismatch _ _ | arity _ _ => exact report_changes problem pos h

instance (before : Nat) (t : Ty) : Changes N (settle before t) := by
  unfold settle
  infer_instance

instance (name : String) (pos : Position) : Changes N (useName name pos) := by
  unfold useName
  have := report_changes (N := N) (.unboundName name) pos fun _ => trivial
  refine @Changes.bind _ _ _ _ _ _ fun found => ?_
  cases found <;> dsimp only <;> infer_instance

/-! ## Checks -/

theorem check_changes (a b : Ty) (failed : UnifyError → Walk Unit) [∀ e, Changes N (failed e)] :
    Changes N (do
      match ← equate a b with
      | none => return
      | some e => failed e) := by
  refine @Changes.bind _ _ _ _ _ _ fun outcome => ?_
  cases outcome <;> dsimp only <;> infer_instance

instance (construct : Construct) (source : String) (pos : Position) (test : Ty) :
    Changes N (checkTest construct source pos test) :=
  @check_changes _ _ _ _ fun _ => @Changes.bind _ _ _ _ _ _ fun _ =>
    report_changes _ pos fun _ => trivial

instance (construct : Construct) (source : String) (pos : Position) (a b : Ty) :
    Changes N (checkBranches construct source pos a b) :=
  @check_changes _ _ _ _ fun _ => @Changes.bind _ _ _ _ _ _ fun _ => @Changes.bind _ _ _ _ _ _ fun _ =>
    blame_report_changes _ _ _ pos _ fun _ => trivial

instance (construct : Construct) (source : String) (pos : Position) (a b : Ty) :
    Changes N (checkSame construct source pos a b) :=
  @check_changes _ _ _ _ fun _ => @Changes.bind _ _ _ _ _ _ fun _ => @Changes.bind _ _ _ _ _ _ fun _ =>
    blame_report_changes _ _ _ pos _ fun _ => trivial

theorem checkOperands_course {params operands : List Ty} (construct : Construct)
    (operator source : String) (pos : Position) (pairs : List (Ty × Ty))
    (h : c.env.Operates params.length operands.length) :
    Course N c ((checkOperands params operands construct operator source pos pairs).run c).2 := by
  induction pairs generalizing c with
  | nil => exact .refl
  | cons pair rest ih =>
    rw [checkOperands, run_bind, equate_run]
    cases found : Polytype.unify (c.apply pair.1) (c.apply pair.2) with
    | ok f => exact .head (.commit found) (ih h)
    | error e =>
      have shaped : (Problem.operands operator source (params.map c.resolve)
          (operands.map c.resolve)).Shaped c.env := by
        rw [Problem.Shaped, List.length_map, List.length_map]
        exact h
      cases e with
      | occurs v t => exact .single (.report c pos trivial)
      | mismatch _ _ | arity _ _ => exact .single (.report c pos shaped)

theorem useOperator_changes {key : String} (operands : List Ty) (operator source : String)
    (construct : Construct) (pos : Position) (h : OperatorKey key operands.length) :
    Changes N (useOperator key operator source construct operands pos) := by
  refine ⟨fun c => ?_⟩
  have used := Changes.course (N := N) (m := useName key pos) c
  rw [useOperator, run_bind]
  cases known : ((useName key pos).run c).1 with
  | func params result =>
    refine used.trans (checkOperands_course construct operator source pos _ ?_)
    rw [useName_run] at known ⊢
    cases found : c.env.lookup key with
    | none =>
      rw [found] at known
      cases known
    | some scheme =>
      rw [found] at known
      refine ⟨key, scheme, params, result, c, h, ?_, known, rfl⟩
      obtain ⟨_, n, same⟩ := instantiate_course (N := N) c scheme
      rw [Option.elim_some, same, found]
  | _ => exact used.tail (.fresh _ false)

instance (t : Ty) : Changes N (collapseList t) := by
  unfold collapseList
  split
  next head element =>
    refine ⟨fun c => ?_⟩
    have run := collapseList_run head element c
    unfold collapseList at run
    rw [run]
    cases unseen : c.unifyUnseen? element head with
    | none => exact .refl
    | some c' =>
      obtain ⟨f, found, rfl⟩ := commit_of_unifyUnseen? unseen
      exact .single (.commit found)
  next => infer_instance

instance (callee : Ty) (args : List Ty) (source : String) (pos : Position) :
    Changes N (applyCallee callee args source pos) := by
  unfold applyCallee
  refine @Changes.bind _ _ _ _ _ _ fun result => @Changes.bind _ _ _ _ _ _ fun outcome => ?_
  cases outcome with
  | none => infer_instance
  | some e =>
    dsimp only
    split
    next params _ =>
      have (ps as : List Ty) := report_changes (N := N) (.arguments source ps as) pos
        fun _ => trivial
      infer_instance
    next =>
      refine @Changes.bind _ _ _ _ _ _ fun expected => @Changes.bind _ _ _ _ _ _ fun found => ?_
      have := blame_report_changes (N := N) (.mismatch .functionCall source expected found)
        .functionCall source pos e fun _ => trivial
      rw [← bind_assoc]
      infer_instance

instance (callee : Ty) (args : List Ty) (source : String) (pos : Position) :
    Changes N (useCallee callee args source pos) := by
  unfold useCallee
  have (ps as : List Ty) := report_changes (N := N) (.argumentCount source ps as) pos
    fun _ => trivial
  refine @Changes.bind _ _ _ _ _ _ fun t => ?_
  split <;> infer_instance

/-! ## Declarations -/

theorem hoist_changes (body : List (Stmt α)) (h : ∀ s ∈ body, ∀ n, s.declared? = some n → n.text ∈ N) :
    Changes N (hoist body) := by
  induction body with
  | nil => exact .pure _
  | cons s rest ih =>
    obtain ⟨first, others⟩ := List.forall_mem_cons.mp h
    have := ih others
    unfold hoist
    split
    next n declared =>
      have := bind_changes (N := N) (first n declared)
      infer_instance
    next => infer_instance

theorem bindParams_changes (ps : List (Name α)) (h : ∀ p ∈ ps, p.text ∈ N) :
    Changes N (bindParams ps) := by
  induction ps with
  | nil => exact .pure _
  | cons p ps ih =>
    obtain ⟨first, others⟩ := List.forall_mem_cons.mp h
    have := ih others
    have := bind_changes first
    unfold bindParams
    infer_instance

instance (name : String) (binding : Binding) (source : String) (pos : Position) (t : Ty) :
    Changes N (checkPlaceholder name binding source pos t) := by
  unfold checkPlaceholder
  refine @Changes.bind _ _ _ _ _ _ fun found => ?_
  cases found <;> dsimp only <;> infer_instance

theorem declare_changes {name : String} (h : name ∈ N) (binding : Binding) (source : String)
    (pos : Position) (before : Nat) (t : Ty) :
    Changes N (declare name binding source pos before t) := by
  have := bind_changes h
  have := erase_changes h
  rw [declare_eq]
  infer_instance

instance (source : String) (pos : Position) (checked : Bool) (consequent alternate : Option Ty) :
    Changes N (joinBranches source pos checked consequent alternate) := by
  rw [joinBranches_eq]
  infer_instance

/-! ## Expressions and statements -/

theorem inferExprs_changes (es : List (Expr α)) (ih : ∀ e ∈ es, Changes N (inferExpr e)) :
    Changes N (inferExprs es) := by
  induction es with
  | nil => exact .pure _
  | cons e es rest =>
    obtain ⟨first, others⟩ := List.forall_mem_cons.mp ih
    have := rest others
    unfold inferExprs
    infer_instance

theorem inferStmts_changes (ss : List (Stmt α)) (ih : ∀ s ∈ ss, Changes N (inferStmt s)) :
    Changes N (inferStmts ss) := by
  induction ss with
  | nil => exact .pure _
  | cons s ss rest =>
    obtain ⟨first, others⟩ := List.forall_mem_cons.mp ih
    have := rest others
    unfold inferStmts
    infer_instance

theorem infer_changes : Hereditary (α := α)
    (fun e => (∀ x ∈ e.binders, x ∈ N) → Changes N (inferExpr e))
    (fun s => (∀ x ∈ s.binders, x ∈ N) → Changes N (inferStmt s))
    (fun b => (∀ x ∈ b.binders, x ∈ N) → Changes N (inferBlock b))
    (fun b => (∀ x ∈ b.binders, x ∈ N) → Changes N (inferIf b))
    (fun a => (∀ x ∈ a.binders, x ∈ N) → Changes N (inferAlternate a)) where
  number _ _ _ := .pure _
  text _ _ _ := .pure _
  boolean _ _ _ := .pure _
  null tag _ := by unfold inferExpr; infer_instance
  name n _ := by unfold inferExpr; infer_instance
  unary tag op e ih h := by
    have := ih h
    have (t : Ty) := useOperator_changes (N := N) [t] op.symbol
      (Expr.unary tag op e).source .unaryExpression tag.pos (.unary op)
    rw [inferExpr_unary]
    infer_instance
  binary tag op l r ihl ihr h := by
    rw [Expr.binders, List.forall_mem_append] at h
    have := ihl h.1
    have := ihr h.2
    have (a b : Ty) := useOperator_changes (N := N) [a, b] op.symbol
      (Expr.binary tag op l r).source .binaryExpression tag.pos (.binary op)
    rw [inferExpr_binary]
    infer_instance
  conditional tag t d a iht ihd iha h := by
    rw [Expr.binders, List.forall_mem_append, List.forall_mem_append] at h
    have := iht h.1.1
    have := ihd h.1.2
    have := iha h.2
    rw [inferExpr_conditional]
    infer_instance
  call tag f args ihf ihargs h := by
    rw [Expr.binders, Expr.bindersAll_eq, List.forall_mem_append, List.forall_mem_flatMap] at h
    have := ihf h.1
    have := inferExprs_changes args fun e he => ihargs e he (h.2 e he)
    rw [inferExpr_call]
    infer_instance
  arrow tag ps body ih h := by
    rw [Expr.binders, List.forall_mem_append, List.forall_mem_map] at h
    have := bindParams_changes ps h.1
    have := ih h.2
    unfold inferExpr
    infer_instance
  arrowBlock tag ps body ih h := by
    rw [Expr.binders, List.forall_mem_append, List.forall_mem_map] at h
    have := bindParams_changes ps h.1
    have := ih h.2
    unfold inferExpr
    infer_instance
  assign tag target e ih h := by
    have := ih h
    have := report_changes (N := N) (.unboundName target.text) target.pos fun _ => trivial
    rw [inferExpr_assign]
    exact @Changes.bind _ _ _ _ _ _ fun _ => inferInstance
  declare tag keyword n e ih h := by
    rw [Stmt.binders, List.forall_mem_cons] at h
    have := ih h.2
    have := declare_changes h.1
    unfold inferStmt
    infer_instance
  function tag n ps body ih h := by
    rw [Stmt.binders, List.forall_mem_cons, List.forall_mem_append, List.forall_mem_map] at h
    have := bindParams_changes ps h.2.1
    have := ih h.2.2
    have := declare_changes h.1
    unfold inferStmt
    infer_instance
  retNothing _ _ := .pure _
  ret tag e ih h := by
    have := ih h
    unfold inferStmt
    infer_instance
  ifElse b ih h := by
    have := ih h
    unfold inferStmt
    infer_instance
  block b ih h := by
    have := ih h
    unfold inferStmt
    infer_instance
  expr e ih h := by
    have := ih h
    unfold inferStmt
    infer_instance
  body tag body ih h := by
    rw [Block.binders, Stmt.bindersAll_eq, List.forall_mem_flatMap] at h
    have := inferStmts_changes body fun s hs => ih s hs (h s hs)
    have := hoist_changes body fun s hs n declared => h s hs _ (mem_binders_of_declared declared)
    unfold inferBlock
    infer_instance
  branch tag test consequent alternate iht ihc iha h := by
    rw [If.binders, List.forall_mem_append, List.forall_mem_append] at h
    have := iht h.1.1
    have := ihc h.1.2
    have := iha h.2
    rw [inferIf_eq]
    infer_instance
  absent _ := .pure _
  otherwise b ih h := by
    have := ih h
    unfold inferAlternate
    infer_instance
  elseIf b ih h := by
    have := ih h
    unfold inferAlternate
    infer_instance

theorem inferProgram_changes (p : Program α) (h : ∀ x ∈ p.binders, x ∈ N) :
    Changes N (inferProgram p) := by
  rw [Program.binders, Stmt.bindersAll_eq, List.forall_mem_flatMap] at h
  have := inferStmts_changes p.body fun s hs => infer_changes.forStmt s (h s hs)
  have := hoist_changes p.body fun s hs n declared => h s hs _ (mem_binders_of_declared declared)
  unfold inferProgram
  infer_instance

end Walk

theorem analyse_course (p : Program α) (c : Context) (h : ∀ x ∈ p.binders, x ∈ N) :
    Course N c (analyse p c).2 := (Walk.inferProgram_changes p h).course c

end Polytype
