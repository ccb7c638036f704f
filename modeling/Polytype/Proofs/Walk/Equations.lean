import Polytype.Inference

/-!
# Equations of the walk

What the steps of the walk do to a context, and each function with a check that is skipped above an
untypable node as one chain of steps, so that a proof can follow it from one step to the next.
-/

namespace Polytype

variable {α β γ : Type}

/-! ## Scopes -/

/-- Nothing has changed outside the innermost scope. -/
def Env.Local (env env' : Env) : Prop := env.inner ≠ [] → env'.inner ≠ [] ∧ env'.pop = env.pop

namespace Env.Local

theorem refl (env : Env) : env.Local env := fun inside => ⟨inside, rfl⟩

theorem trans {env env' env'' : Env} (h : env.Local env') (h' : env'.Local env'') :
    env.Local env'' := by
  intro inside
  obtain ⟨inside', pop⟩ := h inside
  obtain ⟨inside'', pop'⟩ := h' inside'
  exact ⟨inside'', pop'.trans pop⟩

theorem modify (env : Env) (f : Scope → Scope) : env.Local (env.modify f) := by
  obtain ⟨outermost, inner⟩ := env
  intro inside
  cases inner with
  | nil => exact absurd rfl inside
  | cons scope rest => exact ⟨by simp [Env.modify], rfl⟩

theorem pop_push {env env' : Env} (h : env.push.Local env') : env'.pop = env :=
  (h (List.cons_ne_nil _ _)).2

end Env.Local

/-! ## Steps -/

namespace Walk

theorem run_bind (m : Walk β) (f : β → Walk γ) (c : Context) :
    (m >>= f).run c = (f (m.run c).1).run (m.run c).2 := rfl

theorem ite_bind (p : Prop) [Decidable p] (m m' : Walk β) (f : β → Walk γ) :
    (if p then m else m') >>= f = if p then m >>= f else m' >>= f := by
  split <;> rfl

theorem equate_run (a b : Ty) (c : Context) : (equate a b).run c =
    match Polytype.unify (c.apply a) (c.apply b) with
    | .ok f => (none, { c with subst := c.subst.compose f })
    | .error e => (some e, c) := by
  have run : (get : Walk Context).run c = (c, c) := rfl
  rw [equate, run_bind, run]
  dsimp only
  rw [Context.unify]
  cases Polytype.unify (c.apply a) (c.apply b) <;> rfl

theorem useName_run (name : String) (pos : Position) (c : Context) : (useName name pos).run c =
    (c.env.lookup name).elim (c.report (.unboundName name) pos).freshTy fun scheme =>
      c.instantiate scheme := by
  have run : (lookup name).run c = (c.env.lookup name, c) := rfl
  rw [useName, run_bind, run]
  cases c.env.lookup name <;> rfl

theorem unify_eq_ok {c c' : Context} {a b : Ty} : c.unify a b = .ok c' ↔
    ∃ f, Polytype.unify (c.apply a) (c.apply b) = .ok f ∧
      c' = { c with subst := c.subst.compose f } := by
  rw [Context.unify]
  cases Polytype.unify (c.apply a) (c.apply b) with
  | error e =>
    constructor
    · rintro ⟨⟩
    · rintro ⟨_, ⟨⟩, _⟩
  | ok f =>
    constructor
    · rintro ⟨⟩
      exact ⟨f, rfl, rfl⟩
    · rintro ⟨_, ⟨⟩, rfl⟩
      rfl

theorem unifyUnseen?_eq_some_iff {c c' : Context} {a b : Ty} : c.unifyUnseen? a b = some c' ↔
    ∃ f, Polytype.unify (c.apply a) (c.apply b) = .ok f ∧
      (∀ v ∈ f.domain, c.visible.has v = false) ∧ c' = { c with subst := c.subst.compose f } := by
  rw [Context.unifyUnseen?]
  cases Polytype.unify (c.apply a) (c.apply b) with
  | error e =>
    constructor
    · rintro ⟨⟩
    · rintro ⟨_, ⟨⟩, _⟩
  | ok f =>
    dsimp only
    split
    next seen =>
      obtain ⟨v, hv, visible⟩ := List.any_eq_true.mp seen
      constructor
      · rintro ⟨⟩
      · rintro ⟨_, ⟨⟩, unseen, _⟩
        rw [unseen v hv] at visible
        cases visible
    next unseen =>
      rw [Bool.not_eq_true, List.any_eq_false] at unseen
      constructor
      · rintro ⟨⟩
        exact ⟨f, rfl, fun v hv => Bool.eq_false_iff.mpr (unseen v hv), rfl⟩
      · rintro ⟨_, ⟨⟩, _, rfl⟩
        rfl

theorem commit_of_unifyUnseen? {c c' : Context} {a b : Ty} (h : c.unifyUnseen? a b = some c') :
    ∃ f, Polytype.unify (c.apply a) (c.apply b) = .ok f ∧
      c' = { c with subst := c.subst.compose f } := by
  obtain ⟨f, found, _, eq⟩ := unifyUnseen?_eq_some_iff.mp h
  exact ⟨f, found, eq⟩

theorem collapseList_run (head element : Ty) (c : Context) :
    (collapseList (.pair head (.list element))).run c =
      match c.unifyUnseen? element head with
      | some c' => (c'.apply (.list element), c')
      | none => (.pair head (.list element), c) := by
  show ((match c.unifyUnseen? element head with
    | some c => (do set c; apply (.list element) : Walk Ty)
    | none => return .pair head (.list element)).run c) = _
  cases c.unifyUnseen? element head <;> rfl

/-! ## Declarations -/

/-- The scheme that a declared name is bound to. -/
def declared (binding : Binding) (c : Context) (t : Ty) : Scheme :=
  if binding.isGeneral then c.generalize t else .mono (c.apply t)

theorem declare_eq (name : String) (binding : Binding) (source : String) (pos : Position)
    (before : Nat) (ty : Ty) : declare name binding source pos before ty = (do
      let count ← errorCount
      let _ ← (if count = before then checkPlaceholder name binding source pos ty else pure ())
      modifyEnv (·.erase name)
      let after ← errorCount
      (if before < after then do
        let any ← modifyGet (·.freshVar false)
        bind name ⟨[any], .var any⟩
        return .untypable
      else do
        let c ← get
        bind name (declared binding c ty)
        return .typed (declared binding c ty).ty)) := by
  simp only [ite_bind]
  rfl

/-! ## Expressions and statements -/

theorem inferExpr_unary (tag : Tag α) (op : UnaryOp) (e : Expr α) :
    inferExpr (.unary tag op e) = (do
      let before ← errorCount
      let (operand, e') ← inferExpr e
      let result ← (if e'.note.isUntypable then freshTy
        else useOperator op.key op.symbol (Expr.unary tag op e).source .unaryExpression [operand]
          tag.pos)
      let (note, ty) ← settle before result
      return (ty, .unary (tag.annotate note) op e')) := by
  simp only [ite_bind]
  rfl

theorem inferExpr_binary (tag : Tag α) (op : BinaryOp) (l r : Expr α) :
    inferExpr (.binary tag op l r) = (do
      let before ← errorCount
      let (left, l') ← inferExpr l
      let (right, r') ← inferExpr r
      let result ← (if l'.note.isUntypable || r'.note.isUntypable then freshTy
        else useOperator op.key op.symbol (Expr.binary tag op l r).source .binaryExpression
          [left, right] tag.pos)
      let (note, ty) ← settle before result
      return (ty, .binary (tag.annotate note) op l' r')) := by
  simp only [ite_bind]
  rfl

theorem inferExpr_conditional (tag : Tag α) (t c a : Expr α) :
    inferExpr (.conditional tag t c a) = (do
      let before ← errorCount
      let (test, t') ← inferExpr t
      let _ ← (if t'.note.isUntypable then pure ()
        else checkTest .conditionalExpression (Expr.conditionalHeader t) tag.pos test)
      let (consequent, c') ← inferExpr c
      let (alternate, a') ← inferExpr a
      let result ← (if c'.note.isUntypable || a'.note.isUntypable then freshTy
        else do
          checkBranches .conditionalExpression (Expr.conditionalHeader t) tag.pos consequent
            alternate
          apply consequent)
      let (note, ty) ← settle before result
      return (ty, .conditional (tag.annotate note) t' c' a')) := by
  simp only [ite_bind]
  rfl

theorem inferExpr_call (tag : Tag α) (f : Expr α) (args : List (Expr α)) :
    inferExpr (.call tag f args) = (do
      let before ← errorCount
      let (callee, f') ← inferExpr f
      let (tys, args') ← inferExprs args
      let result ← (if f'.note.isUntypable || args'.any (·.note.isUntypable) then freshTy
        else useCallee callee tys (Expr.call tag f args).source tag.pos)
      let (note, ty) ← settle before result
      return (ty, .call (tag.annotate note) f' args')) := by
  simp only [ite_bind]
  rfl

theorem inferExpr_assign (tag : Tag α) (target : Name α) (e : Expr α) :
    inferExpr (.assign tag target e) = (do
      let before ← errorCount
      let (value, e') ← inferExpr e
      let found ← lookup target.text
      found.elim
        (do
          report (.unboundName target.text) target.pos
          let (note, ty) ← settle before (← freshTy)
          return (ty, .assign (tag.annotate note) (target.annotate .untypable) e'))
        fun scheme => do
          let expected ← instantiate scheme
          let result ← (if e'.note.isUntypable then pure value
            else do
              checkSame .assignment (Expr.assign tag target e).source tag.pos expected value
              apply value)
          let (note, ty) ← settle before result
          return (ty, .assign (tag.annotate note) (target.annotate (.typed expected)) e')) := by
  conv => lhs; unfold inferExpr
  refine bind_congr fun before => bind_congr fun r => bind_congr fun found => ?_
  cases found with
  | none => rfl
  | some scheme =>
    simp only [Option.elim, ite_bind]
    rfl

theorem joinBranches_eq (source : String) (pos : Position) (checked : Bool)
    (consequent alternate : Option Ty) :
    joinBranches source pos checked consequent alternate =
      if consequent.isNone && alternate.isNone then pure none
      else do
        let _ ← (if checked then
            checkBranches .ifStatement source pos (returnTy consequent) (returnTy alternate)
          else pure ())
        return some (returnTy consequent) := by
  simp only [ite_bind]
  rfl

theorem inferIf_eq (tag : Tag α) (test : Expr α) (consequent : Block α) (alternate : Alternate α) :
    inferIf ⟨tag, test, consequent, alternate⟩ = (do
      let before ← errorCount
      let source := If.header ⟨tag, test, consequent, alternate⟩
      let (testTy, test') ← inferExpr test
      let _ ← (if test'.note.isUntypable then pure () else checkTest .ifStatement source tag.pos testTy)
      let (first, consequent') ← inferBlock consequent
      let (second, sound, alternate') ← inferAlternate alternate
      let checked := !consequent'.tag.note.isUntypable && sound
      let returned ← joinBranches source tag.pos checked first second
      let (note, ty) ← settle before (returnTy returned)
      return (returned.map fun _ => ty, ⟨tag.annotate note, test', consequent', alternate'⟩)) := by
  simp only [ite_bind]
  rfl

end Walk

theorem analyse_eq (p : Program α) (c : Context) : analyse p c =
    (((Walk.inferProgram p).run c).1.map (Verdict.mapTy ((Walk.inferProgram p).run c).2.resolve),
      ((Walk.inferProgram p).run c).2) := rfl

end Polytype
