import Polytype.Proofs.Renaming.Contexts
import Polytype.Proofs.Walk.Course

/-!
# The walk under other numbers

Two runs of the walk that start in contexts which mirror each other stay so, and give the same
outcome with the new numbers (`Mirrors`). There is one lemma for each function of the walk, with the
types in its arguments renumbered too.

If one of the contexts has bindings to spare, then this holds for runs that report no unbound name.
Errors are never taken back, so it is enough to look at the errors in the end. And a declaration must
not take an extra binding for a placeholder, so there has to be a scope inside the outermost one. The
walk opens one for each body and closes no other (`Tame`).
-/

namespace Polytype

variable {α β γ : Type} {T : Transfer}

namespace Transfer

@[simp] theorem ty_func (T : Transfer) (ps : List Ty) (r : Ty) :
    T.ty (.func ps r) = .func (ps.map T.ty) (T.ty r) := Ty.rename_func ps r

/-- A verdict with the new numbers. -/
def note (T : Transfer) : Verdict → Verdict := Verdict.rename T.var

@[simp] theorem isUntypable_note (T : Transfer) (note : Verdict) :
    (T.note note).isUntypable = note.isUntypable := note.isUntypable_rename

/-- An expression and its type with the new numbers. -/
def expr (T : Transfer) : Ty × Expr Verdict → Ty × Expr Verdict :=
  Prod.map T.ty (Expr.mapNotes T.note)

def exprs (T : Transfer) : List Ty × List (Expr Verdict) → List Ty × List (Expr Verdict) :=
  Prod.map (List.map T.ty) (List.map (Expr.mapNotes T.note))

def params (T : Transfer) : List Ty × List (Name Verdict) → List Ty × List (Name Verdict) :=
  Prod.map (List.map T.ty) (List.map (Name.mapNote T.note))

def settled (T : Transfer) : Verdict × Ty → Verdict × Ty := Prod.map T.note T.ty

/-- An outcome that may hold a returned type, with the new numbers. -/
def returned (T : Transfer) (f : β → β) : Option Ty × β → Option Ty × β :=
  Prod.map (Option.map T.ty) f

end Transfer

namespace Walk

/-- Errors are only added, and only the innermost scope is changed. -/
structure Tame (c c' : Context) : Prop where
  errors : c.errors <+: c'.errors
  env : c.env.Local c'.env

namespace Tame

variable {c c' c'' : Context}

theorem of_eq (errors : c'.errors = c.errors) (env : c'.env = c.env) : Tame c c' :=
  ⟨errors ▸ List.prefix_rfl, env ▸ .refl _⟩

theorem trans (h : Tame c c') (h' : Tame c' c'') : Tame c c'' :=
  ⟨h.errors.trans h'.errors, h.env.trans h'.env⟩

theorem inside (h : Tame c c') (inside : T.Inside c.env) : T.Inside c'.env :=
  fun spare => (h.env (inside spare)).1

theorem bound (h : Tame c c') (bound : T.Bound c'.errors) : T.Bound c.errors :=
  fun spare e he => bound spare e (h.errors.subset he)

end Tame

/-- Run from contexts that mirror each other, the second walk gives the `f` of what the first gives,
and leaves contexts that mirror each other. -/
structure Mirrors (T : Transfer) (f : β → β) (m n : Walk β) : Prop where
  tame (c : Context) : Tame c (m.run c).2
  follows {c d : Context} (mirror : Mirror T c d) (inside : T.Inside c.env)
    (bound : T.Bound (m.run c).2.errors) :
    (n.run d).1 = f (m.run c).1 ∧ Mirror T (m.run c).2 (n.run d).2

namespace Mirrors

variable {f : β → β} {h : γ → γ} {m m' n n' : Walk β} {k l : β → Walk γ}

theorem pure {b b' : β} (eq : b' = f b) : Mirrors T f (pure b) (pure b') :=
  ⟨fun _ => .of_eq rfl rfl, fun mirror _ _ => ⟨eq, mirror⟩⟩

theorem quiet (same : ∀ c, (m.run c).2.env = c.env ∧ (m.run c).2.errors = c.errors)
    (follows : ∀ {c d}, Mirror T c d →
      (n.run d).1 = f (m.run c).1 ∧ Mirror T (m.run c).2 (n.run d).2) : Mirrors T f m n :=
  ⟨fun c => .of_eq (same c).2 (same c).1, fun mirror _ _ => follows mirror⟩

theorem bind (hm : Mirrors T f m n) (hk : ∀ b, Mirrors T h (k b) (l (f b))) :
    Mirrors T h (m >>= k) (n >>= l) := by
  refine ⟨fun c => (hm.tame c).trans ((hk _).tame _), fun {c d} mirror inside bound => ?_⟩
  obtain ⟨same, next⟩ := hm.follows mirror inside (((hk _).tame _).bound bound)
  rw [run_bind, run_bind, same]
  exact (hk _).follows next ((hm.tame c).inside inside) bound

theorem ite {p q : Prop} [Decidable p] [Decidable q] (iff : q ↔ p) (hm : Mirrors T f m n)
    (hm' : Mirrors T f m' n') : Mirrors T f (if p then m else m') (if q then n else n') := by
  by_cases hp : p
  · rw [if_pos hp, if_pos (iff.mpr hp)]
    exact hm
  · rw [if_neg hp, if_neg fun hq => hp (iff.mp hq)]
    exact hm'

end Mirrors

/-! ## Steps -/

theorem freshVar_mirrors (addable : Bool) :
    Mirrors T T.var (modifyGet (·.freshVar addable)) (modifyGet (·.freshVar addable)) :=
  .quiet (fun _ => ⟨rfl, rfl⟩) fun mirror => mirror.fresh addable

theorem freshTy_mirrors : Mirrors T T.ty freshTy freshTy := by
  refine .quiet (fun _ => ⟨rfl, rfl⟩) fun mirror => ?_
  obtain ⟨same, next⟩ := mirror.fresh false
  exact ⟨congrArg Ty.var same, next⟩

theorem instantiate_mirrors (scheme : Scheme) :
    Mirrors T T.ty (instantiate scheme) (instantiate (scheme.rename T.var)) :=
  .quiet (instantiate_quiet scheme) fun mirror => mirror.instantiate scheme

theorem apply_mirrors (t : Ty) : Mirrors T T.ty (apply t) (apply (T.ty t)) :=
  .quiet (fun _ => ⟨rfl, rfl⟩) fun mirror => ⟨mirror.apply t, mirror⟩

theorem resolve_mirrors (t : Ty) : Mirrors T T.ty (resolve t) (resolve (T.ty t)) :=
  .quiet (fun _ => ⟨rfl, rfl⟩) fun mirror => ⟨mirror.resolve t, mirror⟩

theorem resolveAll_mirrors (ts : List Ty) :
    Mirrors T (List.map T.ty) (resolveAll ts) (resolveAll (ts.map T.ty)) :=
  .quiet (fun _ => ⟨rfl, rfl⟩) fun mirror => ⟨mirror.resolveAll ts, mirror⟩

theorem lookupLocal_mirrors (name : String) :
    Mirrors T (Option.map (Scheme.rename T.var)) (lookupLocal name) (lookupLocal name) :=
  ⟨fun _ => .of_eq rfl rfl, fun mirror inside _ => ⟨mirror.env.lookupLocal inside name, mirror⟩⟩

theorem erase_mirrors (name : String) :
    Mirrors T id (modifyEnv (·.erase name)) (modifyEnv (·.erase name)) :=
  ⟨fun _ => ⟨List.prefix_rfl, .modify _ _⟩,
    fun mirror _ _ => ⟨rfl, mirror.withEnv (mirror.env.erase name)⟩⟩

theorem bind_mirrors (name : String) (scheme : Scheme) :
    Mirrors T id (bind name scheme) (bind name (scheme.rename T.var)) :=
  ⟨fun _ => ⟨List.prefix_rfl, .modify _ _⟩,
    fun mirror _ _ => ⟨rfl, mirror.withEnv (mirror.env.bind name scheme)⟩⟩

theorem errorCount_mirrors : Mirrors T (T.earlier.length + ·) errorCount errorCount :=
  .quiet (fun _ => ⟨rfl, rfl⟩) fun mirror => ⟨mirror.errorCount, mirror⟩

theorem report_mirrors (problem : Problem) (pos : Position) :
    Mirrors T id (report problem pos) (report (problem.rename T.var) pos) :=
  ⟨fun _ => ⟨List.prefix_append _ _, .refl _⟩,
    fun mirror _ _ => ⟨rfl, mirror.report problem pos⟩⟩

theorem equate_mirrors (a b : Ty) :
    Mirrors T (Option.map (UnifyError.rename T.var)) (equate a b) (equate (T.ty a) (T.ty b)) := by
  refine .quiet (fun c => ?_) fun {c d} mirror => ?_
  · rw [equate_run]
    split <;> exact ⟨rfl, rfl⟩
  · rw [equate_run, equate_run, mirror.unify]
    cases found : Polytype.unify (c.apply a) (c.apply b) with
    | ok s => exact ⟨rfl, mirror.commit found⟩
    | error e => exact ⟨rfl, mirror⟩

theorem blame_mirrors (construct : Construct) (source : String) (problem : Problem) (e : UnifyError) :
    Mirrors T (Problem.rename T.var) (blame construct source problem e)
      (blame construct source (problem.rename T.var) (e.rename T.var)) := by
  cases e with
  | occurs v t => exact .bind (resolve_mirrors t) fun _ => .pure rfl
  | mismatch _ _ | arity _ _ => exact .pure rfl

theorem blame_report_mirrors (construct : Construct) (source : String) (problem : Problem)
    (e : UnifyError) (pos : Position) :
    Mirrors T id (blame construct source problem e >>= fun problem => report problem pos)
      (blame construct source (problem.rename T.var) (e.rename T.var) >>= fun problem =>
        report problem pos) :=
  .bind (blame_mirrors construct source problem e) fun problem => report_mirrors problem pos

theorem settle_mirrors (before : Nat) (t : Ty) :
    Mirrors T T.settled (settle before t) (settle (T.earlier.length + before) (T.ty t)) := by
  refine .bind errorCount_mirrors fun count => .ite Nat.add_lt_add_iff_left ?_ (.pure rfl)
  exact .bind freshTy_mirrors fun _ => .pure rfl

/-! ## Names -/

theorem lookup_mirrors {f : β → β} (name : String) (pos : Position) {k l : Option Scheme → Walk β}
    {rest rest' : Walk β} (missing : k none = do report (.unboundName name) pos; rest)
    (missing' : l none = do report (.unboundName name) pos; rest') (hrest : Mirrors T f rest rest')
    (found : ∀ scheme, Mirrors T f (k (some scheme)) (l (some (scheme.rename T.var)))) :
    Mirrors T f (lookup name >>= k) (lookup name >>= l) := by
  -- A name that is found in the second context alone would have been reported in the first.
  have none : Mirrors T f (k none) (l none) := by
    rw [missing, missing']
    exact .bind (report_mirrors (.unboundName name) pos) fun _ => hrest
  have run (k : Option Scheme → Walk β) (c : Context) :
      (lookup name >>= k).run c = (k (c.env.lookup name)).run c := rfl
  constructor
  · intro c
    rw [run]
    cases c.env.lookup name with
    | none => exact none.tame c
    | some scheme => exact (found scheme).tame c
  · intro c d mirror inside bound
    rw [run] at bound ⊢
    rw [run]
    have same : d.env.lookup name = (c.env.lookup name).map (Scheme.rename T.var) := by
      refine (mirror.env.lookup name).resolve_right ?_
      rintro ⟨lost, spare⟩
      rw [lost, missing] at bound
      have reported : ⟨.unboundName name, pos⟩ ∈ (c.report (.unboundName name) pos).errors :=
        List.mem_append_right _ (List.mem_singleton_self _)
      exact bound spare _ ((hrest.tame _).errors.subset reported) name rfl
    rw [same]
    generalize c.env.lookup name = outcome at bound
    cases outcome with
    | none => exact none.follows mirror inside bound
    | some scheme => exact (found scheme).follows mirror inside bound

theorem hoist_mirrors (body : List (Stmt α)) : Mirrors T id (hoist body) (hoist body) := by
  induction body with
  | nil => exact .pure rfl
  | cons s rest ih =>
    unfold hoist
    cases s.declared? with
    | none => exact ih
    | some name =>
      exact .bind freshTy_mirrors fun t => .bind (bind_mirrors name.text (.mono t)) fun _ => ih

theorem bindParams_mirrors (ps : List (Name α)) :
    Mirrors T T.params (bindParams ps) (bindParams ps) := by
  induction ps with
  | nil => exact .pure rfl
  | cons p ps ih =>
    unfold bindParams
    refine .bind freshTy_mirrors fun t => .bind (bind_mirrors p.text (.mono t)) fun _ => ?_
    exact .bind ih fun r => .pure rfl

theorem useName_mirrors (name : String) (pos : Position) :
    Mirrors T T.ty (useName name pos) (useName name pos) := by
  exact lookup_mirrors name pos rfl rfl freshTy_mirrors instantiate_mirrors

/-! ## Checks -/

theorem checkOperands_mirrors (params operands : List Ty) (construct : Construct)
    (operator source : String) (pos : Position) (pairs : List (Ty × Ty)) :
    Mirrors T id (checkOperands params operands construct operator source pos pairs)
      (checkOperands (params.map T.ty) (operands.map T.ty) construct operator source pos
        (pairs.map (Prod.map T.ty T.ty))) := by
  induction pairs with
  | nil => exact .pure rfl
  | cons pair rest ih =>
    unfold checkOperands
    refine .bind (equate_mirrors pair.1 pair.2) fun outcome => ?_
    cases outcome with
    | none => exact ih
    | some e =>
      refine .bind (resolveAll_mirrors params) fun expected => ?_
      refine .bind (resolveAll_mirrors operands) fun found => ?_
      exact blame_report_mirrors construct source (.operands operator source expected found) e pos

theorem useOperator_mirrors (key operator source : String) (construct : Construct)
    (operands : List Ty) (pos : Position) :
    Mirrors T T.ty (useOperator key operator source construct operands pos)
      (useOperator key operator source construct (operands.map T.ty) pos) := by
  refine .bind (useName_mirrors key pos) fun t => ?_
  cases t with
  | func params result =>
    have checked := checkOperands_mirrors (T := T) params operands construct operator source pos
      (params.zip operands)
    rw [← List.zip_map] at checked
    rw [Transfer.ty_func]
    exact .bind checked fun _ => apply_mirrors result
  | _ => exact freshTy_mirrors

theorem checkTest_mirrors (construct : Construct) (source : String) (pos : Position) (test : Ty) :
    Mirrors T id (checkTest construct source pos test)
      (checkTest construct source pos (T.ty test)) := by
  refine .bind (equate_mirrors test .boolean) fun outcome => ?_
  cases outcome with
  | none => exact .pure rfl
  | some e =>
    exact .bind (resolve_mirrors test) fun found => report_mirrors (.test construct source found) pos

theorem checkBranches_mirrors (construct : Construct) (source : String) (pos : Position)
    (consequent alternate : Ty) :
    Mirrors T id (checkBranches construct source pos consequent alternate)
      (checkBranches construct source pos (T.ty consequent) (T.ty alternate)) := by
  refine .bind (equate_mirrors consequent alternate) fun outcome => ?_
  cases outcome with
  | none => exact .pure rfl
  | some e =>
    refine .bind (resolve_mirrors consequent) fun a => .bind (resolve_mirrors alternate) fun b => ?_
    exact blame_report_mirrors construct source (.branches construct source a b) e pos

theorem checkSame_mirrors (construct : Construct) (source : String) (pos : Position)
    (expected found : Ty) :
    Mirrors T id (checkSame construct source pos expected found)
      (checkSame construct source pos (T.ty expected) (T.ty found)) := by
  refine .bind (equate_mirrors expected found) fun outcome => ?_
  cases outcome with
  | none => exact .pure rfl
  | some e =>
    refine .bind (resolve_mirrors expected) fun a => .bind (resolve_mirrors found) fun b => ?_
    exact blame_report_mirrors construct source (.mismatch construct source a b) e pos

theorem collapseList_mirrors (t : Ty) : Mirrors T T.ty (collapseList t) (collapseList (T.ty t)) := by
  cases t with
  | pair head tail =>
    cases tail with
    | list element =>
      refine .quiet (fun c => ?_) fun {c d} mirror => ?_
      · rw [collapseList_run]
        cases unseen : c.unifyUnseen? element head with
        | none => exact ⟨rfl, rfl⟩
        | some c' =>
          obtain ⟨_, _, rfl⟩ := commit_of_unifyUnseen? unseen
          exact ⟨rfl, rfl⟩
      · show ((collapseList (.pair (T.ty head) (.list (T.ty element)))).run d).1 = _ ∧
          Mirror T _ ((collapseList (.pair (T.ty head) (.list (T.ty element)))).run d).2
        rw [collapseList_run, collapseList_run]
        rcases mirror.unifyUnseen element head with ⟨none, none'⟩ | ⟨c', d', some, some', next⟩
        · rw [none, none']
          exact ⟨rfl, mirror⟩
        · rw [some, some']
          exact ⟨next.apply (.list element), next⟩
    | _ => exact .pure rfl
  | _ => exact .pure rfl

theorem applyCallee_mirrors (callee : Ty) (args : List Ty) (source : String) (pos : Position) :
    Mirrors T T.ty (applyCallee callee args source pos)
      (applyCallee (T.ty callee) (args.map T.ty) source pos) := by
  refine .bind freshTy_mirrors fun result => ?_
  have unified := equate_mirrors (T := T) callee (.func args result)
  rw [Transfer.ty_func] at unified
  refine .bind unified fun outcome => ?_
  cases outcome with
  | none => exact .bind (apply_mirrors result) collapseList_mirrors
  | some e =>
    have other (callee : Ty) : Mirrors T T.ty
        (do
          let problem := .mismatch .functionCall source (← resolve (.func args result))
            (← resolve callee)
          report (← blame .functionCall source problem e) pos
          freshTy)
        (do
          let problem := .mismatch .functionCall source
            (← resolve (.func (args.map T.ty) (T.ty result))) (← resolve (T.ty callee))
          report (← blame .functionCall source problem (e.rename T.var)) pos
          freshTy) := by
      have expected := resolve_mirrors (T := T) (.func args result)
      rw [Transfer.ty_func] at expected
      refine .bind expected fun a => .bind (resolve_mirrors callee) fun b => ?_
      refine .bind (blame_mirrors .functionCall source (.mismatch .functionCall source a b) e) ?_
      exact fun problem => .bind (report_mirrors problem pos) fun _ => freshTy_mirrors
    cases callee with
    | func params r =>
      rw [Transfer.ty_func]
      refine .bind (resolveAll_mirrors params) fun a => .bind (resolveAll_mirrors args) fun b => ?_
      exact .bind (report_mirrors (.arguments source a b) pos) fun _ => freshTy_mirrors
    | _ => exact other _

theorem useCallee_mirrors (callee : Ty) (args : List Ty) (source : String) (pos : Position) :
    Mirrors T T.ty (useCallee callee args source pos)
      (useCallee (T.ty callee) (args.map T.ty) source pos) := by
  refine .bind (apply_mirrors callee) fun callee => ?_
  have applied := applyCallee_mirrors (T := T) callee args source pos
  cases callee with
  | func params r =>
    rw [Transfer.ty_func] at applied ⊢
    refine .ite (by rw [List.length_map, List.length_map]) applied ?_
    refine .bind (resolveAll_mirrors params) fun a => .bind (resolveAll_mirrors args) fun b => ?_
    exact .bind (report_mirrors (.argumentCount source a b) pos) fun _ => freshTy_mirrors
  | _ => exact applied

/-! ## Declarations -/

theorem checkPlaceholder_mirrors (name : String) (binding : Binding) (source : String)
    (pos : Position) (t : Ty) :
    Mirrors T id (checkPlaceholder name binding source pos t)
      (checkPlaceholder name binding source pos (T.ty t)) := by
  refine .bind (lookupLocal_mirrors name) fun found => ?_
  cases found with
  | none => exact .pure rfl
  | some scheme =>
    exact .bind (instantiate_mirrors scheme) fun expected => checkSame_mirrors _ _ _ expected t

theorem declared_mirror {c d : Context} (mirror : Mirror T c d) (binding : Binding) (t : Ty) :
    declared binding d (T.ty t) = (declared binding c t).rename T.var := by
  unfold declared
  split
  · exact mirror.generalize t
  · exact congrArg Scheme.mono (mirror.apply t)

theorem declare_mirrors (name : String) (binding : Binding) (source : String) (pos : Position)
    (before : Nat) (t : Ty) :
    Mirrors T T.note (declare name binding source pos before t)
      (declare name binding source pos (T.earlier.length + before) (T.ty t)) := by
  rw [declare_eq, declare_eq]
  refine .bind errorCount_mirrors fun count => ?_
  refine .bind (.ite Nat.add_left_cancel_iff (checkPlaceholder_mirrors name binding source pos t)
    (.pure rfl)) fun _ => .bind (erase_mirrors name) fun _ => ?_
  refine .bind errorCount_mirrors fun after => .ite Nat.add_lt_add_iff_left ?_ ?_
  · refine .bind (freshVar_mirrors false) fun any => ?_
    exact .bind (bind_mirrors name ⟨[any], .var any⟩) fun _ => .pure rfl
  · refine ⟨fun c => ⟨List.prefix_rfl, .modify _ _⟩, fun {c d} mirror _ _ => ?_⟩
    have same := declared_mirror mirror binding t
    have bound := mirror.withEnv (mirror.env.bind name (declared binding c t))
    refine ⟨congrArg (fun scheme : Scheme => Verdict.typed scheme.ty) same, ?_⟩
    rw [← same] at bound
    exact bound

/-! ## Bodies -/

/-- Two walks one after the other, in a scope of their own. -/
def enclosed (m : Walk β) (k : β → Walk γ) : Walk (β × γ) := do
  modifyEnv Env.push
  let b ← m
  let x ← k b
  modifyEnv Env.pop
  return (b, x)

section Enclosed

variable {f : β → β} {h : γ → γ} {m n : Walk β} {k l : β → Walk γ}

theorem enclosed_env (hm : Mirrors T f m n) (hk : ∀ b, Mirrors T h (k b) (l (f b))) (c : Context) :
    ((enclosed m k).run c).2.env = c.env :=
  ((hm.tame { c with env := c.env.push }).env.trans ((hk _).tame _).env).pop_push

theorem enclosed_follows (hm : Mirrors T f m n) (hk : ∀ b, Mirrors T h (k b) (l (f b)))
    {c d : Context} (mirror : Mirror T c d)
    (bound : T.Bound ((enclosed m k).run c).2.errors) :
    ((enclosed n l).run d).1 = Prod.map f h ((enclosed m k).run c).1 ∧
      Mirror T ((enclosed m k).run c).2 ((enclosed n l).run d).2 := by
  -- In the new scope there is nothing extra, so it does not matter where it is opened.
  have body : Mirrors T (Prod.map f h) (do let b ← m; let x ← k b; return (b, x))
      (do let b ← n; let x ← l b; return (b, x)) :=
    .bind hm fun b => .bind (hk b) fun _ => .pure rfl
  obtain ⟨same, next⟩ := body.follows (mirror.withEnv mirror.env.push)
    (fun _ => List.cons_ne_nil _ _) bound
  exact ⟨same, next.withEnv next.env.pop⟩

theorem enclosed_mirrors (hm : Mirrors T f m n) (hk : ∀ b, Mirrors T h (k b) (l (f b))) :
    Mirrors T (Prod.map f h) (enclosed m k) (enclosed n l) := by
  refine ⟨fun c => ⟨?_, ?_⟩, fun mirror _ bound => enclosed_follows hm hk mirror bound⟩
  · exact ((hm.tame { c with env := c.env.push }).trans ((hk _).tame _)).errors
  · rw [enclosed_env hm hk]
    exact .refl _

theorem Mirrors.enclosed {δ : Type} {g : δ → δ} {r s : β → γ → Walk δ} (hm : Mirrors T f m n)
    (hk : ∀ b, Mirrors T h (k b) (l (f b))) (hr : ∀ b x, Mirrors T g (r b x) (s (f b) (h x))) :
    Mirrors T g
      (do
        modifyEnv Env.push
        let b ← m
        let x ← k b
        modifyEnv Env.pop
        r b x)
      (do
        modifyEnv Env.push
        let b ← n
        let x ← l b
        modifyEnv Env.pop
        s b x) :=
  .bind (k := fun y => r y.1 y.2) (l := fun y => s y.1 y.2) (enclosed_mirrors hm hk)
    fun y => hr y.1 y.2

end Enclosed

/-! ## Expressions and statements -/

theorem inferExprs_mirrors (es : List (Expr α))
    (h : ∀ e ∈ es, Mirrors T T.expr (inferExpr e) (inferExpr e)) :
    Mirrors T T.exprs (inferExprs es) (inferExprs es) := by
  induction es with
  | nil => exact .pure rfl
  | cons e es ih =>
    obtain ⟨first, rest⟩ := List.forall_mem_cons.mp h
    unfold inferExprs
    exact .bind first fun r => .bind (ih rest) fun rs => .pure rfl

theorem inferStmts_mirrors (ss : List (Stmt α))
    (h : ∀ s ∈ ss, Mirrors T (T.returned (Stmt.mapNotes T.note)) (inferStmt s) (inferStmt s)) :
    Mirrors T (T.returned (List.map (Stmt.mapNotes T.note))) (inferStmts ss) (inferStmts ss) := by
  induction ss with
  | nil => exact .pure rfl
  | cons s ss ih =>
    obtain ⟨first, rest⟩ := List.forall_mem_cons.mp h
    unfold inferStmts
    refine .bind first fun r => .bind (ih rest) fun rs => .pure ?_
    obtain ⟨_ | t, s'⟩ := r <;> rfl

theorem returnTy_map (returned : Option Ty) :
    returnTy (returned.map T.ty) = T.ty (returnTy returned) := by
  cases returned <;> rfl

theorem joinBranches_mirrors (source : String) (pos : Position) {checked checked' : Bool}
    (same : checked' = checked) (consequent alternate : Option Ty) :
    Mirrors T (Option.map T.ty) (joinBranches source pos checked consequent alternate)
      (joinBranches source pos checked' (consequent.map T.ty) (alternate.map T.ty)) := by
  rw [same, joinBranches_eq, joinBranches_eq, Option.isNone_map, Option.isNone_map, returnTy_map,
    returnTy_map]
  refine .ite Iff.rfl (.pure rfl) (.bind (f := id) (.ite Iff.rfl ?_ (.pure rfl)) fun _ => .pure rfl)
  exact checkBranches_mirrors _ _ _ _ _

@[simp] theorem note_mapNotes (e : Expr Verdict) : (e.mapNotes T.note).note = T.note e.note := by
  cases e with
  | call tag f args => rw [Expr.mapNotes_call]; rfl
  | arrow tag ps body => rw [Expr.mapNotes_arrow]; rfl
  | arrowBlock tag ps body => rw [Expr.mapNotes_arrowBlock]; rfl
  | _ => rfl

theorem isUntypable_mapNotes (e : Expr Verdict) :
    (e.mapNotes T.note).note.isUntypable = e.note.isUntypable := by
  rw [note_mapNotes, T.isUntypable_note]

theorem isUntypable_block (b : Block Verdict) :
    (b.mapNotes T.note).tag.note.isUntypable = b.tag.note.isUntypable := by
  obtain ⟨tag, body⟩ := b
  rw [Block.mapNotes_mk]
  exact T.isUntypable_note tag.note

theorem isUntypable_branch (b : If Verdict) :
    (b.mapNotes T.note).tag.note.isUntypable = b.tag.note.isUntypable := by
  obtain ⟨tag, test, consequent, alternate⟩ := b
  exact T.isUntypable_note tag.note

theorem settle_returnTy_mirrors (before : Nat) (returned : Option Ty) :
    Mirrors T T.settled (settle before (returnTy returned))
      (settle (T.earlier.length + before) (returnTy (returned.map T.ty))) := by
  rw [returnTy_map]
  exact settle_mirrors before (returnTy returned)

theorem map_const_map (returned : Option Ty) (t : Ty) :
    ((returned.map T.ty).map fun _ => T.ty t) = (returned.map fun _ => t).map T.ty := by
  cases returned <;> rfl

theorem infer_mirrors : Hereditary (α := α)
    (fun e => Mirrors T T.expr (inferExpr e) (inferExpr e))
    (fun s => Mirrors T (T.returned (Stmt.mapNotes T.note)) (inferStmt s) (inferStmt s))
    (fun b => Mirrors T (T.returned (Block.mapNotes T.note)) (inferBlock b) (inferBlock b))
    (fun b => Mirrors T (T.returned (If.mapNotes T.note)) (inferIf b) (inferIf b))
    (fun a => Mirrors T (T.returned (Prod.map id (Alternate.mapNotes T.note))) (inferAlternate a)
      (inferAlternate a)) where
  number tag x := .pure rfl
  text tag s := .pure rfl
  boolean tag b := .pure rfl
  null tag := by
    unfold inferExpr
    refine .bind errorCount_mirrors fun before => .bind (useName_mirrors _ tag.pos) fun t => ?_
    exact .bind (settle_mirrors before t) fun r => .pure rfl
  name n := by
    unfold inferExpr
    refine .bind errorCount_mirrors fun before => .bind (useName_mirrors n.text n.pos) fun t => ?_
    exact .bind (settle_mirrors before t) fun r => .pure rfl
  unary tag op e ih := by
    rw [inferExpr_unary]
    refine .bind errorCount_mirrors fun before => .bind ih fun r => ?_
    obtain ⟨operand, e'⟩ := r
    refine .bind (.ite ?_ freshTy_mirrors (useOperator_mirrors _ _ _ _ [operand] _)) fun t => ?_
    · rw [isUntypable_mapNotes]
    · exact .bind (settle_mirrors before t) fun r => .pure rfl
  binary tag op l r ihl ihr := by
    rw [inferExpr_binary]
    refine .bind errorCount_mirrors fun before => .bind ihl fun left => .bind ihr fun right => ?_
    obtain ⟨left, l'⟩ := left
    obtain ⟨right, r'⟩ := right
    refine .bind (.ite ?_ freshTy_mirrors (useOperator_mirrors _ _ _ _ [left, right] _)) fun t => ?_
    · rw [isUntypable_mapNotes, isUntypable_mapNotes]
    · exact .bind (settle_mirrors before t) fun r => .pure rfl
  conditional tag t c a iht ihc iha := by
    rw [inferExpr_conditional]
    refine .bind errorCount_mirrors fun before => .bind iht fun test => ?_
    obtain ⟨test, t'⟩ := test
    refine .bind (f := id) (.ite ?_ (.pure rfl) (checkTest_mirrors _ _ _ test)) fun _ => ?_
    · rw [isUntypable_mapNotes]
    refine .bind ihc fun consequent => .bind iha fun alternate => ?_
    obtain ⟨consequent, c'⟩ := consequent
    obtain ⟨alternate, a'⟩ := alternate
    refine .bind (.ite ?_ freshTy_mirrors ?_) fun t => ?_
    · rw [isUntypable_mapNotes, isUntypable_mapNotes]
    · exact .bind (checkBranches_mirrors _ _ _ consequent alternate) fun _ => apply_mirrors consequent
    · exact .bind (settle_mirrors before t) fun r => .pure rfl
  call tag f args ihf ihargs := by
    rw [inferExpr_call]
    refine .bind errorCount_mirrors fun before => .bind ihf fun callee => ?_
    refine .bind (inferExprs_mirrors args ihargs) fun rs => ?_
    obtain ⟨callee, f'⟩ := callee
    obtain ⟨ts, args'⟩ := rs
    refine .bind (.ite ?_ freshTy_mirrors (useCallee_mirrors callee ts _ _)) fun t => ?_
    · rw [isUntypable_mapNotes, List.any_map]
      simp only [Function.comp_def, isUntypable_mapNotes]
    · refine .bind (settle_mirrors before t) fun r => .pure ?_
      exact congrArg (Prod.mk _) (Expr.mapNotes_call _ (tag.annotate r.1) f' args').symm
  arrow tag ps body ih := by
    unfold inferExpr
    refine .bind errorCount_mirrors fun before => ?_
    refine .enclosed (bindParams_mirrors ps) (fun _ => ih) fun params result => ?_
    obtain ⟨ts, ps'⟩ := params
    have settled := settle_mirrors (T := T) before (.func ts result.1)
    rw [Transfer.ty_func] at settled
    refine .bind settled fun r => .pure ?_
    exact congrArg (Prod.mk _) (Expr.mapNotes_arrow _ (tag.annotate r.1) ps' result.2).symm
  arrowBlock tag ps body ih := by
    unfold inferExpr
    refine .bind errorCount_mirrors fun before => ?_
    refine .enclosed (bindParams_mirrors ps) (fun _ => ih) fun params returned => ?_
    obtain ⟨ts, ps'⟩ := params
    have settled := settle_mirrors (T := T) before (.func ts (returnTy returned.1))
    rw [Transfer.ty_func, ← returnTy_map] at settled
    refine .bind settled fun r => .pure ?_
    exact congrArg (Prod.mk _) (Expr.mapNotes_arrowBlock _ (tag.annotate r.1) ps' returned.2).symm
  assign tag target e ih := by
    rw [inferExpr_assign]
    refine .bind errorCount_mirrors fun before => .bind ih fun value => ?_
    obtain ⟨value, e'⟩ := value
    refine lookup_mirrors target.text target.pos rfl rfl ?_ fun scheme => ?_
    · refine .bind freshTy_mirrors fun t => ?_
      exact .bind (settle_mirrors before t) fun r => .pure rfl
    · refine .bind (instantiate_mirrors scheme) fun expected => ?_
      refine .bind (.ite ?_ (.pure rfl) ?_) fun t => ?_
      · rw [isUntypable_mapNotes]
      · exact .bind (checkSame_mirrors _ _ _ expected value) fun _ => apply_mirrors value
      · exact .bind (settle_mirrors before t) fun r => .pure rfl
  declare tag keyword n e ih := by
    unfold inferStmt
    refine .bind errorCount_mirrors fun before => .bind ih fun r => ?_
    exact .bind (declare_mirrors _ _ _ _ before r.1) fun note => .pure rfl
  function tag n ps body ih := by
    unfold inferStmt
    refine .bind errorCount_mirrors fun before => ?_
    refine .enclosed (bindParams_mirrors ps) (fun _ => ih) fun params returned => ?_
    obtain ⟨ts, ps'⟩ := params
    have declared := declare_mirrors (T := T) n.text .function (Stmt.functionHeader n ps) tag.pos
      before (.func ts (returnTy returned.1))
    rw [Transfer.ty_func, ← returnTy_map] at declared
    refine .bind declared fun note => .pure ?_
    exact congrArg (Prod.mk _)
      (Stmt.mapNotes_function _ (tag.annotate note) (n.annotate note) ps' returned.2).symm
  retNothing tag := .pure rfl
  ret tag e ih := by
    unfold inferStmt
    refine .bind errorCount_mirrors fun before => .bind ih fun r => ?_
    exact .bind (settle_mirrors before r.1) fun r => .pure rfl
  ifElse b ih := by
    unfold inferStmt
    exact .bind ih fun r => .pure rfl
  block b ih := by
    unfold inferStmt
    exact .bind ih fun r => .pure rfl
  expr e ih := by
    unfold inferStmt
    exact .bind ih fun r => .pure rfl
  body tag body ih := by
    unfold inferBlock
    refine .bind errorCount_mirrors fun before => ?_
    refine .enclosed (hoist_mirrors body) (fun _ => inferStmts_mirrors body ih) fun _ r => ?_
    obtain ⟨returned, body'⟩ := r
    refine .bind (settle_returnTy_mirrors before returned) fun r => .pure ?_
    exact congrArg₂ Prod.mk (map_const_map returned r.2)
      (Block.mapNotes_mk _ (tag.annotate r.1) body').symm
  branch tag test consequent alternate iht ihc iha := by
    rw [inferIf_eq]
    refine .bind errorCount_mirrors fun before => .bind iht fun test => ?_
    obtain ⟨test, test'⟩ := test
    refine .bind (f := id) (.ite ?_ (.pure rfl) (checkTest_mirrors _ _ _ test)) fun _ => ?_
    · rw [isUntypable_mapNotes]
    refine .bind ihc fun first => .bind iha fun second => ?_
    obtain ⟨first, consequent'⟩ := first
    obtain ⟨second, sound, alternate'⟩ := second
    refine .bind (joinBranches_mirrors _ _ ?_ first second) fun returned => ?_
    · exact congrArg (fun untypable => !untypable && sound) (isUntypable_block consequent')
    refine .bind (settle_returnTy_mirrors before returned) fun r => .pure ?_
    exact congrArg (Prod.mk · _) (map_const_map returned r.2)
  absent := .pure rfl
  otherwise b ih := by
    unfold inferAlternate
    refine .bind ih fun r => .pure ?_
    exact congrArg (fun untypable => (r.1.map T.ty, !untypable, Alternate.block _))
      (isUntypable_block r.2)
  elseIf b ih := by
    unfold inferAlternate
    refine .bind ih fun r => .pure ?_
    exact congrArg (fun untypable => (r.1.map T.ty, !untypable, Alternate.elseIf _))
      (isUntypable_branch r.2)

theorem inferProgram_follows {c d : Context} (mirror : Mirror T c d) (p : Program α)
    (bound : T.Bound ((inferProgram p).run c).2.errors) :
    ((inferProgram p).run d).1 = ((inferProgram p).run c).1.map T.note ∧
      Mirror T ((inferProgram p).run c).2 ((inferProgram p).run d).2 := by
  have stmts := inferStmts_mirrors (T := T) p.body fun s _ => infer_mirrors.forStmt s
  obtain ⟨same, next⟩ := enclosed_follows (k := fun _ => inferStmts p.body)
    (l := fun _ => inferStmts p.body) (hoist_mirrors p.body) (fun _ => stmts) mirror bound
  refine ⟨?_, next⟩
  have outcome (c : Context) : ((inferProgram p).run c).1 =
      ⟨((enclosed (hoist p.body) fun _ => inferStmts p.body).run c).1.2.2⟩ := rfl
  rw [outcome, outcome, same, Program.map_eq]
  rfl

end Walk

/-- A program comes out the same in both, with the new numbers. -/
theorem Mirror.analyse {c d : Context} (mirror : Mirror T c d) (p : Program α)
    (bound : T.Bound (analyse p c).2.errors) :
    (Polytype.analyse p d).1 = (Polytype.analyse p c).1.map T.note ∧
      Mirror T (Polytype.analyse p c).2 (Polytype.analyse p d).2 := by
  obtain ⟨outcome, next⟩ := Walk.inferProgram_follows mirror p bound
  have notes : Verdict.mapTy ((Walk.inferProgram p).run d).2.resolve ∘ T.note =
      T.note ∘ Verdict.mapTy ((Walk.inferProgram p).run c).2.resolve := by
    funext note
    cases note with
    | typed t => exact congrArg Verdict.typed (next.resolve t)
    | _ => rfl
  rw [analyse_eq, analyse_eq, outcome, Program.map_map, Program.map_map, notes]
  exact ⟨rfl, next⟩

end Polytype
