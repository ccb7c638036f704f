import Polytype.Proofs.Typing.Checks

/-!
# Inference is sound

A run without errors types the program. The induction is over the tree, for all solutions at once:
a declaration is typed twice, in the solution at hand and in one that leaves its quantified variables
open. In the end what is known is a solution of itself, and its notes are the types of the nodes.
-/

namespace Polytype

variable {α : Type} {c c' : Context} {H : Set Var} {θ : Var → Ty} {Γ : Env}

namespace Walk

/-! ## Typings around a place -/

/-- A verdict agrees with what is its type in the solution. -/
def Agrees (θ : Var → Ty) (noted : Verdict → Ty → Prop) : Prop :=
  ∀ t T, (t.bind θ).Equiv T → noted (.typed t) T

/-- A typing of what is around. -/
structure Interprets (θ : Var → Ty) (noted : Verdict → Ty → Prop) (env Γ : Env) : Prop where
  fits : Fits θ
  agrees : Agrees θ noted
  models : Models θ env Γ

variable {H' : Set Var} {noted : Verdict → Ty → Prop}

theorem Interprets.goes (h : Interprets θ noted c.env Γ) (goes : Goes c H c' H') :
    Interprets θ noted c'.env Γ := goes.env ▸ h

theorem Interprets.enter (h : Interprets θ noted c.env Γ) (xs : List String) :
    Interprets θ noted (Context.bindFresh { c with env := c.env.push } xs).env
      (Γ.push.bindMonos xs ((freshTys c.nextVar xs.length).map (·.bind θ))) :=
  ⟨h.fits, h.agrees, h.models.push.bindMonos xs _⟩

theorem bind_returnTy (θ : Var → Ty) (r : Option Ty) :
    (returnTy r).bind θ = (r.map (·.bind θ)).getD .undefined := by
  cases r <;> rfl

theorem map_firstReturn (θ : Var → Ty) (r r' : Option Ty) :
    (firstReturn r r').map (·.bind θ) = (r.map (·.bind θ)).or (r'.map (·.bind θ)) := by
  cases r <;> rfl

section Params

variable {ps : List (Name α)} {ts : List Ty}

theorem texts_annotated (length : ts.length = ps.length) :
    (List.zipWith (fun p t => p.annotate (Verdict.typed t)) ps ts).map (·.text) =
      ps.map (·.text) := by
  induction ps generalizing ts with
  | nil => rfl
  | cons p ps ih =>
    cases ts with
    | nil => cases length
    | cons t ts =>
      rw [List.zipWith_cons_cons, List.map_cons, ih (Nat.succ.inj length)]
      rfl

theorem Agrees.params (h : Agrees θ noted) (length : ts.length = ps.length) :
    List.Forall₂ (fun p t => noted p.note t)
      (List.zipWith (fun p t => p.annotate (Verdict.typed t)) ps ts) (ts.map (·.bind θ)) := by
  induction ps generalizing ts with
  | nil =>
    cases ts with
    | nil => exact .nil
    | cons t ts => cases length
  | cons p ps ih =>
    cases ts with
    | nil => cases length
    | cons t ts => exact .cons (h _ _ (.refl _)) (ih (Nat.succ.inj length))

end Params

/-! ## The walk -/

/-- A clean run over an expression types it, in every solution of what the run has found out. -/
def ExprSound (chapter : Chapter) (e : Expr α) : Prop :=
  ∀ place c H r c', Validation.checkExpr place e = [] → NoOperator e.binders →
    Placed (Context.new chapter).env c H → Clean (inferExpr e) c r c' →
    ∀ θ noted Γ, Interprets θ noted c.env Γ → Solves θ c'.subst →
      ExprTyped (Context.new chapter).env false noted Γ r.2 (r.1.bind θ)

/-- For a statement there is an environment after it. What it does not declare is left as it was. -/
def StmtSound (chapter : Chapter) (s : Stmt α) : Prop :=
  ∀ place c H r c', Validation.checkStmt place s = [] → NoOperator s.binders →
    Placed (Context.new chapter).env c H → Clean (inferStmt s) c r c' →
    ∀ θ noted Γ, Interprets θ noted c.env Γ → Pending θ c.env Γ (declaredNames [s]) →
      Solves θ c'.subst →
      ∃ Γ', StmtTyped (Context.new chapter).env false noted Γ r.2 (r.1.map (·.bind θ)) Γ' ∧
        Models θ c'.env Γ' ∧ ∀ xs, (∀ x ∈ declaredNames [s], x ∉ xs) → Pending θ c.env Γ xs →
          Pending θ c'.env Γ' xs

def BlockSound (chapter : Chapter) (b : Block α) : Prop :=
  ∀ place c H r c', Validation.checkBlock place b = [] → NoOperator b.binders →
    Placed (Context.new chapter).env c H → Clean (inferBlock b) c r c' →
    ∀ θ noted Γ, Interprets θ noted c.env Γ → Solves θ c'.subst →
      BlockTyped (Context.new chapter).env false noted Γ r.2 (r.1.map (·.bind θ))

def IfSound (chapter : Chapter) (b : If α) : Prop :=
  ∀ place c H r c', Validation.checkIf place b = [] → NoOperator b.binders →
    Placed (Context.new chapter).env c H → Clean (inferIf b) c r c' →
    ∀ θ noted Γ, Interprets θ noted c.env Γ → Solves θ c'.subst →
      IfTyped (Context.new chapter).env false noted Γ r.2 (r.1.map (·.bind θ))

def AlternateSound (chapter : Chapter) (a : Alternate α) : Prop :=
  ∀ place c H r c', Validation.checkAlternate place a = [] → NoOperator a.binders →
    Placed (Context.new chapter).env c H → Clean (inferAlternate a) c r c' →
    ∀ θ noted Γ, Interprets θ noted c.env Γ → Solves θ c'.subst →
      AlternateTyped (Context.new chapter).env false noted Γ r.2.2 (r.1.map (·.bind θ))

section Expressions

variable {chapter : Chapter} {place : Validation.Place}

theorem Clean.operator_sound {key operator source : String} {construct : Construct}
    {operands ps : List Ty} {pos : Position} {vars : List Var} {t u : Ty}
    (h : Clean (useOperator key operator source construct operands pos) c t c')
    (placed : Placed (Context.new chapter).env c H) (hkey : key ∈ Prelude.operators.map (·.1))
    (found : (Context.new chapter).env.lookup key = some ⟨vars, .func ps u⟩)
    (arity : ps.length = operands.length) (overH : ∀ o ∈ operands, o.Over H) (fits : Fits θ)
    (solved : Solves θ c'.subst) : Solves θ c.subst ∧
      Scheme.Instance ⟨vars, .func ps u⟩ (.func (operands.map (·.bind θ)) (t.bind θ)) := by
  obtain ⟨_, goes, _⟩ := h.goes (useOperator_steady key operator source construct pos overH) placed.good
  refine ⟨goes.solves solved, h.useOperator_sound placed.good overH ?_ arity ?_ fits solved⟩
  · rw [placed.keeps key hkey, found]
  · exact Prelude.closed_new (Env.mem_entries_lookup found)

theorem unary_sound {tag : Tag α} {op : UnaryOp} {e : Expr α} (ih : ExprSound chapter e) :
    ExprSound chapter (.unary tag op e) := by
  intro place c H r c' valid names placed h θ noted Γ interprets solved
  obtain ⟨x, c₁, t, operand, used, rfl⟩ := clean_unary.mp h
  obtain ⟨H₁, goes, overH⟩ := operand.expr placed.good
  obtain ⟨vars, a, u, found⟩ := Prelude.lookup_unary chapter op
  obtain ⟨solved₁, inst⟩ := used.operator_sound (placed.goes goes) (Prelude.mem_keys_unary op) found
    rfl (by simpa using overH) interprets.fits solved
  exact .unary found (ih _ _ _ _ _ valid names placed operand _ _ _ interprets solved₁) inst
    (interprets.agrees _ _ (.refl _))

theorem binary_sound {tag : Tag α} {op : BinaryOp} {e₁ e₂ : Expr α} (ih₁ : ExprSound chapter e₁)
    (ih₂ : ExprSound chapter e₂) : ExprSound chapter (.binary tag op e₁ e₂) := by
  intro place c H r c' valid names placed h θ noted Γ interprets solved
  rw [Validation.checkExpr, List.append_eq_nil_iff] at valid
  rw [Expr.binders, noOperator_append] at names
  obtain ⟨x, c₁, y, c₂, t, left, right, used, rfl⟩ := clean_binary.mp h
  obtain ⟨H₁, goes₁, over₁⟩ := left.expr placed.good
  obtain ⟨H₂, goes₂, over₂⟩ := right.expr goes₁.good
  obtain ⟨vars, a, b, u, found⟩ := Prelude.lookup_binary chapter op
  have overH : ∀ o ∈ [x.1, y.1], o.Over H₂ := by
    simpa using And.intro (over₁.mono goes₂.subset) over₂
  obtain ⟨solved₂, inst⟩ := used.operator_sound (placed.goes (goes₁.trans goes₂))
    (Prelude.mem_keys_binary op) found rfl overH interprets.fits solved
  exact .binary found
    (ih₁ _ _ _ _ _ valid.1 names.1 placed left _ _ _ interprets (goes₂.solves solved₂))
    (ih₂ _ _ _ _ _ valid.2 names.2 (placed.goes goes₁) right _ _ _ (interprets.goes goes₁) solved₂)
    inst (interprets.agrees _ _ (.refl _))

theorem conditional_sound {tag : Tag α} {e₁ e₂ e₃ : Expr α} (ih₁ : ExprSound chapter e₁)
    (ih₂ : ExprSound chapter e₂) (ih₃ : ExprSound chapter e₃) :
    ExprSound chapter (.conditional tag e₁ e₂ e₃) := by
  intro place c H r c' valid names placed h θ noted Γ interprets solved
  simp only [Validation.checkExpr, List.append_eq_nil_iff] at valid
  simp only [Expr.binders, noOperator_append] at names
  obtain ⟨x, c₁, c₂, y, c₃, z, c₄, test, checked, consequent, alternate, same, rfl⟩ :=
    clean_conditional.mp h
  obtain ⟨isBoolean, _⟩ := clean_checkTest.mp checked
  obtain ⟨isSame, _⟩ := clean_checkBranches.mp same
  obtain ⟨H₁, goes₁, over₁⟩ := test.expr placed.good
  have goes₂ := goes₁.trans (goes_unify goes₁.good over₁ (Ty.over_prim _) isBoolean)
  obtain ⟨H₃, goes₃, over₃⟩ := consequent.expr goes₂.good
  obtain ⟨H₄, goes₄, over₄⟩ := alternate.expr goes₃.good
  have over₃' := over₃.mono goes₄.subset
  have goes₅ := goes_unify goes₄.good over₃' over₄ isSame
  have solved₄ := goes₅.solves solved
  have solved₃ := goes₄.solves solved₄
  have solved₂ := goes₃.solves solved₃
  have result := goes₅.good.sane.equiv_apply over₃' solved
  have branches := equiv_of_unify goes₄.good over₃' over₄ isSame solved
  exact .conditional
    (ih₁ _ _ _ _ _ valid.1.1 names.1.1 placed test _ _ _ interprets
      ((goes_unify goes₁.good over₁ (Ty.over_prim _) isBoolean).solves solved₂))
    (equiv_of_unify goes₁.good over₁ (Ty.over_prim _) isBoolean solved₂)
    (ih₂ _ _ _ _ _ valid.1.2 names.1.2 (placed.goes goes₂) consequent _ _ _
      (interprets.goes goes₂) solved₃)
    result
    (ih₃ _ _ _ _ _ valid.2 names.2 (placed.goes (goes₂.trans goes₃)) alternate _ _ _
      (interprets.goes (goes₂.trans goes₃)) solved₄)
    (branches.symm.trans result) (interprets.agrees _ _ (.refl _))

theorem exprs_sound {es : List (Expr α)} (ih : ∀ e ∈ es, ExprSound chapter e)
    {r : List Ty × List (Expr Verdict)} (valid : Validation.checkExprs place es = [])
    (names : NoOperator (Expr.bindersAll es)) (placed : Placed (Context.new chapter).env c H)
    (h : Clean (inferExprs es) c r c') {noted : Verdict → Ty → Prop}
    (interprets : Interprets θ noted c.env Γ) (solved : Solves θ c'.subst) :
    ExprsTyped (Context.new chapter).env false noted Γ r.2 (r.1.map (·.bind θ)) := by
  induction es generalizing c H r with
  | nil =>
    obtain ⟨rfl, _⟩ := clean_exprs_nil.mp h
    exact .nil
  | cons e es rest =>
    rw [Validation.checkExprs, List.append_eq_nil_iff] at valid
    rw [Expr.bindersAll, noOperator_append] at names
    obtain ⟨first, others⟩ := List.forall_mem_cons.mp ih
    obtain ⟨x, c₁, xs, he, hes, rfl⟩ := clean_exprs_cons.mp h
    obtain ⟨H₁, goes₁, _⟩ := he.expr placed.good
    obtain ⟨H₂, goes₂, _⟩ := hes.exprs goes₁.good
    exact .cons
      (first _ _ _ _ _ valid.1 names.1 placed he _ _ _ interprets (goes₂.solves solved))
      (rest others valid.2 names.2 (placed.goes goes₁) hes (interprets.goes goes₁))

theorem call_sound {tag : Tag α} {f : Expr α} {args : List (Expr α)} (ih : ExprSound chapter f)
    (ihs : ∀ e ∈ args, ExprSound chapter e) : ExprSound chapter (.call tag f args) := by
  intro place c H r c' valid names placed h θ noted Γ interprets solved
  rw [Validation.checkExpr, List.append_eq_nil_iff] at valid
  rw [Expr.binders, noOperator_append] at names
  obtain ⟨x, c₁, xs, c₂, t, callee, arguments, used, rfl⟩ := clean_call.mp h
  obtain ⟨H₁, goes₁, over₁⟩ := callee.expr placed.good
  obtain ⟨H₂, goes₂, over₂⟩ := arguments.exprs goes₁.good
  have over₁' := over₁.mono goes₂.subset
  obtain ⟨H₃, goes₃, _⟩ := used.goes (useCallee_steady _ _ over₁' over₂) goes₂.good
  have solved₂ := goes₃.solves solved
  exact .call
    (ih _ _ _ _ _ valid.1 names.1 placed callee _ _ _ interprets (goes₂.solves solved₂))
    (exprs_sound ihs valid.2 names.2 (placed.goes goes₁) arguments (interprets.goes goes₁) solved₂)
    (used.useCallee_sound goes₂.good over₁' over₂ solved) (interprets.agrees _ _ (.refl _))

theorem arrow_sound {tag : Tag α} {ps : List (Name α)} {e : Expr α} (ih : ExprSound chapter e) :
    ExprSound chapter (.arrow tag ps e) := by
  intro place c H r c' valid names placed h θ noted Γ interprets solved
  rw [Expr.binders, noOperator_append] at names
  obtain ⟨xs, c₁, y, c₂, params, body, rfl, rfl⟩ := clean_arrow.mp h
  obtain ⟨rfl, rfl, _⟩ := clean_bindParams.mp params
  obtain ⟨H₁, placed₁⟩ := placed.enter names.1
  have typed := ih _ _ _ _ _ valid names.2 placed₁ body _ _ _ (interprets.enter _) solved
  rw [List.length_map] at typed
  have length : (freshTys c.nextVar ps.length).length = ps.length := length_freshTys _ _
  have note := interprets.agrees (.func (freshTys c.nextVar ps.length) y.1) _ (.refl _)
  rw [Ty.bind, Ty.bindAll_eq] at note ⊢
  refine .arrow (interprets.agrees.params length) ?_ note
  rw [texts_annotated length]
  exact typed

theorem arrowBlock_sound {tag : Tag α} {ps : List (Name α)} {b : Block α}
    (ih : BlockSound chapter b) : ExprSound chapter (.arrowBlock tag ps b) := by
  intro place c H r c' valid names placed h θ noted Γ interprets solved
  rw [Expr.binders, noOperator_append] at names
  obtain ⟨xs, c₁, y, c₂, params, body, rfl, rfl⟩ := clean_arrowBlock.mp h
  obtain ⟨rfl, rfl, _⟩ := clean_bindParams.mp params
  obtain ⟨H₁, placed₁⟩ := placed.enter names.1
  have typed := ih _ _ _ _ _ valid names.2 placed₁ body _ _ _ (interprets.enter _) solved
  rw [List.length_map] at typed
  have length : (freshTys c.nextVar ps.length).length = ps.length := length_freshTys _ _
  have note := interprets.agrees (.func (freshTys c.nextVar ps.length) (returnTy y.1)) _ (.refl _)
  rw [Ty.bind, Ty.bindAll_eq, bind_returnTy] at note ⊢
  refine .arrowBlock (.mk (interprets.agrees.params length) ?_) note
  rw [texts_annotated length]
  exact typed

theorem assign_sound {tag : Tag α} {target : Name α} {e : Expr α} (ih : ExprSound chapter e) :
    ExprSound chapter (.assign tag target e) := by
  intro place c H r c' valid names placed h θ noted Γ interprets solved
  simp only [Validation.checkExpr, List.append_eq_nil_iff] at valid
  obtain ⟨x, c₁, scheme, expected, c₂, value, found, inst, same, rfl⟩ := clean_assign.mp h
  obtain ⟨isSame, _⟩ := clean_checkSame.mp same
  obtain ⟨H₁, goes₁, over₁⟩ := value.expr placed.good
  have interprets₁ := interprets.goes goes₁
  obtain ⟨σ, known, isInstance⟩ := inst.lookup_sound goes₁.good found interprets₁.fits interprets₁.models
  obtain ⟨H₂, goes₂, over₂⟩ :=
    inst.goes (instantiate_steady (Env.mem_entries_lookup found)) goes₁.good
  have over₁' := over₁.mono goes₂.subset
  have goes₃ := goes_unify goes₂.good over₂ over₁' isSame
  have equal := equiv_of_unify goes₂.good over₂ over₁' isSame solved
  exact .assign
    (ih _ _ _ _ _ valid.2 names placed value _ _ _ interprets ((goes₂.trans goes₃).solves solved))
    known (isInstance.congr equal) (interprets.agrees _ _ equal)
    (goes₃.good.sane.equiv_apply over₁' solved) (interprets.agrees _ _ (.refl _))

end Expressions

section Statements

variable {chapter : Chapter} {place : Validation.Place}

theorem declare_sound {tag : Tag α} {keyword : Keyword} {n : Name α} {e : Expr α}
    (ih : ExprSound chapter e) : StmtSound chapter (.declare tag keyword n e) := by
  intro place c H r c' valid names placed h θ noted Γ interprets pending solved
  rw [Stmt.binders, noOperator_cons] at names
  obtain ⟨x, c₁, note, init, bound, rfl⟩ := clean_declaration.mp h
  obtain ⟨H₁, goes₁, over₁⟩ := init.expr placed.good
  obtain ⟨p, P, found, found', before⟩ := pending n.text List.mem_cons_self
  rw [← goes₁.env] at found
  obtain ⟨solved₁, own, u, rfl, noteTy⟩ := bound.declare_before found goes₁.good over₁ solved before
  have noteAgrees := interprets.agrees _ _ noteTy
  have others (σ σ' : Scheme) (xs : List String)
      (fresh : ∀ x ∈ declaredNames [Stmt.declare tag keyword n e], x ∉ xs)
      (later : Pending θ c.env Γ xs) : Pending θ (c₁.env.bind n.text σ) (Γ.bind n.text σ') xs := by
    rw [goes₁.env]
    exact later.bind (fresh _ List.mem_cons_self) σ σ'
  obtain ⟨_, σ, env⟩ := bound.rebinds goes₁.good over₁
  have models₁ := (interprets.goes goes₁).models
  cases keyword with
  | constant =>
    have typed {θ'} {Γ'} {noted'} (i : Interprets θ' noted' c.env Γ') (s : Solves θ' c₁.subst) :=
      ih _ _ _ _ _ valid names.2 placed init θ' noted' Γ' i s
    obtain ⟨θ', M, σ', fits', solved', models', own', declares, after⟩ :=
      bound.declare_general rfl found goes₁.good over₁ interprets.fits solved found' before models₁
    have generic : Interprets θ' anything c.env (Γ.bind n.text (.mono M)) :=
      ⟨fits', fun _ _ _ => trivial, goes₁.env ▸ models'⟩
    refine ⟨_, .constant (typed interprets solved₁) own (typed generic solved') own' declares
      noteAgrees noteAgrees, after, ?_⟩
    rw [env]
    exact others σ σ'
  | mutable =>
    simp only [Validation.checkStmt, List.append_eq_nil_iff] at valid
    have typed := ih _ _ _ _ _ valid.2 names.2 placed init _ _ _ interprets solved₁
    refine ⟨_, .mutable typed own found' noteAgrees noteAgrees,
      bound.declare_mutable found goes₁.good over₁ solved before models₁, ?_⟩
    rw [env]
    exact others σ _

theorem function_sound {tag : Tag α} {n : Name α} {ps : List (Name α)} {b : Block α}
    (ih : BlockSound chapter b) : StmtSound chapter (.function tag n ps b) := by
  intro place c H r c' valid names placed h θ noted Γ interprets pending solved
  rw [Stmt.binders, noOperator_cons] at names
  obtain ⟨t, tag', ps', b', c₁, note, init, bound, rfl⟩ := h.function
  obtain ⟨H₁, goes₁, over₁⟩ := init.expr placed.good
  obtain ⟨p, P, found, found', before⟩ := pending n.text List.mem_cons_self
  rw [← goes₁.env] at found
  obtain ⟨solved₁, own, u, rfl, noteTy⟩ := bound.declare_before found goes₁.good over₁ solved before
  have noteAgrees := interprets.agrees _ _ noteTy
  obtain ⟨_, σ, env⟩ := bound.rebinds goes₁.good over₁
  obtain ⟨θ', M, σ', fits', solved', models', own', declares, after⟩ :=
    bound.declare_general rfl found goes₁.good over₁ interprets.fits solved found' before
      (interprets.goes goes₁).models
  have generic : Interprets θ' anything c.env (Γ.bind n.text (.mono M)) :=
    ⟨fits', fun _ _ _ => trivial, goes₁.env ▸ models'⟩
  have typed {θ'} {Γ'} {noted'} (i : Interprets θ' noted' c.env Γ') (s : Solves θ' c₁.subst) :
      FunctionTyped (Context.new chapter).env false noted' Γ' ps' b' (t.bind θ') := by
    cases arrowBlock_sound ih _ _ _ _ _ valid names.2 placed init θ' noted' Γ' i s with
    | arrowBlock function _ => exact function
  refine ⟨_, .function (typed interprets solved₁) own (typed generic solved') own' declares
    noteAgrees noteAgrees, after, fun xs fresh later => ?_⟩
  rw [env, goes₁.env]
  exact later.bind (fresh _ List.mem_cons_self) σ σ'

theorem stmts_sound {ss : List (Stmt α)} (ih : ∀ s ∈ ss, StmtSound chapter s)
    {r : Option Ty × List (Stmt Verdict)} (valid : Validation.checkStmts place ss = [])
    (names : NoOperator (Stmt.bindersAll ss)) (nodup : (declaredNames ss).Nodup)
    (placed : Placed (Context.new chapter).env c H) (h : Clean (inferStmts ss) c r c')
    {noted : Verdict → Ty → Prop} (interprets : Interprets θ noted c.env Γ)
    (pending : Pending θ c.env Γ (declaredNames ss)) (solved : Solves θ c'.subst) :
    StmtsTyped (Context.new chapter).env false noted Γ r.2 (r.1.map (·.bind θ)) := by
  induction ss generalizing c H Γ r with
  | nil =>
    rw [inferStmts] at h
    obtain ⟨rfl, _⟩ := clean_pure.mp h
    exact .nil
  | cons s ss rest =>
    rw [Validation.checkStmts, List.append_eq_nil_iff] at valid
    rw [Stmt.bindersAll, noOperator_append] at names
    rw [declaredNames_cons] at nodup pending
    obtain ⟨_, nodup, apart⟩ := List.nodup_append.mp nodup
    obtain ⟨first, others⟩ := List.forall_mem_cons.mp ih
    obtain ⟨x, c₁, xs, hs, hss, rfl⟩ := clean_stmts_cons.mp h
    have leaves := hs.stmt placed.good
    have placed₁ := placed.leaves names.1 leaves
    obtain ⟨_, reach, _⟩ := hss.stmts leaves.good
    obtain ⟨Γ', typed, models, keeps⟩ := first _ _ _ _ _ valid.1 names.1 placed hs _ _ _ interprets
      (pending.mono (List.subset_append_left _ _)) (Reach.solves reach leaves.good.sane solved)
    have pending₁ := keeps (declaredNames ss) (fun x hx hx' => apart x hx x hx' rfl)
      (pending.mono (List.subset_append_right _ _))
    dsimp only
    rw [map_firstReturn]
    exact .cons typed (rest others valid.2 names.2 nodup placed₁ hss
      ⟨interprets.fits, interprets.agrees, models⟩ pending₁)

theorem hoisted_pending (θ : Var → Ty) (c : Context) (Γ : Env) (xs : List String) :
    Pending θ (Context.bindFresh { c with env := c.env.push } xs).env
      (Γ.push.bindMonos xs ((freshTys c.nextVar xs.length).map (·.bind θ))) xs := by
  refine .bindMonos (length_freshTys _ _) ?_
  rw [List.forall₂_map_right_iff]
  exact List.forall₂_same.mpr fun _ _ => .refl _

theorem block_sound {tag : Tag α} {body : List (Stmt α)} (ih : ∀ s ∈ body, StmtSound chapter s) :
    BlockSound chapter ⟨tag, body⟩ := by
  intro place c H r c' valid names placed h θ noted Γ interprets solved
  rw [Validation.checkBlock, List.append_eq_nil_iff] at valid
  obtain ⟨c₁, x, c₂, hoisted, stmts, rfl, rfl⟩ := clean_block.mp h
  obtain ⟨rfl, _⟩ := clean_hoist.mp hoisted
  obtain ⟨H₁, placed₁⟩ := placed.enter (NoOperator.declaredNames names)
  have typed := stmts_sound ih valid.2 names (Validation.repeats_eq_nil.mp valid.1).1 placed₁ stmts
    (interprets.enter _) (hoisted_pending θ c Γ _) solved
  have note := interprets.agrees (returnTy x.1) _ (.refl _)
  rw [bind_returnTy] at note
  rw [← stmts.declaredNames placed₁.good] at typed
  exact .mk (by rw [List.length_map, length_freshTys]) typed note

theorem Clean.joinBranches_sound {source : String} {pos : Position} {r₁ r₂ r : Option Ty}
    (h : Clean (joinBranches source pos true r₁ r₂) c r c') (good : Good c H)
    (over₁ : (returnTy r₁).Over H) (over₂ : (returnTy r₂).Over H) (solved : Solves θ c'.subst) :
    Solves θ c.subst ∧ Joins (r₁.map (·.bind θ)) (r₂.map (·.bind θ)) (r.map (·.bind θ)) := by
  rcases clean_joinBranches.mp h with ⟨rfl, rfl, rfl, rfl, _⟩ | ⟨returns, rfl, unified, _⟩
  · exact ⟨solved, .neither⟩
  · have same := equiv_of_unify good over₁ over₂ unified solved
    rw [bind_returnTy, bind_returnTy] at same
    refine ⟨(goes_unify good over₁ over₂ unified).solves solved, ?_⟩
    rw [Option.map_some, bind_returnTy]
    refine .either ?_ (.refl _) same.symm
    rwa [Option.map_eq_none_iff, Option.map_eq_none_iff]

theorem if_sound {tag : Tag α} {e : Expr α} {b : Block α} {a : Alternate α}
    (ihe : ExprSound chapter e) (ihb : BlockSound chapter b) (iha : AlternateSound chapter a) :
    IfSound chapter ⟨tag, e, b, a⟩ := by
  intro place c H r c' valid names placed h θ noted Γ interprets solved
  simp only [Validation.checkIf, List.append_eq_nil_iff] at valid
  simp only [If.binders, noOperator_append] at names
  obtain ⟨x, c₁, c₂, y, c₃, z, c₄, returned, test, checked, consequent, alternate, joined, rfl⟩ :=
    clean_if.mp h
  obtain ⟨isBoolean, _⟩ := clean_checkTest.mp checked
  obtain ⟨H₁, goes₁, over₁⟩ := test.expr placed.good
  have unified := goes_unify goes₁.good over₁ (Ty.over_prim _) isBoolean
  have goes₂ := goes₁.trans unified
  obtain ⟨H₃, goes₃, over₃⟩ := consequent.block goes₂.good
  obtain ⟨H₄, goes₄, over₄⟩ := alternate.alternate goes₃.good
  obtain ⟨solved₄, joins⟩ :=
    joined.joinBranches_sound goes₄.good (over₃.mono goes₄.subset) over₄ solved
  have solved₃ := goes₄.solves solved₄
  have solved₂ := goes₃.solves solved₃
  have note := interprets.agrees (returnTy returned) _ (.refl _)
  rw [bind_returnTy] at note
  exact .mk
    (ihe _ _ _ _ _ valid.1.1 names.1.1 placed test _ _ _ interprets (unified.solves solved₂))
    (equiv_of_unify goes₁.good over₁ (Ty.over_prim _) isBoolean solved₂)
    (ihb _ _ _ _ _ valid.1.2 names.1.2 (placed.goes goes₂) consequent _ _ _
      (interprets.goes goes₂) solved₃)
    (iha _ _ _ _ _ valid.2 names.2 (placed.goes (goes₂.trans goes₃)) alternate _ _ _
      (interprets.goes (goes₂.trans goes₃)) solved₄)
    joins note

end Statements

theorem steady_sound {s' : Stmt Verdict} {r : Option Ty} {chapter : Chapter} (goes : Goes c H c' H')
    (models : Models θ c.env Γ)
    (typed : StmtTyped (Context.new chapter).env false noted Γ s' (r.map (·.bind θ)) Γ)
    (names : List String) :
    ∃ Γ', StmtTyped (Context.new chapter).env false noted Γ s' (r.map (·.bind θ)) Γ' ∧
      Models θ c'.env Γ' ∧ ∀ xs, (∀ x ∈ names, x ∉ xs) → Pending θ c.env Γ xs →
        Pending θ c'.env Γ' xs := by
  refine ⟨Γ, typed, ?_, fun xs _ pending => ?_⟩ <;> rw [goes.env]
  · exact models
  · exact pending

theorem infer_sound (chapter : Chapter) : Hereditary (α := α) (ExprSound chapter)
    (StmtSound chapter) (BlockSound chapter) (IfSound chapter) (AlternateSound chapter) where
  number tag x place c H r c' valid names placed h θ noted Γ interprets solved := by
    rw [inferExpr] at h
    obtain ⟨rfl, _⟩ := clean_pure.mp h
    exact .number (interprets.agrees _ _ (.refl _))
  text tag s place c H r c' valid names placed h θ noted Γ interprets solved := by
    rw [inferExpr] at h
    obtain ⟨rfl, _⟩ := clean_pure.mp h
    exact .text (interprets.agrees _ _ (.refl _))
  boolean tag b place c H r c' valid names placed h θ noted Γ interprets solved := by
    rw [inferExpr] at h
    obtain ⟨rfl, _⟩ := clean_pure.mp h
    exact .boolean (interprets.agrees _ _ (.refl _))
  null tag place c H r c' valid names placed h θ noted Γ interprets solved := by
    obtain ⟨t, used, rfl⟩ := clean_null.mp h
    obtain ⟨σ, found, inst⟩ := used.useName_sound placed.good interprets.fits interprets.models
    exact .null found inst (interprets.agrees _ _ (.refl _))
  name n place c H r c' valid names placed h θ noted Γ interprets solved := by
    obtain ⟨t, used, rfl⟩ := clean_name.mp h
    obtain ⟨σ, found, inst⟩ := used.useName_sound placed.good interprets.fits interprets.models
    exact .name found inst (interprets.agrees _ _ (.refl _))
  unary _ _ _ := unary_sound
  binary _ _ _ _ := binary_sound
  conditional _ _ _ _ := conditional_sound
  call _ _ _ := call_sound
  arrow _ _ _ := arrow_sound
  arrowBlock _ _ _ := arrowBlock_sound
  assign _ _ _ := assign_sound
  declare _ _ _ _ := declare_sound
  function _ _ _ _ := function_sound
  retNothing tag place c H r c' valid names placed h θ noted Γ interprets pending solved := by
    rw [inferStmt] at h
    obtain ⟨rfl, rfl, _⟩ := clean_pure.mp h
    exact steady_sound (.refl placed.good) interprets.models
      (.retNothing (interprets.agrees _ _ (.refl _))) _
  ret tag e ih place c H r c' valid names placed h θ noted Γ interprets pending solved := by
    rw [Validation.checkStmt, List.append_eq_nil_iff] at valid
    obtain ⟨x, run, rfl⟩ := clean_return.mp h
    obtain ⟨_, goes, _⟩ := run.expr placed.good
    have typed := ih _ _ _ _ _ valid.2 names placed run _ _ _ interprets solved
    exact steady_sound goes interprets.models (.ret typed (interprets.agrees _ _ (.refl _))) _
  ifElse b ih place c H r c' valid names placed h θ noted Γ interprets pending solved := by
    obtain ⟨x, run, rfl⟩ := clean_ifElse.mp h
    obtain ⟨_, goes, _⟩ := run.if placed.good
    have typed := ih _ _ _ _ _ valid names placed run _ _ _ interprets solved
    exact steady_sound goes interprets.models (.ifElse typed) _
  block b ih place c H r c' valid names placed h θ noted Γ interprets pending solved := by
    obtain ⟨x, run, rfl⟩ := clean_blockStmt.mp h
    obtain ⟨_, goes, _⟩ := run.block placed.good
    have typed := ih _ _ _ _ _ valid names placed run _ _ _ interprets solved
    exact steady_sound goes interprets.models (.block typed) _
  expr e ih place c H r c' valid names placed h θ noted Γ interprets pending solved := by
    obtain ⟨x, run, rfl⟩ := clean_exprStmt.mp h
    obtain ⟨_, goes, _⟩ := run.expr placed.good
    have typed := ih _ _ _ _ _ valid names placed run _ _ _ interprets solved
    exact steady_sound goes interprets.models (.expr typed) _
  body _ _ := block_sound
  branch _ _ _ _ := if_sound
  absent place c H r c' valid names placed h θ noted Γ interprets solved := by
    obtain ⟨rfl, _⟩ := clean_absent.mp h
    exact .absent
  otherwise b ih place c H r c' valid names placed h θ noted Γ interprets solved := by
    obtain ⟨x, run, rfl⟩ := clean_elseBlock.mp h
    exact .block (ih _ _ _ _ _ valid names placed run _ _ _ interprets solved)
  elseIf b ih place c H r c' valid names placed h θ noted Γ interprets solved := by
    obtain ⟨x, run, rfl⟩ := clean_elseIf.mp h
    exact .elseIf (ih _ _ _ _ _ valid names placed run _ _ _ interprets solved)

end Walk

/-! ## Programs -/

open Walk

theorem Regular.exists_final {k : Nat → Bool} (regular : Regular k c H) :
    ∃ θ, Fits θ ∧ Solves θ c.subst ∧ ∀ t : Ty, t.Over H → (t.bind θ).Equiv (c.resolve t) := by
  refine ⟨through k c.subst .var .var, fits_var.through fits_var regular.respects,
    regular.solves_through, fun t overH => ?_⟩
  rw [regular.bind_through (regular.known overH).kinded, Ty.bind_var]
  exact regular.resolve_equiv overH

theorem program_sound {chapter : Chapter} {p : Program α} {a : Program Verdict}
    (valid : Validation.errors chapter p = []) (names : NoOperator p.binders)
    (h : Clean (inferProgram p) (Context.new chapter) a c) :
    a.map bare = p.map bare ∧ ∃ H, Noted H a.nodes ∧ ∃ θ, (∀ t : Ty, t.Over H →
      (t.bind θ).Equiv (c.resolve t)) ∧ ProgramTyped (Context.new chapter).env false
        (fun note T => ∃ t, note = .typed t ∧ (t.bind θ).Equiv T) a := by
  rw [Validation.errors, List.append_eq_nil_iff] at valid
  obtain ⟨c₁, x, c₂, hoisted, stmts, rfl, rfl⟩ := clean_program.mp h
  obtain ⟨rfl, _⟩ := clean_hoist.mp hoisted
  have placed : Placed (Context.new chapter).env (Context.new chapter) ∅ :=
    ⟨Prelude.new_good chapter, fun _ _ => rfl⟩
  obtain ⟨H₁, placed₁⟩ := placed.enter (NoOperator.declaredNames names)
  obtain ⟨H₂, reach, noted, same⟩ := stmts.stmts placed₁.good
  obtain ⟨k, regular⟩ := Reach.sane reach placed₁.good.sane
  obtain ⟨θ, fits, solved, final⟩ := regular.exists_final
  have interprets : Interprets θ (fun note T => ∃ t, note = .typed t ∧ (t.bind θ).Equiv T)
      (Context.new chapter).env (Context.new chapter).env :=
    ⟨fits, fun t T eqv => ⟨t, rfl, eqv⟩, .closed fun _ => Prelude.closed_new⟩
  have typed := stmts_sound (fun s _ => (infer_sound chapter).forStmt s) valid.2 names
    (Validation.repeats_eq_nil.mp valid.1).1 placed₁ stmts (interprets.enter _)
    (hoisted_pending θ _ _ _) solved
  rw [← stmts.declaredNames placed₁.good] at typed
  refine ⟨?_, H₂, noted, θ, final, _, _, by rw [List.length_map, length_freshTys], typed⟩
  rw [Program.map_eq, Program.map_eq, same]

theorem program_typed {chapter : Chapter} {p : Program α} {a : Program Verdict}
    (valid : Validation.errors chapter p = []) (names : NoOperator p.binders)
    (h : Clean (inferProgram (p.map fun _ => Verdict.pending)) (Context.new chapter) a c) :
    (a.map (·.mapTy c.resolve)).map bare = p.map bare ∧
      ProgramTyped (Context.new chapter).env false (fun note T => ∃ t, note = .typed t ∧ t.Equiv T)
        (a.map (·.mapTy c.resolve)) := by
  rw [← Validation.errors_map fun _ => Verdict.pending] at valid
  rw [← Program.binders_map fun _ => Verdict.pending] at names
  obtain ⟨same, H, noted, θ, final, typed⟩ := program_sound valid names h
  refine ⟨?_, typed.map ?_⟩
  · rw [Program.map_bare, same, Program.map_bare]
  · rintro n hn T ⟨t, note, eqv⟩
    exact ⟨c.resolve t, by rw [note]; rfl, (final t (noted n hn t note)).symm.trans eqv⟩

/-- A program that is inferred without errors is well typed, and its verdicts are the types of its
nodes. -/
theorem infer_typed {chapter : Chapter} {p : Program α} {q : Program Verdict}
    (inferred : infer chapter p = .ok (q, c)) (clean : c.errors = [])
    (names : NoOperator p.binders) :
    q.map bare = p.map bare ∧ ProgramTyped (Context.new chapter).env false
      (fun note T => ∃ t, note = .typed t ∧ t.Equiv T) q := by
  obtain ⟨valid, a, h, rfl⟩ := infer_clean.mp ⟨inferred, clean⟩
  exact program_typed valid names h

/-- One name is used before its declaration, and another at two types after it. -/
def greetings : Program Unit :=
  let tag : Tag Unit := ⟨{}, ()⟩
  let name (x : String) : Name Unit := ⟨tag, x⟩
  let use (x : String) : Expr Unit := .name (name x)
  let arrow (x : String) (body : Expr Unit) : Expr Unit := .arrow tag [name x] body
  let call (f x : Expr Unit) : Expr Unit := .call tag f [x]
  ⟨[.declare tag .constant (name "greet") (arrow "s" (call (use "exclaim") (use "s"))),
    .declare tag .constant (name "exclaim")
      (arrow "s" (.binary tag .add (use "s") (.text tag "!"))),
    .declare tag .constant (name "twice")
      (arrow "f" (arrow "x" (call (use "f") (call (use "f") (use "x"))))),
    .expr (call (call (use "twice") (arrow "b" (.unary tag .not (use "b")))) (.boolean tag true)),
    .expr (call (call (call (use "twice") (use "twice")) (use "greet")) (.text tag "hello"))]⟩

theorem infer_typed_greetings :
    ∃ q c, (infer .one greetings = .ok (q, c) ∧ c.errors = [] ∧ NoOperator greetings.binders) ∧
      q.map bare = greetings.map bare ∧ ProgramTyped (Context.new .one).env false
        (fun note T => ∃ t, note = .typed t ∧ t.Equiv T) q := by
  have names : NoOperator greetings.binders := by
    unfold NoOperator
    decide +kernel
  have accepted : ∃ q c, infer .one greetings = .ok (q, c) ∧ c.errors = [] :=
    exists_infer (by decide +kernel) (by decide +kernel)
  obtain ⟨q, c, inferred, clean⟩ := accepted
  exact ⟨q, c, ⟨inferred, clean, names⟩, infer_typed inferred clean names⟩

/-- A parameter hides `+`. -/
def masked : Program Unit :=
  let tag : Tag Unit := ⟨{}, ()⟩
  ⟨[.expr (.arrow tag [⟨tag, BinaryOp.add.key⟩]
    (.binary tag .add (.number tag 1) (.boolean tag true)))]⟩

/-- The condition on names is needed: nothing is asked of the operands of an operator that a name of
the program hides, and so a program without errors need not be well typed. -/
theorem masked_not_typed : (∃ q c, infer .one masked = .ok (q, c) ∧ c.errors = []) ∧
    ¬ProgramTyped (Context.new .one).env false anything masked := by
  refine ⟨exists_infer (by decide +kernel) (by decide +kernel), ?_⟩
  rintro ⟨_, _, _, stmts⟩
  cases stmts with
  | cons first _ =>
    cases first with
    | expr value =>
      cases value with
      | arrow _ body _ =>
        cases body with
        | binary found left right inst _ =>
          cases left
          cases right
          cases found
          obtain ⟨ι, _, eqv⟩ := inst
          -- Both parameters of the operator are one variable.
          obtain ⟨params, _⟩ := eqv.func_inv
          obtain ⟨number, params⟩ := List.forall₂_cons.mp params
          obtain ⟨boolean, _⟩ := List.forall₂_cons.mp params
          have same : Ty.number.Equiv .boolean := number.symm.trans boolean
          cases same.eq_prim

end Polytype
