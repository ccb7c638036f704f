import Polytype.Proofs.Typing.Rules
import Polytype.Proofs.Walk.Clean

/-!
# Contexts along clean runs

What a clean run leaves behind, step by step: contexts stay good, equations that were found are kept,
and a scope that was opened is closed again. Parameters and declared names get fresh variables, and a
declaration binds its name again in the innermost scope.
-/

namespace Polytype

variable {α β : Type} {c c' c'' : Context} {H H' : Set Var} {θ : Var → Ty}

/-! ## Environments -/

namespace Env

theorem bind_erase (env : Env) (x : String) (σ : Scheme) : (env.erase x).bind x σ = env.bind x σ := by
  have twice (scope : Scope) : Scope.bind x σ (Scope.erase x scope) = Scope.bind x σ scope := by
    simp [Scope.bind, Scope.erase]
  obtain ⟨outermost, inner⟩ := env
  cases inner <;> simp [erase, bind, modify, twice]

end Env

/-! ## Good runs -/

/-- A run between good contexts that leaves the environment as it was. -/
structure Goes (c : Context) (H : Set Var) (c' : Context) (H' : Set Var) : Prop where
  start : Good c H
  reach : Reach (c, H) (c', H')
  env : c'.env = c.env

namespace Goes

theorem good (h : Goes c H c' H') : Good c' H' := h.reach.good h.start h.env

theorem subset (h : Goes c H c' H') : H ⊆ H' := Reach.held_subset h.reach

theorem solves (h : Goes c H c' H') (solved : Solves θ c'.subst) : Solves θ c.subst :=
  Reach.solves h.reach h.start.sane solved

theorem refl (h : Good c H) : Goes c H c H := ⟨h, .refl, rfl⟩

theorem trans {H'' : Set Var} (h : Goes c H c' H') (h' : Goes c' H' c'' H'') : Goes c H c'' H'' :=
  ⟨h.start, h.reach.trans h'.reach, h'.env.trans h.env⟩

end Goes

namespace Walk

theorem Steady.goes {m : Walk β} {post : β → Set Var → Prop} (steady : Steady m c H post)
    (good : Good c H) : ∃ H', Goes c H (m.run c).2 H' ∧ post (m.run c).1 H' := by
  obtain ⟨H', reach, env, hpost⟩ := steady good.sane
  exact ⟨H', ⟨good, reach, env⟩, hpost⟩

theorem Clean.goes {m : Walk β} {r : β} {post : β → Set Var → Prop} (h : Clean m c r c')
    (steady : Steady m c H post) (good : Good c H) : ∃ H', Goes c H c' H' ∧ post r H' := by
  have goes := steady.goes good
  rwa [h.1] at goes

theorem Clean.expr {e : Expr α} {r : Ty × Expr Verdict} (h : Clean (inferExpr e) c r c')
    (good : Good c H) : ∃ H', Goes c H c' H' ∧ r.1.Over H' := by
  obtain ⟨H', goes, overH, _⟩ := h.goes (infer_traced.forExpr e c H) good
  exact ⟨H', goes, overH⟩

theorem Clean.exprs {es : List (Expr α)} {r : List Ty × List (Expr Verdict)}
    (h : Clean (inferExprs es) c r c') (good : Good c H) :
    ∃ H', Goes c H c' H' ∧ ∀ t ∈ r.1, t.Over H' := by
  obtain ⟨H', goes, overH, _⟩ :=
    h.goes (inferExprs_steady es fun e _ => infer_traced.forExpr e) good
  exact ⟨H', goes, overH⟩

theorem Clean.block {b : Block α} {r : Option Ty × Block Verdict} (h : Clean (inferBlock b) c r c')
    (good : Good c H) : ∃ H', Goes c H c' H' ∧ (returnTy r.1).Over H' := by
  obtain ⟨H', goes, overH, _⟩ := h.goes (infer_traced.forBlock b c H) good
  exact ⟨H', goes, returnTy_over overH⟩

theorem Clean.if {b : If α} {r : Option Ty × If Verdict} (h : Clean (inferIf b) c r c')
    (good : Good c H) : ∃ H', Goes c H c' H' ∧ (returnTy r.1).Over H' := by
  obtain ⟨H', goes, overH, _⟩ := h.goes (infer_traced.forIf b c H) good
  exact ⟨H', goes, returnTy_over overH⟩

theorem Clean.alternate {a : Alternate α} {r : Option Ty × Bool × Alternate Verdict}
    (h : Clean (inferAlternate a) c r c') (good : Good c H) :
    ∃ H', Goes c H c' H' ∧ (returnTy r.1).Over H' := by
  obtain ⟨H', goes, overH, _⟩ := h.goes (infer_traced.forAlternate a c H) good
  exact ⟨H', goes, returnTy_over overH⟩

end Walk

/-! ## Steps -/

theorem goes_unify {a b : Ty} (good : Good c H) (ha : a.Over H) (hb : b.Over H)
    (unified : c.unify a b = .ok c') : Goes c H c' H := by
  obtain ⟨f, found, rfl⟩ := Walk.unify_eq_ok.mp unified
  exact ⟨good, .single (.commit ha hb found), rfl⟩

theorem equiv_of_unify {a b : Ty} (good : Good c H) (ha : a.Over H) (hb : b.Over H)
    (unified : c.unify a b = .ok c') (solved : Solves θ c'.subst) :
    (a.bind θ).Equiv (b.bind θ) := by
  obtain ⟨f, found, rfl⟩ := Walk.unify_eq_ok.mp unified
  obtain ⟨k, regular⟩ := good.sane
  exact (regular.commit ha hb found).equates solved

theorem Sane.equiv_apply (sane : Sane c H) {t : Ty} (ht : t.Over H) (solved : Solves θ c.subst) :
    (t.bind θ).Equiv ((c.apply t).bind θ) := by
  obtain ⟨k, regular⟩ := sane
  exact solved.apply regular.idempotent regular.respects (regular.known ht).kinded

theorem Sane.equiv_resolve (sane : Sane c H) {t : Ty} (ht : t.Over H) (solved : Solves θ c.subst) :
    (t.bind θ).Equiv ((c.resolve t).bind θ) := by
  have known := sane.equiv_apply ht solved
  obtain ⟨k, regular⟩ := sane
  exact known.trans ((regular.resolve_equiv ht).bind_same θ)

theorem Good.see (good : Good c H) {t : Ty} (ht : t.Over H) :
    Goes c H c (H ∪ {v | v ∈ (c.apply t).vars}) := ⟨good, .single (.see ht), rfl⟩

theorem Good.fresh (good : Good c H) (addable : Bool) :
    Goes c H (c.freshVar addable).2 (insert (c.freshVar addable).1 H) :=
  ⟨good, .single (.fresh c H addable), rfl⟩

theorem Good.instantiate (good : Good c H) {x : String} {σ : Scheme}
    (found : (x, σ) ∈ c.env.entries) :
    ∃ (ren : Var → Var) (H' : Set Var), Goes c H (c.instantiate σ).2 H' ∧
      (c.instantiate σ).1.Over H' ∧
      Instantiated c σ ren (c.instantiate σ).1 (c.instantiate σ).2 := by
  obtain ⟨k, regular⟩ := good.sane
  obtain ⟨ren, H', reach, overH, inst⟩ := regular.instantiate found
  refine ⟨ren, H', ⟨good, reach, ?_⟩, overH, inst⟩
  rw [inst.context]

/-! ## Scopes -/

theorem Good.push (good : Good c H) : Good { c with env := c.env.push } H := good.drop fun _ he => he

theorem Good.pop (good : Good c H) : Good { c with env := c.env.pop } H :=
  good.drop fun _ => Env.mem_entries_pop

/-- So many fresh plain variables from the number `n` on. -/
def freshTys (n : Nat) : Nat → List Ty
  | 0 => []
  | count + 1 => .var ⟨n, false⟩ :: freshTys (n + 1) count

@[simp] theorem length_freshTys (n count : Nat) : (freshTys n count).length = count := by
  induction count generalizing n with
  | zero => rfl
  | succ count ih => rw [freshTys, List.length_cons, ih]

/-- The context after names have been bound to fresh variables. -/
def Context.bindFresh (c : Context) (xs : List String) : Context :=
  { c with nextVar := c.nextVar + xs.length,
           env := c.env.bindMonos xs (freshTys c.nextVar xs.length) }

theorem Context.bindFresh_cons (c : Context) (x : String) (xs : List String) :
    c.bindFresh (x :: xs) =
      Context.bindFresh { c with nextVar := c.nextVar + 1,
                                 env := c.env.bind x (.mono (.var ⟨c.nextVar, false⟩)) } xs := by
  simp only [bindFresh, List.length_cons, Nat.add_assoc, Nat.add_comm 1]
  rfl

theorem Good.bindFresh (good : Good c H) (xs : List String) :
    ∃ H', H ⊆ H' ∧ Good (c.bindFresh xs) H' ∧ ∀ t ∈ freshTys c.nextVar xs.length, t.Over H' := by
  induction xs generalizing c H with
  | nil => exact ⟨H, subset_rfl, good, by simp [freshTys]⟩
  | cons x xs ih =>
    have fresh := good.fresh false
    have held : (Ty.var (c.freshVar false).1).Over (insert (c.freshVar false).1 H) :=
      Ty.over_var.mpr (Set.mem_insert _ _)
    obtain ⟨H', sub, good', overH⟩ := ih (fresh.good.bindMono x held)
    rw [Context.bindFresh_cons]
    refine ⟨H', fresh.subset.trans sub, good', ?_⟩
    rw [List.length_cons, freshTys, List.forall_mem_cons]
    exact ⟨held.mono sub, overH⟩

namespace Walk

theorem bindParams_run (ps : List (Name α)) (c : Context) : (bindParams ps).run c =
    ((freshTys c.nextVar ps.length,
      List.zipWith (fun p t => p.annotate (.typed t)) ps (freshTys c.nextVar ps.length)),
      c.bindFresh (ps.map (·.text))) := by
  induction ps generalizing c with
  | nil => rfl
  | cons p ps ih =>
    rw [bindParams, run_bind, run_bind, run_bind, ih, List.map_cons, Context.bindFresh_cons]
    rfl

theorem hoist_run (body : List (Stmt α)) (c : Context) :
    (hoist body).run c = ((), c.bindFresh (declaredNames body)) := by
  induction body generalizing c with
  | nil => rfl
  | cons s body ih =>
    unfold hoist declaredNames
    rw [List.filterMap_cons]
    cases s.declared? with
    | none => exact ih c
    | some n =>
      rw [List.map_cons, Context.bindFresh_cons]
      exact ih _

theorem clean_bindParams {ps : List (Name α)} {r : List Ty × List (Name Verdict)} :
    Clean (bindParams ps) c r c' ↔
      r = (freshTys c.nextVar ps.length,
        List.zipWith (fun p t => p.annotate (.typed t)) ps (freshTys c.nextVar ps.length)) ∧
      c' = c.bindFresh (ps.map (·.text)) ∧ c.errors = [] :=
  clean_of_run (bindParams_run ps c) rfl

theorem clean_hoist {body : List (Stmt α)} {u : Unit} :
    Clean (hoist body) c u c' ↔ c' = c.bindFresh (declaredNames body) ∧ c.errors = [] := by
  rw [clean_of_run (hoist_run body c) rfl, and_iff_right rfl]

/-! ## Declarations -/

theorem good_declared (good : Good c H) (name : String) (binding : Binding) {t : Ty} (ht : t.Over H)
    {scheme : Scheme} (h : scheme = declared binding { c with env := c.env.erase name } t) :
    Good { c with env := (c.env.erase name).bind name scheme } ∅ := by
  have erased : Good { c with env := c.env.erase name } H :=
    good.drop fun _ => Env.mem_entries_erase
  subst h
  unfold declared
  split
  · exact erased.generalize name ht
  · have seen := (erased.see ht).good
    exact (seen.bindMono name (t := c.apply t) fun v hv => .inr hv).mono (Set.empty_subset _)

section Declare

variable {name : String} {binding : Binding} {source : String} {pos : Position} {t : Ty}
  {note : Verdict}

theorem Clean.rebinds (h : Clean (declare name binding source pos 0 t) c note c') (good : Good c H)
    (overH : t.Over H) : Good c' ∅ ∧ ∃ σ, c'.env = c.env.bind name σ := by
  obtain ⟨c₁, scheme, checked, eq, -, rfl⟩ := clean_declare.mp h
  obtain ⟨H₁, goes, _⟩ := checked.goes (checkPlaceholder_steady name binding source pos overH) good
  refine ⟨good_declared goes.good name binding (overH.mono goes.subset) eq, scheme, ?_⟩
  rw [Env.bind_erase, goes.env]

theorem Clean.placeholder {p : Ty} (h : Clean (declare name binding source pos 0 t) c note c')
    (found : c.env.lookupLocal name = some (.mono p)) (good : Good c H) (overH : t.Over H) :
    ∃ c₁ H₁ scheme, Goes c H c₁ H₁ ∧
      (∀ θ, Solves θ c₁.subst → (p.bind θ).Equiv (t.bind θ)) ∧
      scheme = declared binding { c₁ with env := c₁.env.erase name } t ∧
      note = .typed scheme.ty ∧ c' = { c₁ with env := c.env.bind name scheme } := by
  obtain ⟨c₁, scheme, checked, eq, rfl, rfl⟩ := clean_declare.mp h
  obtain ⟨expected, c₂, inst, same⟩ := (clean_checkPlaceholder found).mp checked
  obtain ⟨rfl, rfl, _⟩ : expected = p ∧ c₂ = c ∧ _ := clean_instantiate.mp inst
  obtain ⟨unified, _⟩ := clean_checkSame.mp same
  have used : Goes c₂ H c₂ (H ∪ {v | (Scheme.mono expected).Free v}) :=
    ⟨good, .single (.use (Env.mem_entries_lookupLocal found)), rfl⟩
  have overp : expected.Over (H ∪ {v | (Scheme.mono expected).Free v}) :=
    fun v hv => .inr ⟨hv, List.not_mem_nil⟩
  have overt := overH.mono used.subset
  have goes := used.trans (goes_unify used.good overp overt unified)
  refine ⟨c₁, _, scheme, goes, fun θ => equiv_of_unify used.good overp overt unified, eq, rfl, ?_⟩
  rw [Env.bind_erase, goes.env]

end Declare

theorem Clean.function {tag : Tag α} {name : Name α} {ps : List (Name α)} {body : Block α}
    {r : Option Ty × Stmt Verdict} (h : Clean (inferStmt (.function tag name ps body)) c r c') :
    ∃ t tag' ps' body' c₁ note,
      Clean (inferExpr (.arrowBlock tag ps body)) c (t, .arrowBlock tag' ps' body') c₁ ∧
      Clean (declare name.text .function (Stmt.functionHeader name ps) tag.pos 0 t) c₁ note c' ∧
      r = (none, .function (tag.annotate note) (name.annotate note) ps' body') := by
  obtain ⟨xs, c₁, y, c₂, note, params, block, bound, rfl⟩ := clean_function.mp h
  exact ⟨_, _, xs.2, y.2, _, note,
    clean_arrowBlock.mpr ⟨xs, c₁, y, c₂, params, block, rfl, rfl⟩, bound, rfl⟩

/-- What a statement leaves behind. If it declares a name, the name is bound again. -/
structure Leaves (s : Stmt α) (c : Context) (H : Set Var) (c' : Context) : Prop where
  start : Good c H
  reach : ∃ H', Reach (c, H) (c', H')
  good : Good c' ∅
  env : c'.env = c.env ∨ ∃ n σ, s.declared? = some n ∧ c'.env = c.env.bind n.text σ

theorem Clean.stmt {s : Stmt α} {r : Option Ty × Stmt Verdict} (h : Clean (inferStmt s) c r c')
    (good : Good c H) : Leaves s c H c' := by
  obtain ⟨H', reach, _⟩ := infer_traced.forStmt s c H good.sane
  rw [h.1] at reach
  have steady {H'' : Set Var} (goes : Goes c H c' H'') : Leaves s c H c' :=
    ⟨good, ⟨H', reach⟩, goes.good.mono (Set.empty_subset _), .inl goes.env⟩
  cases s with
  | declare tag keyword n e =>
    obtain ⟨x, c₁, note, init, bound, _⟩ := clean_declaration.mp h
    obtain ⟨H₁, goes, overH⟩ := init.expr good
    obtain ⟨good', σ, env⟩ := bound.rebinds goes.good overH
    exact ⟨good, ⟨H', reach⟩, good', .inr ⟨n, σ, rfl, by rw [env, goes.env]⟩⟩
  | function tag n ps body =>
    obtain ⟨t, _, _, _, c₁, note, init, bound, _⟩ := h.function
    obtain ⟨H₁, goes, overH⟩ := init.expr good
    obtain ⟨good', σ, env⟩ := bound.rebinds goes.good overH
    exact ⟨good, ⟨H', reach⟩, good', .inr ⟨n, σ, rfl, by rw [env, goes.env]⟩⟩
  | ret tag e =>
    cases e with
    | none =>
      rw [inferStmt] at h
      obtain ⟨_, rfl, _⟩ := clean_pure.mp h
      exact steady (.refl good)
    | some e =>
      obtain ⟨x, h, _⟩ := clean_return.mp h
      obtain ⟨_, goes, _⟩ := h.expr good
      exact steady goes
  | ifElse b =>
    obtain ⟨x, h, _⟩ := clean_ifElse.mp h
    obtain ⟨_, goes, _⟩ := h.if good
    exact steady goes
  | block b =>
    obtain ⟨x, h, _⟩ := clean_blockStmt.mp h
    obtain ⟨_, goes, _⟩ := h.block good
    exact steady goes
  | expr e =>
    obtain ⟨x, h, _⟩ := clean_exprStmt.mp h
    obtain ⟨_, goes, _⟩ := h.expr good
    exact steady goes

theorem Clean.stmts {ss : List (Stmt α)} {r : Option Ty × List (Stmt Verdict)}
    (h : Clean (inferStmts ss) c r c') (good : Good c H) :
    ∃ H', Reach (c, H) (c', H') ∧ Noted H' (Stmt.nodesAll r.2) ∧
      r.2.map (Stmt.mapNotes bare) = ss.map (Stmt.mapNotes bare) := by
  obtain ⟨H', reach, _, _, noted, same⟩ :=
    inferStmts_traced ss (fun s _ => infer_traced.forStmt s) good.sane
  rw [h.1] at reach noted same
  exact ⟨H', reach, noted, same⟩

theorem Clean.declaredNames {ss : List (Stmt α)} {r : Option Ty × List (Stmt Verdict)}
    (h : Clean (inferStmts ss) c r c') (good : Good c H) :
    declaredNames r.2 = declaredNames ss := by
  obtain ⟨_, _, _, same⟩ := h.stmts good
  rw [← declaredNames_map bare, same, declaredNames_map]

end Walk

end Polytype
