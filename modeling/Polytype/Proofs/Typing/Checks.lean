import Polytype.Proofs.Prelude
import Polytype.Proofs.Typing.Models
import Polytype.Proofs.Walk.Contexts

/-!
# Checks in a solution

Every check of a clean run is an equation that holds in all solutions of what is known afterwards. A
name is used at an instance of its scheme, an operator at one of its scheme in the prelude, and a
callee is a function from the arguments to the result. A declaration leaves its name with a scheme
that has its uses before as instances.
-/

namespace Polytype

variable {c c' : Context} {H : Set Var} {θ : Var → Ty} {Γ : Env}

namespace Walk

theorem Clean.lookup_sound {x : String} {scheme : Scheme} {t : Ty} (good : Good c H)
    (found : c.env.lookup x = some scheme) (h : Clean (instantiate scheme) c t c') (fits : Fits θ)
    (models : Models θ c.env Γ) : ∃ σ, Γ.lookup x = some σ ∧ σ.Instance (t.bind θ) := by
  obtain ⟨rfl, rfl, _⟩ := clean_instantiate.mp h
  obtain ⟨σ, found', covers⟩ := models x scheme found
  obtain ⟨ren, H', _, _, inst⟩ := good.instantiate (Env.mem_entries_lookup found)
  rw [inst.bind θ]
  exact ⟨σ, found', covers _ (inst.admits fits)⟩

theorem Clean.useName_sound {x : String} {pos : Position} {t : Ty} (good : Good c H)
    (h : Clean (useName x pos) c t c') (fits : Fits θ) (models : Models θ c.env Γ) :
    ∃ σ, Γ.lookup x = some σ ∧ σ.Instance (t.bind θ) := by
  obtain ⟨scheme, found, inst⟩ := clean_useName.mp h
  exact lookup_sound good found inst fits models

theorem Clean.checkOperands_sound {params operands : List Ty} {construct : Construct}
    {operator source : String} {pos : Position} {pairs : List (Ty × Ty)} {u : Unit} (good : Good c H)
    (among : ∀ pair ∈ pairs, pair ∈ params.zip operands) (overp : ∀ t ∈ params, t.Over H)
    (overo : ∀ t ∈ operands, t.Over H)
    (h : Clean (checkOperands params operands construct operator source pos pairs) c u c')
    (solved : Solves θ c'.subst) : ∀ pair ∈ pairs, (pair.1.bind θ).Equiv (pair.2.bind θ) := by
  induction pairs generalizing c with
  | nil => simp
  | cons pair rest ih =>
    obtain ⟨param, operand⟩ := pair
    obtain ⟨mem, among⟩ := List.forall_mem_cons.mp among
    obtain ⟨left, right⟩ := List.of_mem_zip mem
    obtain ⟨c₁, ⟨unified, _⟩, h⟩ := clean_checkOperands_cons.mp h
    have goes := goes_unify good (overp _ left) (overo _ right) unified
    refine List.forall_mem_cons.mpr ⟨?_, ih goes.good among h⟩
    obtain ⟨_, goes', _⟩ := h.goes (checkOperands_steady _ _ _ _ _ _ _ among overp overo) goes.good
    exact equiv_of_unify good (overp _ left) (overo _ right) unified (goes'.solves solved)

theorem instance_of_used {key : String} {pos : Position} {σ : Scheme} {t : Ty}
    (found : c.env.lookup key = some σ) (h : Clean (useName key pos) c t c') :
    t = (c.instantiate σ).1 ∧ c' = (c.instantiate σ).2 := by
  obtain ⟨σ', found', inst⟩ := clean_useName.mp h
  cases found.symm.trans found'
  obtain ⟨rfl, rfl, _⟩ := clean_instantiate.mp inst
  exact ⟨rfl, rfl⟩

theorem Clean.useOperator_sound {key operator source : String} {construct : Construct}
    {operands ps : List Ty} {pos : Position} {vars : List Var} {r t : Ty} (good : Good c H)
    (overH : ∀ o ∈ operands, o.Over H) (found : c.env.lookup key = some ⟨vars, .func ps r⟩)
    (arity : ps.length = operands.length) (closed : ∀ v, ¬Scheme.Free ⟨vars, .func ps r⟩ v)
    (h : Clean (useOperator key operator source construct operands pos) c t c') (fits : Fits θ)
    (solved : Solves θ c'.subst) :
    Scheme.Instance ⟨vars, .func ps r⟩ (.func (operands.map (·.bind θ)) (t.bind θ)) := by
  obtain ⟨ren, H₁, goes, over₁, inst⟩ := good.instantiate (Env.mem_entries_lookup found)
  have shape := inst.ty
  rw [Ty.bind, Ty.bindAll_eq] at shape
  obtain ⟨params, result, c₁, name, checked, rfl⟩ := (clean_useOperator fun t c₁ h =>
    ⟨_, _, (instance_of_used found h).1.trans shape⟩).mp h
  obtain ⟨eq, rfl⟩ := instance_of_used found name
  have arity' : params.length = operands.length := by
    rw [← eq, Ty.func.injEq] at shape
    rw [shape.1, List.length_map, arity]
  rw [← eq] at over₁ inst
  obtain ⟨overp, overr⟩ := Ty.over_func.mp over₁
  have overo : ∀ o ∈ operands, o.Over H₁ := fun o ho => (overH o ho).mono goes.subset
  have same := checkOperands_sound goes.good (fun _ => id) overp overo checked solved
  obtain ⟨H₂, goes₂, _⟩ := checked.goes
    (checkOperands_steady _ _ _ _ _ _ _ (fun _ => id) overp overo) goes.good
  have parts : List.Forall₂ Ty.Equiv (params.map (·.bind θ)) (operands.map (·.bind θ)) := by
    rw [List.forall₂_map_left_iff, List.forall₂_map_right_iff, List.forall₂_iff_zip]
    exact ⟨arity', fun mem => same _ mem⟩
  refine ⟨fun v => θ (ren v), inst.admits fits, ?_⟩
  rw [Scheme.fill_closed closed, ← inst.bind θ, Ty.bind, Ty.bindAll_eq]
  exact .func parts (goes₂.good.sane.equiv_apply (overr.mono goes₂.subset) solved)

/-! ## Calls -/

theorem Clean.collapseList_sound {s t : Ty} (good : Good c H) (overH : s.Over H)
    (h : Clean (collapseList s) c t c') (solved : Solves θ c'.subst) :
    (s.bind θ).Equiv (t.bind θ) := by
  -- A list and a pair of its element and itself are one type, so nothing is lost.
  unfold collapseList at h
  split at h
  next head element =>
    have run := (collapseList_run head element c).symm.trans h.1
    have parts : head.Over H ∧ element.Over H := by simpa using overH
    cases unseen : c.unifyUnseen? element head with
    | none =>
      rw [unseen] at run
      cases run
      exact .refl _
    | some c₁ =>
      rw [unseen] at run
      cases run
      obtain ⟨f, found, eq⟩ := commit_of_unifyUnseen? unseen
      have unified : c.unify element head = .ok c' := unify_eq_ok.mpr ⟨f, found, eq⟩
      have same := equiv_of_unify good parts.2 parts.1 unified solved
      have goes := goes_unify good parts.2 parts.1 unified
      have folded : ((Ty.pair head (.list element)).bind θ).Equiv ((Ty.list element).bind θ) :=
        (same.symm.head _).trans (.symm (.fold _))
      exact folded.trans (goes.good.sane.equiv_apply (Ty.over_list.mpr parts.2) solved)
  next =>
    obtain ⟨rfl, rfl, _⟩ := clean_pure.mp h
    exact .refl _

theorem Clean.useCallee_sound {callee t : Ty} {args : List Ty} {source : String} {pos : Position}
    (good : Good c H) (overc : callee.Over H) (overa : ∀ a ∈ args, a.Over H)
    (h : Clean (useCallee callee args source pos) c t c') (solved : Solves θ c'.subst) :
    (callee.bind θ).Equiv (.func (args.map (·.bind θ)) (t.bind θ)) := by
  obtain ⟨_, h⟩ := clean_useCallee.mp h
  obtain ⟨c₁, ⟨unified, _⟩, h⟩ := clean_applyCallee.mp h
  have seen := good.see overc
  have fresh := seen.good.fresh false
  have known : (c.apply callee).Over (insert (c.freshVar false).1 (H ∪ {v | v ∈ (c.apply callee).vars})) :=
    fun v hv => .inr (.inr hv)
  have result : c.freshTy.1.Over (insert (c.freshVar false).1 (H ∪ {v | v ∈ (c.apply callee).vars})) :=
    Ty.over_var.mpr (Set.mem_insert _ _)
  have expected := Ty.over_func.mpr
    ⟨fun a ha => (overa a ha).mono (seen.trans fresh).subset, result⟩
  have goes := goes_unify fresh.good known expected unified
  have applied := goes.good.see result
  have collapsed := collapseList_sound applied.good (fun v hv => .inr hv) h solved
  obtain ⟨_, goes', _⟩ := h.goes (collapseList_steady fun v hv => .inr hv) applied.good
  have solved₁ := goes'.solves solved
  have callees := good.sane.equiv_apply overc ((seen.trans (fresh.trans goes)).solves solved₁)
  have unifies := equiv_of_unify fresh.good known expected unified solved₁
  have results := (goes.good.sane.equiv_apply result solved₁).trans collapsed
  rw [Ty.bind, Ty.bindAll_eq] at unifies
  exact (callees.trans unifies).trans (.result _ results)

/-! ## Declarations -/

section Declare

variable {name source : String} {binding : Binding} {pos : Position} {t p P : Ty} {note : Verdict}

theorem declared_equiv (good : Good c H) (binding : Binding) (overH : t.Over H)
    (solved : Solves θ c.subst) : (t.bind θ).Equiv ((declared binding c t).ty.bind θ) := by
  unfold declared
  split
  · exact good.sane.equiv_resolve overH solved
  · exact good.sane.equiv_apply overH solved

theorem Clean.declare_before (h : Clean (declare name binding source pos 0 t) c note c')
    (found : c.env.lookupLocal name = some (.mono p)) (good : Good c H) (overH : t.Over H)
    (solved : Solves θ c'.subst) (before : (p.bind θ).Equiv P) :
    Solves θ c.subst ∧ (t.bind θ).Equiv P ∧ ∃ u, note = .typed u ∧ (u.bind θ).Equiv P := by
  obtain ⟨c₁, H₁, scheme, goes, same, eq, rfl, rfl⟩ := h.placeholder found good overH
  have own : (t.bind θ).Equiv P := (same θ solved).symm.trans before
  have erased : Good { c₁ with env := c₁.env.erase name } H₁ :=
    goes.good.drop fun _ => Env.mem_entries_erase
  have known := declared_equiv erased binding (overH.mono goes.subset) solved
  rw [← eq] at known
  exact ⟨goes.solves solved, own, scheme.ty, rfl, known.symm.trans own⟩

theorem Clean.declare_mutable (h : Clean (declare name (.value .mutable) source pos 0 t) c note c')
    (found : c.env.lookupLocal name = some (.mono p)) (good : Good c H) (overH : t.Over H)
    (solved : Solves θ c'.subst) (before : (p.bind θ).Equiv P) (models : Models θ c.env Γ) :
    Models θ c'.env (Γ.bind name (.mono P)) := by
  obtain ⟨c₁, H₁, scheme, goes, same, rfl, rfl, rfl⟩ := h.placeholder found good overH
  refine models.bind (.mono ?_) name
  have known := goes.good.sane.equiv_apply (overH.mono goes.subset) solved
  exact known.symm.trans ((same θ solved).symm.trans before)

/-- For the declaration itself there is a solution of its own, in which what is to be quantified is
left open. -/
theorem Clean.declare_general (h : Clean (declare name binding source pos 0 t) c note c')
    (general : binding.isGeneral = true) (found : c.env.lookupLocal name = some (.mono p))
    (good : Good c H) (overH : t.Over H) (fits : Fits θ) (solved : Solves θ c'.subst)
    (found' : Γ.lookupLocal name = some (.mono P)) (before : (p.bind θ).Equiv P)
    (models : Models θ c.env Γ) :
    ∃ θ' M σ, Fits θ' ∧ Solves θ' c.subst ∧ Models θ' c.env (Γ.bind name (.mono M)) ∧
      (t.bind θ').Equiv M ∧ Declares false Γ name P M σ ∧ Models θ c'.env (Γ.bind name σ) := by
  obtain ⟨_, _, u, noteEq, known⟩ := h.declare_before found good overH solved before
  obtain ⟨c₁, H₁, scheme, goes, same, eq, rfl, rfl⟩ := h.placeholder found good overH
  rw [declared, if_pos general] at eq
  have erased : Good { c₁ with env := c₁.env.erase name } H₁ :=
    goes.good.drop fun _ => Env.mem_entries_erase
  obtain ⟨θ', M, σ, fits', solved', own, agree, generalizes, covers⟩ :=
    erased.exists_generic (overH.mono goes.subset) fits solved (Γ.erase name)
  rw [← eq] at covers
  refine ⟨θ', M, σ, fits', goes.solves solved', ?_, own, ⟨found', generalizes, ?_, by simp⟩,
    models.bind covers name⟩
  · rw [goes.env] at agree
    exact models.rebind found ((same θ' solved').trans own) agree
  · -- The type before the declaration is the instance at the solution itself.
    have inst := covers θ fun v _ flag => fits v flag
    rw [Scheme.fill] at inst
    simp only [ite_self] at inst
    cases noteEq
    exact inst.congr known

end Declare

/-! ## Places in a program -/

/-- Where inference has come to. -/
structure Placed (prelude : Env) (c : Context) (H : Set Var) : Prop where
  good : Good c H
  keeps : Keeps prelude c.env

namespace Placed

variable {prelude : Env}

theorem goes {H' : Set Var} (h : Placed prelude c H) (goes : Goes c H c' H') : Placed prelude c' H' :=
  ⟨goes.good, goes.env ▸ h.keeps⟩

theorem enter (h : Placed prelude c H) {xs : List String} (names : NoOperator xs) :
    ∃ H', Placed prelude (Context.bindFresh { c with env := c.env.push } xs) H' := by
  obtain ⟨H', _, good, _⟩ := h.good.push.bindFresh xs
  exact ⟨H', good, h.keeps.bindMonos names _⟩

theorem leaves {α : Type} {s : Stmt α} (h : Placed prelude c H) (names : NoOperator s.binders)
    (leaves : Leaves s c H c') : Placed prelude c' ∅ := by
  refine ⟨leaves.good, ?_⟩
  rcases leaves.env with env | ⟨n, σ, declared, env⟩ <;> rw [env]
  · exact h.keeps
  · exact h.keeps.bind (names _ (mem_binders_of_declared declared)) σ

end Placed

end Walk

end Polytype
