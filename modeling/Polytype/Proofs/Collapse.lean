import Polytype.Proofs.Commitments
import Polytype.Proofs.Schemes

/-!
# Collapsing lists

A pair of a head and a list is given the list type if head and element can be unified without a
binding that the environment sees. The unification is tried first, and what it finds is committed
only if it keeps to variables that are not visible (`Walk.unifyUnseen`).

`Context.Spares` says what that leaves alone: visible variables stay as they are, and so does every
type that is known in terms of them, such as the type of a parameter. Composing the old substitution
with the new bindings reaches no visible variable indirectly, since the old types are known up to
unbound variables and the new bindings are applied to them once. So a collapse only settles what
nothing else depends on (`collapse_spares`).
-/

namespace Polytype

variable {c c' : Context} {a b : Ty}

/-! ## What the environment sees -/

/-- Of what `c` knows, `c'` has changed at most the substitution, and nothing that the environment of
`c` can see. -/
structure Context.Spares (c c' : Context) : Prop where
  rest : c' = { c with subst := c'.subst }
  visible {v : Var} (seen : c.visible.has v = true) : c'.apply (.var v) = .var v
  apply {t : Ty} (seen : ∀ v ∈ (c.apply t).vars, c.visible.has v = true) : c'.apply t = c.apply t

theorem Subst.Idempotent.apply_visible (idem : c.subst.Idempotent) {v : Var}
    (seen : c.visible.has v = true) : c.apply (.var v) = .var v := by
  -- A visible variable stands in what is known of some scheme, so it is not bound.
  obtain ⟨entry, _, w, hw, same, _⟩ := has_visible.mp seen
  have known : v.id ∈ (c.apply entry.2.ty).ids := Ty.mem_ids.mpr ⟨w, hw, same⟩
  have unbound : v.id ∉ c.subst.keys := Finset.disjoint_left.mp (idem.disjoint_apply _) known
  exact Subst.apply_unbound (Subst.find?_eq_none_iff.mpr unbound)

namespace Context.Spares

theorem of_apply (idem : c.subst.Idempotent) (rest : c' = { c with subst := c'.subst })
    (apply : ∀ t, (∀ v ∈ (c.apply t).vars, c.visible.has v = true) → c'.apply t = c.apply t) :
    c.Spares c' where
  rest := rest
  visible := by
  -- A visible variable is known in terms of visible variables, so the last condition covers it.
    intro v seen
    have self := idem.apply_visible seen
    rw [apply (.var v), self]
    rw [self]
    exact fun w hw => List.mem_singleton.mp hw ▸ seen
  apply := apply _

theorem refl (idem : c.subst.Idempotent) : c.Spares c := of_apply idem rfl fun _ _ => rfl

theorem commit (idem : c.subst.Idempotent) {f : Subst}
    (found : Polytype.unify (c.apply a) (c.apply b) = .ok f)
    (unseen : ∀ v ∈ f.domain, c.visible.has v = false) :
    c.Spares { c with subst := c.subst.compose f } := by
  refine of_apply idem rfl fun t seen => ?_
  rw [Context.apply, idem.apply_commit found]
  refine Subst.apply_disjoint (Finset.disjoint_left.mpr fun n mem bound => ?_)
  obtain ⟨v, hv, rfl⟩ := Ty.mem_ids.mp mem
  obtain ⟨w, hw, same⟩ := Subst.mem_keys.mp bound
  obtain ⟨x, hx, eq⟩ := VarSet.has_iff.mp (seen v hv)
  refine Bool.eq_false_iff.mp (unseen w hw) ?_
  exact VarSet.has_iff.mpr ⟨x, hx, eq.trans same.symm⟩

theorem apply_mono (h : c.Spares c') {entry : String × Scheme} (he : entry ∈ c.env.entries)
    (mono : entry.2.isMono = true) : c'.apply entry.2.ty = c.apply entry.2.ty := by
  refine h.apply fun v hv => has_visible.mpr ⟨entry, he, v, hv, rfl, ?_⟩
  rw [List.isEmpty_iff.mp mono]
  exact fun q hq => absurd hq List.not_mem_nil

end Context.Spares

/-! ## Trying a unification -/

theorem equates_of_unifyUnseen? (idem : c.subst.Idempotent) (h : c.unifyUnseen? a b = some c') :
    c'.subst.Idempotent ∧ c'.Equates a b ∧ c.Spares c' := by
  obtain ⟨f, found, unseen, rfl⟩ := Walk.unifyUnseen?_eq_some_iff.mp h
  exact ⟨Unify.idempotent_compose_found Unify.unify_bounded idem found, idem.equates_commit found,
    .commit idem found unseen⟩

namespace Walk

/-- Unifies two types if that binds no variable visible in the environment, and says whether it
did. -/
def unifyUnseen (a b : Ty) : Walk Bool :=
  modifyGet fun c => (c.unifyUnseen? a b).elim (false, c) fun c' => (true, c')

theorem unifyUnseen_run (a b : Ty) (c : Context) : (unifyUnseen a b).run c =
    (c.unifyUnseen? a b).elim (false, c) fun c' => (true, c') := rfl

theorem unifyUnseen_cases (a b : Ty) (c : Context) : (unifyUnseen a b).run c = (false, c) ∨
    ∃ c', c.unifyUnseen? a b = some c' ∧ (unifyUnseen a b).run c = (true, c') := by
  rw [unifyUnseen_run]
  cases c.unifyUnseen? a b with
  | none => exact .inl rfl
  | some c' => exact .inr ⟨c', rfl, rfl⟩

theorem unifyUnseen_eq_true_iff : ((unifyUnseen a b).run c).1 = true ↔
    ∃ f, Polytype.unify (c.apply a) (c.apply b) = .ok f ∧
      ∀ v ∈ f.domain, c.visible.has v = false := by
  have committed : ((unifyUnseen a b).run c).1 = true ↔ ∃ c', c.unifyUnseen? a b = some c' := by
    rw [unifyUnseen_run]
    cases c.unifyUnseen? a b <;> simp
  rw [committed]
  constructor
  · rintro ⟨c', unseen⟩
    obtain ⟨f, found, unseen, _⟩ := unifyUnseen?_eq_some_iff.mp unseen
    exact ⟨f, found, unseen⟩
  · rintro ⟨f, found, unseen⟩
    exact ⟨_, unifyUnseen?_eq_some_iff.mpr ⟨f, found, unseen, rfl⟩⟩

theorem unifyUnseen_spares (idem : c.subst.Idempotent) (a b : Ty) :
    let tried := (unifyUnseen a b).run c
    (tried.1 = false → tried.2 = c) ∧
      (tried.1 = true → tried.2.Equates a b ∧ c.Spares tried.2) := by
  intro tried
  rcases unifyUnseen_cases a b c with run | ⟨c', unseen, run⟩
  · rw [show tried = (false, c) from run]
    refine ⟨fun _ => rfl, fun done => ?_⟩
    cases done
  · rw [show tried = (true, c') from run]
    refine ⟨fun failed => ?_, fun _ => (equates_of_unifyUnseen? idem unseen).2⟩
    cases failed

/-! ## The collapse -/

theorem collapseList_pair (head element : Ty) : collapseList (.pair head (.list element)) = do
    if ← unifyUnseen element head then apply (.list element)
    else return .pair head (.list element) := by
  refine funext fun c => ?_
  refine (collapseList_run head element c).trans (Eq.trans ?_ (run_bind _ _ c).symm)
  rw [unifyUnseen_run]
  cases c.unifyUnseen? element head <;> rfl

theorem collapseList_of_unifyUnseen {head element : Ty}
    (h : (unifyUnseen element head).run c = (true, c')) :
    (collapseList (.pair head (.list element))).run c = (.list (c'.apply element), c') := by
  rw [collapseList_pair, run_bind, h]
  rfl

theorem collapseList_cases (t : Ty) (c : Context) : (collapseList t).run c = (t, c) ∨
    ∃ head element c', t = .pair head (.list element) ∧ c.unifyUnseen? element head = some c' ∧
      (collapseList t).run c = (.list (c'.apply element), c') := by
  by_cases chain : ∃ head element, t = .pair head (.list element)
  · obtain ⟨head, element, rfl⟩ := chain
    rcases unifyUnseen_cases element head c with tried | ⟨c', unseen, tried⟩
    · rw [collapseList_pair, run_bind, tried]
      exact .inl rfl
    · exact .inr ⟨head, element, c', rfl, unseen, collapseList_of_unifyUnseen tried⟩
  · unfold collapseList
    split
    · exact absurd ⟨_, _, rfl⟩ chain
    · exact .inl rfl

theorem collapseList_spares (idem : c.subst.Idempotent) (t : Ty) :
    let collapsed := (collapseList t).run c
    collapsed.2.Equates collapsed.1 t ∧ c.Spares collapsed.2 := by
  intro collapsed
  rcases collapseList_cases t c with run | ⟨head, element, c', rfl, unseen, run⟩
  · rw [show collapsed = (t, c) from run]
    exact ⟨.refl _, .refl idem⟩
  · rw [show collapsed = (.list (c'.apply element), c') from run]
    obtain ⟨idem', equates, spares⟩ := equates_of_unifyUnseen? idem unseen
    refine ⟨?_, spares⟩
    -- The list is known already, so that applying the substitution once more changes nothing.
    have known : c'.apply (.list (c'.apply element)) = .list (c'.apply element) :=
      Subst.apply_disjoint (t := .list (c'.apply element)) (idem'.disjoint_apply element)
    show Ty.EquivBy Var.id (c'.apply (.list (c'.apply element)))
      (.pair (c'.apply head) (.list (c'.apply element)))
    rw [known]
    exact (Ty.EquivBy.fold _).trans (equates.head _)

end Walk

/-- Trying to unify two types either leaves the context as it is or makes them one type while all
that the environment can see stays as it is. So does collapsing a type, which gives the same type
written another way. -/
theorem collapse_spares (idem : c.subst.Idempotent) (a b t : Ty) :
    let tried := (Walk.unifyUnseen a b).run c
    let collapsed := (Walk.collapseList t).run c
    (tried.1 = true ↔ ∃ f, unify (c.apply a) (c.apply b) = .ok f ∧
        ∀ v ∈ f.domain, c.visible.has v = false) ∧
      (tried.1 = false → tried.2 = c) ∧
      (tried.1 = true →
        (tried.2.resolve a).same (tried.2.resolve b) = true ∧ c.Spares tried.2) ∧
      (∀ head element, t = .pair head (.list element) →
        ((Walk.unifyUnseen element head).run c).1 = true →
        collapsed.1 = .list (collapsed.2.apply element)) ∧
      (collapsed.2.resolve collapsed.1).same (collapsed.2.resolve t) = true ∧
      c.Spares collapsed.2 ∧
      ∀ entry ∈ c.env.entries, entry.2.isMono = true →
        collapsed.2.apply entry.2.ty = c.apply entry.2.ty := by
  intro tried collapsed
  obtain ⟨failed, done⟩ := Walk.unifyUnseen_spares idem a b
  obtain ⟨equates, spares⟩ := Walk.collapseList_spares idem t
  refine ⟨Walk.unifyUnseen_eq_true_iff, failed, ?_, ?_, equates.same_resolve, spares, ?_⟩
  · intro committed
    exact ⟨(done committed).1.same_resolve, (done committed).2⟩
  · rintro head element rfl committed
    have run : (Walk.unifyUnseen element head).run c =
        (true, ((Walk.unifyUnseen element head).run c).2) := Prod.ext committed rfl
    rw [show collapsed = _ from Walk.collapseList_of_unifyUnseen run]
  · exact fun entry he mono => spares.apply_mono he mono

/-- The parameter `xs` is a list of variable 0, by way of variable 2. -/
def parameterized : Context where
  chapter := .two
  nextVar := 3
  subst := .single (.plain 2) (.list (.var (.plain 0)))
  env := { outermost := [("xs", .mono (.var (.plain 2)))] }
  errors := []

/-- The element type of `xs` cannot be bound by a trial, and a pair of a number and a list of any
type collapses without touching it. -/
theorem collapse_spares_parameter :
    parameterized.subst.Idempotent ∧
      (Walk.unifyUnseen (.var (.plain 0)) .string).run parameterized = (false, parameterized) ∧
      ∃ c', (Walk.collapseList (.pair .number (.list (.var (.plain 1))))).run parameterized =
        (.list .number, c') ∧ c'.apply (.var (.plain 2)) = .list (.var (.plain 0)) := by
  have idem : parameterized.subst.Idempotent := Unify.idempotent_single (by decide)
  obtain ⟨_, refused, _, listed, _, _, kept⟩ := collapse_spares idem (.var (.plain 0)) .string
    (.pair .number (.list (.var (.plain 1))))
  refine ⟨idem, Prod.ext rfl (refused rfl), _, Prod.ext ?_ rfl, ?_⟩
  · exact listed .number (.var (.plain 1)) rfl rfl
  · exact kept ("xs", .mono (.var (.plain 2))) List.mem_cons_self rfl

end Polytype
