import Polytype.Proofs.Typing.Models
import Polytype.Proofs.Walk.Upkeep

/-!
# Errors are true

Every error of a run is about types that are in conflict (`errors_truthful`). That the types are at
odds is part of what the walk does (`Reach.reports`). That an operator has as many parameters as
operands is not: it rests on the prelude, which holds as long as no name of the program hides an
operator (`Course.balanced`).
-/

namespace Polytype

variable {α : Type} {N : Set String} {c c' : Context} {env prelude : Env} {key : String}

/-- As many types are found as expected, if it is operands that are wrong. -/
def Problem.Balanced : Problem → Prop
  | .operands _ _ expected found => expected.length = found.length
  | _ => True

/-! ## Operators of the prelude -/

/-- The name stands for what it stands for in the outermost scope of the prelude, and no scope
inside hides it. -/
structure Env.Outer (prelude env : Env) (key : String) : Prop where
  inner : ∀ scope ∈ env.inner, scope.lookup key = none
  outermost : env.outermost.lookup key = prelude.lookup key

namespace Env.Outer

theorem lookup_eq (h : Outer prelude env key) : env.lookup key = prelude.lookup key := by
  have hidden : env.inner.findSome? (List.lookup key) = none :=
    List.findSome?_eq_none_iff.mpr h.inner
  rw [Env.lookup, Env.scopes, List.findSome?_append, hidden, ← h.outermost]
  simp

theorem refl (h : prelude.inner = []) (key : String) : Outer prelude prelude key := by
  obtain ⟨outermost, inner⟩ := prelude
  subst h
  exact ⟨by simp, by simp [Env.lookup, Env.scopes]⟩

theorem push (h : Outer prelude env key) : Outer prelude env.push key :=
  ⟨List.forall_mem_cons.mpr ⟨rfl, h.inner⟩, h.outermost⟩

theorem pop (h : Outer prelude env key) : Outer prelude env.pop key :=
  ⟨fun scope hs => h.inner scope (List.mem_of_mem_tail hs), h.outermost⟩

theorem modify (h : Outer prelude env key) {f : Scope → Scope}
    (same : ∀ scope : Scope, (f scope).lookup key = scope.lookup key) :
    Outer prelude (env.modify f) key := by
  obtain ⟨outermost, inner⟩ := env
  cases inner with
  | nil => exact ⟨h.inner, (same _).trans h.outermost⟩
  | cons scope rest =>
    obtain ⟨first, others⟩ := List.forall_mem_cons.mp h.inner
    exact ⟨List.forall_mem_cons.mpr ⟨(same scope).trans first, others⟩, h.outermost⟩

end Env.Outer

theorem Change.outer (change : Change N c c') (hkey : key ∉ N) (h : Env.Outer prelude c.env key) :
    Env.Outer prelude c'.env key := by
  cases change with
  | push => exact h.push
  | pop => exact h.pop
  | @bind name scheme mem =>
    have other : key ≠ name := fun eq => hkey (eq ▸ mem)
    exact h.modify fun scope => by rw [Scope.lookup_bind, if_neg other]
  | @erase name mem =>
    have other : key ≠ name := fun eq => hkey (eq ▸ mem)
    exact h.modify fun scope => by rw [Scope.lookup_erase, if_neg other]
  | _ => exact h

theorem OperatorKey.mem {operands : Nat} (h : OperatorKey key operands) :
    key ∈ Prelude.operators.map (·.1) := by
  cases h with
  | unary op => exact Prelude.mem_keys_unary op
  | binary op => exact Prelude.mem_keys_binary op

theorem OperatorKey.lookup {operands : Nat} (h : OperatorKey key operands) (chapter : Chapter) :
    ∃ vars ts t, (Context.new chapter).env.lookup key = some ⟨vars, .func ts t⟩ ∧
      ts.length = operands := by
  cases h with
  | unary op =>
    obtain ⟨vars, a, t, found⟩ := Prelude.lookup_unary chapter op
    exact ⟨vars, [a], t, found, rfl⟩
  | binary op =>
    obtain ⟨vars, a, b, t, found⟩ := Prelude.lookup_binary chapter op
    exact ⟨vars, [a, b], t, found, rfl⟩

theorem instantiate_func (c : Context) (vars : List Var) (ps : List Ty) (r : Ty) :
    ∃ qs s, (c.instantiate ⟨vars, .func ps r⟩).1 = .func qs s ∧ qs.length = ps.length := by
  unfold Context.instantiate
  split
  · exact ⟨ps, r, rfl, rfl⟩
  · exact ⟨_, _, Subst.apply_func _ _ _, List.length_map _⟩

/-! ## Whole runs -/

theorem Problem.Shaped.balanced {chapter : Chapter} {problem : Problem} (h : problem.Shaped env)
    (outer : ∀ {key n}, OperatorKey key n → env.lookup key = (Context.new chapter).env.lookup key) :
    problem.Balanced := by
  cases problem with
  | operands operator source expected found =>
    obtain ⟨key, scheme, ts, t, d, op, known, inst, arity⟩ := h
    obtain ⟨vars, ps, r, standard, length⟩ := op.lookup chapter
    obtain ⟨qs, s, inst', length'⟩ := instantiate_func d vars ps r
    rw [outer op, standard] at known
    cases known
    cases inst.symm.trans inst'
    exact arity.symm.trans (length'.trans length)
  | _ => trivial

theorem Course.balanced {chapter : Chapter} (course : Course N c c')
    (names : ∀ x ∈ N, x ∉ Prelude.operators.map (·.1))
    (outer : ∀ {key n}, OperatorKey key n → Env.Outer (Context.new chapter).env c.env key) :
    Reports Problem.Balanced c c' ∧
      ∀ {key n}, OperatorKey key n → Env.Outer (Context.new chapter).env c'.env key := by
  induction course with
  | refl => exact ⟨.of_eq rfl, outer⟩
  | @tail d d' _ change ih =>
    refine ⟨ih.1.trans ?_, fun op => change.outer (fun mem => names _ mem op.mem) (ih.2 op)⟩
    cases change with
    | report pos shaped => exact .single d pos (shaped.balanced fun op => (ih.2 op).lookup_eq)
    | _ => exact .of_eq rfl

/-- A program whose names hide no operator is analysed in a context that may have been used before.
Every error that is added holds types that are in conflict. -/
theorem errors_truthful {chapter : Chapter} (used : Used chapter c) (p : Program α)
    (names : NoOperator p.binders) :
    ∃ new, (analyse p c).2.errors = c.errors ++ new ∧
      ∀ e ∈ new, e.problem.Conflicts ∧ e.problem.Balanced := by
  obtain ⟨H', reach, _⟩ := Walk.inferProgram_steady p used.ready.good.sane
  have course := analyse_course (N := {x | x ∈ p.binders}) p c fun _ => id
  have outer {key : String} {n : Nat} (_ : OperatorKey key n) :
      Env.Outer (Context.new chapter).env c.env key := by
    rw [used.ready.env]
    exact .refl rfl key
  exact reach.reports.and (course.balanced names outer).1

/-- One statement for each kind of conflict. -/
def clashes : Program Unit :=
  let tag : Tag Unit := ⟨{}, ()⟩
  let name (x : String) : Expr Unit := .name ⟨tag, x⟩
  let one : Expr Unit := .number tag 1
  let yes : Expr Unit := .boolean tag true
  ⟨[.expr (.binary tag .add one yes), .expr (.conditional tag one one one),
    .expr (.conditional tag yes one yes),
    .declare tag .constant ⟨tag, "f"⟩ (.arrow tag [⟨tag, "x"⟩] (.call tag (name "x") [name "x"])),
    .declare tag .constant ⟨tag, "g"⟩ (.arrow tag [⟨tag, "x"⟩] (.unary tag .not (name "x"))),
    .expr (.call tag (name "g") [one]), .expr (.call tag (name "g") []),
    .expr (.call tag one [one])]⟩

/-- All conflicts of the program are reported again when it is analysed for the second time. -/
theorem errors_truthful_clashes : ∃ new,
    (analyse clashes (analyse clashes (Context.new .one)).2).2.errors =
      (analyse clashes (Context.new .one)).2.errors ++ new ∧ new.length = 7 ∧
    ∀ e ∈ new, e.problem.Conflicts ∧ e.problem.Balanced := by
  have used : Used .one (analyse clashes (Context.new .one)).2 := .single (.analyse clashes _)
  have names : NoOperator clashes.binders := by
    unfold NoOperator
    decide
  obtain ⟨new, eq, holds⟩ := errors_truthful used clashes names
  refine ⟨new, eq, ?_, holds⟩
  have lengths := congrArg List.length eq
  rw [List.length_append] at lengths
  have first : (analyse clashes (Context.new .one)).2.errors.length = 7 := by decide +kernel
  have second : (analyse clashes (analyse clashes (Context.new .one)).2).2.errors.length = 14 := by
    decide +kernel
  omega

end Polytype
