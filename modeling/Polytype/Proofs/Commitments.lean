import Polytype.Proofs.Renaming.Types
import Polytype.Proofs.Unification
import Polytype.Proofs.Walk.Course

/-!
# Equations are kept

A context can be used by hand as well as by inference: variables are asked for, schemes instantiated
and generalized, types unified, errors reported and taken, whole programs analysed, in any order
(`Request`). Whatever is asked, the substitution stays idempotent, and two types that have once been
unified resolve to the same type from then on (`equations_kept`).
-/

namespace Polytype

variable {N : Set String} {c c' : Context}

/-! ## Changes keep equations -/

/-- The entries are in order, and no bound variable occurs in a type. -/
structure Subst.Settled (s : Subst) : Prop where
  increasing : s.domain.Increasing
  idempotent : s.Idempotent

/-- The two types are one and the same as far as is known. -/
def Context.Equates (c : Context) (a b : Ty) : Prop := Ty.EquivBy Var.id (c.apply a) (c.apply b)

theorem Context.Equates.same_resolve {a b : Ty} (h : c.Equates a b) :
    (c.resolve a).same (c.resolve b) = true := Ty.EquivBy.same_foldLists h

section Commit

variable {a b : Ty} {f : Subst} (found : Polytype.unify (c.apply a) (c.apply b) = .ok f)

include found

theorem Subst.Settled.commit (h : c.subst.Settled) : (c.subst.compose f).Settled :=
  ⟨Subst.increasing_compose h.increasing,
    Unify.idempotent_compose_found Unify.unify_bounded h.idempotent found⟩

theorem Subst.Idempotent.apply_commit (h : c.subst.Idempotent) (t : Ty) :
    (c.subst.compose f).apply t = f.apply (c.apply t) :=
  Unify.apply_compose_found Unify.unify_bounded h found t

theorem Subst.Idempotent.equates_commit (h : c.subst.Idempotent) :
    Context.Equates { c with subst := c.subst.compose f } a b := by
  rw [Context.Equates, Context.apply, Context.apply, h.apply_commit found, h.apply_commit found]
  exact Unify.unify_unifies found

theorem Context.Equates.commit {x y : Ty} (eq : c.Equates x y) (h : c.subst.Idempotent) :
    Equates { c with subst := c.subst.compose f } x y := by
  rw [Equates, apply, apply, h.apply_commit found, h.apply_commit found]
  exact f.apply_congr eq

end Commit

theorem Change.settled (change : Change N c c') (h : c.subst.Settled) : c'.subst.Settled := by
  cases change with
  | commit found => exact h.commit found
  | _ => exact h

theorem Change.equates (change : Change N c c') (h : c.subst.Settled) {a b : Ty} (eq : c.Equates a b) :
    c'.Equates a b := by
  cases change with
  | commit found => exact eq.commit found h.idempotent
  | _ => exact eq

theorem Course.settled (course : Course N c c') (h : c.subst.Settled) : c'.subst.Settled := by
  induction course with
  | refl => exact h
  | tail _ change ih => exact change.settled ih

theorem Course.equates (course : Course N c c') (h : c.subst.Settled) {a b : Ty} (eq : c.Equates a b) :
    c'.Equates a b := by
  induction course with
  | refl => exact eq
  | tail before change ih => exact change.equates (Course.settled before h) ih

/-! ## Requests -/

/-- What can be asked of a context. -/
inductive Request where
  | freshVar (addable : Bool)
  | instantiate (scheme : Scheme)
  | generalize (t : Ty)
  | unify (a b : Ty)
  | unifyUnseen (a b : Ty)
  | report (problem : Problem) (pos : Position)
  | takeErrors
  | analyse (p : Program Verdict)

/-- A context in use, and the pairs of types that have been unified in it by request. -/
structure Session where
  context : Context
  equations : List (Ty × Ty) := []

namespace Session

/-- Serves a request. Of the answer only the context is kept, and whether two types were unified. -/
def serve (s : Session) : Request → Session
  | .freshVar addable => { s with context := (s.context.freshVar addable).2 }
  | .instantiate scheme => { s with context := (s.context.instantiate scheme).2 }
  | .generalize _ => s
  | .unify a b =>
    (s.context.unify a b).toOption.elim s fun c => ⟨c, (a, b) :: s.equations⟩
  | .unifyUnseen a b =>
    (s.context.unifyUnseen? a b).elim s fun c => ⟨c, (a, b) :: s.equations⟩
  | .report problem pos => { s with context := s.context.report problem pos }
  | .takeErrors => { s with context := s.context.takeErrors.2 }
  | .analyse p => { s with context := (analyse p s.context).2 }

/-- What holds of every session. -/
structure Sound (s : Session) : Prop where
  settled : s.context.subst.Settled
  equates : ∀ eq ∈ s.equations, s.context.Equates eq.1 eq.2

theorem Sound.course {s : Session} (h : s.Sound) (course : Course N s.context c) :
    Sound { s with context := c } :=
  ⟨course.settled h.settled, fun eq mem => course.equates h.settled (h.equates eq mem)⟩

theorem Sound.commit {s : Session} (h : s.Sound) {a b : Ty} {f : Subst}
    (found : Polytype.unify (s.context.apply a) (s.context.apply b) = .ok f) :
    Sound ⟨{ s.context with subst := s.context.subst.compose f }, (a, b) :: s.equations⟩ := by
  have idem := h.settled.idempotent
  refine ⟨h.settled.commit found, List.forall_mem_cons.mpr ⟨idem.equates_commit found, ?_⟩⟩
  exact fun eq mem => (h.equates eq mem).commit found idem

theorem Sound.serve {s : Session} (h : s.Sound) (request : Request) : (s.serve request).Sound := by
  cases request with
  | freshVar addable => exact h.course (N := Set.univ) (.single (.fresh _ addable))
  | instantiate scheme => exact h.course (N := Set.univ) (instantiate_course _ scheme).1
  | generalize t => exact h
  | unify a b =>
    rw [Session.serve]
    cases unified : s.context.unify a b with
    | error e => exact h
    | ok c =>
      obtain ⟨f, found, rfl⟩ := Walk.unify_eq_ok.mp unified
      exact h.commit found
  | unifyUnseen a b =>
    rw [Session.serve]
    cases unified : s.context.unifyUnseen? a b with
    | none => exact h
    | some c =>
      obtain ⟨f, found, rfl⟩ := Walk.commit_of_unifyUnseen? unified
      exact h.commit found
  | report problem pos => exact ⟨h.settled, h.equates⟩
  | takeErrors => exact ⟨h.settled, h.equates⟩
  | analyse p => exact h.course (N := Set.univ) (analyse_course p _ fun _ _ => trivial)

theorem sound_foldl (requests : List Request) {s : Session} (h : s.Sound) :
    (requests.foldl serve s).Sound := by
  induction requests generalizing s with
  | nil => exact h
  | cons request rest ih => exact ih (h.serve request)

end Session

/-- Whatever has been asked of a new context, no bound variable occurs in a type of the substitution,
so that following bound variables ends after one step, and all that has been unified is equal. -/
theorem equations_kept (chapter : Chapter) (requests : List Request) :
    let s : Session := requests.foldl .serve { context := .new chapter }
    (∀ x ∈ s.context.subst.entries, ∀ y ∈ s.context.subst.entries, x.1.id ∉ y.2.ids) ∧
      (∀ x ∈ s.context.subst.entries,
        s.context.apply (.var x.1) = x.2 ∧ s.context.apply x.2 = x.2) ∧
      (∀ t, s.context.apply (s.context.apply t) = s.context.apply t) ∧
      ∀ eq ∈ s.equations, (s.context.resolve eq.1).same (s.context.resolve eq.2) = true := by
  intro s
  have new : Session.Sound { context := .new chapter } :=
    ⟨⟨List.Pairwise.nil, Unify.idempotent_empty⟩, fun _ mem => by cases mem⟩
  obtain ⟨⟨increasing, idempotent⟩, equates⟩ := Session.sound_foldl requests new
  have disjoint {y : Var × Ty} (hy : y ∈ s.context.subst.entries) :
      Disjoint y.2.ids s.context.subst.keys :=
    idempotent y.1 y.2 (Subst.find?_of_mem increasing hy)
  refine ⟨?_, ?_, ?_, fun eq mem => (equates eq mem).same_resolve⟩
  · intro x hx y hy mem
    have bound : x.1.id ∈ s.context.subst.keys :=
      Subst.mem_keys.mpr ⟨x.1, List.mem_map_of_mem hx, rfl⟩
    exact Finset.disjoint_left.mp (disjoint hy) mem bound
  · intro x hx
    refine ⟨?_, Subst.apply_disjoint (disjoint hx)⟩
    rw [Context.apply, idempotent.apply_eq, Ty.bind, Subst.image, Subst.find?_of_mem increasing hx]
    rfl
  · exact fun t => Subst.apply_disjoint (idempotent.disjoint_apply t)

end Polytype
