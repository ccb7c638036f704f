import Polytype.Proofs.MostGeneral

/-!
# Solutions of a substitution

A substitution is a list of equations between variables and types. An assignment of types to all
variables solves it if both sides of each equation become equivalent. Inference commits itself to
equations one by one, and `solves_compose` says what that does to the solutions: those of the two
substitutions are left.

Here an assignment looks at the flag of a variable too, so that `Fits` can be stated without knowing
which variables are in use. Types with one flag per number do not see the difference.
-/

namespace Polytype

/-- An addable variable gets a type that it may stand for. -/
def Fits (θ : Var → Ty) : Prop := ∀ v, v.addable = true → (θ v).IsAddable

/-- Every bound variable and its type become equivalent. -/
def Solves (θ : Var → Ty) (s : Subst) : Prop :=
  ∀ v ∈ s.domain, Ty.Equiv (θ v) ((s.image v).bind θ)

instance : Countable Var :=
  Function.Injective.countable (f := fun v : Var => (v.id, v.addable)) fun v w eq => by
    obtain ⟨i, x⟩ := v
    obtain ⟨j, y⟩ := w
    simpa using eq

variable {k : Nat → Bool} {θ : Var → Ty} {s : Subst}

theorem Fits.bind (hθ : Fits θ) {t : Ty} (ht : t.IsAddable) : (t.bind θ).IsAddable := by
  rcases ht with rfl | rfl | ⟨v, rfl, addable⟩
  · exact .inl rfl
  · exact .inr (.inl rfl)
  · exact hθ v addable

theorem Ty.Kinded.assign_eq {t : Ty} (ht : t.Kinded k) (θ : Var → Ty) :
    t.assign (fun n => θ ⟨n, k n⟩) = t.bind θ :=
  Ty.bind_congr t fun v hv => by
    show θ ⟨v.id, k v.id⟩ = θ v
    rw [← ht v hv]

/-! ## Bound variables -/

namespace Subst

theorem image_of_unbound {v : Var} (h : v.id ∉ s.keys) : s.image v = .var v := by
  rw [image, find?_eq_none_iff.mpr h]
  rfl

theorem Respects.mem_domain (h : s.Respects k) {v : Var} (hv : v.addable = k v.id)
    (bound : v.id ∈ s.keys) : v ∈ s.domain := by
  obtain ⟨w, hw, same⟩ := mem_keys.mp bound
  rwa [← Var.eq_of_flags (h.domain hw) hv same]

end Subst

theorem Solves.apply (h : Solves θ s) (idem : s.Idempotent) (respects : s.Respects k) {t : Ty}
    (ht : t.Kinded k) : Ty.Equiv (t.bind θ) ((s.apply t).bind θ) := by
  rw [idem.apply_eq, Ty.bind_bind]
  refine .bind_congr t fun v hv => ?_
  by_cases bound : v.id ∈ s.keys
  · exact h v (respects.mem_domain (ht v hv) bound)
  · rw [Subst.image_of_unbound bound]
    exact .refl _

/-! ## Committing to an equation -/

section Commit

variable {f : Subst} {a b : Ty}

/-- What holds before two types are unified under `s`, and what was found. -/
structure Commit (k : Nat → Bool) (s : Subst) (a b : Ty) (f : Subst) : Prop where
  idempotent : s.Idempotent
  respects : s.Respects k
  left : a.Kinded k
  right : b.Kinded k
  found : unify (s.apply a) (s.apply b) = .ok f

namespace Commit

theorem kinded (h : Commit k s a b f) : (s.apply a).Kinded k ∧ (s.apply b).Kinded k :=
  ⟨h.respects.apply h.idempotent h.left, h.respects.apply h.idempotent h.right⟩

theorem foundIdempotent (h : Commit k s a b f) : f.Idempotent :=
  (Unify.unify_bounded h.found).idempotent

theorem foundRespects (h : Commit k s a b f) : f.Respects k :=
  unify_respects h.kinded.1 h.kinded.2 h.found

theorem apart (h : Commit k s a b f) : s.Apart f :=
  Unify.apart_of_found Unify.unify_bounded h.idempotent h.found

theorem compose_idempotent (h : Commit k s a b f) : (s.compose f).Idempotent :=
  Unify.idempotent_compose_found Unify.unify_bounded h.idempotent h.found

theorem compose_respects (h : Commit k s a b f) : (s.compose f).Respects k :=
  h.respects.compose h.foundRespects h.foundIdempotent h.apart

theorem apply_compose (h : Commit k s a b f) (t : Ty) :
    (s.compose f).apply t = f.apply (s.apply t) :=
  Unify.apply_compose_found Unify.unify_bounded h.idempotent h.found t

theorem image_compose (h : Commit k s a b f) (v : Var) :
    (s.compose f).image v = f.apply (s.image v) := by
  rw [← h.compose_idempotent.apply_var, h.apply_compose, h.idempotent.apply_var]

theorem fresh_keys (h : Commit k s a b f) {n : Nat} (hn : n ∈ f.keys) : n ∉ s.keys := by
  have among := (Unify.unify_bounded h.found).keys hn
  rcases Finset.mem_union.mp among with mem | mem
  · exact Finset.disjoint_left.mp (h.idempotent.disjoint_apply a) mem
  · exact Finset.disjoint_left.mp (h.idempotent.disjoint_apply b) mem

theorem solves_compose (h : Commit k s a b f) :
    Solves θ (s.compose f) ↔ Solves θ s ∧ Solves θ f := by
  constructor
  · intro solved
    have new : Solves θ f := by
      intro v hv
      have unbound : v.id ∉ s.keys := h.fresh_keys (Subst.mem_keys.mpr ⟨v, hv, rfl⟩)
      have bound : v.id ∈ (s.compose f).keys := by
        rw [Subst.keys_compose, Finset.mem_union]
        exact .inr (Subst.mem_keys.mpr ⟨v, hv, rfl⟩)
      have := solved v (h.compose_respects.mem_domain (h.foundRespects.domain hv) bound)
      rwa [h.image_compose, Subst.image_of_unbound unbound, h.foundIdempotent.apply_var] at this
    refine ⟨fun v hv => ?_, new⟩
    have flag := h.respects.domain hv
    have bound : v.id ∈ (s.compose f).keys := by
      rw [Subst.keys_compose, Finset.mem_union]
      exact .inl (Subst.mem_keys.mpr ⟨v, hv, rfl⟩)
    have := solved v (h.compose_respects.mem_domain flag bound)
    rw [h.image_compose] at this
    exact this.trans (new.apply h.foundIdempotent h.foundRespects (h.respects.image flag)).symm
  · rintro ⟨old, new⟩ v hv
    rw [h.image_compose]
    rcases Subst.mem_domain_compose hv with hv | hv
    · have flag := h.respects.domain hv
      exact (old v hv).trans (new.apply h.foundIdempotent h.foundRespects (h.respects.image flag))
    · have unbound : v.id ∉ s.keys := h.fresh_keys (Subst.mem_keys.mpr ⟨v, hv, rfl⟩)
      rw [Subst.image_of_unbound unbound, h.foundIdempotent.apply_var]
      exact new v hv

theorem equates (h : Commit k s a b f) (solved : Solves θ (s.compose f)) :
    Ty.Equiv (a.bind θ) (b.bind θ) := by
  obtain ⟨old, new⟩ := h.solves_compose.mp solved
  have ka := h.foundRespects.apply h.foundIdempotent h.kinded.1
  have kb := h.foundRespects.apply h.foundIdempotent h.kinded.2
  have unified : Ty.EquivBy Var.id (f.apply (s.apply a)) (f.apply (s.apply b)) :=
    Unify.unify_unifies h.found
  have ha := (old.apply h.idempotent h.respects h.left).trans
    (new.apply h.foundIdempotent h.foundRespects h.kinded.1)
  have hb := (old.apply h.idempotent h.respects h.right).trans
    (new.apply h.foundIdempotent h.foundRespects h.kinded.2)
  exact ha.trans (((unified.exact_of_kinded ka kb).bind_same θ).trans hb.symm)

end Commit

/-- No solution that makes the two types equivalent is lost by committing to it. -/
theorem exists_commit (idem : s.Idempotent) (respects : s.Respects k) (ha : a.Kinded k)
    (hb : b.Kinded k) (hθ : Fits θ) (solved : Solves θ s)
    (eqv : Ty.Equiv (a.bind θ) (b.bind θ)) :
    ∃ f, Commit k s a b f ∧ Solves θ (s.compose f) := by
  have ka := respects.apply idem ha
  have kb := respects.apply idem hb
  have eqv' : Ty.Equiv ((s.apply a).assign fun n => θ ⟨n, k n⟩)
      ((s.apply b).assign fun n => θ ⟨n, k n⟩) := by
    rw [ka.assign_eq, kb.assign_eq]
    exact ((solved.apply idem respects ha).symm.trans eqv).trans (solved.apply idem respects hb)
  obtain ⟨f, found, absorbs⟩ := Unify.unify_finds (fun n addable => hθ _ addable) ka kb eqv'
  have commit : Commit k s a b f := ⟨idem, respects, ha, hb, found⟩
  refine ⟨f, commit, commit.solves_compose.mpr ⟨solved, fun v hv => ?_⟩⟩
  have flag := commit.foundRespects.domain hv
  have absorbed : Ty.Equiv (θ ⟨v.id, k v.id⟩) ((f.apply (.var v)).assign fun n => θ ⟨n, k n⟩) :=
    absorbs v
  rwa [commit.foundIdempotent.apply_var, (commit.foundRespects.image flag).assign_eq, ← flag]
    at absorbed

end Commit

end Polytype
