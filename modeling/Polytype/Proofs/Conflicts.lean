import Polytype.Diagnostic
import Polytype.Proofs.Solutions

/-!
# Conflicts

Two rows of types are unifiable if one assignment that keeps to the flags makes each type of the one
equivalent to its partner in the other. An error is about types for which there is no such
assignment (`Problem.Conflicts`).

Since unification loses no solution, a failure means that the two types are not unifiable
(`not_unifiable`). If it fails because a variable would have to contain itself, then that variable
and the type around it are not unifiable either (`Unify.unify_occurs`): they are two of the types
that were met on the way, and failed on their own.
-/

namespace Polytype

/-- Some assignment that keeps to the flags makes the two rows equivalent, type by type. -/
def Unifiable (as bs : List Ty) : Prop :=
  ∃ θ : Var → Ty, Fits θ ∧
    List.Forall₂ (fun a b => Ty.EquivBy Var.id (a.bind θ) (b.bind θ)) as bs

/-- The types in the problem are at odds. -/
def Problem.Conflicts : Problem → Prop
  | .unboundName _ => True
  | .operands _ _ expected found => ∃ pair ∈ expected.zip found, ¬Unifiable [pair.1] [pair.2]
  | .argumentCount _ expected found => expected.length ≠ found.length
  | .arguments _ expected found =>
    expected.length = found.length ∧ ¬Unifiable expected found
  | .test _ _ found => ¬Unifiable [found] [.boolean]
  | .branches _ _ consequent alternate => ¬Unifiable [consequent] [alternate]
  | .infinite _ _ v ty => ¬Unifiable [.var v] [ty]
  | .mismatch _ _ expected found => ¬Unifiable [expected] [found]

variable {k : Nat → Bool} {a b r : Ty} {as bs : List Ty} {e : UnifyError}

namespace Unifiable

theorem symm (h : Unifiable as bs) : Unifiable bs as := by
  obtain ⟨θ, fits, eqv⟩ := h
  exact ⟨θ, fits, (List.Forall₂.imp (fun _ _ => Ty.EquivBy.symm) eqv).flip⟩

theorem of_foldLists (ha : ∀ a ∈ as, a.Kinded k) (hb : ∀ b ∈ bs, b.Kinded k)
    (h : Unifiable (as.map Ty.foldLists) (bs.map Ty.foldLists)) : Unifiable as bs := by
  obtain ⟨θ, fits, eqv⟩ := h
  have folded {t : Ty} (ht : t.Kinded k) :
      Ty.EquivBy Var.id (t.bind θ) (t.foldLists.bind θ) :=
    ((Ty.foldLists_equiv t).exact_of_kinded ht ht.foldLists).bind_same θ
  rw [List.forall₂_map_left_iff, List.forall₂_map_right_iff, List.forall₂_iff_zip] at eqv
  refine ⟨θ, fits, List.forall₂_iff_zip.mpr ⟨eqv.1, fun {a b} mem => ?_⟩⟩
  obtain ⟨left, right⟩ := List.of_mem_zip mem
  exact ((folded (ha a left)).trans (eqv.2 mem)).trans (folded (hb b right)).symm

theorem func {v : Var} (h : Unifiable as bs) (plain : v.addable = false) (ha : ∀ a ∈ as, v ∉ a.vars)
    (hb : ∀ b ∈ bs, v ∉ b.vars) (hr : v ∉ r.vars) : Unifiable [.func as r] [.func bs (.var v)] := by
  obtain ⟨θ, fits, eqv⟩ := h
  have same {t : Ty} (ht : v ∉ t.vars) : t.bind (Function.update θ v (r.bind θ)) = t.bind θ :=
    Ty.bind_congr t fun w hw => Function.update_of_ne (fun eq : w = v => ht (eq ▸ hw)) _ _
  refine ⟨Function.update θ v (r.bind θ), fun w addable => ?_, .cons ?_ .nil⟩
  · have other : w ≠ v := fun eq => Bool.false_ne_true (plain.symm.trans (eq ▸ addable))
    rw [Function.update_of_ne other]
    exact fits w addable
  · rw [Ty.bind, Ty.bind, Ty.bindAll_eq, Ty.bindAll_eq, Ty.bind, Function.update_self, same hr]
    refine .func ?_ (.refl _)
    rw [List.forall₂_map_left_iff, List.forall₂_map_right_iff]
    rw [List.forall₂_iff_zip] at eqv ⊢
    refine ⟨eqv.1, fun {a b} mem => ?_⟩
    obtain ⟨left, right⟩ := List.of_mem_zip mem
    rw [same (ha a left), same (hb b right)]
    exact eqv.2 mem

end Unifiable

/-- What fails to unify is not unifiable. -/
theorem not_unifiable (ha : a.Kinded k) (hb : b.Kinded k) (failed : unify a b = .error e) :
    ¬Unifiable [a] [b] := by
  rintro ⟨θ, fits, eqv⟩
  obtain ⟨eqv, _⟩ := List.forall₂_cons.mp eqv
  rw [← ha.assign_eq θ, ← hb.assign_eq θ] at eqv
  obtain ⟨s, found, _⟩ := Unify.unify_finds (fun n addable => fits _ addable) ha hb eqv
  cases failed.symm.trans found

/-! ## Where unification fails -/

namespace Unify

/-- Two types met on the way from `a` and `b` fail in the same way. -/
def FailsWithin (k : Nat → Bool) (a b : Ty) (e : UnifyError) : Prop :=
  ∃ l r : Ty, cost l r < cost a b ∧ l.ids ∪ r.ids ⊆ a.ids ∪ b.ids ∧ l.Kinded k ∧ r.Kinded k ∧
    Polytype.unify l r = .error e

theorem rows_fails : ∀ {ls rs : List Ty} {s : Subst}, (∀ p ∈ ls.zip rs, Part a b p.1 p.2) →
    Solved (a.ids ∪ b.ids) (max a.depth b.depth) s → s.Respects k → (∀ l ∈ ls, l.Kinded k) →
    (∀ r ∈ rs, r.Kinded k) → rows Polytype.unify s ls rs = .error e → FailsWithin k a b e
  | [], _, s, _, _, _, _, _, failed => by
    simp only [rows] at failed
    cases failed
  | _ :: _, [], s, _, _, _, _, _, failed => by
    simp only [rows] at failed
    cases failed
  | l :: ls, r :: rs, s, parts, solved, respects, hl, hr, failed => by
    have part := parts (l, r) List.mem_cons_self
    have kl := respects.apply solved.idempotent (hl l List.mem_cons_self)
    have kr := respects.apply solved.idempotent (hr r List.mem_cons_self)
    rw [rows] at failed
    cases found : Polytype.unify (s.apply l) (s.apply r) with
    | error e' =>
      rw [found] at failed
      cases failed
      refine ⟨s.apply l, s.apply r, part.cost_lt solved, ?_, kl, kr, found⟩
      exact (Finset.union_subset (solved.ids_apply part.left) (solved.ids_apply part.right)).trans
        Finset.sdiff_subset
    | ok f =>
      rw [found] at failed
      exact rows_fails (fun p hp => parts p (List.mem_cons_of_mem _ hp))
        (part.solved unify_bounded solved found)
        (respects.compose (unify_respects kl kr found) (unify_bounded found).idempotent
          (apart_of_found unify_bounded solved.idempotent found))
        (fun x hx => hl x (List.mem_cons_of_mem _ hx)) (fun x hx => hr x (List.mem_cons_of_mem _ hx))
        failed

theorem bindVar_occurs {unify : Ty → Ty → Outcome} {v w : Var} {t u : Ty}
    (failed : bindVar unify v t = .error (.occurs w u)) : v = w ∧ t = u := by
  unfold bindVar at failed
  split at failed
  · split at failed
    · split at failed <;> cases failed
    · cases failed
  · split at failed
    · cases failed
    · split at failed
      · split at failed
        · cases failed
          exact ⟨rfl, rfl⟩
        · unfold fixpoint at failed
          dsimp only at failed
          split at failed <;> cases failed
          exact ⟨rfl, rfl⟩
      · cases failed
        exact ⟨rfl, rfl⟩

/-- A variable and a type around it, over the numbers of `ids`, that fail to unify. -/
structure Recurs (k : Nat → Bool) (ids : Finset Nat) (v : Var) (t : Ty) : Prop where
  var : (Ty.var v).Kinded k
  ty : t.Kinded k
  mem : v.id ∈ ids
  among : t.ids ⊆ ids
  fails : ∃ e, Polytype.unify (.var v) t = .error e

theorem unify_occurs {v : Var} {t : Ty} (ha : a.Kinded k) (hb : b.Kinded k)
    (failed : Polytype.unify a b = .error (.occurs v t)) : Recurs k (a.ids ∪ b.ids) v t := by
  generalize n_eq : cost a b = n
  induction n using Nat.strong_induction_on generalizing a b with
  | _ n ih =>
    have deeper (h : FailsWithin k a b (.occurs v t)) : Recurs k (a.ids ∪ b.ids) v t := by
      obtain ⟨l, r, lt, among, hl, hr, failed⟩ := h
      have inside := ih _ (n_eq ▸ lt) hl hr failed rfl
      exact { inside with mem := among inside.mem, among := inside.among.trans among }
    have stepped := failed
    rw [unify_eq_step] at stepped
    unfold step at stepped
    split at stepped
    next v' w =>
      unfold bindVars at stepped
      split at stepped
      · cases stepped
      · split at stepped <;> cases stepped
    next =>
      obtain ⟨rfl, rfl⟩ := bindVar_occurs stepped
      exact ⟨ha, hb, Finset.mem_union_left _ (by simp), Finset.subset_union_right, _, failed⟩
    next novar =>
      obtain ⟨rfl, rfl⟩ := bindVar_occurs stepped
      refine ⟨hb, ha, Finset.mem_union_right _ (by simp), Finset.subset_union_left, _,
        Eq.trans ?_ stepped⟩
      rw [unify_eq_step]
      cases a with
      | var w => exact absurd rfl (novar w)
      | _ => rfl
    next => split at stepped <;> cases stepped
    next =>
      split at stepped
      · rw [Ty.kinded_func] at ha hb
        refine deeper (rows_fails (fun _ => part_func) .empty .empty ?_ ?_ stepped)
        · simpa [or_imp, forall_and] using ha
        · simpa [or_imp, forall_and] using hb
      · cases stepped
    next =>
      exact deeper (rows_fails (fun _ => part_pair) .empty .empty (by simpa using ha)
        (by simpa using hb) stepped)
    next e f =>
      refine deeper ⟨e, f, ?_, ?_, ha, hb, stepped⟩
      · simpa using part_list.cost_lt .empty
      · exact Finset.union_subset part_list.left part_list.right
    next =>
      exact deeper (rows_fails (fun _ => part_list_pair) .empty .empty (by simpa using ha)
        (by simpa using hb) stepped)
    next =>
      exact deeper (rows_fails (fun _ mem => (part_list_pair mem).swap) .empty .empty
        (by simpa using hb) (by simpa using ha) stepped)
    next => cases stepped

end Unify

theorem Unify.Recurs.not_unifiable {ids : Finset Nat} {v : Var} {t : Ty} (h : Recurs k ids v t) :
    ¬Unifiable [.var v] [t.foldLists] := by
  obtain ⟨e, fails⟩ := h.fails
  intro unifiable
  refine Polytype.not_unifiable h.var h.ty fails (.of_foldLists (k := k) ?_ ?_ unifiable)
  · simpa using h.var
  · simpa using h.ty

end Polytype
