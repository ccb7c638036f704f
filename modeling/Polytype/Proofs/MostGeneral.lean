import Polytype.Proofs.Unification

/-!
# Unification finds the most general solution

An assignment gives every variable number a type. Whenever an assignment that keeps to the flags
makes two types equivalent, `unify` succeeds on them, and the assignment is an instance of what it
finds, which makes them equivalent itself and keeps to the flags too (`unify_mostGeneral`). So a
failure means that there is no such assignment.

The proof is by induction on `cost`, which falls from two types to the parts that are unified on the
way. What is left to say is that no assignment gets lost at one level, and the hard case is the
fixpoint: if a variable is equivalent to a pair that ends in it, it is the list of the pair's head.
-/

namespace Polytype

namespace Ty

/-- Puts the type of its number in the place of every variable. -/
def assign (θ : Nat → Ty) (t : Ty) : Ty := t.bind fun v => θ v.id

variable {θ : Nat → Ty}

@[simp] theorem assign_var (v : Var) : (Ty.var v).assign θ = θ v.id := rfl

@[simp] theorem assign_prim (p : Prim) : (Ty.prim p).assign θ = .prim p := rfl

@[simp] theorem assign_func (ps : List Ty) (r : Ty) :
    (Ty.func ps r).assign θ = .func (ps.map (assign θ)) (r.assign θ) := by
  rw [assign, bind, bindAll_eq]
  rfl

@[simp] theorem assign_pair (h t : Ty) :
    (Ty.pair h t).assign θ = .pair (h.assign θ) (t.assign θ) := rfl

@[simp] theorem assign_list (e : Ty) : (Ty.list e).assign θ = .list (e.assign θ) := rfl

end Ty

/-- An addable variable gets a type that it may stand for. -/
def Admissible (k : Nat → Bool) (θ : Nat → Ty) : Prop := ∀ n, k n = true → (θ n).IsAddable

/-- Applying `s` first makes no difference to `θ`: it is an instance of `s`. -/
def Absorbs {κ : Type} (key : Var → κ) (θ : Nat → Ty) (s : Subst) : Prop :=
  ∀ v : Var, Ty.EquivBy key (θ v.id) ((s.apply (.var v)).assign θ)

namespace Absorbs

variable {κ : Type} {key : Var → κ} {θ : Nat → Ty} {s : Subst}

theorem apply (h : Absorbs key θ s) (t : Ty) :
    Ty.EquivBy key (t.assign θ) ((s.apply t).assign θ) := by
  rw [Subst.apply, Ty.assign, Ty.assign, Ty.bind_bind]
  exact .bind_congr t fun v _ => h v

theorem empty : Absorbs key θ .empty := fun v => by
  rw [Subst.apply_empty]
  exact .refl _

theorem compose {f : Subst} (h : Absorbs key θ s) (hf : Absorbs key θ f)
    (eq : ∀ t, (s.compose f).apply t = f.apply (s.apply t)) : Absorbs key θ (s.compose f) := by
  intro v
  rw [eq]
  exact (h v).trans (hf.apply _)

theorem single {v : Var} {t : Ty} (free : v.id ∉ t.ids) (h : Ty.EquivBy key (θ v.id) (t.assign θ)) :
    Absorbs key θ (.single v t) := by
  intro w
  rw [(Unify.idempotent_single free).apply_eq, Ty.bind, Subst.image, Subst.find?_single]
  cases same : v.same w with
  | true =>
    rw [← Var.same_iff.mp same]
    exact h
  | false => exact .refl _

theorem unifies_apply (h : Absorbs key θ s) {l r : Ty}
    (eqv : Ty.EquivBy key (l.assign θ) (r.assign θ)) :
    Ty.EquivBy key ((s.apply l).assign θ) ((s.apply r).assign θ) :=
  ((h.apply l).symm.trans eqv).trans (h.apply r)

end Absorbs

namespace Unify

variable {κ : Type} {key : Var → κ} {k : Nat → Bool} {θ : Nat → Ty}

/-- `unify` finds what `θ` is an instance of. -/
def Finds (key : Var → κ) (θ : Nat → Ty) (found : Outcome) : Prop :=
  ∃ s, found = .ok s ∧ Absorbs key θ s

/-- On the way to `a` and `b`, unification loses no unifier that keeps to the flags. -/
def Keeps (key : Var → κ) (k : Nat → Bool) (θ : Nat → Ty) (a b : Ty) : Prop :=
  ∀ {c e : Ty}, cost c e < cost a b → c.Kinded k → e.Kinded k →
    Ty.EquivBy key (c.assign θ) (e.assign θ) → Finds key θ (Polytype.unify c e)

theorem rows_finds {a b : Ty} (ih : Keeps key k θ a b) :
    ∀ {ls rs : List Ty} {s : Subst}, (∀ p ∈ ls.zip rs, Part a b p.1 p.2) →
      Solved (a.ids ∪ b.ids) (max a.depth b.depth) s → s.Respects k → Absorbs key θ s →
      (∀ l ∈ ls, l.Kinded k) → (∀ r ∈ rs, r.Kinded k) →
      (∀ p ∈ ls.zip rs, Ty.EquivBy key (p.1.assign θ) (p.2.assign θ)) →
      Finds key θ (rows Polytype.unify s ls rs)
  | [], _, s, _, _, _, hs, _, _, _ => ⟨s, by simp only [rows], hs⟩
  | _ :: _, [], s, _, _, _, hs, _, _, _ => ⟨s, by simp only [rows], hs⟩
  | l :: ls, r :: rs, s, parts, solved, respects, hs, hl, hr, eqv => by
    have part := parts (l, r) List.mem_cons_self
    have kl := respects.apply solved.idempotent (hl l List.mem_cons_self)
    have kr := respects.apply solved.idempotent (hr r List.mem_cons_self)
    obtain ⟨f, found, hf⟩ := ih (part.cost_lt solved) kl kr
      (hs.unifies_apply (eqv (l, r) List.mem_cons_self))
    have next := rows_finds ih (fun p hp => parts p (List.mem_cons_of_mem _ hp))
      (part.solved unify_bounded solved found)
      (respects.compose (unify_respects kl kr found) (unify_bounded found).idempotent
        (apart_of_found unify_bounded solved.idempotent found))
      (hs.compose hf (apply_compose_found unify_bounded solved.idempotent found))
      (fun x hx => hl x (List.mem_cons_of_mem _ hx)) (fun x hx => hr x (List.mem_cons_of_mem _ hx))
      (fun p hp => eqv p (List.mem_cons_of_mem _ hp))
    rw [rows, found]
    exact next

theorem bindVar_finds_of_addable {v : Var} {t : Ty} (hv : v.addable = true) (novar : ∀ w, t ≠ .var w)
    (fits : (θ v.id).IsAddable) (eqv : Ty.EquivBy key (θ v.id) (t.assign θ)) :
    Finds key θ (bindVar Polytype.unify v t) := by
  -- The type is addable, and so is what it is equivalent to.
  obtain ⟨p, rfl, fits⟩ : ∃ p : Prim, t = .prim p ∧ p.isAddable = true := by
    rcases fits with eq | eq | ⟨w, eq, _⟩ <;> rw [eq] at eqv
    · cases t with
      | var w => exact absurd rfl (novar w)
      | prim p => exact ⟨p, rfl, by cases eqv.eq_prim; rfl⟩
      | _ => cases eqv.shape_eq
    · cases t with
      | var w => exact absurd rfl (novar w)
      | prim p => exact ⟨p, rfl, by cases eqv.eq_prim; rfl⟩
      | _ => cases eqv.shape_eq
    · cases t with
      | var w => exact absurd rfl (novar w)
      | _ => cases eqv.shape_eq
  refine ⟨.single v (.prim p), ?_, .single (by simp) eqv⟩
  rw [bindVar, if_pos hv]
  exact if_pos fits

theorem bindVars_finds {v w : Var} (eqv : Ty.EquivBy key (θ v.id) (θ w.id)) :
    Finds key θ (bindVars v w) := by
  unfold bindVars
  split
  next => exact ⟨_, rfl, .empty⟩
  next differ =>
    rw [Var.same_iff] at differ
    split
    next => exact ⟨_, rfl, .single (by simpa using fun e => differ e.symm) eqv.symm⟩
    next => exact ⟨_, rfl, .single (by simpa using differ) eqv⟩

theorem rows_finds_of_empty {a b : Ty} (ih : Keeps key k θ a b) {ls rs : List Ty}
    (parts : ∀ p ∈ ls.zip rs, Part a b p.1 p.2) (hl : ∀ l ∈ ls, l.Kinded k)
    (hr : ∀ r ∈ rs, r.Kinded k)
    (eqv : ∀ p ∈ ls.zip rs, Ty.EquivBy key (p.1.assign θ) (p.2.assign θ)) :
    Finds key θ (rows Polytype.unify .empty ls rs) :=
  rows_finds ih parts .empty .empty .empty hl hr eqv

variable [Countable κ]

theorem fixpoint_finds {v : Var} {h t : Ty} (ih : Keeps key k θ (.var v) (.pair h t))
    (hv : v.addable = k v.id) (hk : (Ty.pair h t).Kinded k) (plain : v.addable = false)
    (free : v.id ∉ h.ids) (mem : v.id ∈ t.ids)
    (eqv : Ty.EquivBy key (θ v.id) ((Ty.pair h t).assign θ)) :
    Finds key θ (fixpoint Polytype.unify v h t) := by
  have free' : v.id ∉ (Ty.list h).ids := free
  obtain ⟨w, hw, same⟩ := Ty.mem_ids.mp mem
  have list : Ty.EquivBy key (θ v.id) ((Ty.list h).assign θ) := by
    rw [← same] at eqv ⊢
    exact Ty.EquivBy.list_of_pair (f := fun v => θ v.id) eqv hw
  have first : Absorbs key θ (.single v (.list h)) := .single free' list
  have respects : (Subst.single v (.list h)).Respects k :=
    respects_single hv (Ty.kinded_pair.mp hk).1 fun addable => by
      rw [plain] at addable
      cases addable
  obtain ⟨rest, found, hrest⟩ := ih (fixpoint_cost free) (Ty.kinded_pair.mp hk).1
    (respects.apply (idempotent_single free') hk)
    ((list.symm.trans eqv).trans (first.apply _))
  have compose := apply_compose_found unify_bounded (idempotent_single free')
    (found_under_first free found)
  refine ⟨_, ?_, first.compose hrest compose⟩
  simp only [fixpoint, found]

theorem bindVar_finds {v : Var} {t : Ty} (ih : Keeps key k θ (.var v) t) (hθ : Admissible k θ)
    (hv : v.addable = k v.id) (ht : t.Kinded k) (novar : ∀ w, t ≠ .var w)
    (eqv : Ty.EquivBy key (θ v.id) (t.assign θ)) : Finds key θ (bindVar Polytype.unify v t) := by
  cases addable : v.addable with
  | true => exact bindVar_finds_of_addable addable novar (hθ _ (hv ▸ addable)) eqv
  | false =>
    unfold bindVar
    rw [addable, if_neg Bool.false_ne_true]
    cases inside : t.mentions v with
    | false =>
      have free : v.id ∉ t.ids := by rw [← Ty.mentions_iff, inside]; exact Bool.false_ne_true
      exact ⟨.single v t, rfl, .single free eqv⟩
    | true =>
      have mem := Ty.mentions_iff.mp inside
      obtain ⟨w, hw, same⟩ := Ty.mem_ids.mp mem
      have eqv' := eqv
      rw [← same] at eqv'
      -- Only the end of a pair can hold the variable.
      cases t with
      | var u => exact absurd rfl (novar u)
      | prim p => simp at mem
      | func ps r => exact absurd hw (Ty.EquivBy.not_mem_of_func (f := fun v => θ v.id) eqv')
      | list e => exact absurd hw (Ty.EquivBy.not_mem_of_list (f := fun v => θ v.id) eqv')
      | pair h u =>
        have free : v.id ∉ h.ids := by
          intro mem
          obtain ⟨x, hx, same⟩ := Ty.mem_ids.mp mem
          rw [← same] at eqv
          exact Ty.EquivBy.not_mem_of_pair (f := fun v => θ v.id) eqv hx
        have head : h.mentions v = false := by
          rwa [← Bool.not_eq_true, Ty.mentions_iff]
        have tail : v.id ∈ u.ids := by simpa [free] using mem
        simp only [head]
        exact fixpoint_finds ih hv ht addable free tail eqv

theorem step_finds {a b : Ty} (ih : Keeps key k θ a b) (hθ : Admissible k θ) (ha : a.Kinded k)
    (hb : b.Kinded k) (eqv : Ty.EquivBy key (a.assign θ) (b.assign θ)) :
    Finds key θ (step Polytype.unify a b) := by
  unfold step
  split
  next v w => exact bindVars_finds eqv
  next v t novar => exact bindVar_finds ih hθ (Ty.kinded_var.mp ha) hb (fun w eq => novar w eq) eqv
  next t v novar =>
    refine bindVar_finds (fun lt => ih (lt.trans_eq (cost_comm _ _))) hθ (Ty.kinded_var.mp hb) ha
      (fun w eq => novar w eq) eqv.symm
  next p q =>
    cases eqv.eq_prim
    exact ⟨.empty, by simp, .empty⟩
  next ps r qs s =>
    rw [Ty.assign_func, Ty.assign_func] at eqv
    obtain ⟨params, result⟩ := eqv.func_inv
    rw [List.forall₂_map_left_iff, List.forall₂_map_right_iff, List.forall₂_iff_zip] at params
    rw [if_pos (beq_iff_eq.mpr params.1)]
    rw [Ty.kinded_func] at ha hb
    refine rows_finds_of_empty ih (fun _ => part_func) ?_ ?_ ?_
    · simpa [or_imp, forall_and] using ha
    · simpa [or_imp, forall_and] using hb
    · intro p hp
      rw [List.zip_append params.1, List.mem_append] at hp
      rcases hp with hp | hp
      · exact params.2 hp
      · obtain rfl : p = (r, s) := by simpa using hp
        exact result
  next h t i u =>
    rw [Ty.assign_pair, Ty.assign_pair] at eqv
    have parts := eqv.pair_inv
    exact rows_finds_of_empty ih (fun _ => part_pair) (by simpa using ha) (by simpa using hb)
      (by simpa using parts)
  next e f => exact ih (by simpa using part_list.cost_lt .empty) ha hb eqv.list_inv
  next e h t =>
    rw [Ty.assign_list, Ty.assign_pair] at eqv
    have parts := eqv.list_pair_inv
    exact rows_finds_of_empty ih (fun _ => part_list_pair) (by simpa using ha) (by simpa using hb)
      (by simpa using parts)
  next h t e =>
    rw [Ty.assign_list, Ty.assign_pair] at eqv
    have parts := eqv.symm.list_pair_inv
    exact rows_finds_of_empty ih (fun _ mem => (part_list_pair mem).swap) (by simpa using hb)
      (by simpa using ha) (by simpa using parts)
  next left right _ prims funcs pairs lists listPair pairList =>
    -- No other two types have the same shape.
    exfalso
    cases a <;> cases b <;>
      first
      | exact left _ rfl
      | exact right _ rfl
      | exact prims _ _ rfl rfl
      | exact funcs _ _ _ _ rfl rfl
      | exact pairs _ _ _ _ rfl rfl
      | exact lists _ _ rfl rfl
      | exact listPair _ _ _ rfl rfl
      | exact pairList _ _ _ rfl rfl
      | cases eqv.shape_eq

/-- No unifier that keeps to the flags is lost. -/
theorem unify_finds (hθ : Admissible k θ) {a b : Ty} (ha : a.Kinded k) (hb : b.Kinded k)
    (eqv : Ty.EquivBy key (a.assign θ) (b.assign θ)) : Finds key θ (Polytype.unify a b) := by
  generalize n_eq : cost a b = n
  induction n using Nat.strong_induction_on generalizing a b with
  | _ n ih =>
    rw [unify_eq_step]
    refine step_finds ?_ hθ ha hb eqv
    intro c e lt hc he eqv
    exact ih _ (n_eq ▸ lt) hc he eqv rfl

end Unify

/-- What unification finds is a unifier that keeps to the flags, and every other one is an instance of
it. So unification fails only if there is none. -/
theorem unify_mostGeneral {k : Nat → Bool} {a b : Ty} (ha : a.Kinded k) (hb : b.Kinded k) :
    (∀ s, unify a b = .ok s → Ty.EquivBy Var.id (s.apply a) (s.apply b) ∧
      Admissible k fun n => s.apply (.var ⟨n, k n⟩)) ∧
    (∀ θ : Nat → Ty, Admissible k θ → Ty.EquivBy Var.id (a.assign θ) (b.assign θ) →
      ∃ s, unify a b = .ok s ∧
        ∀ v : Var, Ty.EquivBy Var.id (θ v.id) ((s.apply (.var v)).assign θ)) ∧
      ∀ e, unify a b = .error e →
        ¬ ∃ θ : Nat → Ty, Admissible k θ ∧ Ty.EquivBy Var.id (a.assign θ) (b.assign θ) := by
  refine ⟨fun s found => ⟨Unify.unify_unifies found, fun n addable => ?_⟩,
    fun θ hθ eqv => Unify.unify_finds hθ ha hb eqv, ?_⟩
  · have respects := unify_respects ha hb found
    exact respects.isAddable_apply (Unify.unify_bounded found).idempotent (Ty.kinded_var.mpr rfl)
      (.inr (.inr ⟨_, rfl, addable⟩))
  · rintro e failed ⟨θ, hθ, eqv⟩
    obtain ⟨s, found, _⟩ := Unify.unify_finds hθ ha hb eqv
    rw [failed] at found
    cases found

/-- A variable and a pair that ends in it: the list of the head solves both. -/
theorem unify_mostGeneral_list :
    ∃ s, unify (.var (.plain 0)) (.pair .number (.var (.plain 0))) = .ok s ∧
      Ty.EquivBy Var.id (s.apply (.var (.plain 0))) (s.apply (.pair .number (.var (.plain 0)))) ∧
      ∀ v : Var, Ty.EquivBy Var.id (Ty.list .number) ((s.apply (.var v)).assign fun _ => .list .number) := by
  have hv : (Ty.var (.plain 0)).Kinded fun _ => false := Ty.kinded_var.mpr rfl
  have pair : (Ty.pair .number (.var (.plain 0))).Kinded fun _ => false :=
    Ty.kinded_pair.mpr ⟨Ty.kinded_prim _, hv⟩
  obtain ⟨unifies, general, _⟩ := unify_mostGeneral hv pair
  have keeps : Admissible (fun _ => false) fun _ => .list .number := fun _ addable => by cases addable
  obtain ⟨s, found, instances⟩ := general (fun _ => .list .number) keeps (.fold .number)
  exact ⟨s, found, (unifies s found).1, instances⟩

end Polytype
