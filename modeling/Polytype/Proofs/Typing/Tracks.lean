import Polytype.Proofs.Flat
import Polytype.Proofs.Typing.Checks
import Polytype.Proofs.Typing.Follows

/-!
# Inference in step with a typing

Given a typing, inference can be followed with a solution that turns all that is known into the types
of the typing (`Tracks`). Types that the typing takes for the same can then be unified, and the
solution stays one. Where a fresh variable is handed out, the solution is changed at its number and
nowhere below (`Extends`), so that it stays right for all that was there before.

The chapter is the first one, and pairs and lists are met nowhere.
-/

namespace Polytype

variable {c c' c'' : Context} {H H' : Set Var} {θ θ' θ'' : Var → Ty} {Γ : Env}

/-! ## Changing a solution at new numbers -/

/-- The same for all variables with numbers below `n`. -/
def Agree (n : Nat) (θ θ' : Var → Ty) : Prop := ∀ v : Var, v.id < n → θ' v = θ v

namespace Agree

variable {n m : Nat}

theorem refl (n : Nat) (θ : Var → Ty) : Agree n θ θ := fun _ _ => rfl

theorem trans (h : Agree n θ θ') (h' : Agree m θ' θ'') (le : n ≤ m) : Agree n θ θ'' :=
  fun v hv => (h' v (hv.trans_le le)).trans (h v hv)

theorem bind_eq (h : Agree n θ θ') {t : Ty} (below : ∀ v ∈ t.vars, v.id < n) :
    t.bind θ' = t.bind θ := Ty.bind_congr t fun v hv => h v (below v hv)

end Agree

/-- The given types for the plain variables with numbers from `n` on. -/
def assigning (θ : Var → Ty) : Nat → List Ty → Var → Ty
  | _, [] => θ
  | n, T :: Ts => Function.update (assigning θ (n + 1) Ts) ⟨n, false⟩ T

theorem agree_assigning (θ : Var → Ty) (n : Nat) (Ts : List Ty) : Agree n θ (assigning θ n Ts) := by
  induction Ts generalizing n with
  | nil => exact .refl n θ
  | cons T Ts ih =>
    intro v hv
    have ne : v ≠ ⟨n, false⟩ := fun eq => by
      rw [eq] at hv
      exact Nat.lt_irrefl n hv
    rw [assigning, Function.update_of_ne ne]
    exact ih (n + 1) v (Nat.lt_succ_of_lt hv)

theorem Fits.assigning (h : Fits θ) (n : Nat) (Ts : List Ty) : Fits (assigning θ n Ts) := by
  induction Ts generalizing n with
  | nil => exact h
  | cons T Ts ih =>
    intro v flag
    have ne : v ≠ ⟨n, false⟩ := fun eq => by
      rw [eq] at flag
      cases flag
    rw [Polytype.assigning, Function.update_of_ne ne]
    exact ih (n + 1) v flag

/-! ## Types and their types in the typing -/

/-- An inferred type over numbers below `n`, and the type that it is in the typing. -/
structure Has (θ : Var → Ty) (n : Nat) (t T : Ty) : Prop where
  flat : t.isFlat = true
  below : ∀ v ∈ t.vars, v.id < n
  equiv : (t.bind θ).Equiv T

namespace Has

variable {n m : Nat} {t T U : Ty}

theorem mono (h : Has θ n t T) (agree : Agree n θ θ') (le : n ≤ m) : Has θ' m t T :=
  ⟨h.flat, fun v hv => (h.below v hv).trans_le le, agree.bind_eq h.below ▸ h.equiv⟩

theorem congr (h : Has θ n t T) (eqv : T.Equiv U) : Has θ n t U := ⟨h.flat, h.below, h.equiv.trans eqv⟩

theorem prim (p : Prim) : Has θ n (.prim p) (.prim p) :=
  ⟨Ty.isFlat_prim p, by simp [Ty.vars], .refl _⟩

theorem func {ts Ts : List Ty} {r R : Ty} (params : List.Forall₂ (Has θ n) ts Ts) (h : Has θ n r R) :
    Has θ n (.func ts r) (.func Ts R) := by
  refine ⟨Ty.isFlat_func.mpr ⟨fun p hp => ?_, h.flat⟩, fun v hv => ?_, ?_⟩
  · obtain ⟨_, _, has⟩ := forall₂_exists params hp
    exact has.flat
  · rcases Ty.mem_vars_func.mp hv with ⟨p, hp, hv⟩ | hv
    · obtain ⟨_, _, has⟩ := forall₂_exists params hp
      exact has.below v hv
    · exact h.below v hv
  · rw [Ty.bind, Ty.bindAll_eq]
    refine .func ?_ h.equiv
    rw [List.forall₂_map_left_iff]
    exact params.imp fun _ _ has => has.equiv

end Has

theorem le_of_mem_freshTys {t : Ty} {n count : Nat} (h : t ∈ freshTys n count) :
    ∀ v ∈ t.vars, n ≤ v.id := by
  induction count generalizing n with
  | zero => cases h
  | succ count ih =>
    rcases List.mem_cons.mp h with rfl | h
    · simp [Ty.vars]
    · exact fun v hv => Nat.le_of_succ_le (ih h v hv)

theorem has_freshTys (θ : Var → Ty) (n : Nat) (Ts : List Ty) :
    List.Forall₂ (Has (assigning θ n Ts) (n + Ts.length)) (freshTys n Ts.length) Ts := by
  induction Ts generalizing n with
  | nil => exact .nil
  | cons T Ts ih =>
    rw [List.length_cons, freshTys]
    refine .cons ⟨Ty.isFlat_var _, by simp [Ty.vars], ?_⟩ ?_
    · rw [Ty.bind, assigning, Function.update_self]
      exact .refl _
    · have shifted := ih (n + 1)
      rw [Nat.add_right_comm] at shifted
      refine forall₂_imp_mem shifted fun t ht T' has => ⟨has.flat, has.below, ?_⟩
      -- The later variables do not have the first number.
      have same : t.bind (assigning θ n (T :: Ts)) = t.bind (assigning θ (n + 1) Ts) := by
        refine Ty.bind_congr t fun v hv => ?_
        have ne : v ≠ ⟨n, false⟩ := fun eq => by
          have := le_of_mem_freshTys ht v hv
          rw [eq] at this
          exact Nat.lt_irrefl n this
        rw [assigning, Function.update_of_ne ne]
      rw [same]
      exact has.equiv

/-! ## Contexts -/

theorem Env.mem_entries_bindMonos {env : Env} {xs : List String} {ts : List Ty}
    {entry : String × Scheme} (he : entry ∈ (env.bindMonos xs ts).entries) :
    entry ∈ env.entries ∨ ∃ t ∈ ts, entry.2 = .mono t := by
  induction xs generalizing env ts with
  | nil => exact .inl he
  | cons x xs ih =>
    cases ts with
    | nil => exact .inl he
    | cons t ts =>
      rcases ih he with he | ⟨u, hu, eq⟩
      · rcases Env.mem_entries_bind he with he | rfl
        · exact .inl he
        · exact .inr ⟨t, List.mem_cons_self, rfl⟩
      · exact .inr ⟨u, List.mem_cons_of_mem _ hu, eq⟩

theorem Regular.solves_agree {k : Nat → Bool} (h : Regular k c H) (agree : Agree c.nextVar θ θ')
    (solved : Solves θ c.subst) : Solves θ' c.subst := by
  intro v hv
  have bound : v.id ∈ c.subst.keys := Subst.mem_keys.mpr ⟨v, hv, rfl⟩
  have image : ∀ w ∈ (c.subst.image v).vars, w.id < c.nextVar := by
    obtain ⟨t, found⟩ := Option.isSome_iff_exists.mp (Subst.find?_isSome_iff.mpr bound)
    intro w hw
    rw [Subst.image, found] at hw
    exact h.range found w.id (Ty.mem_ids.mpr ⟨w, hw, rfl⟩)
  rw [agree v (h.keys bound), agree.bind_eq image]
  exact solved v hv

theorem Good.below (good : Good c H) {t : Ty} (ht : t.Over H) : ∀ v ∈ t.vars, v.id < c.nextVar := by
  obtain ⟨k, regular⟩ := good.sane
  exact fun v hv => (regular.known ht v hv).2

namespace Walk

/-- The solution `θ` turns what inference knows at a place into a typing of it in `Γ`. -/
structure Tracks (θ : Var → Ty) (c : Context) (H : Set Var) (Γ : Env) : Prop where
  placed : Placed (Context.new .one).env c H
  clean : c.errors = []
  flat : c.Flat
  fits : Fits θ
  solved : Solves θ c.subst
  paired : c.env.Paired (Follows θ) Γ

/-- A solution later on, which is the old one for all that was there before. -/
structure Extends (θ : Var → Ty) (c : Context) (θ' : Var → Ty) (c' : Context) : Prop where
  agree : Agree c.nextVar θ θ'
  next_le : c.nextVar ≤ c'.nextVar
  fits : Fits θ'
  solved : Solves θ' c'.subst
  flat : c'.subst.IsFlat

namespace Extends

theorem trans (h : Extends θ c θ' c') (h' : Extends θ' c' θ'' c'') : Extends θ c θ'' c'' :=
  ⟨h.agree.trans h'.agree h.next_le, h.next_le.trans h'.next_le, h'.fits, h'.solved, h'.flat⟩

theorem withEnv (h : Extends θ c θ' c') (env : Env) : Extends θ c θ' { c' with env } :=
  ⟨h.agree, h.next_le, h.fits, h.solved, h.flat⟩

theorem has {t T : Ty} (h : Extends θ c θ' c') (has : Has θ c.nextVar t T) :
    Has θ' c'.nextVar t T := has.mono h.agree h.next_le

end Extends

namespace Tracks

theorem good (h : Tracks θ c H Γ) : Good c H := h.placed.good

theorem same (h : Tracks θ c H Γ) : Extends θ c θ c :=
  ⟨.refl _ _, le_rfl, h.fits, h.solved, h.flat.subst⟩

theorem has (h : Tracks θ c H Γ) {t T : Ty} (overH : t.Over H) (flat : t.isFlat = true)
    (eqv : (t.bind θ).Equiv T) : Has θ c.nextVar t T := ⟨flat, h.good.below overH, eqv⟩

theorem paired_agree (h : Tracks θ c H Γ) (agree : Agree c.nextVar θ θ') :
    c.env.Paired (Follows θ') Γ := by
  obtain ⟨k, regular⟩ := h.good.sane
  refine h.paired.imp fun entry he σ' follows => follows.congr fun v hv => ?_
  exact agree v ((regular.env he).1 v hv.1).2

theorem pending_agree (h : Tracks θ c H Γ) (agree : Agree c.nextVar θ θ') {xs : List String}
    (pending : Pending θ c.env Γ xs) : Pending θ' c.env Γ xs := by
  obtain ⟨k, regular⟩ := h.good.sane
  intro x hx
  obtain ⟨p, P, found, found', eqv⟩ := pending x hx
  have below : ∀ v ∈ p.vars, v.id < c.nextVar :=
    fun v hv => ((regular.env (Env.mem_entries_lookupLocal found)).1 v hv).2
  exact ⟨p, P, found, found', agree.bind_eq below ▸ eqv⟩

theorem next (h : Tracks θ c H Γ) (goes : Goes c H c' H') (ext : Extends θ c θ' c')
    (clean : c'.errors = []) : Tracks θ' c' H' Γ where
  placed := h.placed.goes goes
  clean := clean
  flat := ⟨ext.flat, fun he => h.flat.env (goes.env ▸ he)⟩
  fits := ext.fits
  solved := ext.solved
  paired := goes.env ▸ h.paired_agree ext.agree

/-! ## Steps -/

theorem unify (h : Tracks θ c H Γ) {a b : Ty} (ha : a.Over H) (hb : b.Over H)
    (flatA : a.isFlat = true) (flatB : b.isFlat = true) (eqv : (a.bind θ).Equiv (b.bind θ)) :
    ∃ c', c.unify a b = .ok c' ∧ Goes c H c' H ∧ Extends θ c θ c' ∧ Tracks θ c' H Γ := by
  obtain ⟨k, regular⟩ := h.good.sane
  obtain ⟨f, commit, solved⟩ := exists_commit regular.idempotent regular.respects
    (regular.known ha).kinded (regular.known hb).kinded h.fits h.solved eqv
  have unified : c.unify a b = .ok { c with subst := c.subst.compose f } :=
    unify_eq_ok.mpr ⟨f, commit.found, rfl⟩
  have goes := goes_unify h.good ha hb unified
  have flat := unify_isFlat commit.found (h.flat.apply regular flatA) (h.flat.apply regular flatB)
  have ext : Extends θ c θ { c with subst := c.subst.compose f } :=
    ⟨.refl _ _, le_rfl, h.fits, solved, h.flat.subst.compose flat commit.foundIdempotent commit.apart⟩
  exact ⟨_, unified, goes, ext, h.next goes ext h.clean⟩

theorem fresh (h : Tracks θ c H Γ) (T : Ty) :
    Extends θ c (assigning θ c.nextVar [T]) c.freshTy.2 ∧
      Tracks (assigning θ c.nextVar [T]) c.freshTy.2 (insert (c.freshVar false).1 H) Γ ∧
      Has (assigning θ c.nextVar [T]) c.freshTy.2.nextVar c.freshTy.1 T := by
  obtain ⟨k, regular⟩ := h.good.sane
  have ext : Extends θ c (assigning θ c.nextVar [T]) c.freshTy.2 :=
    ⟨agree_assigning _ _ _, Nat.le_succ _, h.fits.assigning _ _,
      regular.solves_agree (agree_assigning _ _ _) h.solved, h.flat.subst⟩
  refine ⟨ext, h.next (h.good.fresh false) ext h.clean, ?_⟩
  cases has_freshTys θ c.nextVar [T] with
  | cons first _ => exact first

open Classical in
theorem instantiate (h : Tracks θ c H Γ) {x : String} {σ : Scheme} {ι : Var → Ty} {T : Ty}
    (he : (x, σ) ∈ c.env.entries) (admits : σ.Admits ι) (eqv : (σ.fill ι θ).Equiv T) :
    ∃ (θ' : Var → Ty) (H' : Set Var), Goes c H (c.instantiate σ).2 H' ∧
      Extends θ c θ' (c.instantiate σ).2 ∧ (c.instantiate σ).1.Over H' ∧
      Has θ' (c.instantiate σ).2.nextVar (c.instantiate σ).1 T ∧
      (∃ f, (c.instantiate σ).1 = σ.ty.bind f) ∧ Tracks θ' (c.instantiate σ).2 H' Γ := by
  obtain ⟨k, regular⟩ := h.good.sane
  obtain ⟨ren, H', goes, overH, inst⟩ := h.good.instantiate he
  let θ' (v : Var) : Ty := if new : ∃ q ∈ σ.vars, ren q = v then ι new.choose else θ v
  have new {q : Var} (hq : q ∈ σ.vars) : θ' (ren q) = ι q := by
    have found : ∃ r ∈ σ.vars, ren r = ren q := ⟨q, hq, rfl⟩
    dsimp only [θ']
    rw [dif_pos found, inst.inj found.choose_spec.1 hq (congrArg Var.id found.choose_spec.2)]
  have agree : Agree c.nextVar θ θ' := by
    intro v hv
    refine dif_neg ?_
    rintro ⟨q, hq, rfl⟩
    have := (inst.fresh hq).1
    omega
  have fits : Fits θ' := by
    intro v flag
    dsimp only [θ']
    split
    next new =>
      obtain ⟨hq, eq⟩ := new.choose_spec
      refine admits _ hq ?_
      rw [← inst.flag hq, eq]
      exact flag
    next => exact h.fits v flag
  have typed : (c.instantiate σ).1.bind θ' = σ.fill ι θ := by
    rw [inst.bind θ']
    refine Ty.bind_congr σ.ty fun v hv => ?_
    split
    next quantified => exact new quantified
    next => exact agree v ((regular.env he).1 v hv).2
  have subst : (c.instantiate σ).2.subst = c.subst := by rw [inst.context]
  have ext : Extends θ c θ' (c.instantiate σ).2 := by
    refine ⟨agree, ?_, fits, ?_, ?_⟩
    · rw [inst.context]
      exact Nat.le_add_right _ _
    · rw [subst]
      exact regular.solves_agree agree h.solved
    · rw [subst]
      exact h.flat.subst
  have clean : (c.instantiate σ).2.errors = [] := by
    rw [inst.context]
    exact h.clean
  exact ⟨θ', H', goes, ext, overH, ⟨h.flat.instantiate he inst, goes.good.below overH, typed ▸ eqv⟩,
    ⟨_, inst.ty⟩, h.next goes ext clean⟩

theorem enter (h : Tracks θ c H Γ) {xs : List String} (names : NoOperator xs) {Ts : List Ty}
    (length : Ts.length = xs.length) :
    ∃ (θ' : Var → Ty) (H' : Set Var),
      Tracks θ' (Context.bindFresh { c with env := c.env.push } xs) H' (Γ.push.bindMonos xs Ts) ∧
      Extends θ c θ' (Context.bindFresh { c with env := c.env.push } xs) ∧
      List.Forall₂ (Has θ' (Context.bindFresh { c with env := c.env.push } xs).nextVar)
        (freshTys c.nextVar xs.length) Ts := by
  obtain ⟨k, regular⟩ := h.good.sane
  obtain ⟨H', placed⟩ := h.placed.enter names
  have agree := agree_assigning θ c.nextVar Ts
  have has := has_freshTys θ c.nextVar Ts
  rw [length] at has
  have fits := h.fits.assigning c.nextVar Ts
  have solved := regular.solves_agree agree h.solved
  have flat : (Context.bindFresh { c with env := c.env.push } xs).Flat := by
    refine ⟨h.flat.subst, fun {entry} he => ?_⟩
    rcases Env.mem_entries_bindMonos he with he | ⟨t, ht, eq⟩
    · exact h.flat.env he
    · obtain ⟨_, _, has⟩ := forall₂_exists has ht
      rw [eq]
      exact has.flat
  have paired := (h.paired_agree agree).push.bindMonos xs (has.imp fun _ _ has => has.equiv)
  exact ⟨_, H', ⟨placed, h.clean, flat, fits, solved, paired⟩,
    ⟨agree, Nat.le_add_right _ _, fits, solved, h.flat.subst⟩, has⟩

/-! ## Checks -/

theorem operands {params operands : List Ty} {construct : Construct} {operator source : String}
    {pos : Position} {ps os As : List Ty} (h : Tracks θ c H Γ)
    (left : List.Forall₂ (fun p A => (p.bind θ).Equiv A) ps As)
    (right : List.Forall₂ (fun o A => (o.bind θ).Equiv A) os As)
    (hps : ∀ p ∈ ps, p.Over H ∧ p.isFlat = true) (hos : ∀ o ∈ os, o.Over H ∧ o.isFlat = true) :
    ∃ c', Clean (checkOperands params operands construct operator source pos (ps.zip os)) c () c' ∧
      Extends θ c θ c' ∧ Tracks θ c' H Γ := by
  induction left generalizing c os with
  | nil =>
    cases right
    exact ⟨c, clean_checkOperands_nil.mpr ⟨rfl, h.clean⟩, h.same, h⟩
  | cons first _ ih =>
    cases right with
    | cons first' rest' =>
      obtain ⟨⟨overP, flatP⟩, hps⟩ := List.forall_mem_cons.mp hps
      obtain ⟨⟨overO, flatO⟩, hos⟩ := List.forall_mem_cons.mp hos
      obtain ⟨c₁, unified, _, ext₁, tracks₁⟩ :=
        h.unify overP overO flatP flatO (first.trans first'.symm)
      obtain ⟨c₂, checked, ext₂, tracks₂⟩ := ih tracks₁ rest' hps hos
      exact ⟨c₂, clean_checkOperands_cons.mpr ⟨c₁, ⟨unified, h.clean⟩, checked⟩, ext₁.trans ext₂,
        tracks₂⟩

theorem known (h : Tracks θ c H Γ) {t T : Ty} (overH : t.Over H) (has : Has θ c.nextVar t T) :
    Has θ c.nextVar (c.apply t) T := by
  obtain ⟨k, regular⟩ := h.good.sane
  have seen := h.good.see overH
  refine ⟨h.flat.apply regular has.flat, ?_, ?_⟩
  · exact seen.good.below fun v hv => .inr hv
  · exact (h.good.sane.equiv_apply overH h.solved).symm.trans has.equiv

theorem operator {key operator source : String} {construct : Construct} {os As ps : List Ty}
    {pos : Position} {vars : List Var} {u T : Ty} (h : Tracks θ c H Γ)
    (hkey : key ∈ Prelude.operators.map (·.1))
    (found : (Context.new .one).env.lookup key = some ⟨vars, .func ps u⟩)
    (inst : Scheme.Instance ⟨vars, .func ps u⟩ (.func As T))
    (has : List.Forall₂ (Has θ c.nextVar) os As) (overH : ∀ o ∈ os, o.Over H) :
    ∃ t c' θ', Clean (useOperator key operator source construct os pos) c t c' ∧
      Extends θ c θ' c' ∧ Has θ' c'.nextVar t T := by
  have known : c.env.lookup key = some ⟨vars, .func ps u⟩ := by rw [h.placed.keeps key hkey, found]
  have closed := Prelude.closed_new (Env.mem_entries_lookup found)
  obtain ⟨ι, admits, eqv⟩ := inst
  have fill : Scheme.fill ⟨vars, .func ps u⟩ ι .var = Scheme.fill ⟨vars, .func ps u⟩ ι θ :=
    Scheme.fill_closed closed
  rw [fill] at eqv
  obtain ⟨θ₁, H₁, goes, ext, over₁, has₁, ⟨f, shape⟩, tracks₁⟩ :=
    h.instantiate (Env.mem_entries_lookup known) admits eqv
  rw [Ty.bind, Ty.bindAll_eq] at shape
  rw [shape] at over₁ has₁
  obtain ⟨overP, overR⟩ := Ty.over_func.mp over₁
  obtain ⟨flatP, flatR⟩ := Ty.isFlat_func.mp has₁.flat
  have parts := has₁.equiv
  rw [Ty.bind, Ty.bindAll_eq] at parts
  obtain ⟨left, result⟩ := parts.func_inv
  rw [List.forall₂_map_left_iff] at left
  have right : List.Forall₂ (fun o A => (o.bind θ₁).Equiv A) os As :=
    has.imp fun _ _ has => (ext.has has).equiv
  have hos : ∀ o ∈ os, o.Over H₁ ∧ o.isFlat = true := by
    intro o ho
    obtain ⟨_, _, has⟩ := forall₂_exists has ho
    exact ⟨(overH o ho).mono goes.subset, has.flat⟩
  obtain ⟨c₂, checked, ext₂, tracks₂⟩ :=
    tracks₁.operands left right (fun p hp => ⟨overP p hp, flatP p hp⟩) hos
  have used : Clean (useName key pos) c (.func (ps.map (·.bind f)) (u.bind f))
      (c.instantiate ⟨vars, .func ps u⟩).2 := by
    refine clean_useName.mpr ⟨_, known, clean_instantiate.mpr ⟨?_, rfl, h.clean⟩⟩
    exact shape.symm
  refine ⟨c₂.apply (u.bind f), c₂, θ₁, ?_, ext.trans ext₂,
    tracks₂.known overR (tracks₂.has overR flatR result)⟩
  refine (clean_useOperator fun t c₁ run => ?_).mpr ⟨_, _, _, used, checked, rfl⟩
  exact ⟨_, _, (instance_of_used known run).1.trans shape⟩

theorem name (h : Tracks θ c H Γ) {x : String} (pos : Position) {σ : Scheme} {T : Ty}
    (found : Γ.lookup x = some σ) (inst : σ.Instance T) :
    ∃ t c' θ', Clean (useName x pos) c t c' ∧ Extends θ c θ' c' ∧ Has θ' c'.nextVar t T := by
  obtain ⟨σ', known, follows⟩ := h.paired.exists_lookup found
  obtain ⟨ι, admits, eqv⟩ := follows.instances inst
  obtain ⟨θ', _, _, ext, _, has, _⟩ := h.instantiate (Env.mem_entries_lookup known) admits eqv
  exact ⟨_, _, θ', clean_useName.mpr ⟨σ', known, clean_instantiate.mpr ⟨rfl, rfl, h.clean⟩⟩, ext, has⟩

theorem collapseList_flat {t : Ty} (flat : t.isFlat = true) : collapseList t = pure t := by
  unfold collapseList
  split
  next => cases flat
  next => rfl

theorem call {callee T : Ty} {args Ts : List Ty} {source : String} {pos : Position}
    (h : Tracks θ c H Γ) (overC : callee.Over H) (has : Has θ c.nextVar callee (.func Ts T))
    (overA : ∀ a ∈ args, a.Over H) (hasA : List.Forall₂ (Has θ c.nextVar) args Ts) :
    ∃ t c' θ', Clean (useCallee callee args source pos) c t c' ∧ Extends θ c θ' c' ∧
      Has θ' c'.nextVar t T := by
  have known := h.known overC has
  have arity (params : List Ty) (result : Ty) (eq : c.apply callee = .func params result) :
      params.length = args.length := by
    have eqv := known.equiv
    rw [eq, Ty.bind, Ty.bindAll_eq] at eqv
    have length := eqv.func_inv.1.length_eq
    rw [List.length_map] at length
    rw [length, hasA.length_eq]
  have seen := h.good.see overC
  have tracks₁ := h.next seen h.same h.clean
  obtain ⟨ext₂, tracks₂, hasR⟩ := tracks₁.fresh T
  have sub : H ⊆ insert (c.freshVar false).1 (H ∪ {v | v ∈ (c.apply callee).vars}) :=
    fun v hv => .inr (.inl hv)
  have overR : c.freshTy.1.Over (insert (c.freshVar false).1 (H ∪ {v | v ∈ (c.apply callee).vars})) :=
    Ty.over_var.mpr (Set.mem_insert _ _)
  have expected : Has _ _ (.func args c.freshTy.1) (.func Ts T) :=
    .func (hasA.imp fun _ _ has => ext₂.has has) hasR
  have known₂ := ext₂.has known
  obtain ⟨c₃, unified, goes₃, ext₃, tracks₃⟩ := tracks₂.unify (fun v hv => .inr (.inr hv))
    (Ty.over_func.mpr ⟨fun a ha => (overA a ha).mono sub, overR⟩) known₂.flat expected.flat
    (known₂.equiv.trans expected.equiv.symm)
  have result := tracks₃.known overR (ext₃.has hasR)
  refine ⟨c₃.apply c.freshTy.1, c₃, _, ?_, ext₂.trans ext₃, result⟩
  refine clean_useCallee.mpr ⟨arity, clean_applyCallee.mpr ⟨c₃, ⟨unified, h.clean⟩, ?_⟩⟩
  rw [collapseList_flat result.flat]
  exact clean_pure.mpr ⟨rfl, rfl, tracks₃.clean⟩

theorem declare {x source : String} {binding : Binding} {pos : Position} {t p P : Ty} {σ : Scheme}
    (h : Tracks θ c H Γ) (general : binding.isGeneral = true)
    (found : c.env.lookupLocal x = some (.mono p)) (before : (p.bind θ).Equiv P) (overH : t.Over H)
    (has : Has θ c.nextVar t P) (generalizes : Generalizes (Γ.erase x) P σ) :
    ∃ u c', Clean (declare x binding source pos 0 t) c (.typed u) c' ∧ Extends θ c θ c' ∧
      Has θ c'.nextVar u P ∧ c'.Flat ∧ c'.env.Paired (Follows θ) (Γ.bind x σ) ∧
      ∃ σ', c'.env = c.env.bind x σ' := by
  have he := Env.mem_entries_lookupLocal found
  have used : Goes c H c (H ∪ {v | (Scheme.mono p).Free v}) := ⟨h.good, .single (.use he), rfl⟩
  have overP : p.Over (H ∪ {v | (Scheme.mono p).Free v}) := fun v hv => .inr ⟨hv, List.not_mem_nil⟩
  have overT := overH.mono used.subset
  obtain ⟨c₁, unified, goes, ext, tracks₁⟩ := (h.next used h.same h.clean).unify overP overT
    (h.flat.env he) has.flat (before.trans has.equiv.symm)
  have checked : Clean (checkPlaceholder x binding source pos t) c () c₁ :=
    (clean_checkPlaceholder found).mpr ⟨p, c, clean_instantiate.mpr ⟨rfl, rfl, h.clean⟩,
      clean_checkSame.mpr ⟨unified, h.clean⟩⟩
  -- The scheme is made where the name is not bound.
  let erased : Context := { c₁ with env := c₁.env.erase x }
  have good : Good erased (H ∪ {v | (Scheme.mono p).Free v}) :=
    tracks₁.good.drop fun _ => Env.mem_entries_erase
  have flat : erased.Flat := ⟨tracks₁.flat.subst, fun he => tracks₁.flat.env (Env.mem_entries_erase he)⟩
  obtain ⟨k, regular⟩ := good.sane
  have resolved : ((erased.resolve t).bind θ).Equiv P :=
    (good.sane.equiv_resolve overT tracks₁.solved).symm.trans has.equiv
  have follows := Follows.generalize good overT h.fits tracks₁.solved (tracks₁.paired.erase x)
    resolved generalizes
  obtain ⟨shape, flatG⟩ := flat.generalize regular has.flat
  have scheme : declared binding erased t = erased.generalize t := if_pos general
  refine ⟨(erased.generalize t).ty, { c₁ with env := (c₁.env.erase x).bind x (erased.generalize t) },
    clean_declare.mpr ⟨c₁, _, checked, scheme.symm, rfl, rfl⟩, ext.withEnv _, ?_, ?_, ?_, ?_⟩
  · have known := tracks₁.known overT (ext.has has)
    exact ⟨flatG, shape ▸ known.below, resolved⟩
  · refine ⟨tracks₁.flat.subst, fun {entry} he => ?_⟩
    rcases Env.mem_entries_bind he with he | rfl
    · exact flat.env he
    · exact flatG
  · have paired := (tracks₁.paired.erase x).bind x follows
    rwa [Env.bind_erase Γ] at paired
  · exact ⟨erased.generalize t, by rw [Env.bind_erase, (used.trans goes).env]⟩

end Tracks

end Walk

end Polytype
