import Polytype.Proofs.Typing.Models

/-!
# Environments that leave nothing out

The other direction from `Models`. An environment of inference follows one of the type system if a
name can be used, under a solution, at everything that it can be used at there. Both have the same
names in the same places, and what a solution makes of a free variable is free in the other one. So
what the type system may quantify at a declaration, inference does quantify (`Follows.generalize`).
-/

namespace Polytype

variable {c : Context} {H : Set Var} {θ θ' : Var → Ty} {Γ : Env}

/-! ## Schemes -/

/-- Every instance of `σ'` is one of `σ`, with `θ` for its free variables, and all that `θ` puts there
is free in `σ'`. -/
structure Follows (θ : Var → Ty) (σ σ' : Scheme) : Prop where
  instances {T : Ty} (h : σ'.Instance T) : ∃ ι, σ.Admits ι ∧ (σ.fill ι θ).Equiv T
  free {v w : Var} (hv : σ.Free v) (hw : w ∈ (θ v).vars) : σ'.Free w

namespace Follows

theorem mono {t T : Ty} (h : (t.bind θ).Equiv T) : Follows θ (.mono t) (.mono T) where
  instances inst := by
    refine ⟨.var, (fun v hv => by cases hv), ?_⟩
    rw [Scheme.fill_mono]
    exact h.trans (Scheme.instance_mono.mp inst)
  free {v w} hv hw := by
    refine ⟨h.mem_vars.mp ?_, List.not_mem_nil⟩
    rw [Ty.vars_bind, List.mem_flatMap]
    exact ⟨v, hv.1, hw⟩

theorem closed {σ : Scheme} (closed : ∀ v, ¬σ.Free v) : Follows θ σ σ where
  instances := by
    rintro T ⟨ι, admits, eqv⟩
    exact ⟨ι, admits, Scheme.fill_closed closed ▸ eqv⟩
  free hv := absurd hv (closed _)

theorem congr {σ σ' : Scheme} (h : Follows θ σ σ') (same : ∀ v, σ.Free v → θ' v = θ v) :
    Follows θ' σ σ' where
  instances inst := by
    obtain ⟨ι, admits, eqv⟩ := h.instances inst
    refine ⟨ι, admits, ?_⟩
    have eq : σ.fill ι θ' = σ.fill ι θ := by
      refine Ty.bind_congr σ.ty fun v hv => ?_
      split
      · rfl
      next free => exact same v ⟨hv, free⟩
    rw [eq]
    exact eqv
  free hv hw := h.free hv (same _ hv ▸ hw)

end Follows

/-! ## Environments -/

section Lists

variable {α β : Type} {R S : α → β → Prop} {as : List α} {bs : List β}

theorem forall₂_exists (h : List.Forall₂ R as bs) {a : α} (ha : a ∈ as) : ∃ b ∈ bs, R a b := by
  induction h with
  | nil => cases ha
  | cons first _ ih =>
    rcases List.mem_cons.mp ha with rfl | ha
    · exact ⟨_, List.mem_cons_self, first⟩
    · obtain ⟨b, hb, rel⟩ := ih ha
      exact ⟨b, List.mem_cons_of_mem _ hb, rel⟩

theorem forall₂_imp_mem (h : List.Forall₂ R as bs) (imp : ∀ a ∈ as, ∀ b, R a b → S a b) :
    List.Forall₂ S as bs := by
  induction h with
  | nil => exact .nil
  | cons first _ ih =>
    obtain ⟨head, tail⟩ := List.forall_mem_cons.mp imp
    exact .cons (head _ first) (ih tail)

end Lists

variable {R S : Scheme → Scheme → Prop}

/-- The same names in the same order, with schemes that are related. -/
def Scope.Paired (R : Scheme → Scheme → Prop) : Scope → Scope → Prop :=
  List.Forall₂ fun a b => a.1 = b.1 ∧ R a.2 b.2

namespace Scope.Paired

variable {scope scope' : Scope}

theorem lookup (h : Paired R scope scope') (x : String) :
    Option.Rel R (List.lookup x scope) (List.lookup x scope') := by
  induction h with
  | nil => exact .none
  | @cons a b _ _ first _ ih =>
    obtain ⟨y, σ⟩ := a
    obtain ⟨z, σ'⟩ := b
    obtain ⟨rfl, rel⟩ := first
    rw [List.lookup_cons, List.lookup_cons]
    dsimp only
    cases x == y with
    | true => exact .some rel
    | false => exact ih

theorem erase (h : Paired R scope scope') (x : String) :
    Paired R (Scope.erase x scope) (Scope.erase x scope') := by
  induction h with
  | nil => exact .nil
  | @cons a b _ _ first _ ih =>
    unfold Scope.erase at ih ⊢
    rw [List.filter_cons, List.filter_cons, first.1]
    split
    · exact .cons first ih
    · exact ih

theorem bind (h : Paired R scope scope') (x : String) {σ σ' : Scheme} (rel : R σ σ') :
    Paired R (Scope.bind x σ scope) (Scope.bind x σ' scope') := .cons ⟨rfl, rel⟩ (h.erase x)

end Scope.Paired

/-- The same scopes, innermost first. -/
def Env.Paired (R : Scheme → Scheme → Prop) (env Γ : Env) : Prop :=
  Scope.Paired R env.outermost Γ.outermost ∧ List.Forall₂ (Scope.Paired R) env.inner Γ.inner

namespace Env.Paired

variable {env : Env}

theorem scopes (h : Paired R env Γ) : List.Forall₂ (Scope.Paired R) env.scopes Γ.scopes :=
  List.rel_append h.2 (.cons h.1 .nil)

theorem lookup (h : Paired R env Γ) (x : String) : Option.Rel R (env.lookup x) (Γ.lookup x) := by
  have paired := h.scopes
  unfold Env.lookup
  generalize env.scopes = scopes at paired ⊢
  generalize Γ.scopes = scopes' at paired ⊢
  induction paired with
  | nil => exact .none
  | @cons a b _ _ first _ ih =>
    rw [List.findSome?_cons, List.findSome?_cons]
    have rel := first.lookup x
    generalize List.lookup x a = found at rel ⊢
    generalize List.lookup x b = found' at rel ⊢
    cases rel with
    | some rel => exact .some rel
    | none => exact ih

theorem exists_lookup (h : Paired R env Γ) {x : String} {σ' : Scheme} (found : Γ.lookup x = some σ') :
    ∃ σ, env.lookup x = some σ ∧ R σ σ' := by
  have rel := h.lookup x
  rw [found] at rel
  generalize env.lookup x = known at rel
  cases rel with
  | some rel => exact ⟨_, rfl, rel⟩

theorem exists_entry (h : Paired R env Γ) {entry : String × Scheme} (he : entry ∈ env.entries) :
    ∃ entry' ∈ Γ.entries, R entry.2 entry'.2 := by
  obtain ⟨scope, hs, he⟩ := List.mem_flatten.mp he
  obtain ⟨scope', hs', paired⟩ := forall₂_exists h.scopes hs
  obtain ⟨entry', he', _, rel⟩ := forall₂_exists paired he
  exact ⟨entry', List.mem_flatten.mpr ⟨scope', hs', he'⟩, rel⟩

theorem imp (h : Paired R env Γ) (imp : ∀ entry ∈ env.entries, ∀ σ', R entry.2 σ' → S entry.2 σ') :
    Paired S env Γ := by
  simp only [Env.mem_entries] at imp
  refine ⟨forall₂_imp_mem h.1 fun a ha b rel => ⟨rel.1, imp a (.inr ha) _ rel.2⟩, ?_⟩
  refine forall₂_imp_mem h.2 fun scope hs scope' paired => ?_
  exact forall₂_imp_mem paired fun a ha b rel => ⟨rel.1, imp a (.inl ⟨scope, hs, ha⟩) _ rel.2⟩

theorem refl (h : ∀ entry ∈ env.entries, R entry.2 entry.2) : Paired R env env := by
  have scope (s : Scope) (hs : ∀ entry ∈ s, R entry.2 entry.2) : Scope.Paired R s s :=
    List.forall₂_same.mpr fun entry he => ⟨rfl, hs entry he⟩
  simp only [Env.mem_entries] at h
  refine ⟨scope _ fun entry he => h entry (.inr he), List.forall₂_same.mpr fun s hs => ?_⟩
  exact scope s fun entry he => h entry (.inl ⟨s, hs, he⟩)

theorem push (h : Paired R env Γ) : Paired R env.push Γ.push := ⟨h.1, .cons .nil h.2⟩

theorem modify (h : Paired R env Γ) {f g : Scope → Scope}
    (fg : ∀ {s s'}, Scope.Paired R s s' → Scope.Paired R (f s) (g s')) :
    Paired R (env.modify f) (Γ.modify g) := by
  obtain ⟨outermost, inner⟩ := env
  obtain ⟨outermost', inner'⟩ := Γ
  obtain ⟨outer, paired⟩ := h
  cases paired with
  | nil => exact ⟨fg outer, .nil⟩
  | cons first rest => exact ⟨outer, .cons (fg first) rest⟩

theorem erase (h : Paired R env Γ) (x : String) : Paired R (env.erase x) (Γ.erase x) :=
  h.modify fun paired => paired.erase x

theorem bind (h : Paired R env Γ) (x : String) {σ σ' : Scheme} (rel : R σ σ') :
    Paired R (env.bind x σ) (Γ.bind x σ') := h.modify fun paired => paired.bind x rel

theorem bindMonos (h : Paired (Follows θ) env Γ) (xs : List String) {ts Ts : List Ty}
    (same : List.Forall₂ (fun t T => (t.bind θ).Equiv T) ts Ts) :
    Paired (Follows θ) (env.bindMonos xs ts) (Γ.bindMonos xs Ts) := by
  induction xs generalizing env Γ ts Ts with
  | nil => exact h
  | cons x xs ih =>
    cases same with
    | nil => exact h
    | cons first rest => exact ih (h.bind x (.mono first)) rest

end Env.Paired

/-! ## Declarations -/

theorem Good.freeIn_of_visible (good : Good c H) (solved : Solves θ c.subst)
    (paired : c.env.Paired (Follows θ) Γ) {v w : Var} (hv : c.visible.has v = true)
    (known : ∃ k, Regular k c H ∧ v.addable = k v.id) (hw : w ∈ (θ v).vars) : Γ.FreeIn w := by
  obtain ⟨k, regular, flag⟩ := known
  obtain ⟨entry, he, u, free, mem⟩ := good.has_visible.mp hv
  obtain ⟨entry', he', follows⟩ := paired.exists_entry he
  have flagU := ((regular.env he).1 u free.1).1
  have kinded : (c.apply (.var u)).Kinded k :=
    regular.respects.apply regular.idempotent (Ty.kinded_var.mpr flagU)
  obtain ⟨v', hv', same⟩ := Ty.mem_ids.mp mem
  obtain rfl : v' = v := Var.eq_of_flags (kinded v' hv') flag same
  have eqv : (θ u).Equiv ((c.apply (.var u)).bind θ) :=
    solved.apply regular.idempotent regular.respects (Ty.kinded_var.mpr flagU)
  refine ⟨entry', he', follows.free free (eqv.mem_vars.mpr ?_)⟩
  rw [Ty.vars_bind, List.mem_flatMap]
  exact ⟨v', hv', hw⟩

/-- What the type system may quantify, inference does quantify. -/
theorem Follows.generalize (good : Good c H) {t P : Ty} {σ' : Scheme} (ht : t.Over H)
    (fits : Fits θ) (solved : Solves θ c.subst) (paired : c.env.Paired (Follows θ) Γ)
    (eqv : ((c.resolve t).bind θ).Equiv P) (generalizes : Generalizes Γ P σ') :
    Follows θ (c.generalize t) σ' := by
  obtain ⟨k, regular⟩ := good.sane
  have known := regular.over_resolve ht
  have outside {v w : Var} (hv : (c.generalize t).Free v) (hw : w ∈ (θ v).vars) : w ∉ σ'.vars := by
    have visible : c.visible.has v = true := by
      by_contra unseen
      exact hv.2 ((regular.mem_generalize ht).mpr ⟨hv.1, Bool.eq_false_iff.mpr unseen⟩)
    intro mem
    exact ((generalizes.vars w).mp mem).2
      (good.freeIn_of_visible solved paired visible ⟨k, regular, (known v hv.1).1⟩ hw)
  have occurs {v w : Var} (hv : v ∈ (c.resolve t).vars) (hw : w ∈ (θ v).vars) : w ∈ P.vars := by
    refine eqv.mem_vars.mp ?_
    rw [Ty.vars_bind, List.mem_flatMap]
    exact ⟨v, hv, hw⟩
  refine ⟨?_, fun {v w} hv hw => ⟨generalizes.ty ▸ occurs hv.1 hw, outside hv hw⟩⟩
  rintro T ⟨ι, admits, inst⟩
  -- First the solution, then the instance of the type that it gives.
  let κ (w : Var) : Ty := if w ∈ σ'.vars then ι w else .var w
  have fitsκ : Fits κ := by
    intro w flag
    dsimp only [κ]
    split
    next mem => exact admits w mem flag
    next => exact .inr (.inr ⟨w, rfl, flag⟩)
  refine ⟨fun v => (θ v).bind κ, fun v _ flag => fitsκ.bind (fits v flag), ?_⟩
  have fill : (c.generalize t).fill (fun v => (θ v).bind κ) θ = ((c.resolve t).bind θ).bind κ := by
    rw [Ty.bind_bind]
    refine Ty.bind_congr (c.resolve t) fun v hv => ?_
    split
    · rfl
    next free =>
      rw [← Ty.bind_var (θ v), Ty.bind_bind]
      refine Ty.bind_congr (θ v) fun w hw => ?_
      dsimp only [Ty.bind, κ]
      rw [if_neg (outside ⟨hv, free⟩ hw)]
  rw [fill]
  refine (eqv.bind_same κ).trans ?_
  rw [← generalizes.ty]
  exact inst

end Polytype
