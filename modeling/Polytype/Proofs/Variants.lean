import Polytype.Proofs.Renaming.Types
import Polytype.Proofs.Schemes

/-!
# Instances of generalized types

Generalizing a type and instantiating the scheme gives back what is known of the type, with new
variables for those that the environment does not see (`Variant`). Nothing is assumed of the schemes
in the environment but that their variables have been handed out (`Supplied`), so this holds of many
contexts that no inference comes to.

Two instances, one after the other, have only visible variables in common
(`instantiate_generalize`).
-/

namespace Polytype

variable {k : Nat → Bool} {c c' : Context} {t : Ty}

/-- The variables of the substitution and of the environment have been handed out, and those of the
substitution have the flags of `k`. -/
structure Supplied (k : Nat → Bool) (c : Context) : Prop where
  idempotent : c.subst.Idempotent
  range {v : Var} {u : Ty} (found : c.subst.find? v = some u) : u.Over (Known k c.nextVar)
  env {entry : String × Scheme} (he : entry ∈ c.env.entries) : ∀ n ∈ entry.2.ty.ids, n < c.nextVar

/-- `t` is `known` under a renaming that keeps the variables which the environment of `c` sees. All
others become new ones, handed out between `c` and `c'`. -/
structure Variant (c : Context) (known : Ty) (ρ : Var → Var) (t : Ty) (c' : Context) : Prop where
  ty : t = known.rename ρ
  supply : c.nextVar ≤ c'.nextVar ∧ c' = { c with nextVar := c'.nextVar }
  flag (v : Var) : (ρ v).addable = v.addable
  seen {v : Var} (visible : c.visible.has v = true) : ρ v = v
  fresh {v : Var} (hv : v ∈ known.vars) (unseen : c.visible.has v = false) :
    c.nextVar ≤ (ρ v).id ∧ (ρ v).id < c'.nextVar ∧ c.visible.has (ρ v) = false
  inj {v w : Var} (hv : v ∈ known.vars) (hw : w ∈ known.vars) (same : (ρ v).id = (ρ w).id) : v = w

namespace Supplied

theorem over_resolve (h : Supplied k c) (ht : t.Over (Known k c.nextVar)) :
    (c.resolve t).Over (Known k c.nextVar) :=
  (h.idempotent.over_apply (fun _ _ => h.range) ht).foldLists

theorem visible_lt (h : Supplied k c) {v : Var} (visible : c.visible.has v = true) :
    v.id < c.nextVar := by
  obtain ⟨entry, he, w, hw, same, _⟩ := has_visible.mp visible
  rw [← same]
  rcases h.idempotent.ids_apply (Ty.mem_ids.mpr ⟨w, hw, rfl⟩) with ⟨mem, _⟩ | ⟨u, r, _, found, mem⟩
  · exact h.env he w.id mem
  · obtain ⟨x, hx, eq⟩ := Ty.mem_ids.mp mem
    rw [← eq]
    exact (h.range found x hx).2

theorem later (h : Supplied k c) {n : Nat} (le : c.nextVar ≤ n) :
    Supplied k { c with nextVar := n } where
  idempotent := h.idempotent
  range found := (h.range found).mono fun _ hv => ⟨hv.1, hv.2.trans_le le⟩
  env he m hm := (h.env he m hm).trans_le le

theorem variant (h : Supplied k c) (ht : t.Over (Known k c.nextVar)) :
    ∃ ρ, Variant c (c.resolve t) ρ (c.instantiate (c.generalize t)).1
      (c.instantiate (c.generalize t)).2 := by
  have known : (c.generalize t).ty.Over (Known k c.nextVar) := h.over_resolve ht
  have quantified {v : Var} : v ∈ (c.generalize t).vars ↔
      v ∈ (c.resolve t).vars ∧ c.visible.has v = false := mem_generalize known
  obtain ⟨ren, _, _, _, inst⟩ := instantiate_spec known (fun v hv => (quantified.mp hv).1)
    (Set.subset_univ _)
  have next : (c.instantiate (c.generalize t)).2.nextVar =
      c.nextVar + (c.generalize t).vars.length := by rw [inst.context]
  refine ⟨fun v => if v ∈ (c.generalize t).vars then ren v else v, inst.ty, ⟨?_, ?_⟩, fun v => ?_,
    fun {v} visible => ?_, fun {v} hv unseen => ?_, fun {v w} hv hw same => ?_⟩
  · omega
  · rw [next]
    exact inst.context
  · split
    next hv => exact inst.flag hv
    next => rfl
  · refine if_neg fun hv => ?_
    rw [(quantified.mp hv).2] at visible
    cases visible
  · rw [if_pos (quantified.mpr ⟨hv, unseen⟩)]
    have fresh := inst.fresh (quantified.mpr ⟨hv, unseen⟩)
    refine ⟨fresh.1, fresh.2, Bool.eq_false_iff.mpr fun visible => ?_⟩
    exact absurd (h.visible_lt visible) (Nat.not_lt.mpr fresh.1)
  · -- A variable that stays is an old one, so it is none of the new ones.
    have old := (known v hv).2
    have old' := (known w hw).2
    split at same
    next qv =>
      have fresh := inst.fresh qv
      split at same
      next qw => exact inst.inj qv qw same
      next => omega
    next =>
      split at same
      next qw =>
        have fresh := inst.fresh qw
        omega
      next => exact Known.eq (known v hv) (known w hw) same

end Supplied

namespace Variant

variable {known : Ty} {ρ : Var → Var}

theorem mem_ids (h : Variant c known ρ t c') {n : Nat} :
    n ∈ t.ids ↔ ∃ v ∈ known.vars, (ρ v).id = n := by
  rw [h.ty, Ty.mem_ids, Ty.vars_rename]
  simp only [List.mem_map, exists_exists_and_eq_and]

theorem seen_or_new (h : Variant c known ρ t c') {n : Nat} (hn : n ∈ t.ids) :
    (∃ v ∈ known.vars, c.visible.has v = true ∧ v.id = n) ∨ c.nextVar ≤ n ∧ n < c'.nextVar := by
  obtain ⟨v, hv, rfl⟩ := h.mem_ids.mp hn
  cases visible : c.visible.has v with
  | true => exact .inl ⟨v, hv, visible, by rw [h.seen visible]⟩
  | false =>
    obtain ⟨low, high, _⟩ := h.fresh hv visible
    exact .inr ⟨low, high⟩

theorem mem_ids_of_seen (h : Variant c known ρ t c') {v : Var} (hv : v ∈ known.vars)
    (visible : c.visible.has v = true) : v.id ∈ t.ids :=
  h.mem_ids.mpr ⟨v, hv, by rw [h.seen visible]⟩

theorem visible_eq (h : Variant c known ρ t c') : c'.visible = c.visible := by
  rw [h.supply.2]
  rfl

theorem shared {c₁ c₂ : Context} {t₁ t₂ : Ty} {σ : Var → Var}
    (old : ∀ n ∈ known.ids, n < c.nextVar) (first : Variant c known ρ t₁ c₁)
    (second : Variant c₁ known σ t₂ c₂) (v : Var) :
    v.id ∈ t₁.ids ∧ v.id ∈ t₂.ids ↔ v.id ∈ known.ids ∧ c.visible.has v = true := by
  have same {x : Var} (eq : x.id = v.id) : c.visible.has x = c.visible.has v := by
    simp only [VarSet.has, Var.same, eq]
  constructor
  · rintro ⟨left, right⟩
    rcases first.seen_or_new left with ⟨x, hx, visible, eq⟩ | ⟨low, high⟩
    · exact ⟨Ty.mem_ids.mpr ⟨x, hx, eq⟩, same eq ▸ visible⟩
    · exfalso
      rcases second.seen_or_new right with ⟨y, hy, _, eq⟩ | ⟨later, _⟩
      · have := old v.id (Ty.mem_ids.mpr ⟨y, hy, eq⟩)
        omega
      · omega
  · rintro ⟨mem, visible⟩
    obtain ⟨x, hx, eq⟩ := Ty.mem_ids.mp mem
    have seen : c.visible.has x = true := (same eq).trans visible
    rw [← eq]
    exact ⟨first.mem_ids_of_seen hx seen,
      second.mem_ids_of_seen hx (first.visible_eq.symm ▸ seen)⟩

end Variant

/-- Generalizing quantifies, in increasing order, exactly the variables of what is known of the type
that the environment does not see. An instance is a variant of what is known, and so is the next
one. The two have the visible variables in common and no others. -/
theorem instantiate_generalize (h : Supplied k c) (ht : t.Over (Known k c.nextVar)) :
    ((c.generalize t).ty = c.resolve t ∧ VarSet.Increasing (c.generalize t).vars ∧
      ∀ v, v ∈ (c.generalize t).vars ↔ v ∈ (c.resolve t).vars ∧ c.visible.has v = false) ∧
    ∀ t₁ c₁ t₂ c₂, c.instantiate (c.generalize t) = (t₁, c₁) →
      c₁.instantiate (c.generalize t) = (t₂, c₂) →
      (∃ ρ, Variant c (c.resolve t) ρ t₁ c₁) ∧ (∃ σ, Variant c₁ (c.resolve t) σ t₂ c₂) ∧
        ∀ v : Var, v.id ∈ t₁.ids ∧ v.id ∈ t₂.ids ↔
          v.id ∈ (c.resolve t).ids ∧ c.visible.has v = true := by
  have known := h.over_resolve ht
  refine ⟨⟨rfl, VarSet.increasing_minus _ (VarSet.increasing_ofList _),
    fun v => mem_generalize known⟩, fun t₁ c₁ t₂ c₂ eq eq' => ?_⟩
  obtain ⟨ρ, first⟩ := h.variant ht
  rw [eq] at first
  -- Later contexts differ in the supply alone, so the scheme is the one they would make.
  have context : c₁ = { c with nextVar := c₁.nextVar } := first.supply.2
  have same : c₁.generalize t = c.generalize t := by rw [context]; rfl
  have same' : c₁.resolve t = c.resolve t := by rw [context]; rfl
  have supplied : Supplied k c₁ := context ▸ h.later first.supply.1
  have ht₁ : t.Over (Known k c₁.nextVar) :=
    ht.mono fun _ hv => ⟨hv.1, hv.2.trans_le first.supply.1⟩
  obtain ⟨σ, second⟩ := supplied.variant ht₁
  rw [same, same', eq'] at second
  refine ⟨⟨ρ, first⟩, ⟨σ, second⟩, first.shared (fun n hn => ?_) second⟩
  obtain ⟨v, hv, rfl⟩ := Ty.mem_ids.mp hn
  exact (known v hv).2

/-- Variable 2 is known to be a pair that reads as a list of variable 1, which is addable, and a name
is bound to variable 0. -/
def shelved : Context where
  chapter := .two
  nextVar := 3
  subst := .single (.plain 2) (.pair (.var ⟨1, true⟩) (.list (.var ⟨1, true⟩)))
  env := { outermost := [("x", .mono (.var (.plain 0)))] }
  errors := []

/-- The addable variable is quantified, and both instances have one of their own for it. -/
theorem instantiate_generalize_shelved :
    shelved.generalize (.func [.var (.plain 0)] (.var (.plain 2))) =
        ⟨[⟨1, true⟩], .func [.var (.plain 0)] (.list (.var ⟨1, true⟩))⟩ ∧
      ∃ c₁ c₂ : Context, c₁.nextVar = 4 ∧ c₂.nextVar = 5 ∧
        (∃ ρ, Variant shelved (.func [.var (.plain 0)] (.list (.var ⟨1, true⟩))) ρ
          (.func [.var (.plain 0)] (.list (.var ⟨3, true⟩))) c₁) ∧
        ∃ σ, Variant c₁ (.func [.var (.plain 0)] (.list (.var ⟨1, true⟩))) σ
          (.func [.var (.plain 0)] (.list (.var ⟨4, true⟩))) c₂ := by
  have supplied : Supplied (· == 1) shelved := by
    refine ⟨Unify.idempotent_single (by decide), fun {v u} found => ?_, fun {entry} he => ?_⟩
    · rw [shelved, Subst.find?_single] at found
      split at found
      · cases found
        simp [Known, shelved]
      · cases found
    · obtain rfl : entry = ("x", .mono (.var (.plain 0))) := List.mem_singleton.mp he
      decide
  have known : (Ty.func [.var (.plain 0)] (.var (.plain 2))).Over (Known (· == 1) shelved.nextVar) := by
    simp [Known, shelved, Var.plain]
  obtain ⟨_, instances⟩ := instantiate_generalize supplied known
  obtain ⟨first, second, _⟩ := instances _ _ _ _ rfl rfl
  exact ⟨rfl, _, _, rfl, rfl, first, second⟩

end Polytype
