import Mathlib.Data.Finset.Card
import Polytype.Subst

/-!
# Idempotent substitutions

A substitution is idempotent if no variable that it binds occurs in a type that it gives. Following
bound variables then ends after one step (`Idempotent.apply_eq`), and what has no bound variable is
left alone (`apply_disjoint`). Variables are compared by number throughout.
-/

namespace Polytype

namespace Ty

/-- The numbers of the variables that occur. -/
def ids (t : Ty) : Finset Nat := (t.vars.map Var.id).toFinset

theorem mem_ids {t : Ty} {n : Nat} : n ∈ t.ids ↔ ∃ v ∈ t.vars, v.id = n := by simp [ids]

theorem mentions_iff {t : Ty} {v : Var} : t.mentions v = true ↔ v.id ∈ t.ids := by
  rw [mentions, VarSet.has_iff, mem_ids]

@[simp] theorem ids_var (v : Var) : (Ty.var v).ids = {v.id} := rfl

@[simp] theorem ids_prim (p : Prim) : (Ty.prim p).ids = ∅ := rfl

@[simp] theorem ids_pair (h t : Ty) : (Ty.pair h t).ids = h.ids ∪ t.ids := by simp [ids, vars]

@[simp] theorem ids_list (e : Ty) : (Ty.list e).ids = e.ids := rfl

theorem ids_subset_func {t : Ty} {ps : List Ty} {r : Ty} (h : t ∈ ps ++ [r]) :
    t.ids ⊆ (Ty.func ps r).ids := by
  intro n hn
  obtain ⟨v, hv, rfl⟩ := mem_ids.mp hn
  refine mem_ids.mpr ⟨v, ?_, rfl⟩
  rw [vars, varsAll_eq, List.mem_append, List.mem_flatMap]
  rcases List.mem_append.mp h with h | h
  · exact .inl ⟨t, h, hv⟩
  · exact .inr (List.mem_singleton.mp h ▸ hv)

end Ty

namespace Subst

/-- The numbers of the bound variables. -/
def keys (s : Subst) : Finset Nat := (s.domain.map Var.id).toFinset

theorem mem_keys {s : Subst} {n : Nat} : n ∈ s.keys ↔ ∃ v ∈ s.domain, v.id = n := by simp [keys]

theorem binds_iff {s : Subst} {v : Var} : s.binds v = true ↔ v.id ∈ s.keys := by
  simp [binds, VarSet.has_iff, keys]

theorem find?_isSome_iff {s : Subst} {v : Var} : (s.find? v).isSome = true ↔ v.id ∈ s.keys := by
  rw [← binds_eq, binds_iff]

theorem find?_eq_none_iff {s : Subst} {v : Var} : s.find? v = none ↔ v.id ∉ s.keys := by
  rw [← find?_isSome_iff, Bool.not_eq_true, Option.isSome_eq_false_iff, Option.isNone_iff_eq_none]

@[simp] theorem keys_empty : empty.keys = ∅ := rfl

@[simp] theorem keys_single (v : Var) (t : Ty) : (single v t).keys = {v.id} := rfl

theorem keys_compose (older newer : Subst) :
    (older.compose newer).keys = older.keys ∪ newer.keys := by
  ext n
  have (s : Subst) : n ∈ s.keys ↔ (s.find? (.plain n)).isSome = true :=
    (find?_isSome_iff (v := .plain n)).symm
  rw [Finset.mem_union, this, this, this, find?_compose]
  cases older.find? (.plain n) <;> simp

/-- No bound variable occurs in a type of the substitution. -/
def Idempotent (s : Subst) : Prop := ∀ v t, s.find? v = some t → Disjoint t.ids s.keys

/-- What a variable stands for after one step. -/
def image (s : Subst) (v : Var) : Ty := (s.find? v).getD (.var v)

theorem find?_of_mem_domain {s : Subst} {v : Var} (hv : v ∈ s.domain) :
    s.find? v = some (s.image v) := by
  obtain ⟨t, found⟩ := Option.isSome_iff_exists.mp
    (find?_isSome_iff.mpr (mem_keys.mpr ⟨v, hv, rfl⟩))
  rw [image, found, Option.getD_some]

theorem chase_unbound {s : Subst} {v : Var} (h : v.id ∉ s.keys) (n : Nat) :
    s.chase n v = .var v := by
  cases n <;> simp [chase, find?_eq_none_iff.mpr h]

theorem bind_chase {s : Subst} {t : Ty} (h : Disjoint t.ids s.keys) (n : Nat) :
    t.bind (s.chase n) = t := by
  rw [Ty.bind_congr (g := .var) t, Ty.bind_var]
  intro v hv
  exact chase_unbound (Finset.disjoint_left.mp h (Ty.mem_ids.mpr ⟨v, hv, rfl⟩)) n

theorem apply_disjoint {s : Subst} {t : Ty} (h : Disjoint t.ids s.keys) : s.apply t = t :=
  bind_chase h s.size

/-- One step is enough where no bound variable comes back. -/
theorem Idempotent.apply_eq {s : Subst} (h : s.Idempotent) (t : Ty) :
    s.apply t = t.bind s.image := by
  refine Ty.bind_congr t fun v _ => ?_
  cases found : s.find? v with
  | none => rw [image, found, chase_unbound (find?_eq_none_iff.mp found)]; rfl
  | some u =>
    have : s.size ≠ 0 := fun zero => by simp [find?, List.length_eq_zero_iff.mp zero] at found
    obtain ⟨n, hn⟩ := Nat.exists_eq_succ_of_ne_zero this
    rw [hn, chase, image, found]
    exact bind_chase (h v u found) n

theorem Idempotent.apply_var {s : Subst} (h : s.Idempotent) (v : Var) :
    s.apply (.var v) = s.image v := by
  rw [h.apply_eq, Ty.bind]

theorem Idempotent.ids_apply {s : Subst} (h : s.Idempotent) {t : Ty} {n : Nat}
    (mem : n ∈ (s.apply t).ids) :
    n ∈ t.ids ∧ n ∉ s.keys ∨ ∃ v u, v.id ∈ t.ids ∧ s.find? v = some u ∧ n ∈ u.ids := by
  obtain ⟨w, hw, rfl⟩ := Ty.mem_ids.mp mem
  rw [h.apply_eq, Ty.vars_bind, List.mem_flatMap] at hw
  obtain ⟨v, hv, hw⟩ := hw
  have hv : v.id ∈ t.ids := Ty.mem_ids.mpr ⟨v, hv, rfl⟩
  cases found : s.find? v with
  | none =>
    rw [image, found, Option.getD_none, Ty.vars, List.mem_singleton] at hw
    exact .inl (hw ▸ ⟨hv, find?_eq_none_iff.mp found⟩)
  | some u =>
    rw [image, found, Option.getD_some] at hw
    exact .inr ⟨v, u, hv, found, Ty.mem_ids.mpr ⟨w, hw, rfl⟩⟩

end Subst

end Polytype
