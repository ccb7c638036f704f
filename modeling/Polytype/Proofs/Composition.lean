import Polytype.Proofs.Unification

/-!
# Composing substitutions

`Subst.apply` follows bound variables up to a limit. `Ends` says what following them without a limit
comes to, if it ends at all. For an idempotent substitution the two agree (`Idempotent.ends_iff`).

If the types of the newer substitution have no variable that the older one binds, then following the
composition is following the older and then the newer one (`compose_applies`). Otherwise the
composition of two idempotent substitutions need not be idempotent, since each side is applied to the
types of the other only once. `compose_idempotent_iff` says when it is: no type leads over a variable
of the other side back to a variable of its own side. If it leads back to the variable it came from,
following the composition never ends (`compose_never_ends`).
-/

namespace Polytype

namespace Subst

variable {s r : Subst} {t u : Ty} {v : Var}

/-! ## Following without a limit -/

/-- Following the bound variables of one type for as long as there are any ends with the other. -/
inductive Ends (s : Subst) : Ty → Ty → Prop
  | bound {v : Var} {t u : Ty} (found : s.find? v = some t) (ends : Ends s t u) :
      Ends s (.var v) u
  | free {v : Var} (unbound : s.find? v = none) : Ends s (.var v) (.var v)
  | prim (p : Prim) : Ends s (.prim p) (.prim p)
  | func {ps qs : List Ty} {t u : Ty} (arity : ps.length = qs.length)
      (params : ∀ x ∈ ps.zip qs, Ends s x.1 x.2) (result : Ends s t u) :
      Ends s (.func ps t) (.func qs u)
  | pair {h t i u : Ty} (head : Ends s h i) (tail : Ends s t u) : Ends s (.pair h t) (.pair i u)
  | list {e f : Ty} (element : Ends s e f) : Ends s (.list e) (.list f)

theorem Ends.func_of_forall₂ {ps qs : List Ty} (params : List.Forall₂ s.Ends ps qs)
    (result : s.Ends t u) : s.Ends (.func ps t) (.func qs u) :=
  .func params.length_eq (fun _ mem => (List.forall₂_iff_zip.mp params).2 mem) result

theorem ends_self (h : Disjoint t.ids s.keys) : s.Ends t t := by
  induction t using Ty.ind with
  | var v =>
    rw [Ty.ids_var, Finset.disjoint_singleton_left] at h
    exact .free (find?_eq_none_iff.mpr h)
  | prim p => exact .prim p
  | func ps t ihps iht =>
    have part {x : Ty} (hx : x ∈ ps ++ [t]) : Disjoint x.ids s.keys :=
      Finset.disjoint_of_subset_left (Ty.ids_subset_func hx) h
    refine .func_of_forall₂ (List.forall₂_same.mpr fun p hp => ?_) (iht (part (by simp)))
    exact ihps p hp (part (by simp [hp]))
  | pair i t ihi iht =>
    rw [Ty.ids_pair, Finset.disjoint_union_left] at h
    exact .pair (ihi h.1) (iht h.2)
  | list e ihe => exact .list (ihe h)

theorem Idempotent.apply_bound (h : s.Idempotent) (found : s.find? v = some t) :
    s.apply (.var v) = t := by
  rw [h.apply_var, image, found, Option.getD_some]

theorem Idempotent.ends (h : s.Idempotent) (t : Ty) : s.Ends t (s.apply t) := by
  induction t using Ty.ind with
  | var v =>
    cases found : s.find? v with
    | none =>
      rw [apply_unbound found]
      exact .free found
    | some u =>
      rw [h.apply_bound found]
      exact .bound found (ends_self (h v u found))
  | prim p => exact .prim p
  | func ps t ihps iht =>
    rw [apply_func]
    refine .func_of_forall₂ ?_ iht
    rw [List.forall₂_map_right_iff]
    exact List.forall₂_same.mpr ihps
  | pair i t ihi iht => exact .pair ihi iht
  | list e ihe => exact .list ihe

theorem Idempotent.eq_of_ends (h : s.Idempotent) (ends : s.Ends t u) : s.apply t = u := by
  induction ends with
  | @bound v t u found _ ih => rw [h.apply_bound found, ← ih, apply_disjoint (h v t found)]
  | free unbound => exact apply_unbound unbound
  | prim p => rfl
  | @func ps qs t u arity _ _ ihps iht =>
    have params : ps.map s.apply = qs := by
      rw [← List.forall₂_eq_eq_eq, List.forall₂_map_left_iff, List.forall₂_iff_zip]
      exact ⟨arity, fun mem => ihps _ mem⟩
    rw [apply_func, params, iht]
  | pair _ _ ihh iht => rw [apply_pair, ihh, iht]
  | list _ ihe => rw [apply_list, ihe]

theorem Idempotent.ends_iff (h : s.Idempotent) : s.Ends t u ↔ s.apply t = u :=
  ⟨h.eq_of_ends, fun eq => eq ▸ h.ends t⟩

theorem Ends.not_mem_ids (ends : s.Ends t u) {b : Ty} (found : s.find? v = some b)
    (self : v.id ∈ b.ids) : v.id ∉ t.ids := by
  induction ends with
  | @bound w t u found' _ ih =>
    rw [Ty.ids_var, Finset.mem_singleton]
    intro same
    rw [s.find?_congr (Var.same_iff.mpr same), found'] at found
    cases found
    exact ih self
  | @free w unbound =>
    rw [Ty.ids_var, Finset.mem_singleton]
    intro same
    rw [s.find?_congr (Var.same_iff.mpr same), unbound] at found
    cases found
  | prim p => simp
  | @func ps qs t u arity _ _ ihps iht =>
    intro mem
    obtain ⟨w, hw, same⟩ := Ty.mem_ids.mp mem
    rcases Ty.mem_vars_func.mp hw with ⟨p, hp, hw⟩ | hw
    · obtain ⟨i, hi, rfl⟩ := List.mem_iff_getElem.mp hp
      have hx : (ps[i], qs[i]) ∈ ps.zip qs := by
        rw [← List.getElem_zip (h := by simpa using ⟨hi, arity ▸ hi⟩)]
        exact List.getElem_mem _
      exact ihps _ hx (Ty.mem_ids.mpr ⟨w, hw, same⟩)
    · exact iht (Ty.mem_ids.mpr ⟨w, hw, same⟩)
  | pair _ _ ihh iht =>
    rw [Ty.ids_pair, Finset.notMem_union]
    exact ⟨ihh, iht⟩
  | list _ ihe => exact ihe

/-! ## Conditions that can be computed -/

theorem forall_find?_iff {P : Ty → Prop} :
    (∀ v t, s.find? v = some t → P t) ↔ ∀ v ∈ s.domain, P (s.image v) := by
  constructor
  · intro h v hv
    exact h v _ (find?_of_mem_domain hv)
  · intro h v t found
    have bound : (s.find? v).isSome = true := by rw [found, Option.isSome_some]
    obtain ⟨w, hw, same⟩ := mem_keys.mp (find?_isSome_iff.mp bound)
    have := h w hw
    rwa [image, s.find?_congr (Var.same_iff.mpr same), found] at this

instance (s : Subst) : Decidable s.Idempotent := decidable_of_iff' _ forall_find?_iff

instance (older newer : Subst) : Decidable (older.Apart newer) :=
  decidable_of_iff' _ forall_find?_iff

/-! ## Ways back -/

/-- The type of `v` in `s` has a variable whose type in `r` has a variable that `s` binds. -/
def LeadsBack (s r : Subst) (v : Var) : Prop :=
  ∃ (t : Ty) (w : Var) (u : Ty),
    s.find? v = some t ∧ w.id ∈ t.ids ∧ r.find? w = some u ∧ ¬Disjoint u.ids s.keys

theorem Idempotent.mem_ids_apply (h : r.Idempotent) {w : Var} (mem : w.id ∈ t.ids)
    (found : r.find? w = some u) {n : Nat} (hn : n ∈ u.ids) : n ∈ (r.apply t).ids := by
  obtain ⟨x, hx, same⟩ := Ty.mem_ids.mp mem
  obtain ⟨y, hy, rfl⟩ := Ty.mem_ids.mp hn
  refine Ty.mem_ids.mpr ⟨y, ?_, rfl⟩
  rw [h.apply_eq, Ty.vars_bind, List.mem_flatMap]
  refine ⟨x, hx, ?_⟩
  rwa [image, r.find?_congr (Var.same_iff.mpr same), found]

theorem Idempotent.not_leadsBack_iff (hs : s.Idempotent) (hr : r.Idempotent) :
    ¬s.LeadsBack r v ↔
      ∀ t, s.find? v = some t → Disjoint (r.apply t).ids (s.keys ∪ r.keys) := by
  constructor
  · intro straight t found
    refine Finset.disjoint_union_right.mpr ⟨?_, hr.disjoint_apply t⟩
    refine Finset.disjoint_left.mpr fun n hn bound => ?_
    rcases hr.ids_apply hn with ⟨mem, _⟩ | ⟨w, u, mem, onward, hn⟩
    · exact Finset.disjoint_left.mp (hs v t found) mem bound
    · exact straight ⟨t, w, u, found, mem, onward, Finset.not_disjoint_iff.mpr ⟨n, hn, bound⟩⟩
  · rintro disjoint ⟨t, w, u, found, mem, onward, meets⟩
    obtain ⟨n, hn, bound⟩ := Finset.not_disjoint_iff.mp meets
    exact Finset.disjoint_left.mp (disjoint t found) (hr.mem_ids_apply mem onward hn)
      (Finset.mem_union_left _ bound)

theorem find?_compose_eq_some_iff {older newer : Subst} :
    (older.compose newer).find? v = some t ↔
      (∃ u, older.find? v = some u ∧ newer.apply u = t) ∨
        v.id ∉ older.keys ∧ ∃ u, newer.find? v = some u ∧ older.apply u = t := by
  rw [find?_compose, ← find?_eq_none_iff]
  cases older.find? v <;> simp

end Subst

variable {older newer : Subst}

/-! ## One after the other -/

/-- Following the composition ends, and it ends where following the older and then the newer
substitution does, also if the two bind a variable in common. -/
theorem compose_applies (ho : older.Idempotent) (hn : newer.Idempotent) (apart : older.Apart newer)
    (t : Ty) :
    (older.compose newer).apply t = newer.apply (older.apply t) ∧
      (older.compose newer).Ends t (newer.apply (older.apply t)) ∧
      ∀ u, (older.compose newer).Ends t u ↔ ∃ m, older.Ends t m ∧ newer.Ends m u := by
  have whole : (older.compose newer).Idempotent := ho.compose hn apart
  have both : (older.compose newer).apply t = newer.apply (older.apply t) :=
    Subst.apply_compose ho hn apart t
  refine ⟨both, whole.ends_iff.mpr both, fun u => ?_⟩
  rw [whole.ends_iff, both]
  constructor
  · intro eq
    exact ⟨older.apply t, ho.ends t, hn.ends_iff.mpr eq⟩
  · rintro ⟨m, first, second⟩
    rw [ho.eq_of_ends first, hn.eq_of_ends second]

/-- Variable 1 is a list of variable 2. -/
def listing : Subst := .single (.plain 1) (.list (.var (.plain 2)))

/-- Variables 1 and 2 are primitive types. -/
def primitives : Subst := .ofList [(.plain 1, .string), (.plain 2, .number)]

/-- Variable 1 is bound on both sides, and variable 2 on the newer one alone. -/
theorem compose_applies_shared :
    listing.Idempotent ∧ primitives.Idempotent ∧ listing.Apart primitives ∧
      (listing.compose primitives).apply (.var (.plain 1)) = .list .number ∧
      (listing.compose primitives).Ends (.var (.plain 1)) (.list .number) := by
  have ho : listing.Idempotent := by decide
  have hn : primitives.Idempotent := by decide
  have apart : listing.Apart primitives := by decide
  obtain ⟨applied, ends, _⟩ := compose_applies ho hn apart (.var (.plain 1))
  exact ⟨ho, hn, apart, applied, ends⟩

/-! ## Idempotent compositions -/

/-- Of two idempotent substitutions the composition is idempotent exactly if no type of one leads
over a variable of the other back to a variable of the one. Types of the newer side that the
composition drops do not count. -/
theorem compose_idempotent_iff (ho : older.Idempotent) (hn : newer.Idempotent) :
    (older.compose newer).Idempotent ↔
      (∀ v, ¬older.LeadsBack newer v) ∧ ∀ v : Var, v.id ∉ older.keys → ¬newer.LeadsBack older v := by
  constructor
  · intro whole
    refine ⟨fun v => (ho.not_leadsBack_iff hn).mpr fun t old => ?_,
      fun v unbound => (hn.not_leadsBack_iff ho).mpr fun t new => ?_⟩
    · rw [← Subst.keys_compose]
      exact whole v _ (Subst.find?_compose_eq_some_iff.mpr (.inl ⟨t, old, rfl⟩))
    · rw [Finset.union_comm, ← Subst.keys_compose]
      exact whole v _ (Subst.find?_compose_eq_some_iff.mpr (.inr ⟨unbound, t, new, rfl⟩))
  · rintro ⟨straight, straight'⟩ v t found
    rw [Subst.keys_compose]
    rcases Subst.find?_compose_eq_some_iff.mp found with ⟨u, old, rfl⟩ | ⟨unbound, u, new, rfl⟩
    · exact (ho.not_leadsBack_iff hn).mp (straight v) u old
    · rw [Finset.union_comm]
      exact (hn.not_leadsBack_iff ho).mp (straight' v unbound) u new

/-- Variable 2 is a number. -/
def numeric : Subst := .single (.plain 2) .number

/-- The newer type leads to a variable of the older side, and from there nowhere. -/
theorem compose_idempotent_iff_onward :
    numeric.Idempotent ∧ listing.Idempotent ∧ ¬numeric.Apart listing ∧
      (numeric.compose listing).Idempotent := by
  have ho : numeric.Idempotent := by decide
  have hn : listing.Idempotent := by decide
  have straight : ∀ v t, numeric.find? v = some t →
      Disjoint (listing.apply t).ids (numeric.keys ∪ listing.keys) :=
    Subst.forall_find?_iff.mpr (by decide)
  have straight' : ∀ v t, listing.find? v = some t →
      Disjoint (numeric.apply t).ids (listing.keys ∪ numeric.keys) :=
    Subst.forall_find?_iff.mpr (by decide)
  refine ⟨ho, hn, by decide, (compose_idempotent_iff ho hn).mpr ⟨fun v => ?_, fun v _ => ?_⟩⟩
  · exact (ho.not_leadsBack_iff hn).mpr (straight v)
  · exact (hn.not_leadsBack_iff ho).mpr (straight' v)

/-- Variable 0 is variable 1, and variable 2 is a number. -/
def chained : Subst := .ofList [(.plain 0, .var (.plain 1)), (.plain 2, .number)]

/-- From variable 0 the way leads over variable 1 to variable 2, which is left in the type of
variable 0 and bound all the same. -/
theorem chained_compose_listing :
    chained.Idempotent ∧ listing.Idempotent ∧
      (chained.compose listing).entries = [(.plain 0, .list (.var (.plain 2))),
        (.plain 1, .list .number), (.plain 2, .number)] ∧
      ¬(chained.compose listing).Idempotent :=
  ⟨by decide, by decide, rfl, by decide⟩

/-- Where a variable of each side occurs in the type of the other, there is no end to following the
composition. -/
theorem compose_never_ends (hn : newer.Idempotent) {v w : Var} {t u : Ty}
    (old : older.find? v = some t) (new : newer.find? w = some u) (onward : w.id ∈ t.ids)
    (back : v.id ∈ u.ids) (x : Ty) : ¬(older.compose newer).Ends (.var v) x := by
  have found : (older.compose newer).find? v = some (newer.apply t) :=
    Subst.find?_compose_eq_some_iff.mpr (.inl ⟨t, old, rfl⟩)
  intro ends
  exact ends.not_mem_ids found (hn.mem_ids_apply onward new back) (by simp)

end Polytype
