import Mathlib.Data.Finset.Card
import Mathlib.Tactic.Ring
import Polytype.Subst.Idempotent
import Polytype.Unify

/-!
# The levels of unification

Unification counts the levels of nesting down from a number that depends on the two types alone.
`unify_eq_step` says that this number is always enough, so the count never shows: unifying two types
is one level of unifying their parts.

The reason is `cost`, which falls from a pair of types to every pair that has to be unified on the
way. Parts are less deep than the whole. A substitution with `k` variables makes them deeper, by a
factor of at most `2 ^ k` on each side, and takes those `k` variables away.
-/

namespace Polytype

/-! ## Depth -/

namespace Ty

theorem depth_pos (t : Ty) : 0 < t.depth := by
  cases t <;> simp only [depth] <;> omega

mutual
theorem depth_bind_le {f : Var → Ty} {r : Nat} : (t : Ty) →
    (∀ v ∈ t.vars, (f v).depth ≤ r + 1) → (t.bind f).depth ≤ t.depth + r
  | .var v, h => by have := h v (by simp [vars]); simp only [bind, depth]; omega
  | .prim _, _ => by simp [bind, depth]
  | .func ps q, h => by
    simp only [vars, List.mem_append] at h
    have h1 := depthAll_bindAll_le ps fun v m => h v (.inl m)
    have h2 := depth_bind_le q fun v m => h v (.inr m)
    simp only [bind, depth]; omega
  | .pair a b, h => by
    simp only [vars, List.mem_append] at h
    have h1 := depth_bind_le a fun v m => h v (.inl m)
    have h2 := depth_bind_le b fun v m => h v (.inr m)
    simp only [bind, depth]; omega
  | .list e, h => by
    have h1 := depth_bind_le e h
    simp only [bind, depth]; omega

theorem depthAll_bindAll_le {f : Var → Ty} {r : Nat} : (ts : List Ty) →
    (∀ v ∈ varsAll ts, (f v).depth ≤ r + 1) → depthAll (bindAll f ts) ≤ depthAll ts + r
  | [], _ => by simp [bindAll, depthAll]
  | t :: ts, h => by
    simp only [varsAll, List.mem_append] at h
    have h1 := depth_bind_le t fun v m => h v (.inl m)
    have h2 := depthAll_bindAll_le ts fun v m => h v (.inr m)
    simp only [bindAll, depthAll]; omega
end

theorem depth_le_depthAll {t : Ty} {ts : List Ty} (h : t ∈ ts) : t.depth ≤ depthAll ts := by
  induction ts with
  | nil => cases h
  | cons u us ih =>
    rcases List.mem_cons.mp h with rfl | h
    · simp only [depthAll]; omega
    · have := ih h; simp only [depthAll]; omega

theorem depth_lt_func {t : Ty} {ps : List Ty} {r : Ty} (h : t ∈ ps ++ [r]) :
    t.depth < (Ty.func ps r).depth := by
  rw [depth]
  rcases List.mem_append.mp h with h | h
  · have := depth_le_depthAll h; omega
  · rw [List.mem_singleton.mp h]; omega

end Ty

namespace Unify

/-- What unification gives for types with variables among `ids` and depth at most `d`: it binds some
of these variables, to types of the others. Every bound variable at most doubles the depth. -/
structure Solved (ids : Finset Nat) (d : Nat) (s : Subst) : Prop where
  keys : s.keys ⊆ ids
  range {v : Var} {t : Ty} (found : s.find? v = some t) : t.ids ⊆ ids \ s.keys
  depth {v : Var} {t : Ty} (found : s.find? v = some t) : t.depth ≤ (2 ^ s.keys.card - 1) * d

namespace Solved

variable {ids : Finset Nat} {d : Nat} {s : Subst}

theorem idempotent (h : Solved ids d s) : s.Idempotent := fun _ _ found =>
  Finset.disjoint_left.mpr fun _ mem => (Finset.mem_sdiff.mp (h.range found mem)).2

theorem mono {ids' : Finset Nat} {d' : Nat} (h : Solved ids d s) (hids : ids ⊆ ids') (hd : d ≤ d') :
    Solved ids' d' s where
  keys := h.keys.trans hids
  range found := (h.range found).trans (Finset.sdiff_subset_sdiff hids (Finset.Subset.refl _))
  depth found := (h.depth found).trans (Nat.mul_le_mul_left _ hd)

theorem empty : Solved ids d .empty where
  keys := by simp
  range found := by cases found
  depth found := by cases found

theorem single {v : Var} {t : Ty} (hv : v.id ∈ ids) (ht : t.ids ⊆ ids) (fresh : v.id ∉ t.ids)
    (hd : t.depth ≤ d) : Solved ids d (.single v t) where
  keys := by simpa using hv
  range {w u} found := by
    rw [Subst.find?_single] at found
    split at found
    · cases found
      intro n hn
      rw [Subst.keys_single, Finset.mem_sdiff, Finset.mem_singleton]
      exact ⟨ht hn, fun eq => fresh (eq ▸ hn)⟩
    · cases found
  depth {w u} found := by
    rw [Subst.find?_single] at found
    split at found
    · cases found; simpa using hd
    · cases found

/-! ## Applying what was found -/

theorem ids_apply (h : Solved ids d s) {t : Ty} (ht : t.ids ⊆ ids) :
    (s.apply t).ids ⊆ ids \ s.keys := by
  intro n mem
  rcases h.idempotent.ids_apply mem with ⟨mem, unbound⟩ | ⟨v, u, _, found, mem⟩
  · exact Finset.mem_sdiff.mpr ⟨ht mem, unbound⟩
  · exact h.range found mem

theorem depth_apply (h : Solved ids d s) (t : Ty) :
    (s.apply t).depth ≤ t.depth + (2 ^ s.keys.card - 1) * d := by
  rw [h.idempotent.apply_eq]
  refine Ty.depth_bind_le t fun v _ => ?_
  cases found : s.find? v with
  | none => rw [Subst.image, found, Option.getD_none, Ty.depth]; omega
  | some u => rw [Subst.image, found, Option.getD_some]; exact (h.depth found).trans (Nat.le_succ _)

/-- Doubling in two steps. -/
theorem pow_sub_one (j k d : Nat) :
    (2 ^ j - 1) * d + (2 ^ k - 1) * (2 ^ j * d) = (2 ^ (j + k) - 1) * d := by
  obtain ⟨x, hx⟩ := Nat.exists_eq_add_of_lt (Nat.two_pow_pos j)
  obtain ⟨y, hy⟩ := Nat.exists_eq_add_of_lt (Nat.two_pow_pos k)
  rw [Nat.pow_add, hx, hy]
  simp only [Nat.zero_add, Nat.add_sub_cancel]
  have : (x + 1) * (y + 1) - 1 = x + y * (x + 1) := by
    rw [show (x + 1) * (y + 1) = x + y * (x + 1) + 1 by ring, Nat.add_sub_cancel]
  rw [this]; ring

theorem compose {f : Subst} (h : Solved ids d s)
    (hf : Solved (ids \ s.keys) (2 ^ s.keys.card * d) f) : Solved ids d (s.compose f) := by
  have apart : Disjoint s.keys f.keys := Finset.disjoint_right.mpr fun n mem =>
    (Finset.mem_sdiff.mp (hf.keys mem)).2
  have card : (s.compose f).keys.card = s.keys.card + f.keys.card := by
    rw [Subst.keys_compose, Finset.card_union_of_disjoint apart]
  have split {v : Var} {t : Ty} (found : (s.compose f).find? v = some t) :
      (∃ u, s.find? v = some u ∧ f.apply u = t) ∨ f.find? v = some t := by
    rw [Subst.find?_compose] at found
    cases hs : s.find? v with
    | some u => rw [hs] at found; exact .inl ⟨u, rfl, by simpa using found⟩
    | none =>
      rw [hs] at found
      cases hn : f.find? v with
      | none => rw [hn] at found; cases found
      | some u =>
        rw [hn] at found
        have : s.apply u = u := Subst.apply_disjoint <| Finset.disjoint_left.mpr fun n mem =>
          (Finset.mem_sdiff.mp (Finset.mem_sdiff.mp (hf.range hn mem)).1).2
        exact .inr (by simpa [this] using found)
  refine ⟨?_, fun found => ?_, fun found => ?_⟩
  · rw [Subst.keys_compose]
    exact Finset.union_subset h.keys (hf.keys.trans Finset.sdiff_subset)
  · have inside : (ids \ s.keys) \ f.keys ⊆ ids \ (s.compose f).keys := by
      intro n
      simp only [Subst.keys_compose, Finset.mem_sdiff, Finset.mem_union]
      tauto
    rcases split found with ⟨u, hs, rfl⟩ | hn
    · exact (hf.ids_apply (h.range hs)).trans inside
    · exact (hf.range hn).trans inside
  · rw [card]
    rcases split found with ⟨u, hs, rfl⟩ | hn
    · rw [← pow_sub_one]
      exact (hf.depth_apply u).trans (Nat.add_le_add_right (h.depth hs) _)
    · exact (hf.depth hn).trans (pow_sub_one _ _ _ ▸ Nat.le_add_left _ _)

end Solved

/-! ## Cost -/

/-- Falls at every level: parts are less deep, and a bound variable, which at most doubles the depth
of both sides, is gone afterwards. -/
def cost (a b : Ty) : Nat := (a.depth + b.depth) * 4 ^ (a.ids ∪ b.ids).card

theorem cost_comm (a b : Ty) : cost a b = cost b a := by
  rw [cost, cost, Nat.add_comm, Finset.union_comm]

theorem length_ofList (vs : List Var) :
    (VarSet.ofList vs).length = (vs.map Var.id).toFinset.card := by
  have nodup : ((VarSet.ofList vs).map Var.id).Nodup :=
    List.pairwise_map.mpr ((VarSet.increasing_ofList vs).imp fun lt => Nat.ne_of_lt lt)
  rw [← List.length_map (f := Var.id), ← List.toFinset_card_of_nodup nodup]
  congr 1
  ext n
  have := VarSet.has_ofList vs (.plain n)
  rw [Bool.eq_iff_iff, VarSet.has_iff, VarSet.has_iff] at this
  simpa [Var.plain] using this

theorem levels_eq (a b : Ty) : levels a b = cost a b + 1 := by
  rw [levels, cost, length_ofList, List.map_append, List.toFinset_append]; rfl

theorem cost_lt {a b c e : Ty} {s : Subst} (keys : s.keys ⊆ a.ids ∪ b.ids)
    (ids : c.ids ∪ e.ids ⊆ (a.ids ∪ b.ids) \ s.keys)
    (depth : c.depth + e.depth < (a.depth + b.depth) * 4 ^ s.keys.card) : cost c e < cost a b := by
  have card : (c.ids ∪ e.ids).card + s.keys.card ≤ (a.ids ∪ b.ids).card := by
    have := Finset.card_le_card ids
    have := Finset.card_le_card keys
    rw [Finset.card_sdiff_of_subset keys] at *
    omega
  calc cost c e < (a.depth + b.depth) * 4 ^ s.keys.card * 4 ^ (c.ids ∪ e.ids).card :=
        Nat.mul_lt_mul_of_pos_right depth (Nat.pow_pos (by decide))
    _ = (a.depth + b.depth) * 4 ^ ((c.ids ∪ e.ids).card + s.keys.card) := by
        rw [Nat.pow_add]; ring
    _ ≤ cost a b := Nat.mul_le_mul_left _ (Nat.pow_le_pow_right (by decide) card)

/-- Two types to be unified on the way to unifying `a` and `b`. -/
structure Part (a b l r : Ty) : Prop where
  left : l.ids ⊆ a.ids ∪ b.ids
  right : r.ids ⊆ a.ids ∪ b.ids
  leftDepth : l.depth ≤ max a.depth b.depth
  rightDepth : r.depth ≤ max a.depth b.depth
  less : l.depth + r.depth < a.depth + b.depth

theorem four_pow (k : Nat) : 2 * (2 ^ k - 1) + 1 ≤ 4 ^ k := by
  obtain ⟨x, hx⟩ := Nat.exists_eq_add_of_lt (Nat.two_pow_pos k)
  rw [show 4 ^ k = 2 ^ k * 2 ^ k by rw [← Nat.mul_pow], hx]
  simp only [Nat.zero_add, Nat.add_sub_cancel]
  rw [show (x + 1) * (x + 1) = x * x + (2 * x + 1) by ring]
  exact Nat.le_add_left _ _

theorem Part.cost_lt {a b l r : Ty} {s : Subst} (part : Part a b l r)
    (h : Solved (a.ids ∪ b.ids) (max a.depth b.depth) s) :
    cost (s.apply l) (s.apply r) < cost a b := by
  refine Unify.cost_lt h.keys
    (Finset.union_subset (h.ids_apply part.left) (h.ids_apply part.right)) ?_
  have hl := h.depth_apply l
  have hr := h.depth_apply r
  have hd : max a.depth b.depth < a.depth + b.depth := by
    have := a.depth_pos; have := b.depth_pos; omega
  have less := part.less
  have four := four_pow s.keys.card
  generalize 2 ^ s.keys.card - 1 = x at hl hr four
  calc (s.apply l).depth + (s.apply r).depth
      ≤ l.depth + r.depth + 2 * (x * max a.depth b.depth) := by omega
    _ < (a.depth + b.depth) + 2 * (x * (a.depth + b.depth)) := by
        have := Nat.mul_le_mul_left x hd.le; omega
    _ = (a.depth + b.depth) * (2 * x + 1) := by ring
    _ ≤ _ := Nat.mul_le_mul_left _ four

/-! ## One level -/

/-- Keeps to the variables and the depth of what it is given. -/
def Bounded (unify : Ty → Ty → Outcome) : Prop :=
  ∀ {a b : Ty} {s : Subst}, unify a b = .ok s →
    Solved (a.ids ∪ b.ids) (max a.depth b.depth) s

theorem Part.solved {unify : Ty → Ty → Outcome} (hu : Bounded unify) {a b l r : Ty} {s f : Subst}
    (part : Part a b l r) (h : Solved (a.ids ∪ b.ids) (max a.depth b.depth) s)
    (found : unify (s.apply l) (s.apply r) = .ok f) :
    Solved (a.ids ∪ b.ids) (max a.depth b.depth) (s.compose f) := by
  refine h.compose ((hu found).mono
    (Finset.union_subset (h.ids_apply part.left) (h.ids_apply part.right)) ?_)
  have hl := h.depth_apply l
  have hr := h.depth_apply r
  have := part.leftDepth
  have := part.rightDepth
  have double : (2 ^ s.keys.card - 1) * max a.depth b.depth + max a.depth b.depth =
      2 ^ s.keys.card * max a.depth b.depth := by
    rw [← Nat.succ_mul, Nat.succ_eq_add_one, Nat.sub_add_cancel (Nat.two_pow_pos _)]
  omega

theorem rows_solved {unify : Ty → Ty → Outcome} (hu : Bounded unify) {a b : Ty} :
    ∀ {ls rs : List Ty} {s s' : Subst}, (∀ p ∈ ls.zip rs, Part a b p.1 p.2) →
      Solved (a.ids ∪ b.ids) (max a.depth b.depth) s → rows unify s ls rs = .ok s' →
      Solved (a.ids ∪ b.ids) (max a.depth b.depth) s'
  | [], _, s, s', _, h, eq => by simp only [rows] at eq; cases eq; exact h
  | _ :: _, [], s, s', _, h, eq => by simp only [rows] at eq; cases eq; exact h
  | l :: ls, r :: rs, s, s', parts, h, eq => by
    rw [rows] at eq
    cases found : unify (s.apply l) (s.apply r) with
    | error e => rw [found] at eq; cases eq
    | ok f =>
      rw [found] at eq
      exact rows_solved hu (fun p mem => parts p (List.mem_cons_of_mem _ mem))
        ((parts (l, r) List.mem_cons_self).solved hu h found) eq

theorem rows_congr {unify unify' : Ty → Ty → Outcome} (hu : Bounded unify) {a b : Ty}
    (agree : ∀ {c e}, cost c e < cost a b → unify c e = unify' c e) :
    ∀ {ls rs : List Ty} {s : Subst}, (∀ p ∈ ls.zip rs, Part a b p.1 p.2) →
      Solved (a.ids ∪ b.ids) (max a.depth b.depth) s → rows unify s ls rs = rows unify' s ls rs
  | [], _, s, _, _ => by simp only [rows]
  | _ :: _, [], s, _, _ => by simp only [rows]
  | l :: ls, r :: rs, s, parts, h => by
    have part := parts (l, r) List.mem_cons_self
    rw [rows, rows, ← agree (part.cost_lt h)]
    cases found : unify (s.apply l) (s.apply r) with
    | error e => rfl
    | ok f =>
      exact rows_congr hu agree (fun p mem => parts p (List.mem_cons_of_mem _ mem))
        (part.solved hu h found)

theorem Part.swap {a b l r : Ty} (part : Part a b l r) : Part b a l r where
  left := Finset.union_comm a.ids b.ids ▸ part.left
  right := Finset.union_comm a.ids b.ids ▸ part.right
  leftDepth := Nat.max_comm a.depth b.depth ▸ part.leftDepth
  rightDepth := Nat.max_comm a.depth b.depth ▸ part.rightDepth
  less := Nat.add_comm a.depth b.depth ▸ part.less

theorem part_func {ps qs : List Ty} {r s : Ty} {p : Ty × Ty}
    (h : p ∈ (ps ++ [r]).zip (qs ++ [s])) : Part (.func ps r) (.func qs s) p.1 p.2 := by
  obtain ⟨hl, hr⟩ := List.of_mem_zip h
  have dl := Ty.depth_lt_func hl
  have dr := Ty.depth_lt_func hr
  exact ⟨(Ty.ids_subset_func hl).trans Finset.subset_union_left,
    (Ty.ids_subset_func hr).trans Finset.subset_union_right, by omega, by omega, by omega⟩

theorem part_pair {h t i u : Ty} {p : Ty × Ty} (mem : p ∈ [h, t].zip [i, u]) :
    Part (.pair h t) (.pair i u) p.1 p.2 := by
  simp only [List.zip_cons_cons, List.zip_nil_right, List.mem_cons, List.not_mem_nil,
    or_false] at mem
  rcases mem with rfl | rfl <;>
    exact ⟨fun n => by simp; tauto, fun n => by simp; tauto, by simp only [Ty.depth]; omega,
      by simp only [Ty.depth]; omega, by simp only [Ty.depth]; omega⟩

theorem part_list {e f : Ty} : Part (.list e) (.list f) e f :=
  ⟨fun n => by simp; tauto, fun n => by simp; tauto, by simp only [Ty.depth]; omega,
    by simp only [Ty.depth]; omega, by simp only [Ty.depth]; omega⟩

theorem part_list_pair {e h t : Ty} {p : Ty × Ty} (mem : p ∈ [e, .list e].zip [h, t]) :
    Part (.list e) (.pair h t) p.1 p.2 := by
  simp only [List.zip_cons_cons, List.zip_nil_right, List.mem_cons, List.not_mem_nil,
    or_false] at mem
  rcases mem with rfl | rfl <;>
    exact ⟨fun n => by simp; tauto, fun n => by simp; tauto, by simp only [Ty.depth]; omega,
      by simp only [Ty.depth]; omega, by simp only [Ty.depth]; omega⟩

/-! ## Variables -/

/-- What solving a variable against a type is measured by. -/
theorem max_var (v : Var) (t : Ty) : max (Ty.var v).depth t.depth = t.depth :=
  Nat.max_eq_right t.depth_pos

theorem first_solved {v : Var} {h u : Ty} (hv : v.id ∉ h.ids) :
    Solved ((Ty.var v).ids ∪ (Ty.pair h u).ids) (Ty.pair h u).depth (.single v (.list h)) := by
  refine .single (by simp) (fun n => by simp; tauto) hv ?_
  simp only [Ty.depth]; omega

theorem list_first {v : Var} {h : Ty} (hv : v.id ∉ h.ids) :
    (Subst.single v (.list h)).apply (.list h) = .list h :=
  Subst.apply_disjoint (by simpa using hv)

theorem fixpoint_cost {v : Var} {h u : Ty} (hv : v.id ∉ h.ids) :
    cost (.list h) ((Subst.single v (.list h)).apply (.pair h u)) < cost (.var v) (.pair h u) := by
  have first := first_solved (u := u) hv
  have pair := first.ids_apply (t := .pair h u) Finset.subset_union_right
  have list := first.ids_apply (t := .list h) fun n => by simp; tauto
  rw [list_first hv] at list
  refine cost_lt first.keys (Finset.union_subset list pair) ?_
  have := first.depth_apply (.pair h u)
  have : (Ty.list h).depth ≤ (Ty.pair h u).depth := by simp only [Ty.depth]; omega
  have : (Ty.var v).depth = 1 := rfl
  simp only [Subst.keys_single, Finset.card_singleton] at *
  omega

theorem fixpoint_solved {unify : Ty → Ty → Outcome} (hu : Bounded unify) {v : Var} {h u : Ty}
    {s : Subst} (hv : v.id ∉ h.ids) (eq : fixpoint unify v h u = .ok s) :
    Solved ((Ty.var v).ids ∪ (Ty.pair h u).ids) (Ty.pair h u).depth s := by
  have first := first_solved (u := u) hv
  rw [fixpoint] at eq
  split at eq
  next rest found =>
    cases eq
    have pair := first.ids_apply (t := .pair h u) Finset.subset_union_right
    have list := first.ids_apply (t := .list h) fun n => by simp; tauto
    rw [list_first hv] at list
    refine first.compose ((hu found).mono (Finset.union_subset list pair) ?_)
    have := first.depth_apply (.pair h u)
    have : (Ty.list h).depth ≤ (Ty.pair h u).depth := by simp only [Ty.depth]; omega
    simp only [Subst.keys_single, Finset.card_singleton] at *
    omega
  next => cases eq

theorem bindVar_solved {unify : Ty → Ty → Outcome} (hu : Bounded unify) {v : Var} {t : Ty}
    {s : Subst} (eq : bindVar unify v t = .ok s) : Solved ((Ty.var v).ids ∪ t.ids) t.depth s := by
  unfold bindVar at eq
  split at eq
  · split at eq
    · split at eq
      · cases eq
        exact .single (by simp) (by simp) (by simp) (le_refl _)
      · cases eq
    · cases eq
  · split at eq
    next free =>
      cases eq
      refine .single (by simp) Finset.subset_union_right ?_ (le_refl _)
      rw [← Ty.mentions_iff]; simpa using free
    next =>
      split at eq
      · split at eq
        · cases eq
        next free => exact fixpoint_solved hu (by rwa [← Ty.mentions_iff]) eq
      · cases eq

theorem bindVar_congr {unify unify' : Ty → Ty → Outcome} {v : Var} {t : Ty}
    (agree : ∀ {c e}, cost c e < cost (.var v) t → unify c e = unify' c e) :
    bindVar unify v t = bindVar unify' v t := by
  unfold bindVar
  split
  · rfl
  · split
    · rfl
    · split
      · split
        · rfl
        next free =>
          rw [fixpoint, fixpoint, agree (fixpoint_cost (by rwa [← Ty.mentions_iff]))]
      · rfl

theorem bindVars_solved {v w : Var} {s : Subst} (eq : bindVars v w = .ok s) :
    Solved ((Ty.var v).ids ∪ (Ty.var w).ids) 1 s := by
  unfold bindVars at eq
  split at eq
  · cases eq; exact .empty
  next differ =>
    rw [Var.same_iff] at differ
    split at eq <;> cases eq
    · exact .single (by simp) (by simp) (by simpa using fun e => differ e.symm) (le_refl _)
    · exact .single (by simp) (by simp) (by simpa using differ) (le_refl _)

theorem step_bounded {unify : Ty → Ty → Outcome} (hu : Bounded unify) : Bounded (step unify) := by
  intro a b s eq
  unfold step at eq
  split at eq
  · exact bindVars_solved eq
  · rw [max_var]; exact bindVar_solved hu eq
  · rw [max_comm, max_var, Finset.union_comm]; exact bindVar_solved hu eq
  · split at eq <;> cases eq
    exact .empty
  · split at eq
    · exact rows_solved hu (fun _ => part_func) .empty eq
    · cases eq
  · exact rows_solved hu (fun _ => part_pair) .empty eq
  · exact (hu eq).mono (Finset.Subset.refl _) (by simp only [Ty.depth]; omega)
  · exact rows_solved hu (fun _ => part_list_pair) .empty eq
  · exact rows_solved hu (fun _ mem => (part_list_pair mem).swap) .empty eq
  · cases eq

theorem step_congr {unify unify' : Ty → Ty → Outcome} (hu : Bounded unify) {a b : Ty}
    (agree : ∀ {c e}, cost c e < cost a b → unify c e = unify' c e) :
    step unify a b = step unify' a b := by
  unfold step
  split
  · rfl
  · exact bindVar_congr agree
  · exact bindVar_congr fun lt => agree (lt.trans_eq (cost_comm _ _))
  · rfl
  · split
    · exact rows_congr hu agree (fun _ => part_func) .empty
    · rfl
  · exact rows_congr hu agree (fun _ => part_pair) .empty
  · exact agree (by simpa using part_list.cost_lt .empty)
  · exact rows_congr hu agree (fun _ => part_list_pair) .empty
  · exact rows_congr hu agree (fun _ mem => (part_list_pair mem).swap) .empty
  · rfl

theorem within_bounded : (n : Nat) → Bounded (within n)
  | 0 => fun eq => by cases eq
  | n + 1 => step_bounded (within_bounded n)

theorem within_eq {n m : Nat} {a b : Ty} (hn : cost a b < n) (hm : cost a b < m) :
    within n a b = within m a b := by
  induction n generalizing m a b with
  | zero => omega
  | succ n ih =>
    cases m with
    | zero => omega
    | succ m =>
      exact step_congr (within_bounded n) fun lt => ih (by omega) (by omega)

end Unify

/-- The levels are enough: unifying two types is one level of unifying their parts. -/
theorem unify_eq_step (a b : Ty) : unify a b = Unify.step unify a b := by
  rw [unify, Unify.levels_eq, Unify.within]
  refine Unify.step_congr (Unify.within_bounded _) fun {c e} lt => ?_
  rw [unify, Unify.levels_eq]
  exact Unify.within_eq lt (Nat.lt_succ_self _)

end Polytype
