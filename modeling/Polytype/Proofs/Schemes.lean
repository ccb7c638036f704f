import Polytype.Proofs.Steps

/-!
# Instances and generalized types

An instance of a scheme has a variable of its own for each quantified one, with the same flag, and
all of them are new (`Instantiated`). Generalizing a type quantifies what the environment cannot see.
Both fit together: a context stays good when a name is bound to a generalized type and the type
itself is forgotten (`Good.generalize`).
-/

namespace Polytype

variable {k : Nat → Bool} {c c' : Context} {H : Set Var} {scheme : Scheme} {t : Ty}

/-! ## Instances -/

/-- `t` is an instance of the scheme with the new variables of `ren` for the quantified ones. -/
structure Instantiated (c : Context) (scheme : Scheme) (ren : Var → Var) (t : Ty) (c' : Context) :
    Prop where
  ty : t = scheme.ty.bind fun v => .var (if v ∈ scheme.vars then ren v else v)
  context : c' = { c with nextVar := c.nextVar + scheme.vars.length }
  flag {v : Var} (hv : v ∈ scheme.vars) : (ren v).addable = v.addable
  fresh {v : Var} (hv : v ∈ scheme.vars) : c.nextVar ≤ (ren v).id ∧ (ren v).id < c'.nextVar
  inj {v w : Var} (hv : v ∈ scheme.vars) (hw : w ∈ scheme.vars) (same : (ren v).id = (ren w).id) :
    v = w

theorem freshen_spec (c : Context) (H : Set Var) (vs : List Var) (s : Subst) :
    ∃ (ren : Nat → Nat) (H' : Set Var), Reach (c, H) ((c.freshen vs s).2, H') ∧
      (c.freshen vs s).2 = { c with nextVar := c.nextVar + vs.length } ∧
      (∀ v : Var, (∀ w ∈ vs, w.id ≠ v.id) → (c.freshen vs s).1.find? v = s.find? v) ∧
      (∀ n ∈ vs.map Var.id, c.nextVar ≤ ren n ∧ ren n < c.nextVar + vs.length) ∧
      (∀ m ∈ vs.map Var.id, ∀ n ∈ vs.map Var.id, ren m = ren n → m = n) ∧
      ∀ v : Var, v.id ∈ vs.map Var.id → ∃ w ∈ vs, w.id = v.id ∧ ⟨ren v.id, w.addable⟩ ∈ H' ∧
        (c.freshen vs s).1.find? v = some (.var ⟨ren v.id, w.addable⟩) := by
  induction vs generalizing c H s with
  | nil => exact ⟨id, H, .refl, rfl, fun _ _ => rfl, by simp, by simp, by simp⟩
  | cons u vs ih =>
    have step : c.freshen (u :: vs) s = (c.freshVar u.addable).2.freshen vs
        (s.insert u (.var (c.freshVar u.addable).1)) := rfl
    have first := Act.fresh c H u.addable
    obtain ⟨ren, H', run, context, other, range, inj, found⟩ :=
      ih (c.freshVar u.addable).2 (insert (c.freshVar u.addable).1 H)
        (s.insert u (.var (c.freshVar u.addable).1))
    have next : (c.freshVar u.addable).2.nextVar = c.nextVar + 1 := rfl
    rw [next] at range
    rw [step]
    -- A later copy of the variable takes the place of an earlier one.
    refine ⟨fun n => if n ∈ vs.map Var.id then ren n else c.nextVar, H', .head first run, ?_, ?_, ?_,
      ?_, ?_⟩
    · rw [context, List.length_cons]
      simp only [Context.freshVar, Nat.add_assoc, Nat.add_comm 1]
    · intro v hv
      rw [other v fun w hw => hv w (List.mem_cons_of_mem _ hw), Subst.find?_insert, if_neg]
      rw [Var.same_iff]
      exact hv u List.mem_cons_self
    · intro n hn
      dsimp only
      split
      next mem =>
        have := range n mem
        rw [List.length_cons]
        omega
      next =>
        rw [List.length_cons]
        omega
    · intro m hm n hn eq
      dsimp only at eq
      rw [List.map_cons, List.mem_cons] at hm hn
      split at eq
      next inm =>
        have := range m inm
        split at eq
        next inn => exact inj m inm n inn eq
        next => omega
      next outm =>
        split at eq
        next inn =>
          have := range n inn
          omega
        next outn => rw [hm.resolve_right outm, hn.resolve_right outn]
    · intro v hv
      dsimp only
      split
      next mem =>
        obtain ⟨w, hw, same, held, bound⟩ := found v mem
        exact ⟨w, List.mem_cons_of_mem _ hw, same, held, bound⟩
      next out =>
        rw [List.map_cons, List.mem_cons] at hv
        have same : u.id = v.id := (hv.resolve_right out).symm
        refine ⟨u, List.mem_cons_self, same, Reach.held_subset run (Set.mem_insert _ _), ?_⟩
        rw [other v fun w hw eq => out (List.mem_map.mpr ⟨w, hw, eq⟩), Subst.find?_insert,
          if_pos (Var.same_iff.mpr same)]
        rfl

theorem instantiate_spec (known : scheme.ty.Over (Known k c.nextVar))
    (quantified : ∀ v ∈ scheme.vars, v ∈ scheme.ty.vars) (free : {v | scheme.Free v} ⊆ H) :
    ∃ (ren : Var → Var) (H' : Set Var),
      Reach (c, H) ((c.instantiate scheme).2, H') ∧ (c.instantiate scheme).1.Over H' ∧
        Instantiated c scheme ren (c.instantiate scheme).1 (c.instantiate scheme).2 := by
  -- The variables of the scheme have been handed out, so no new one is among them.
  obtain ⟨vars, ty⟩ := scheme
  unfold Context.instantiate
  split
  next mono =>
    obtain rfl : vars = [] := by simpa [Scheme.isMono] using mono
    refine ⟨id, _, .refl, fun v hv => free ⟨hv, by simp⟩, ?_, rfl, ?_, ?_, ?_⟩
    · simp [Ty.bind_var]
    all_goals simp
  next =>
    obtain ⟨ren, H', run, context, other, range, inj, found⟩ := freshen_spec c H vars .empty
    generalize Context.freshen c vars .empty = result at run context other found ⊢
    obtain ⟨s, c'⟩ := result
    have below {v : Var} (hv : v ∈ vars) : v.id < c.nextVar := (known v (quantified v hv)).2
    -- The new numbers are not among the old ones.
    have image {v : Var} (hv : v ∈ ty.vars) :
        s.image v = .var (if v ∈ vars then ⟨ren v.id, v.addable⟩ else v) := by
      split
      next mem =>
        obtain ⟨w, hw, same, _, bound⟩ := found v (List.mem_map_of_mem mem)
        rw [Subst.image, bound, Known.eq (known w (quantified w hw)) (known v hv) same]
        rfl
      next out =>
        have free : ∀ w ∈ vars, w.id ≠ v.id := fun w hw same =>
          out (Known.eq (known w (quantified w hw)) (known v hv) same ▸ hw)
        rw [Subst.image, other v free]
        rfl
    have quantified_of_find {v : Var} {u : Ty} (bound : s.find? v = some u) :
        v.id ∈ vars.map Var.id := by
      by_contra out
      rw [other v fun w hw same => out (List.mem_map.mpr ⟨w, hw, same⟩)] at bound
      cases bound
    have idempotent : s.Idempotent := by
      intro v u bound
      have mem := quantified_of_find bound
      obtain ⟨w, _, _, _, eq⟩ := found v mem
      obtain rfl : Ty.var ⟨ren v.id, w.addable⟩ = u := Option.some.inj (eq.symm.trans bound)
      refine Finset.disjoint_left.mpr fun n hn key => ?_
      have hn : n = ren v.id := by simpa using hn
      obtain ⟨x, hx, same⟩ := Subst.mem_keys.mp key
      obtain ⟨z, hz, eq⟩ := List.mem_map.mp (quantified_of_find (Subst.find?_of_mem_domain hx))
      have := below hz
      have := (range v.id mem).1
      omega
    have instance_eq : s.apply ty =
        ty.bind fun v => .var (if v ∈ vars then ⟨ren v.id, v.addable⟩ else v) := by
      rw [idempotent.apply_eq]
      exact Ty.bind_congr ty fun v hv => image hv
    refine ⟨fun v => ⟨ren v.id, v.addable⟩, H', run, ?_, instance_eq, context, fun _ => rfl, ?_, ?_⟩
    · show (s.apply ty).Over H'
      rw [instance_eq]
      refine .bind fun v hv => Ty.over_var.mpr ?_
      split
      next mem =>
        obtain ⟨w, hw, same, held, _⟩ := found v (List.mem_map_of_mem mem)
        rwa [Known.eq (known w (quantified w hw)) (known v hv) same] at held
      next out => exact Reach.held_subset run (free ⟨hv, out⟩)
    · intro v hv
      dsimp only at context ⊢
      rw [context]
      exact range v.id (List.mem_map_of_mem hv)
    · intro v w hv hw same
      exact Known.eq (known v (quantified v hv)) (known w (quantified w hw))
        (inj v.id (List.mem_map_of_mem hv) w.id (List.mem_map_of_mem hw) same)

theorem Regular.instantiate (h : Regular k c H) {entry : String × Scheme}
    (he : entry ∈ c.env.entries) :
    ∃ (ren : Var → Var) (H' : Set Var),
      Reach (c, H) ((c.instantiate entry.2).2, H') ∧ (c.instantiate entry.2).1.Over H' ∧
        Instantiated c entry.2 ren (c.instantiate entry.2).1 (c.instantiate entry.2).2 := by
  obtain ⟨known, quantified⟩ := h.env he
  have use : Act (c, H) (c, H ∪ {v | entry.2.Free v}) := .use he
  obtain ⟨ren, H', run, overH, inst⟩ := instantiate_spec known quantified Set.subset_union_right
  exact ⟨ren, H', .head use run, overH, inst⟩

/-! ## Generalized types -/

theorem Regular.resolve_equiv (h : Regular k c H) (ht : t.Over H) :
    (c.apply t).Equiv (c.resolve t) := by
  have kinded := h.kinded_apply ht
  exact (Ty.foldLists_equiv (c.apply t)).exact_of_kinded kinded kinded.foldLists

theorem Regular.over_resolve (h : Regular k c H) (ht : t.Over H) :
    (c.resolve t).Over (Known k c.nextVar) := (h.over_apply (h.known ht)).foldLists

theorem mem_of_mem_add {v w : Var} {vs : VarSet} (h : v ∈ VarSet.add w vs) : v = w ∨ v ∈ vs := by
  induction vs with
  | nil => exact .inl (List.mem_singleton.mp h)
  | cons u vs ih =>
    unfold VarSet.add at h
    split at h
    · exact List.mem_cons.mp h
    · split at h
      · exact .inr h
      · rcases List.mem_cons.mp h with rfl | h
        · exact .inr List.mem_cons_self
        · exact (ih h).imp_right (List.mem_cons_of_mem _)

theorem mem_of_mem_union {v : Var} {vs ws : VarSet} (h : v ∈ vs.union ws) : v ∈ vs ∨ v ∈ ws := by
  unfold VarSet.union at h
  induction ws generalizing vs with
  | nil => exact .inl h
  | cons w ws ih =>
    rcases ih h with h | h
    · exact (mem_of_mem_add h).elim (fun eq => .inr (eq ▸ List.mem_cons_self)) .inl
    · exact .inr (List.mem_cons_of_mem _ h)

theorem mem_vars_of_freeVars {v : Var} (h : v ∈ t.freeVars) : v ∈ t.vars := by
  have split : v ∈ ([] : VarSet) ∨ v ∈ t.vars := mem_of_mem_union h
  exact split.resolve_left (List.not_mem_nil)

theorem has_freeVars (t : Ty) (v : Var) : t.freeVars.has v = VarSet.has t.vars v :=
  VarSet.has_ofList t.vars v

theorem has_visible {v : Var} : c.visible.has v = true ↔
    ∃ entry ∈ c.env.entries, ∃ w ∈ (c.apply entry.2.ty).vars, w.id = v.id ∧
      ∀ q ∈ entry.2.vars, q.id ≠ v.id := by
  have fold (entries : List (String × Scheme)) (vs : VarSet) :
      (entries.foldl (fun vars entry => vars.union (c.subst.applyScheme entry.2).freeVars) vs).has v =
        (vs.has v || entries.any fun entry => (c.subst.applyScheme entry.2).freeVars.has v) := by
    induction entries generalizing vs with
    | nil => simp
    | cons entry entries ih =>
      rw [List.foldl_cons, ih, VarSet.has_union, List.any_cons, Bool.or_assoc]
  rw [Context.visible, Env.freeVars, fold, VarSet.has_nil, Bool.false_or, List.any_eq_true]
  refine exists_congr fun entry => and_congr_right fun _ => ?_
  rw [Scheme.freeVars, VarSet.has_minus, has_freeVars, Bool.and_eq_true, VarSet.has_iff,
    Bool.not_eq_true', Bool.eq_false_iff, ne_eq, VarSet.has_iff]
  simp only [Subst.applyScheme, Context.apply]
  constructor
  · rintro ⟨⟨w, hw, same⟩, free⟩
    exact ⟨w, hw, same, fun q hq eq => free ⟨q, hq, eq⟩⟩
  · rintro ⟨w, hw, same, free⟩
    refine ⟨⟨w, hw, same⟩, ?_⟩
    rintro ⟨q, hq, eq⟩
    exact free q hq eq

theorem mem_generalize {n : Nat} (known : (c.resolve t).Over (Known k n)) {v : Var} :
    v ∈ (c.generalize t).vars ↔ v ∈ (c.resolve t).vars ∧ c.visible.has v = false := by
  show v ∈ ((c.resolve t).freeVars.minus c.visible) ↔ _
  rw [VarSet.minus, List.mem_filter, Bool.not_eq_true']
  refine and_congr_left fun _ => ⟨mem_vars_of_freeVars, fun hv => ?_⟩
  have : (c.resolve t).freeVars.has v = true := by
    rw [has_freeVars, VarSet.has_iff]
    exact ⟨v, hv, rfl⟩
  obtain ⟨w, hw, same⟩ := VarSet.has_iff.mp this
  rwa [← Known.eq (known w (mem_vars_of_freeVars hw)) (known v hv) same]

theorem Regular.mem_generalize (h : Regular k c H) (ht : t.Over H) {v : Var} :
    v ∈ (c.generalize t).vars ↔ v ∈ (c.resolve t).vars ∧ c.visible.has v = false :=
  Polytype.mem_generalize (h.over_resolve ht)

theorem Good.has_visible (h : Good c H) {v : Var} : c.visible.has v = true ↔
    ∃ entry ∈ c.env.entries, ∃ w, entry.2.Free w ∧ v.id ∈ (c.apply (.var w)).ids := by
  obtain ⟨k, regular⟩ := h.sane
  rw [Polytype.has_visible]
  refine exists_congr fun entry => and_congr_right fun he => ?_
  constructor
  · rintro ⟨w, hw, same, free⟩
    rw [Context.apply, Subst.apply, Ty.vars_bind, List.mem_flatMap] at hw
    obtain ⟨u, hu, hw⟩ := hw
    have mem : v.id ∈ (c.apply (.var u)).ids := Ty.mem_ids.mpr ⟨w, hw, same⟩
    refine ⟨u, ⟨hu, fun quantified => ?_⟩, mem⟩
    -- A quantified variable is not bound, so it would be the variable seen.
    obtain ⟨unbound, _⟩ := h.hygienic entry he u quantified
    rw [Context.apply, regular.idempotent.apply_var, Subst.image_of_unbound unbound, Ty.ids_var,
      Finset.mem_singleton] at mem
    exact free u quantified mem.symm
  · rintro ⟨u, hu, mem⟩
    obtain ⟨w, hw, same⟩ := Ty.mem_ids.mp mem
    refine ⟨w, ?_, same, fun q hq eq => ?_⟩
    · rw [Context.apply, Subst.apply, Ty.vars_bind, List.mem_flatMap]
      exact ⟨u, hu.1, hw⟩
    · exact (h.hygienic entry he q hq).2.env he hu v.id mem eq.symm

theorem Good.drop (h : Good c H) {env : Env} (sub : ∀ entry ∈ env.entries, entry ∈ c.env.entries) :
    Good { c with env } H := by
  obtain ⟨⟨k, regular⟩, hygienic⟩ := h
  refine ⟨⟨k, { regular with env := fun he => regular.env (sub _ he) }⟩, fun entry he q hq => ?_⟩
  obtain ⟨unbound, closed⟩ := hygienic entry (sub _ he) q hq
  exact ⟨unbound, { closed with env := fun he => closed.env (sub _ he) }⟩

theorem Good.bindMono (h : Good c H) (name : String) (ht : t.Over H) :
    Good { c with env := c.env.bind name (.mono t) } H := by
  obtain ⟨⟨k, regular⟩, hygienic⟩ := h
  refine ⟨⟨k, { regular with env := fun he => ?_ }⟩, fun entry he q hq => ?_⟩
  · rcases Env.mem_entries_bind he with he | rfl
    · exact regular.env he
    · exact ⟨regular.known ht, fun v hv => by cases hv⟩
  · rcases Env.mem_entries_bind he with he | rfl
    · obtain ⟨unbound, closed⟩ := hygienic entry he q hq
      refine ⟨unbound, { closed with env := fun he' v hv => ?_ }⟩
      rcases Env.mem_entries_bind he' with he' | rfl
      · exact closed.env he' hv
      · exact closed.held (ht v hv.1)
    · cases hq

/-- Binding a name to a generalized type keeps a context good, if the type is forgotten afterwards. -/
theorem Good.generalize (h : Good c H) (name : String) (ht : t.Over H) :
    Good { c with env := c.env.bind name (c.generalize t) } ∅ := by
  obtain ⟨k, regular⟩ := h.sane
  have known := regular.over_resolve ht
  have seen {v : Var} (hv : v ∈ (c.resolve t).vars) : v ∈ (c.apply t).vars :=
    Ty.mem_vars_foldLists _ hv
  have unbound {v : Var} (hv : v ∈ (c.resolve t).vars) : v.id ∉ c.subst.keys :=
    Finset.disjoint_left.mp (regular.idempotent.disjoint_apply t) (Ty.mem_ids.mpr ⟨v, seen hv, rfl⟩)
  refine ⟨⟨k, { regular with env := fun he => ?_, held := Set.empty_subset _ }⟩,
    fun entry he q hq => ?_⟩
  · rcases Env.mem_entries_bind he with he | rfl
    · exact regular.env he
    · exact ⟨known, fun v hv => ((regular.mem_generalize ht).mp hv).1⟩
  · rcases Env.mem_entries_bind he with he | rfl
    · obtain ⟨free, closed⟩ := h.hygienic entry he q hq
      refine ⟨free, closed.fresh, fun hv => absurd hv (Set.notMem_empty _), fun he' v hv => ?_⟩
      rcases Env.mem_entries_bind he' with he' | rfl
      · exact closed.env he' hv
      · exact (regular.within_apply (closed.over ht)).of_mem (seen hv.1)
    · obtain ⟨hq, unseen⟩ := (regular.mem_generalize ht).mp hq
      refine ⟨unbound hq, fun hn eq => ?_, fun hv => absurd hv (Set.notMem_empty _),
        fun he' v hv n hn eq => ?_⟩
      · have below := (known q hq).2
        rw [← eq] at below
        exact Nat.lt_irrefl _ (below.trans_le hn)
      · rcases Env.mem_entries_bind he' with he' | rfl
        · rw [Bool.eq_false_iff] at unseen
          exact unseen (h.has_visible.mpr ⟨_, he', v, hv, eq ▸ hn⟩)
        · rw [Context.apply, Subst.apply_unbound
            (Subst.find?_eq_none_iff.mpr (unbound hv.1)), Ty.ids_var, Finset.mem_singleton] at hn
          have same : v = q := Known.eq (known v hv.1) (known q hq) (hn.symm.trans eq)
          exact hv.2 ((regular.mem_generalize ht).mpr ⟨hv.1, same ▸ unseen⟩)

end Polytype
