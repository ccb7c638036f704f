import Polytype.Proofs.Steps

/-!
# Failed checks

When two types at hand fail to unify, what is known of them is in conflict, in the form in which an
error stores it: with the substitution applied and with lists in list form.
-/

namespace Polytype

variable {c : Context} {H : Set Var} {a b : Ty} {e : UnifyError}

namespace Sane

theorem not_unifiable (h : Sane c H) (ha : a.Over H) (hb : b.Over H)
    (failed : unify (c.apply a) (c.apply b) = .error e) :
    ¬Unifiable [c.resolve a] [c.resolve b] := by
  obtain ⟨k, regular⟩ := h
  have ka := regular.kinded_apply ha
  have kb := regular.kinded_apply hb
  exact fun unifiable => Polytype.not_unifiable ka kb failed
    (.of_foldLists (by simpa using ka) (by simpa using kb) unifiable)

theorem apply_of_occurs (h : Sane c H) (ha : a.Over H) (hb : b.Over H) {v : Var} {t : Ty}
    (failed : unify (c.apply a) (c.apply b) = .error (.occurs v t)) : c.apply t = t := by
  obtain ⟨k, regular⟩ := h
  have recurs := Unify.unify_occurs (regular.kinded_apply ha) (regular.kinded_apply hb) failed
  exact Subst.apply_disjoint (Finset.disjoint_of_subset_left recurs.among
    (Finset.disjoint_union_left.mpr ⟨regular.idempotent.disjoint_apply a,
      regular.idempotent.disjoint_apply b⟩))

theorem not_unifiable_of_occurs (h : Sane c H) (ha : a.Over H) (hb : b.Over H) {v : Var} {t : Ty}
    (failed : unify (c.apply a) (c.apply b) = .error (.occurs v t)) :
    ¬Unifiable [.var v] [c.resolve t] := by
  rw [Context.resolve, h.apply_of_occurs ha hb failed]
  obtain ⟨k, regular⟩ := h
  exact (Unify.unify_occurs (regular.kinded_apply ha) (regular.kinded_apply hb) failed).not_unifiable

theorem seen_of_occurs (h : Sane c H) (ha : a.Over H) (hb : b.Over H) {v : Var} {t : Ty}
    (failed : unify (c.apply a) (c.apply b) = .error (.occurs v t)) :
    v ∈ c.seen H ∧ (c.resolve t).Over (c.seen H) := by
  rw [Context.resolve, h.apply_of_occurs ha hb failed]
  obtain ⟨k, regular⟩ := h
  have recurs := Unify.unify_occurs (regular.kinded_apply ha) (regular.kinded_apply hb) failed
  -- A number has one flag, so it stands for a variable that has been seen.
  have seen {w : Var} (flag : w.addable = k w.id) (hw : w.id ∈ (c.apply a).ids ∪ (c.apply b).ids) :
      w ∈ c.seen H := by
    have known {s : Ty} (hs : s.Over H) (mem : w.id ∈ (c.apply s).ids) : w ∈ c.seen H := by
      obtain ⟨u, hu, same⟩ := Ty.mem_ids.mp mem
      have below := regular.over_apply (regular.known hs) u hu
      obtain rfl : u = w := Known.eq below ⟨flag, same ▸ below.2⟩ same
      exact hs.seen u hu
    exact (Finset.mem_union.mp hw).elim (known ha) (known hb)
  have around : t.Over (c.seen H) := fun w hw =>
    seen (recurs.ty w hw) (recurs.among (Ty.mem_ids.mpr ⟨w, hw, rfl⟩))
  exact ⟨seen (recurs.var v (by simp [Ty.vars])) recurs.mem, around.foldLists⟩

/-- If a function cannot be applied although the number of arguments is right, then its parameters
and the arguments are to blame. The result is a new variable, so it fits any. -/
theorem not_unifiable_of_call (h : Sane c H) {params args : List Ty} {r : Ty}
    (hp : ∀ p ∈ params, p.Over H) (ha : ∀ a ∈ args, a.Over H) (hr : r.Over H)
    (failed : unify ((c.freshVar false).2.apply (.func params r))
      ((c.freshVar false).2.apply (.func args (.var (c.freshVar false).1))) = .error e) :
    ¬Unifiable (params.map (c.freshVar false).2.resolve) (args.map (c.freshVar false).2.resolve) := by
  obtain ⟨k, regular⟩ := h
  have unbound : c.nextVar ∉ c.subst.keys := fun bound => Nat.lt_irrefl _ (regular.keys bound)
  have new {t : Ty} (ht : t.Over H) : (c.freshVar false).1 ∉ (c.apply t).vars := fun hv =>
    Nat.lt_irrefl _ (regular.over_apply (regular.known ht) _ hv).2
  have kinded (ts : List Ty) (hts : ∀ t ∈ ts, t.Over H) :
      ∀ t ∈ ts.map c.apply, t.Kinded k :=
    List.forall_mem_map.mpr fun t ht => regular.kinded_apply (hts t ht)
  have fresh := regular.fresh false
  have old {t : Ty} (ht : t.Over H) : t.Over (insert (c.freshVar false).1 H) :=
    ht.mono (Set.subset_insert _ _)
  have callee : (Ty.func params r).Over (insert (c.freshVar false).1 H) :=
    Ty.over_func.mpr ⟨fun p h => old (hp p h), old hr⟩
  have expected : (Ty.func args (.var (c.freshVar false).1)).Over (insert (c.freshVar false).1 H) :=
    Ty.over_func.mpr ⟨fun a h => old (ha a h), Ty.over_var.mpr (Set.mem_insert _ _)⟩
  intro unifiable
  refine Polytype.not_unifiable (fresh.kinded_apply callee) (fresh.kinded_apply expected) failed ?_
  have params_args : Unifiable (params.map c.apply) (args.map c.apply) := by
    refine .of_foldLists (kinded params hp) (kinded args ha) ?_
    rwa [List.map_map, List.map_map]
  have applied : (c.freshVar false).2.apply (.func args (.var (c.freshVar false).1)) =
      .func (args.map c.apply) (.var (c.freshVar false).1) := by
    rw [Context.apply, Subst.apply_func]
    congr 1
    exact Subst.apply_unbound (Subst.find?_eq_none_iff.mpr unbound)
  rw [applied, Context.apply, Subst.apply_func]
  exact params_args.func rfl (List.forall_mem_map.mpr fun p h => new (hp p h))
    (List.forall_mem_map.mpr fun a h => new (ha a h)) (new hr)

end Sane

end Polytype
