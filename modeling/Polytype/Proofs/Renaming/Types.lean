import Polytype.Proofs.Equivalence

/-!
# Types under other variables

`Ty.rename g` puts the variable `g v` in the place of `v`. If `g` keeps different variables apart,
nothing that compares types can tell the difference: lists are found in the same places
(`foldLists_rename`). So the list form of a type decides equivalence (`EquivBy.same_foldLists`).
-/

namespace Polytype

/-- Tells the same variables apart as before. -/
def Var.Faithful (g : Var → Var) : Prop := ∀ v w, (g v).same (g w) = v.same w

namespace Ty

/-- Puts another variable in the place of each one. -/
def rename (g : Var → Var) (t : Ty) : Ty := t.bind fun v => .var (g v)

variable {g : Var → Var}

@[simp] theorem rename_var (v : Var) : (Ty.var v).rename g = .var (g v) := rfl

@[simp] theorem rename_prim (p : Prim) : (Ty.prim p).rename g = .prim p := rfl

@[simp] theorem rename_func (ps : List Ty) (r : Ty) :
    (Ty.func ps r).rename g = .func (ps.map (rename g)) (r.rename g) := by
  simp only [rename, bind, bindAll_eq]
  rfl

@[simp] theorem rename_pair (h t : Ty) : (Ty.pair h t).rename g = .pair (h.rename g) (t.rename g) :=
  rfl

@[simp] theorem rename_list (e : Ty) : (Ty.list e).rename g = .list (e.rename g) := rfl

theorem rename_eq_self (t : Ty) (h : ∀ v ∈ t.vars, g v = v) : t.rename g = t := by
  rw [rename, bind_congr t fun v hv => congrArg Ty.var (h v hv), bind_var]

theorem vars_rename (t : Ty) : (t.rename g).vars = t.vars.map g := by
  simp only [rename, vars_bind, vars]
  exact List.map_eq_flatMap.symm

mutual
theorem same_rename (h : Var.Faithful g) : (a b : Ty) → (a.rename g).same (b.rename g) = a.same b
  | .var v, b => by cases b <;> simp [same, h v]
  | .prim p, b => by cases b <;> simp [same]
  | .func ps r, b => by
    cases b with
    | func qs s => simp [same, sameAll_rename h ps qs, same_rename h r s]
    | _ => simp [same]
  | .pair i t, b => by
    cases b with
    | pair j u => simp [same, same_rename h i j, same_rename h t u]
    | _ => simp [same]
  | .list e, b => by
    cases b with
    | list f => simp [same, same_rename h e f]
    | _ => simp [same]

theorem sameAll_rename (h : Var.Faithful g) : (as bs : List Ty) →
    sameAll (as.map (rename g)) (bs.map (rename g)) = sameAll as bs
  | [], [] => rfl
  | [], _ :: _ => rfl
  | _ :: _, [] => rfl
  | a :: as, b :: bs => by
    rw [List.map_cons, List.map_cons, sameAll, sameAll, same_rename h a b, sameAll_rename h as bs]
end

theorem cons_rename (faithful : Var.Faithful g) (h t : Ty) :
    cons (h.rename g) (t.rename g) = (cons h t).rename g := by
  cases t with
  | list e =>
    rw [rename_list, cons, cons, same_rename faithful]
    split <;> rfl
  | func ps r =>
    simp only [rename_func, cons, rename_pair]
  | _ => rfl

theorem foldLists_rename (faithful : Var.Faithful g) (t : Ty) :
    (t.rename g).foldLists = t.foldLists.rename g := by
  induction t using Ty.ind with
  | var v => rfl
  | prim p => rfl
  | func ps r ihps ihr =>
    simp only [rename_func, foldLists, foldListsAll_eq, List.map_map, ihr]
    exact congrArg (fun ps => func ps _) (List.map_congr_left ihps)
  | pair h t ihh iht =>
    rw [rename_pair, foldLists, ihh, iht, cons_rename faithful, foldLists]
  | list e ihe => rw [rename_list, foldLists, ihe, foldLists, rename_list]

theorem EquivBy.same_foldLists {a b : Ty} (h : EquivBy Var.id a b) :
    a.foldLists.same b.foldLists = true := by
  let g (v : Var) : Var := .plain (code v.id)
  have faithful : Var.Faithful g := by
    intro v w
    rw [Bool.eq_iff_iff, Var.same_iff, Var.same_iff]
    exact ⟨code_inj, congrArg code⟩
  have folded (t : Ty) : t.foldLists.rename g = canon Var.id t := (foldLists_rename faithful t).symm
  rw [← same_rename faithful, folded, folded, h.canon_eq]
  exact same_self _

end Ty

end Polytype
