import Polytype.Proofs.Renaming.Types

/-!
# Unification under other numbers

If variables get other numbers in the same order, with the same flags, then every operation on types
and substitutions gives the same as before, with the new numbers in it. So does unification, and it
fails in the same place (`unify_rename`).
-/

namespace Polytype

/-- Gives variables other numbers, in the same order, and keeps their flags. -/
structure Var.Renumbering (g : Var → Var) : Prop where
  lt_iff (v w : Var) : (g v).id < (g w).id ↔ v.id < w.id
  addable (v : Var) : (g v).addable = v.addable

variable {g : Var → Var}

theorem Var.Renumbering.faithful (h : Var.Renumbering g) : Var.Faithful g := by
  intro v w
  rw [Bool.eq_iff_iff, Var.same_iff, Var.same_iff]
  have := h.lt_iff v w
  have := h.lt_iff w v
  omega

/-! ## Sets of variables -/

namespace VarSet

theorem has_map (h : Var.Faithful g) (vs : VarSet) (v : Var) : has (vs.map g) (g v) = has vs v := by
  simp only [has, List.any_map, Function.comp_def, h _ v]

theorem add_map (h : Var.Renumbering g) (v : Var) (vs : VarSet) :
    add (g v) (vs.map g) = (add v vs).map g := by
  induction vs with
  | nil => rfl
  | cons w rest ih =>
    simp only [List.map_cons, add, h.lt_iff, h.faithful v w, ih]
    split
    · rfl
    · split <;> rfl

theorem union_map (h : Var.Renumbering g) (vs ws : VarSet) :
    union (vs.map g) (ws.map g) = (union vs ws).map g := by
  unfold union
  induction ws generalizing vs with
  | nil => rfl
  | cons w rest ih => rw [List.map_cons, List.foldl_cons, List.foldl_cons, add_map h, ih]

theorem ofList_map (h : Var.Renumbering g) (vs : List Var) :
    ofList (vs.map g) = (ofList vs).map g := union_map h [] vs

theorem minus_map (h : Var.Faithful g) (vs ws : VarSet) :
    minus (vs.map g) (ws.map g) = (minus vs ws).map g := by
  simp only [minus, List.filter_map, Function.comp_def, has_map h]

end VarSet

/-! ## Types -/

namespace Ty

theorem bind_rename {f f' : Var → Ty} (h : ∀ v, f' (g v) = (f v).rename g) (t : Ty) :
    (t.rename g).bind f' = (t.bind f).rename g := by
  simp only [rename, bind_bind]
  exact bind_congr t fun v _ => h v

theorem depth_rename (t : Ty) : (t.rename g).depth = t.depth := by
  induction t using Ty.ind with
  | var v => rfl
  | prim p => rfl
  | func ps r ihps ihr =>
    have params : depthAll (ps.map (rename g)) = depthAll ps := by
      clear ihr
      induction ps with
      | nil => rfl
      | cons p ps ih =>
        obtain ⟨first, rest⟩ := List.forall_mem_cons.mp ihps
        rw [List.map_cons, depthAll, depthAll, first, ih rest]
    rw [rename_func, depth, depth, params, ihr]
  | pair h t ihh iht => rw [rename_pair, depth, depth, ihh, iht]
  | list e ihe => rw [rename_list, depth, depth, ihe]

theorem mentions_rename (h : Var.Faithful g) (t : Ty) (v : Var) :
    (t.rename g).mentions (g v) = t.mentions v := by
  rw [mentions, vars_rename, VarSet.has_map h, mentions]

theorem freeVars_rename (h : Var.Renumbering g) (t : Ty) :
    (t.rename g).freeVars = t.freeVars.map g := by
  rw [freeVars, vars_rename, VarSet.ofList_map h, freeVars]

end Ty

/-! ## Substitutions -/

namespace Subst

def rename (g : Var → Var) (s : Subst) : Subst :=
  ⟨s.entries.map fun entry => (g entry.1, entry.2.rename g)⟩

@[simp] theorem rename_empty : empty.rename g = empty := rfl

@[simp] theorem rename_single (v : Var) (t : Ty) :
    (single v t).rename g = single (g v) (t.rename g) := rfl

theorem domain_rename (s : Subst) : (s.rename g).domain = s.domain.map g := by
  simp only [rename, domain, List.map_map, Function.comp_def]

theorem find?_rename (h : Var.Faithful g) (s : Subst) (v : Var) :
    (s.rename g).find? (g v) = (s.find? v).map (Ty.rename g) := by
  simp only [rename, find?, List.find?_map, Function.comp_def, h _ v, Option.map_map]

theorem binds_rename (h : Var.Faithful g) (s : Subst) (v : Var) :
    (s.rename g).binds (g v) = s.binds v := by
  rw [binds, domain_rename, VarSet.has_map h, binds]

theorem chase_rename (h : Var.Faithful g) (s : Subst) (n : Nat) (v : Var) :
    (s.rename g).chase n (g v) = (s.chase n v).rename g := by
  induction n generalizing v with
  | zero => rfl
  | succ n ih =>
    rw [chase, chase, find?_rename h]
    cases s.find? v with
    | none => rfl
    | some t => exact Ty.bind_rename ih t

theorem apply_rename (h : Var.Faithful g) (s : Subst) (t : Ty) :
    (s.rename g).apply (t.rename g) = (s.apply t).rename g := by
  have size : (s.rename g).size = s.size := List.length_map _
  rw [apply, size]
  exact Ty.bind_rename (s.chase_rename h s.size) t

theorem insert_rename (h : Var.Renumbering g) (s : Subst) (v : Var) (t : Ty) :
    (s.rename g).insert (g v) (t.rename g) = (s.insert v t).rename g := by
  obtain ⟨entries⟩ := s
  simp only [rename, insert, mk.injEq]
  induction entries with
  | nil => rfl
  | cons entry rest ih =>
    simp only [List.map_cons, insertEntry, h.lt_iff, h.faithful v entry.1, ih]
    split
    · rfl
    · split <;> rfl

theorem compose_rename (h : Var.Renumbering g) (older newer : Subst) :
    (older.rename g).compose (newer.rename g) = (older.compose newer).rename g := by
  have mapped : (older.rename g).mapTypes (newer.rename g).apply =
      (older.mapTypes newer.apply).rename g := by
    simp only [rename, mapTypes, List.map_map, Function.comp_def, mk.injEq]
    exact List.map_congr_left fun entry _ => congrArg _ (apply_rename h.faithful newer entry.2)
  rw [compose, compose, mapped]
  generalize older.mapTypes newer.apply = s
  rw [show (newer.rename g).entries =
    newer.entries.map fun entry => (g entry.1, entry.2.rename g) from rfl]
  induction newer.entries generalizing s with
  | nil => rfl
  | cons entry rest ih =>
    simp only [List.map_cons, List.foldl_cons, binds_rename h.faithful, apply_rename h.faithful,
      insert_rename h]
    split
    · exact ih s
    · exact ih _

end Subst

/-! ## Unification -/

def UnifyError.rename (g : Var → Var) : UnifyError → UnifyError
  | .mismatch expected found => .mismatch (expected.rename g) (found.rename g)
  | .arity expected found => .arity (expected.rename g) (found.rename g)
  | .occurs v t => .occurs (g v) (t.rename g)

namespace Unify

def renameOutcome (g : Var → Var) : Outcome → Outcome
  | .ok s => .ok (s.rename g)
  | .error e => .error (e.rename g)

/-- Does not depend on the numbers of variables. -/
def Commutes (g : Var → Var) (unify : Ty → Ty → Outcome) : Prop :=
  ∀ a b : Ty, unify (a.rename g) (b.rename g) = renameOutcome g (unify a b)

variable {unify : Ty → Ty → Outcome}

theorem rows_rename (hg : Var.Renumbering g) (hu : Commutes g unify) (s : Subst) (ls rs : List Ty) :
    rows unify (s.rename g) (ls.map (Ty.rename g)) (rs.map (Ty.rename g)) =
      renameOutcome g (rows unify s ls rs) := by
  induction ls generalizing s rs with
  | nil => simp only [List.map_nil, rows, renameOutcome]
  | cons l ls ih =>
    cases rs with
    | nil => simp only [List.map_cons, List.map_nil, rows, renameOutcome]
    | cons r rs =>
      rw [List.map_cons, List.map_cons, rows, rows, Subst.apply_rename hg.faithful,
        Subst.apply_rename hg.faithful, hu]
      cases unify (s.apply l) (s.apply r) with
      | error e => rfl
      | ok f =>
        show rows unify ((s.rename g).compose (f.rename g)) _ _ = _
        rw [Subst.compose_rename hg]
        exact ih _ rs

theorem fixpoint_rename (hg : Var.Renumbering g) (hu : Commutes g unify) (v : Var) (h t : Ty) :
    fixpoint unify (g v) (h.rename g) (t.rename g) = renameOutcome g (fixpoint unify v h t) := by
  have second := Subst.apply_rename hg.faithful (.single v (.list h)) (.pair h t)
  rw [Subst.rename_single, Ty.rename_pair, Ty.rename_list] at second
  simp only [fixpoint]
  rw [second, ← Ty.rename_list, hu]
  cases unify (.list h) ((Subst.single v (.list h)).apply (.pair h t)) with
  | error e => rfl
  | ok rest =>
    show Except.ok ((Subst.single (g v) ((Ty.list h).rename g)).compose (rest.rename g)) = _
    rw [← Subst.rename_single, Subst.compose_rename hg]
    rfl

theorem bindVar_rename (hg : Var.Renumbering g) (hu : Commutes g unify) (v : Var) (t : Ty) :
    bindVar unify (g v) (t.rename g) = renameOutcome g (bindVar unify v t) := by
  unfold bindVar
  rw [hg.addable, Ty.mentions_rename hg.faithful]
  split
  · cases t with
    | prim p =>
      simp only [Ty.rename_prim]
      split <;> rfl
    | func ps r =>
      simp only [Ty.rename_func, renameOutcome, UnifyError.rename, Ty.rename_var]
    | _ => rfl
  · split
    · rfl
    · cases t with
      | pair h u =>
        simp only [Ty.rename_pair, Ty.mentions_rename hg.faithful]
        split
        · rfl
        · exact fixpoint_rename hg hu v h u
      | func ps r =>
        simp only [Ty.rename_func, renameOutcome, UnifyError.rename]
      | _ => rfl

theorem bindVars_rename (hg : Var.Renumbering g) (v w : Var) :
    bindVars (g v) (g w) = renameOutcome g (bindVars v w) := by
  unfold bindVars
  rw [hg.faithful, hg.addable, hg.addable]
  split
  · rfl
  · split <;> rfl

theorem step_rename (hg : Var.Renumbering g) (hu : Commutes g unify) : Commutes g (step unify) := by
  have rows (ls rs : List Ty) := rows_rename hg hu .empty ls rs
  intro a b
  cases a with
  | var v =>
    cases b with
    | var w => exact bindVars_rename hg v w
    | func qs s =>
      have := bindVar_rename hg hu v (.func qs s)
      rw [Ty.rename_func] at this ⊢
      exact this
    | _ => exact bindVar_rename hg hu v _
  | prim p =>
    cases b with
    | var w => exact bindVar_rename hg hu w (.prim p)
    | prim q =>
      simp only [Ty.rename_prim, step]
      split <;> rfl
    | func qs s => simp only [Ty.rename_func, Ty.rename_prim, step, renameOutcome, UnifyError.rename]
    | _ => rfl
  | func ps r =>
    cases b with
    | var w =>
      have := bindVar_rename hg hu w (.func ps r)
      rw [Ty.rename_func] at this ⊢
      exact this
    | func qs s =>
      have parts := rows (ps ++ [r]) (qs ++ [s])
      simp only [List.map_append, List.map_cons, List.map_nil, Subst.rename_empty] at parts
      simp only [Ty.rename_func, step, List.length_map, parts]
      split
      · rfl
      · simp only [renameOutcome, UnifyError.rename, Ty.rename_func]
    | _ => simp only [Ty.rename_func, step, renameOutcome, UnifyError.rename, Ty.rename_prim,
        Ty.rename_pair, Ty.rename_list]
  | pair h t =>
    cases b with
    | var w => exact bindVar_rename hg hu w (.pair h t)
    | pair i u => exact rows [h, t] [i, u]
    | list e => exact rows [e, .list e] [h, t]
    | func qs s => simp only [Ty.rename_func, Ty.rename_pair, step, renameOutcome, UnifyError.rename]
    | _ => rfl
  | list e =>
    cases b with
    | var w => exact bindVar_rename hg hu w (.list e)
    | pair h t => exact rows [e, .list e] [h, t]
    | list f => exact hu e f
    | func qs s => simp only [Ty.rename_func, Ty.rename_list, step, renameOutcome, UnifyError.rename]
    | _ => rfl

theorem within_rename (hg : Var.Renumbering g) : (n : Nat) → Commutes g (within n)
  | 0 => fun _ _ => rfl
  | n + 1 => step_rename hg (within_rename hg n)

theorem levels_rename (hg : Var.Renumbering g) (a b : Ty) :
    levels (a.rename g) (b.rename g) = levels a b := by
  rw [levels, Ty.depth_rename, Ty.depth_rename, Ty.vars_rename, Ty.vars_rename, ← List.map_append,
    VarSet.ofList_map hg, List.length_map, levels]

end Unify

theorem unify_rename (hg : Var.Renumbering g) : Unify.Commutes g unify := by
  intro a b
  rw [unify, Unify.levels_rename hg]
  exact Unify.within_rename hg _ a b

end Polytype
