import Polytype.Context
import Polytype.Proofs.Renaming.Texts
import Polytype.Proofs.Unification

/-!
# Contexts under other numbers

Two contexts mirror each other if they know the same, one of them with variables numbered further on
and with earlier errors in front (`Mirror`). That one may know more: about variables that have no
counterpart, and about names that the other does not bind in its outermost scope. All that can be
done with a context gives the same in both, with the new numbers, and leaves contexts that mirror each
other again. Only a name that is not found in one of them may be found in the other.
-/

namespace Polytype

variable {g : Var → Var}

/-! ## Schemes and environments -/

namespace Scheme

def rename (g : Var → Var) (s : Scheme) : Scheme := ⟨s.vars.map g, s.ty.rename g⟩

theorem freeVars_rename (h : Var.Renumbering g) (s : Scheme) :
    (s.rename g).freeVars = s.freeVars.map g := by
  rw [freeVars, rename, Ty.freeVars_rename h, VarSet.minus_map h.faithful, freeVars]

end Scheme

namespace Scope

def rename (g : Var → Var) (scope : Scope) : Scope :=
  scope.map fun entry => (entry.1, entry.2.rename g)

theorem lookup_rename (scope : Scope) (name : String) :
    List.lookup name (scope.rename g) = (List.lookup name scope).map (Scheme.rename g) := by
  induction scope with
  | nil => rfl
  | cons entry rest ih =>
    rw [rename, List.map_cons, List.lookup_cons, List.lookup_cons]
    split
    · rfl
    · exact ih

theorem erase_rename (name : String) (scope : Scope) :
    erase name (scope.rename g) = (erase name scope).rename g := by
  simp only [erase, rename, List.filter_map, Function.comp_def]

theorem bind_rename (name : String) (scheme : Scheme) (scope : Scope) :
    bind name (scheme.rename g) (scope.rename g) = (bind name scheme scope).rename g := by
  rw [bind, erase_rename, bind]
  rfl

end Scope

/-! ## Two contexts -/

/-- How a run is seen in another context: numbers from `base` on are `offset` further on, `earlier`
errors stand in front, and the outermost scope has `extra` bindings among its own. -/
structure Transfer where
  base : Nat
  offset : Nat
  earlier : List TypeError
  extra : List (String × Scheme)
  /-- The extra schemes are closed, and their variables have no counterpart. -/
  closed : ∀ entry ∈ extra, ∀ v ∈ entry.2.ty.vars,
    v ∈ entry.2.vars ∧ base ≤ v.id ∧ v.id < base + offset

namespace Transfer

def var (T : Transfer) (v : Var) : Var := if v.id < T.base then v else v.shift T.offset

theorem var_id (T : Transfer) (v : Var) :
    (T.var v).id = if v.id < T.base then v.id else v.id + T.offset := by
  unfold var
  split <;> rfl

theorem renumbering (T : Transfer) : Var.Renumbering T.var where
  lt_iff v w := by
    rw [var_id, var_id]
    split <;> split <;> omega
  addable v := by
    unfold var
    split <;> rfl

theorem faithful (T : Transfer) : Var.Faithful T.var := T.renumbering.faithful

def ty (T : Transfer) : Ty → Ty := Ty.rename T.var

/-- With bindings to spare, there is a scope inside the outermost one. -/
def Inside (T : Transfer) (env : Env) : Prop := T.extra ≠ [] → env.inner ≠ []

/-- With bindings to spare, no name is missing. -/
def Bound (T : Transfer) (errors : List TypeError) : Prop :=
  T.extra ≠ [] → ∀ e ∈ errors, ∀ name, e.problem ≠ .unboundName name

end Transfer

variable {T : Transfer} {c d : Context}

/-! ## Wider environments -/

/-- The second scope has the bindings of the first, and extra ones for names that the first does not
bind. -/
inductive Scope.Wider (T : Transfer) : Scope → Scope → Prop
  | nil : Wider T [] []
  | same (entry : String × Scheme) {scope scope' : Scope} (h : Wider T scope scope') :
      Wider T (entry :: scope) ((entry.1, entry.2.rename T.var) :: scope')
  | extra {entry : String × Scheme} {scope scope' : Scope} (mem : entry ∈ T.extra)
      (new : scope.lookup entry.1 = none) (h : Wider T scope scope') :
      Wider T scope (entry :: scope')

namespace Scope.Wider

variable {scope scope' : Scope}

theorem of_fixed (h : ∀ entry ∈ scope, ∀ v, v ∈ entry.2.vars ∨ v ∈ entry.2.ty.vars → T.var v = v) :
    Wider T scope scope := by
  induction scope with
  | nil => exact .nil
  | cons entry scope ih =>
    obtain ⟨first, others⟩ := List.forall_mem_cons.mp h
    have vars : entry.2.vars.map T.var = entry.2.vars :=
      (List.map_congr_left fun v hv => first v (.inl hv)).trans (List.map_id _)
    have ty := entry.2.ty.rename_eq_self fun v hv => first v (.inr hv)
    have fixed : (entry.1, entry.2.rename T.var) = entry :=
      congrArg (Prod.mk entry.1) (congrArg₂ Scheme.mk vars ty)
    have wider := Wider.same entry (ih others)
    rwa [fixed] at wider

theorem lookup (h : Wider T scope scope') (name : String) :
    List.lookup name scope' = (List.lookup name scope).map (Scheme.rename T.var) ∨
      List.lookup name scope = none ∧ T.extra ≠ [] := by
  induction h with
  | nil => exact .inl rfl
  | same entry h ih =>
    rw [List.lookup_cons, List.lookup_cons]
    split
    · exact .inl rfl
    · exact ih
  | @extra entry scope scope' mem new h ih =>
    rw [List.lookup_cons]
    split
    next eq =>
      rw [eq_of_beq eq]
      exact .inr ⟨new, List.ne_nil_of_mem mem⟩
    next => exact ih

theorem erase (h : Wider T scope scope') (name : String) :
    Wider T (Scope.erase name scope) (Scope.erase name scope') := by
  induction h with
  | nil => exact .nil
  | same entry h ih =>
    unfold Scope.erase at ih ⊢
    rw [List.filter_cons, List.filter_cons]
    split
    · exact .same entry ih
    · exact ih
  | @extra entry scope scope' mem new h ih =>
    have new' : (Scope.erase name scope).lookup entry.1 = none := by simp [new]
    unfold Scope.erase at ih new' ⊢
    rw [List.filter_cons]
    split
    · exact .extra mem new' ih
    · exact ih

theorem bind (h : Wider T scope scope') (name : String) (scheme : Scheme) :
    Wider T (Scope.bind name scheme scope) (Scope.bind name (scheme.rename T.var) scope') :=
  .same (name, scheme) (h.erase name)

theorem append (h : Wider T scope scope') (front : Scope) :
    Wider T (front ++ scope) (front.rename T.var ++ scope') := by
  induction front with
  | nil => exact h
  | cons entry front ih => exact .same entry ih

end Scope.Wider

/-- The scopes are the same but for the outermost one, which is wider. -/
structure Env.Wider (T : Transfer) (env env' : Env) : Prop where
  inner : env'.inner = env.inner.map (Scope.rename T.var)
  outermost : Scope.Wider T env.outermost env'.outermost

namespace Env.Wider

variable {env env' : Env}

theorem lookup (h : Env.Wider T env env') (name : String) :
    env'.lookup name = (env.lookup name).map (Scheme.rename T.var) ∨
      env.lookup name = none ∧ T.extra ≠ [] := by
  obtain ⟨outermost, inner⟩ := env
  obtain ⟨outermost', inner'⟩ := env'
  obtain ⟨rfl, wider⟩ := h
  unfold Env.lookup Env.scopes
  dsimp only
  induction inner with
  | nil =>
    rw [List.map_nil, List.nil_append, List.nil_append, List.findSome?_singleton,
      List.findSome?_singleton]
    exact wider.lookup name
  | cons scope inner ih =>
    rw [List.map_cons, List.cons_append, List.cons_append, List.findSome?_cons, List.findSome?_cons,
      Scope.lookup_rename]
    cases List.lookup name scope with
    | none => exact ih wider
    | some scheme => exact .inl rfl

theorem lookupLocal (h : Env.Wider T env env') (inside : T.Inside env) (name : String) :
    env'.lookupLocal name = (env.lookupLocal name).map (Scheme.rename T.var) := by
  obtain ⟨outermost, inner⟩ := env
  obtain ⟨outermost', inner'⟩ := env'
  obtain ⟨rfl, wider⟩ := h
  cases inner with
  | nil => exact (wider.lookup name).resolve_right fun spare => inside spare.2 rfl
  | cons scope inner => exact scope.lookup_rename name

theorem entries (h : Env.Wider T env env') :
    Scope.Wider T env.scopes.flatten env'.scopes.flatten := by
  have renamed : (env.inner.map (Scope.rename T.var)).flatten =
      Scope.rename T.var env.inner.flatten := List.map_flatten.symm
  simp only [Env.scopes, List.flatten_append, List.flatten_singleton, h.inner, renamed]
  exact h.outermost.append _

theorem push (h : Env.Wider T env env') : Env.Wider T env.push env'.push :=
  ⟨congrArg ([] :: ·) h.inner, h.outermost⟩

theorem pop (h : Env.Wider T env env') : Env.Wider T env.pop env'.pop := by
  refine ⟨?_, h.outermost⟩
  rw [Env.pop, Env.pop, h.inner, List.map_tail]

theorem modify (h : Env.Wider T env env') {f f' : Scope → Scope}
    (same : ∀ scope : Scope, f' (scope.rename T.var) = (f scope).rename T.var)
    (wider : ∀ {scope scope'}, Scope.Wider T scope scope' → Scope.Wider T (f scope) (f' scope')) :
    Env.Wider T (env.modify f) (env'.modify f') := by
  obtain ⟨outermost, inner⟩ := env
  obtain ⟨outermost', inner'⟩ := env'
  obtain ⟨rfl, outer⟩ := h
  cases inner with
  | nil => exact ⟨rfl, wider outer⟩
  | cons scope inner => exact ⟨congrArg (· :: inner.map (Scope.rename T.var)) (same scope), outer⟩

theorem bind (h : Env.Wider T env env') (name : String) (scheme : Scheme) :
    Env.Wider T (env.bind name scheme) (env'.bind name (scheme.rename T.var)) :=
  h.modify (Scope.bind_rename name scheme) fun wider => wider.bind name scheme

theorem erase (h : Env.Wider T env env') (name : String) :
    Env.Wider T (env.erase name) (env'.erase name) :=
  h.modify (Scope.erase_rename name) fun wider => wider.erase name

end Env.Wider

/-! ## Contexts that mirror each other -/

/-- What `c` knows, `d` knows about the variables that stand for those of `c`. It knows nothing about
the variables of its extra bindings. -/
structure Mirror (T : Transfer) (c d : Context) : Prop where
  idempotent : c.subst.Idempotent
  idempotent' : d.subst.Idempotent
  subst (v : Var) : d.subst.find? (T.var v) = (c.subst.find? v).map T.ty
  base : T.base ≤ c.nextVar
  next : d.nextVar = c.nextVar + T.offset
  env : c.env.Wider T d.env
  unbound : ∀ entry ∈ T.extra, ∀ v ∈ entry.2.ty.vars, v.id ∉ d.subst.keys
  errors : d.errors = T.earlier ++ c.errors.map (TypeError.rename T.var)

namespace Mirror

theorem apply (h : Mirror T c d) (t : Ty) : d.apply (T.ty t) = T.ty (c.apply t) := by
  rw [Context.apply, Context.apply, h.idempotent.apply_eq, h.idempotent'.apply_eq]
  refine Ty.bind_rename (fun v => ?_) t
  rw [Subst.image, Subst.image, h.subst]
  cases c.subst.find? v <;> rfl

theorem resolve (h : Mirror T c d) (t : Ty) : d.resolve (T.ty t) = T.ty (c.resolve t) := by
  rw [Context.resolve, h.apply]
  exact Ty.foldLists_rename T.faithful _

theorem resolveAll (h : Mirror T c d) (ts : List Ty) :
    (ts.map T.ty).map d.resolve = (ts.map c.resolve).map T.ty := by
  simp only [List.map_map, Function.comp_def, h.resolve]

/-! ## Variables and schemes -/

theorem fresh (h : Mirror T c d) (addable : Bool) :
    (d.freshVar addable).1 = T.var (c.freshVar addable).1 ∧
      Mirror T (c.freshVar addable).2 (d.freshVar addable).2 := by
  refine ⟨?_, { h with base := Nat.le_succ_of_le h.base, next := ?_ }⟩
  · have above : ¬(c.freshVar addable).1.id < T.base := Nat.not_lt.mpr h.base
    rw [Transfer.var, if_neg above, Context.freshVar, h.next]
    rfl
  · show d.nextVar + 1 = c.nextVar + 1 + T.offset
    rw [h.next]
    omega

theorem freshen (h : Mirror T c d) (vs : List Var) (s : Subst) :
    (d.freshen (vs.map T.var) (s.rename T.var)).1 = (c.freshen vs s).1.rename T.var ∧
      Mirror T (c.freshen vs s).2 (d.freshen (vs.map T.var) (s.rename T.var)).2 := by
  induction vs generalizing c d s with
  | nil => exact ⟨rfl, h⟩
  | cons v vs ih =>
    obtain ⟨new, next⟩ := h.fresh v.addable
    rw [List.map_cons, Context.freshen, Context.freshen, T.renumbering.addable]
    dsimp only
    rw [new, ← Ty.rename_var, Subst.insert_rename T.renumbering]
    exact ih next _

theorem instantiate (h : Mirror T c d) (scheme : Scheme) :
    (d.instantiate (scheme.rename T.var)).1 = T.ty (c.instantiate scheme).1 ∧
      Mirror T (c.instantiate scheme).2 (d.instantiate (scheme.rename T.var)).2 := by
  obtain ⟨new, next⟩ := h.freshen scheme.vars .empty
  rw [Subst.rename_empty] at new next
  have mono : (scheme.rename T.var).isMono = scheme.isMono := List.isEmpty_map
  unfold Context.instantiate
  rw [mono]
  split
  · exact ⟨rfl, h⟩
  · refine ⟨?_, next⟩
    show (d.freshen (scheme.vars.map T.var) .empty).1.apply (scheme.ty.rename T.var) = _
    rw [new]
    exact Subst.apply_rename T.faithful _ _

theorem freeVars_extra (h : Mirror T c d) {entry : String × Scheme} (mem : entry ∈ T.extra) :
    (d.subst.applyScheme entry.2).freeVars = [] := by
  -- The schemes of extra bindings have no free variables, and none gets in.
  have unbound : Disjoint entry.2.ty.ids d.subst.keys := by
    refine Finset.disjoint_left.mpr fun n hn => ?_
    obtain ⟨v, hv, rfl⟩ := Ty.mem_ids.mp hn
    exact h.unbound entry mem v hv
  show ((d.subst.apply entry.2.ty).freeVars.minus entry.2.vars : VarSet) = []
  rw [Subst.apply_disjoint unbound, VarSet.minus, List.filter_eq_nil_iff]
  intro v hv
  have free : VarSet.has (VarSet.ofList entry.2.ty.vars) v = true := VarSet.has_iff.mpr ⟨v, hv, rfl⟩
  rw [VarSet.has_ofList, VarSet.has_iff] at free
  obtain ⟨w, hw, same⟩ := free
  simpa using VarSet.has_iff.mpr ⟨w, (T.closed entry mem w hw).1, same⟩

theorem visible (h : Mirror T c d) : d.visible = c.visible.map T.var := by
  have scheme (s : Scheme) : (d.subst.applyScheme (s.rename T.var)).freeVars =
      (c.subst.applyScheme s).freeVars.map T.var := by
    rw [← Scheme.freeVars_rename T.renumbering]
    exact congrArg Scheme.freeVars (congrArg (Scheme.mk (s.vars.map T.var)) (h.apply s.ty))
  have fold {scope scope' : Scope} (wider : Scope.Wider T scope scope') (vs : VarSet) :
      scope'.foldl (fun (vars : VarSet) entry => vars.union (d.subst.applyScheme entry.2).freeVars)
        (vs.map T.var) =
      (scope.foldl
        (fun vars entry => vars.union (c.subst.applyScheme entry.2).freeVars) vs).map T.var := by
    induction wider generalizing vs with
    | nil => rfl
    | same entry wider ih =>
      rw [List.foldl_cons, List.foldl_cons, scheme, VarSet.union_map T.renumbering]
      exact ih _
    | extra mem new wider ih =>
      rw [List.foldl_cons, h.freeVars_extra mem]
      exact ih vs
  rw [Context.visible, Env.freeVars]
  exact fold h.env.entries []

theorem generalize (h : Mirror T c d) (t : Ty) :
    d.generalize (T.ty t) = (c.generalize t).rename T.var := by
  have vars : (d.resolve (T.ty t)).freeVars.minus d.visible =
      ((c.resolve t).freeVars.minus c.visible).map T.var := by
    rw [h.resolve, h.visible, Transfer.ty, Ty.freeVars_rename T.renumbering,
      VarSet.minus_map T.faithful]
  exact congrArg₂ Scheme.mk vars (h.resolve t)

/-! ## Unifying -/

theorem unify (h : Mirror T c d) (a b : Ty) :
    Polytype.unify (d.apply (T.ty a)) (d.apply (T.ty b)) =
      Unify.renameOutcome T.var (Polytype.unify (c.apply a) (c.apply b)) := by
  rw [h.apply, h.apply]
  exact unify_rename T.renumbering _ _

theorem commit (h : Mirror T c d) {a b : Ty} {f : Subst}
    (found : Polytype.unify (c.apply a) (c.apply b) = .ok f) :
    Mirror T { c with subst := c.subst.compose f }
      { d with subst := d.subst.compose (f.rename T.var) } := by
  have found' := h.unify a b
  rw [found] at found'
  refine { h with
    idempotent := Unify.idempotent_compose_found Unify.unify_bounded h.idempotent found
    idempotent' := Unify.idempotent_compose_found Unify.unify_bounded h.idempotent' found'
    subst := fun v => ?_
    unbound := fun entry mem v hv => ?_ }
  swap
  · -- New bindings are for variables that stand for others.
    rw [Subst.keys_compose, Finset.mem_union]
    rintro (old | new)
    · exact h.unbound entry mem v hv old
    · obtain ⟨w, hw, same⟩ := Subst.mem_keys.mp new
      rw [Subst.domain_rename] at hw
      obtain ⟨u, _, rfl⟩ := List.mem_map.mp hw
      have gap := (T.closed entry mem v hv).2
      rw [← same, T.var_id] at gap
      split at gap <;> omega
  have newer (t : Ty) : (f.rename T.var).apply (T.ty t) = T.ty (f.apply t) :=
    Subst.apply_rename T.faithful f t
  have older (t : Ty) : d.subst.apply (T.ty t) = T.ty (c.subst.apply t) := h.apply t
  dsimp only
  rw [Subst.find?_compose, Subst.find?_compose, h.subst, Subst.find?_rename T.faithful]
  cases c.subst.find? v with
  | some t => exact congrArg some (newer t)
  | none =>
    cases f.find? v with
    | some t => exact congrArg some (older t)
    | none => rfl

theorem unifyUnseen (h : Mirror T c d) (a b : Ty) :
    (c.unifyUnseen? a b = none ∧ d.unifyUnseen? (T.ty a) (T.ty b) = none) ∨
      ∃ c' d', c.unifyUnseen? a b = some c' ∧ d.unifyUnseen? (T.ty a) (T.ty b) = some d' ∧
        Mirror T c' d' := by
  unfold Context.unifyUnseen?
  rw [h.unify]
  cases found : Polytype.unify (c.apply a) (c.apply b) with
  | error e => exact .inl ⟨rfl, rfl⟩
  | ok f =>
    have seen : ((f.rename T.var).domain.any fun v => d.visible.has v) =
        f.domain.any fun v => c.visible.has v := by
      rw [Subst.domain_rename, List.any_map, h.visible]
      simp only [Function.comp_def, VarSet.has_map T.faithful]
    dsimp only [Unify.renameOutcome]
    rw [seen]
    split
    · exact .inl ⟨rfl, rfl⟩
    · exact .inr ⟨_, _, rfl, rfl, h.commit found⟩

/-! ## Scopes and errors -/

theorem withEnv (h : Mirror T c d) {env env' : Env} (wider : env.Wider T env') :
    Mirror T { c with env } { d with env := env' } :=
  { h with env := wider }

theorem report (h : Mirror T c d) (problem : Problem) (pos : Position) :
    Mirror T (c.report problem pos) (d.report (problem.rename T.var) pos) := by
  refine { h with errors := ?_ }
  show d.errors ++ [_] = _
  rw [h.errors, List.append_assoc, Context.report, List.map_append]
  rfl

theorem errorCount (h : Mirror T c d) :
    d.errors.length = T.earlier.length + c.errors.length := by
  rw [h.errors, List.length_append, List.length_map]

end Mirror

end Polytype
