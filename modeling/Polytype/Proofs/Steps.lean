import Mathlib.Logic.Relation
import Polytype.Context
import Polytype.Proofs.Conflicts

/-!
# What inference does to a context

`Act` lists all that happens to a context while a program is inferred: variables are handed out,
schemes are used, two types at hand are unified, scopes change, conflicts are reported. Beside the
context goes the set of the variables at hand, those from which the walk can build types.

What holds of every run is proved for one act and carried over to all (`Reach`):

* the context stays regular: its substitution is idempotent, every number has one flag and lies below
  the next one to hand out, and addable variables stand for what can be added (`Reach.sane`);
* equations are never given up (`Reach.solves`), and what is reported is a conflict
  (`Reach.reports`);
* what cannot be reached from the variables at hand, from the environment and from fresh variables
  stays untouched (`Reach.closed`). So the quantified variables of a scheme in scope are neither bound
  nor seen elsewhere (`Reach.good`).
-/

namespace Polytype

/-! ## Variables at hand -/

namespace Ty

/-- All variables of the type are in `H`. -/
def Over (H : Set Var) (t : Ty) : Prop := ∀ v ∈ t.vars, v ∈ H

variable {H H' : Set Var}

@[simp] theorem over_var {v : Var} : (Ty.var v).Over H ↔ v ∈ H := by simp [Over, vars]

@[simp] theorem over_prim (p : Prim) : (Ty.prim p).Over H := by simp [Over, vars]

@[simp] theorem over_func {ps : List Ty} {r : Ty} :
    (Ty.func ps r).Over H ↔ (∀ p ∈ ps, p.Over H) ∧ r.Over H := by
  unfold Over
  simp only [mem_vars_func]
  constructor
  · intro h
    exact ⟨fun p hp v hv => h v (.inl ⟨p, hp, hv⟩), fun v hv => h v (.inr hv)⟩
  · rintro ⟨hps, hr⟩ v (⟨p, hp, hv⟩ | hv)
    · exact hps p hp v hv
    · exact hr v hv

@[simp] theorem over_pair {h t : Ty} : (Ty.pair h t).Over H ↔ h.Over H ∧ t.Over H := by
  unfold Over
  simp only [mem_vars_pair, or_imp, forall_and]

@[simp] theorem over_list {e : Ty} : (Ty.list e).Over H ↔ e.Over H := Iff.rfl

theorem Over.mono {t : Ty} (h : t.Over H) (sub : H ⊆ H') : t.Over H' := fun v hv => sub (h v hv)

theorem Over.bind {f : Var → Ty} {t : Ty} (h : ∀ v ∈ t.vars, (f v).Over H) : (t.bind f).Over H := by
  intro w hw
  rw [vars_bind, List.mem_flatMap] at hw
  obtain ⟨v, hv, hw⟩ := hw
  exact h v hv w hw

theorem Over.foldLists {t : Ty} (h : t.Over H) : t.foldLists.Over H :=
  fun v hv => h v (mem_vars_foldLists t hv)

end Ty

theorem Subst.Idempotent.over_apply {s : Subst} {K : Set Var} (h : s.Idempotent)
    (range : ∀ v u, s.find? v = some u → u.Over K) {t : Ty} (ht : t.Over K) : (s.apply t).Over K := by
  rw [h.apply_eq]
  refine .bind fun v hv => ?_
  cases found : s.find? v with
  | none =>
    rw [Subst.image, found]
    exact Ty.over_var.mpr (ht v hv)
  | some u =>
    rw [Subst.image, found]
    exact range v u found

namespace Scheme

/-- Occurs in the type and is not quantified. -/
def Free (scheme : Scheme) (v : Var) : Prop := v ∈ scheme.ty.vars ∧ v ∉ scheme.vars

end Scheme

namespace Env

/-- The bindings of all scopes, hidden ones included. -/
def entries (env : Env) : List (String × Scheme) := env.scopes.flatten

variable {env : Env} {entry : String × Scheme} {name : String} {scheme : Scheme}

@[simp] theorem entries_push : env.push.entries = env.entries := rfl

theorem mem_entries : entry ∈ env.entries ↔ (∃ scope ∈ env.inner, entry ∈ scope) ∨
    entry ∈ env.outermost := by
  simp [entries, scopes]

theorem mem_entries_pop (h : entry ∈ env.pop.entries) : entry ∈ env.entries := by
  rw [mem_entries] at h ⊢
  rcases h with ⟨scope, hs, h⟩ | h
  · exact .inl ⟨scope, List.mem_of_mem_tail hs, h⟩
  · exact .inr h

theorem mem_entries_modify {f : Scope → Scope} (h : entry ∈ (env.modify f).entries) :
    entry ∈ env.entries ∨ entry ∈ f env.innermost := by
  obtain ⟨outermost, inner⟩ := env
  cases inner with
  | nil =>
    rw [mem_entries] at h
    rcases h with ⟨scope, hs, h⟩ | h
    · cases hs
    · exact .inr h
  | cons scope rest =>
    rw [mem_entries] at h ⊢
    rcases h with ⟨other, hs, h⟩ | h
    · rcases List.mem_cons.mp hs with rfl | hs
      · exact .inr h
      · exact .inl (.inl ⟨other, List.mem_cons_of_mem _ hs, h⟩)
    · exact .inl (.inr h)

theorem mem_entries_innermost (h : entry ∈ env.innermost) : entry ∈ env.entries := by
  obtain ⟨outermost, inner⟩ := env
  rw [mem_entries]
  cases inner with
  | nil => exact .inr h
  | cons scope rest => exact .inl ⟨scope, List.mem_cons_self, h⟩

theorem mem_entries_erase (h : entry ∈ (env.erase name).entries) : entry ∈ env.entries := by
  rcases mem_entries_modify h with h | h
  · exact h
  · exact mem_entries_innermost (List.mem_filter.mp h).1

theorem mem_entries_bind (h : entry ∈ (env.bind name scheme).entries) :
    entry ∈ env.entries ∨ entry = (name, scheme) := by
  rcases mem_entries_modify h with h | h
  · exact .inl h
  · rcases List.mem_cons.mp h with h | h
    · exact .inr h
    · exact .inl (mem_entries_innermost (List.mem_filter.mp h).1)

theorem mem_of_lookup {α β : Type} [BEq α] [LawfulBEq α] {l : List (α × β)} {a : α} {b : β}
    (h : l.lookup a = some b) : (a, b) ∈ l := by
  obtain ⟨l₁, l₂, eq, _⟩ := List.lookup_eq_some_iff.mp h
  rw [eq]
  simp

theorem mem_entries_lookup (h : env.lookup name = some scheme) : (name, scheme) ∈ env.entries := by
  obtain ⟨scope, hs, found⟩ := List.exists_of_findSome?_eq_some h
  exact List.mem_flatten.mpr ⟨scope, hs, mem_of_lookup found⟩

theorem mem_entries_lookupLocal (h : env.lookupLocal name = some scheme) :
    (name, scheme) ∈ env.entries := mem_entries_innermost (mem_of_lookup h)

end Env

/-! ## Acts -/

/-- What is known of the variables of `H` leads to these. -/
def Context.seen (c : Context) (H : Set Var) : Set Var := {v | ∃ u ∈ H, v ∈ (c.apply (.var u)).vars}

theorem Ty.Over.seen {c : Context} {H : Set Var} {t : Ty} (h : t.Over H) :
    (c.apply t).Over (c.seen H) := by
  intro v hv
  rw [Context.apply, Subst.apply, Ty.vars_bind, List.mem_flatMap] at hv
  obtain ⟨u, hu, hv⟩ := hv
  exact ⟨u, h u hu, hv⟩

theorem Ty.Over.resolve {c : Context} {H : Set Var} {t : Ty} (h : t.Over H) :
    (c.resolve t).Over (c.seen H) := h.seen.foldLists

/-- The types that an error shows. -/
def Problem.types : Problem → List Ty
  | .unboundName _ => []
  | .operands _ _ expected found => expected ++ found
  | .argumentCount _ expected found => expected ++ found
  | .arguments _ expected found => expected ++ found
  | .test _ _ found => [found]
  | .branches _ _ consequent alternate => [consequent, alternate]
  | .infinite _ _ v ty => [.var v, ty]
  | .mismatch _ _ expected found => [expected, found]

/-- One thing that happens to a context, with the variables at hand before and after it. -/
inductive Act : Context × Set Var → Context × Set Var → Prop
  | fresh (c : Context) (H : Set Var) (addable : Bool) :
      Act (c, H) ((c.freshVar addable).2, insert (c.freshVar addable).1 H)
  /-- Looks at what is known of a type. -/
  | see {c : Context} {H : Set Var} {t : Ty} (ht : t.Over H) :
      Act (c, H) (c, H ∪ {v | v ∈ (c.apply t).vars})
  /-- Takes a scheme from the environment. -/
  | use {c : Context} {H : Set Var} {entry : String × Scheme} (he : entry ∈ c.env.entries) :
      Act (c, H) (c, H ∪ {v | entry.2.Free v})
  | commit {c : Context} {H : Set Var} {a b : Ty} {f : Subst} (ha : a.Over H) (hb : b.Over H)
      (found : unify (c.apply a) (c.apply b) = .ok f) :
      Act (c, H) ({ c with subst := c.subst.compose f }, H)
  /-- Drops bindings, or binds names to schemes of types at hand. -/
  | scope {c : Context} {H : Set Var} {env : Env}
      (h : ∀ entry ∈ env.entries, entry ∈ c.env.entries ∨
        entry.2.ty.Over H ∧ ∀ v ∈ entry.2.vars, v ∈ entry.2.ty.vars) :
      Act (c, H) ({ c with env }, H)
  | report (c : Context) (H : Set Var) {problem : Problem} (pos : Position)
      (h : problem.Conflicts) (known : ∀ t ∈ problem.types, t.Over (c.seen H)) :
      Act (c, H) (c.report problem pos, H)

/-- What can come of a context. -/
abbrev Reach : Context × Set Var → Context × Set Var → Prop := Relation.ReflTransGen Act

variable {k : Nat → Bool} {c c' : Context} {H H' : Set Var} {θ : Var → Ty} {K : Set Nat}

theorem Act.held_subset {x y : Context × Set Var} (act : Act x y) : x.2 ⊆ y.2 := by
  cases act with
  | fresh c H addable => exact Set.subset_insert _ _
  | see => exact Set.subset_union_left
  | use => exact Set.subset_union_left
  | commit => exact subset_rfl
  | scope => exact subset_rfl
  | report => exact subset_rfl

theorem Act.next_le {x y : Context × Set Var} (act : Act x y) : x.1.nextVar ≤ y.1.nextVar := by
  cases act with
  | fresh c H addable => exact Nat.le_succ _
  | _ => exact le_rfl

/-! ## Reports -/

/-- Errors have been added since `c`, and `P` holds of them. -/
def Reports (P : Problem → Prop) (c c' : Context) : Prop :=
  ∃ new, c'.errors = c.errors ++ new ∧ ∀ e ∈ new, P e.problem

namespace Reports

variable {P Q : Problem → Prop}

theorem of_eq (h : c'.errors = c.errors) : Reports P c c' := ⟨[], by rw [h, List.append_nil], by simp⟩

theorem single (c : Context) {problem : Problem} (pos : Position) (h : P problem) :
    Reports P c (c.report problem pos) := ⟨[⟨problem, pos⟩], rfl, by simpa using h⟩

theorem trans {c'' : Context} (h : Reports P c c') (h' : Reports P c' c'') : Reports P c c'' := by
  obtain ⟨new, eq, holds⟩ := h
  obtain ⟨new', eq', holds'⟩ := h'
  exact ⟨new ++ new', by rw [eq', eq, List.append_assoc], List.forall_mem_append.mpr ⟨holds, holds'⟩⟩

theorem and (h : Reports P c c') (h' : Reports Q c c') :
    Reports (fun problem => P problem ∧ Q problem) c c' := by
  obtain ⟨new, eq, holds⟩ := h
  obtain ⟨new', eq', holds'⟩ := h'
  obtain rfl := List.append_cancel_left (eq.symm.trans eq')
  exact ⟨new, eq, fun e he => ⟨holds e he, holds' e he⟩⟩

end Reports

theorem Act.reports {x y : Context × Set Var} (act : Act x y) :
    Reports Problem.Conflicts x.1 y.1 := by
  cases act with
  | report c H pos h known => exact .single c pos h
  | _ => exact .of_eq rfl

/-! ## Regular contexts -/

/-- The variables that have been handed out, with their flags. -/
def Known (k : Nat → Bool) (n : Nat) : Set Var := {v | v.addable = k v.id ∧ v.id < n}

theorem Known.eq {n : Nat} {v w : Var} (hv : v ∈ Known k n) (hw : w ∈ Known k n)
    (same : v.id = w.id) : v = w := Var.eq_of_flags hv.1 hw.1 same

/-- Every number has the flag of `k` and lies below the next one, in the substitution, in the
environment and among the variables at hand. -/
structure Regular (k : Nat → Bool) (c : Context) (H : Set Var) : Prop where
  increasing : c.subst.domain.Increasing
  idempotent : c.subst.Idempotent
  respects : c.subst.Respects k
  keys {n : Nat} (hn : n ∈ c.subst.keys) : n < c.nextVar
  range {v : Var} {t : Ty} (found : c.subst.find? v = some t) : ∀ n ∈ t.ids, n < c.nextVar
  env {entry : String × Scheme} (he : entry ∈ c.env.entries) :
    entry.2.ty.Over (Known k c.nextVar) ∧ ∀ v ∈ entry.2.vars, v ∈ entry.2.ty.vars
  held : H ⊆ Known k c.nextVar

/-- Some choice of flags makes the context regular. -/
def Sane (c : Context) (H : Set Var) : Prop := ∃ k, Regular k c H

theorem Ty.Over.kinded {t : Ty} {n : Nat} (h : t.Over (Known k n)) : t.Kinded k :=
  fun v hv => (h v hv).1

namespace Regular

theorem known (h : Regular k c H) {t : Ty} (ht : t.Over H) : t.Over (Known k c.nextVar) :=
  ht.mono h.held

theorem commit (h : Regular k c H) {a b : Ty} {f : Subst} (ha : a.Over H) (hb : b.Over H)
    (found : unify (c.apply a) (c.apply b) = .ok f) : Commit k c.subst a b f :=
  ⟨h.idempotent, h.respects, (h.known ha).kinded, (h.known hb).kinded, found⟩

theorem over_range (h : Regular k c H) {v : Var} {t : Ty} (found : c.subst.find? v = some t) :
    t.Over (Known k c.nextVar) := fun w hw =>
  ⟨h.respects.kinded found w hw, h.range found w.id (Ty.mem_ids.mpr ⟨w, hw, rfl⟩)⟩

theorem over_apply (h : Regular k c H) {t : Ty} (ht : t.Over (Known k c.nextVar)) :
    (c.apply t).Over (Known k c.nextVar) := h.idempotent.over_apply (fun _ _ => h.over_range) ht

theorem kinded_apply (h : Regular k c H) {t : Ty} (ht : t.Over H) : (c.apply t).Kinded k :=
  (h.over_apply (h.known ht)).kinded

theorem mono (h : Regular k c H) (sub : H' ⊆ H) : Regular k c H' :=
  { h with held := sub.trans h.held }

end Regular

theorem known_update (k : Nat → Bool) (n : Nat) (addable : Bool) :
    Known k n ⊆ Known (Function.update k n addable) (n + 1) := by
  rintro v ⟨flag, below⟩
  refine ⟨?_, Nat.lt_succ_of_lt below⟩
  rw [Function.update_of_ne (Nat.ne_of_lt below)]
  exact flag

theorem Subst.Respects.update {s : Subst} {n : Nat} (h : s.Respects k)
    (keys : ∀ m ∈ s.keys, m < n) (range : ∀ v t, s.find? v = some t → ∀ m ∈ t.ids, m < n)
    (addable : Bool) : s.Respects (Function.update k n addable) := by
  have below {m : Nat} (hm : m < n) : Function.update k n addable m = k m :=
    Function.update_of_ne (Nat.ne_of_lt hm) _ _
  constructor
  · intro v hv
    rw [below (keys v.id (Subst.mem_keys.mpr ⟨v, hv, rfl⟩))]
    exact h.domain hv
  · intro v t found w hw
    rw [below (range v t found w.id (Ty.mem_ids.mpr ⟨w, hw, rfl⟩))]
    exact h.kinded found w hw
  · intro v t found flag
    have bound : v.id ∈ s.keys := Subst.find?_isSome_iff.mp (by rw [found]; rfl)
    rw [below (keys v.id bound)] at flag
    exact h.addable found flag

theorem Regular.fresh (h : Regular k c H) (addable : Bool) :
    Regular (Function.update k c.nextVar addable) (c.freshVar addable).2
      (insert (c.freshVar addable).1 H) where
  increasing := h.increasing
  idempotent := h.idempotent
  respects := h.respects.update (fun _ => h.keys) (fun _ _ => h.range) addable
  keys hn := Nat.lt_succ_of_lt (h.keys hn)
  range found n hn := Nat.lt_succ_of_lt (h.range found n hn)
  env he := ⟨(h.env he).1.mono (known_update k _ addable), (h.env he).2⟩
  held := by
    rintro v (rfl | hv)
    · refine ⟨?_, Nat.lt_succ_self _⟩
      show addable = Function.update k c.nextVar addable c.nextVar
      rw [Function.update_self]
    · exact known_update k _ addable (h.held hv)

theorem Regular.committed (h : Regular k c H) {a b : Ty} {f : Subst} (ha : a.Over H)
    (hb : b.Over H) (found : unify (c.apply a) (c.apply b) = .ok f) :
    Regular k { c with subst := c.subst.compose f } H := by
  have commit := h.commit ha hb found
  have solved := Unify.unify_bounded found
  have below {n : Nat} (hn : n ∈ (c.apply a).ids ∪ (c.apply b).ids) : n < c.nextVar := by
    rcases Finset.mem_union.mp hn with hn | hn
    · obtain ⟨v, hv, rfl⟩ := Ty.mem_ids.mp hn
      exact (h.over_apply (h.known ha) v hv).2
    · obtain ⟨v, hv, rfl⟩ := Ty.mem_ids.mp hn
      exact (h.over_apply (h.known hb) v hv).2
  have range {v : Var} {t : Ty} (bound : f.find? v = some t) {n : Nat} (hn : n ∈ t.ids) :
      n < c.nextVar := below (Finset.mem_sdiff.mp (solved.range bound hn)).1
  refine ⟨Subst.increasing_compose h.increasing, commit.compose_idempotent,
    commit.compose_respects, ?_, ?_, h.env, h.held⟩
  · intro n hn
    rw [Subst.keys_compose, Finset.mem_union] at hn
    exact hn.elim h.keys fun hn => below (solved.keys hn)
  · intro v t bound n hn
    rw [Subst.find?_compose_of_apart commit.apart] at bound
    cases old : c.subst.find? v with
    | none => exact range (by simpa [old] using bound) hn
    | some u =>
      obtain rfl : f.apply u = t := by simpa [old] using bound
      rcases commit.foundIdempotent.ids_apply hn with ⟨hn, _⟩ | ⟨w, x, _, new, hn⟩
      · exact h.range old n hn
      · exact range new hn

/-- An act keeps the context regular, and the variables that were known before keep their flags. -/
theorem Act.regular {x y : Context × Set Var} (act : Act x y) (h : Regular k x.1 x.2) :
    ∃ k', Regular k' y.1 y.2 ∧ Known k x.1.nextVar ⊆ Known k' y.1.nextVar := by
  cases act with
  | fresh c H addable => exact ⟨_, h.fresh addable, known_update k _ addable⟩
  | see ht =>
    refine ⟨k, { h with held := ?_ }, subset_rfl⟩
    rintro v (hv | hv)
    · exact h.held hv
    · exact h.over_apply (h.known ht) v hv
  | use he =>
    refine ⟨k, { h with held := ?_ }, subset_rfl⟩
    rintro v (hv | hv)
    · exact h.held hv
    · exact (h.env he).1 v hv.1
  | commit ha hb found => exact ⟨k, h.committed ha hb found, subset_rfl⟩
  | scope new =>
    refine ⟨k, { h with env := fun he => ?_ }, subset_rfl⟩
    rcases new _ he with he | ⟨overH, quantified⟩
    · exact h.env he
    · exact ⟨h.known overH, quantified⟩
  | report c H pos => exact ⟨k, { h with }, subset_rfl⟩

theorem Act.sane {x y : Context × Set Var} (act : Act x y) (h : Sane x.1 x.2) : Sane y.1 y.2 := by
  obtain ⟨k, h⟩ := h
  obtain ⟨k', h', _⟩ := act.regular h
  exact ⟨k', h'⟩

theorem Act.solves {x y : Context × Set Var} (act : Act x y) (h : Sane x.1 x.2)
    (solved : Solves θ y.1.subst) : Solves θ x.1.subst := by
  cases act with
  | commit ha hb found =>
    obtain ⟨k, h⟩ := h
    exact ((h.commit ha hb found).solves_compose.mp solved).1
  | _ => exact solved

/-! ## What stays untouched -/

/-- All that is known of `t` has numbers in `K`. -/
def Context.Within (c : Context) (K : Set Nat) (t : Ty) : Prop := ∀ n ∈ (c.apply t).ids, n ∈ K

/-- `K` has all numbers that can be reached: fresh ones, and those in what is known of the variables
at hand and of the free variables of the environment. -/
structure Closed (K : Set Nat) (c : Context) (H : Set Var) : Prop where
  fresh {n : Nat} (hn : c.nextVar ≤ n) : n ∈ K
  held {v : Var} (hv : v ∈ H) : c.Within K (.var v)
  env {entry : String × Scheme} (he : entry ∈ c.env.entries) {v : Var} (hv : entry.2.Free v) :
    c.Within K (.var v)

/-- Numbers outside `K` are not bound on the way, and do not come into what was in `K`. -/
structure Stays (K : Set Nat) (c c' : Context) : Prop where
  keys {n : Nat} (hn : n ∈ c'.subst.keys) : n ∈ c.subst.keys ∨ n ∈ K
  within {t : Ty} (ht : c.Within K t) : c'.Within K t

namespace Stays

theorem refl (K : Set Nat) (c : Context) : Stays K c c := ⟨.inl, id⟩

theorem of_subst_eq (h : c'.subst = c.subst) : Stays K c c' := by
  constructor
  · intro n hn
    rw [h] at hn
    exact .inl hn
  · intro t ht
    rw [Context.Within, Context.apply, h]
    exact ht

theorem trans {c'' : Context} (h : Stays K c c') (h' : Stays K c' c'') : Stays K c c'' :=
  ⟨fun hn => (h'.keys hn).elim h.keys .inr, fun ht => h'.within (h.within ht)⟩

end Stays

theorem within_of_vars {t : Ty} (h : ∀ v ∈ t.vars, c.Within K (.var v)) : c.Within K t := by
  intro n hn
  obtain ⟨w, hw, rfl⟩ := Ty.mem_ids.mp hn
  rw [Context.apply, Subst.apply, Ty.vars_bind, List.mem_flatMap] at hw
  obtain ⟨v, hv, hw⟩ := hw
  exact h v hv w.id (Ty.mem_ids.mpr ⟨w, hw, rfl⟩)

theorem Context.Within.of_mem {t : Ty} (h : c.Within K t) {v : Var} (hv : v ∈ t.vars) :
    c.Within K (.var v) := by
  intro n hn
  obtain ⟨w, hw, rfl⟩ := Ty.mem_ids.mp hn
  refine h w.id (Ty.mem_ids.mpr ⟨w, ?_, rfl⟩)
  rw [Context.apply, Subst.apply, Ty.vars_bind, List.mem_flatMap]
  exact ⟨v, hv, hw⟩

theorem Regular.apply_apply (h : Regular k c H) (t : Ty) : c.apply (c.apply t) = c.apply t :=
  Subst.apply_disjoint (h.idempotent.disjoint_apply t)

theorem Regular.within_apply (h : Regular k c H) {t : Ty} (ht : c.Within K t) :
    c.Within K (c.apply t) := by
  rw [Context.Within, h.apply_apply]
  exact ht

theorem Closed.over (h : Closed K c H) {t : Ty} (ht : t.Over H) : c.Within K t :=
  within_of_vars fun v hv => h.held (ht v hv)

theorem Closed.mono (h : Closed K c H) (sub : H' ⊆ H) : Closed K c H' :=
  { h with held := fun hv => h.held (sub hv) }

theorem Regular.stays_committed (h : Regular k c H) {a b : Ty} {f : Subst} (ha : a.Over H)
    (hb : b.Over H) (found : unify (c.apply a) (c.apply b) = .ok f) (closed : Closed K c H) :
    Stays K c { c with subst := c.subst.compose f } := by
  have commit := h.commit ha hb found
  have solved := Unify.unify_bounded found
  have inside {n : Nat} (hn : n ∈ (c.apply a).ids ∪ (c.apply b).ids) : n ∈ K :=
    (Finset.mem_union.mp hn).elim (closed.over ha n) (closed.over hb n)
  constructor
  · intro n hn
    rw [Subst.keys_compose, Finset.mem_union] at hn
    exact hn.imp_right fun hn => inside (solved.keys hn)
  · intro t ht n hn
    rw [Context.apply, commit.apply_compose] at hn
    rcases commit.foundIdempotent.ids_apply hn with ⟨hn, _⟩ | ⟨v, u, _, bound, hn⟩
    · exact ht n hn
    · exact inside (Finset.mem_sdiff.mp (solved.range bound hn)).1

theorem Act.closed {x y : Context × Set Var} (act : Act x y) (h : Sane x.1 x.2)
    (closed : Closed K x.1 x.2) : Closed K y.1 y.2 ∧ Stays K x.1 y.1 := by
  obtain ⟨k, h⟩ := h
  cases act with
  | fresh c H addable =>
    refine ⟨⟨fun hn => closed.fresh (Nat.le_of_succ_le hn), ?_, closed.env⟩, .of_subst_eq rfl⟩
    rintro v (rfl | hv) n hn
    · -- A variable that has just been handed out is not bound.
      have unbound : c.nextVar ∉ c.subst.keys := fun bound => Nat.lt_irrefl _ (h.keys bound)
      rw [Context.apply, Subst.apply_unbound (Subst.find?_eq_none_iff.mpr unbound)] at hn
      rw [Finset.mem_singleton.mp hn]
      exact closed.fresh le_rfl
    · exact closed.held hv n hn
  | @see c H t ht =>
    refine ⟨{ closed with held := ?_ }, .refl K c⟩
    rintro v (hv | hv)
    · exact closed.held hv
    · exact (h.within_apply (closed.over ht)).of_mem hv
  | @use c H entry he =>
    refine ⟨{ closed with held := ?_ }, .refl K c⟩
    rintro v (hv | hv)
    · exact closed.held hv
    · exact closed.env he hv
  | commit ha hb found =>
    have stays := h.stays_committed ha hb found closed
    exact ⟨⟨closed.fresh, fun hv => stays.within (closed.held hv),
      fun he _ hv => stays.within (closed.env he hv)⟩, stays⟩
  | @scope c H env new =>
    refine ⟨⟨closed.fresh, closed.held, ?_⟩, .of_subst_eq rfl⟩
    intro entry he v hv
    rcases new _ he with he | ⟨overH, _⟩
    · exact closed.env he hv
    · exact closed.held (overH v hv.1)
  | report c H pos => exact ⟨{ closed with }, .of_subst_eq rfl⟩

/-! ## Whole runs -/

namespace Reach

variable {x y : Context × Set Var}

theorem held_subset (run : Reach x y) : x.2 ⊆ y.2 := by
  induction run with
  | refl => exact subset_rfl
  | tail _ act ih => exact ih.trans act.held_subset

theorem next_le (run : Reach x y) : x.1.nextVar ≤ y.1.nextVar := by
  induction run with
  | refl => exact le_rfl
  | tail _ act ih => exact ih.trans act.next_le

theorem reports (run : Reach x y) : Reports Problem.Conflicts x.1 y.1 := by
  induction run with
  | refl => exact .of_eq rfl
  | tail _ act ih => exact ih.trans act.reports

theorem sane (run : Reach x y) (h : Sane x.1 x.2) : Sane y.1 y.2 := by
  induction run with
  | refl => exact h
  | tail _ act ih => exact act.sane ih

theorem solves (run : Reach x y) (h : Sane x.1 x.2) (solved : Solves θ y.1.subst) :
    Solves θ x.1.subst := by
  induction run with
  | refl => exact solved
  | tail run act ih => exact ih (act.solves (Reach.sane run h) solved)

theorem closed (run : Reach x y) (h : Sane x.1 x.2) (closed : Closed K x.1 x.2) :
    Closed K y.1 y.2 ∧ Stays K x.1 y.1 := by
  induction run with
  | refl => exact ⟨closed, .refl K _⟩
  | tail run act ih =>
    obtain ⟨closed', stays'⟩ := act.closed (Reach.sane run h) ih.1
    exact ⟨closed', ih.2.trans stays'⟩

end Reach

/-! ## Quantified variables -/

/-- Quantified variables are not bound, and what is at hand or free in the environment does not lead
to them. -/
def Hygienic (c : Context) (H : Set Var) : Prop :=
  ∀ entry ∈ c.env.entries, ∀ q ∈ entry.2.vars,
    q.id ∉ c.subst.keys ∧ Closed {n | n ≠ q.id} c H

structure Good (c : Context) (H : Set Var) : Prop where
  sane : Sane c H
  hygienic : Hygienic c H

theorem Good.mono (h : Good c H) (sub : H' ⊆ H) : Good c H' := by
  obtain ⟨⟨k, regular⟩, hygienic⟩ := h
  refine ⟨⟨k, regular.mono sub⟩, fun entry he q hq => ?_⟩
  obtain ⟨unbound, closed⟩ := hygienic entry he q hq
  exact ⟨unbound, closed.mono sub⟩

/-- A run that leaves the environment as it was keeps its schemes apart from all else. -/
theorem Reach.good (run : Reach (c, H) (c', H')) (h : Good c H) (env : c'.env = c.env) :
    Good c' H' := by
  refine ⟨run.sane h.sane, fun entry he q hq => ?_⟩
  rw [env] at he
  obtain ⟨unbound, closed⟩ := h.hygienic entry he q hq
  obtain ⟨closed', stays⟩ := run.closed h.sane closed
  refine ⟨fun bound => ?_, closed'⟩
  rcases stays.keys bound with old | new
  · exact unbound old
  · exact new rfl

end Polytype
