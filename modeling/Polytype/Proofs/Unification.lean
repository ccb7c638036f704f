import Polytype.Proofs.Equivalence

/-!
# What unification finds

A substitution found by `unify` makes the two types equivalent, binds variables of theirs to types
over the others, and leaves no bound variable in what it gives (`unify_equates`). It also keeps to
the flags of variables: an addable one becomes a number, a string or an addable variable
(`unify_respects`).

Both are proved along the levels of unification. `Level` lists the ways in which one level can
succeed, and `unify_induction` carries a property from the parts to the whole.
-/

namespace Polytype

namespace Subst

/-! ## Composing idempotent substitutions -/

/-- Bound variables of `older` are not in the way of `newer`. -/
def Apart (older newer : Subst) : Prop :=
  ∀ v t, newer.find? v = some t → Disjoint t.ids older.keys

theorem apply_congr (s : Subst) {a b : Ty} (h : Ty.EquivBy Var.id a b) :
    Ty.EquivBy Var.id (s.apply a) (s.apply b) := by
  refine h.bind fun v w same => ?_
  cases n : s.size with
  | zero => exact .var same
  | succ n =>
    rw [chase, chase, s.find?_congr (Var.same_iff.mpr same)]
    split
    · exact .refl _
    · exact .var same

theorem Idempotent.disjoint_apply {s : Subst} (h : s.Idempotent) (t : Ty) :
    Disjoint (s.apply t).ids s.keys := by
  refine Finset.disjoint_left.mpr fun n mem bound => ?_
  rcases h.ids_apply mem with ⟨_, unbound⟩ | ⟨v, u, _, found, mem⟩
  · exact unbound bound
  · exact Finset.disjoint_left.mp (h v u found) mem bound

theorem find?_compose_of_apart {older newer : Subst} (apart : older.Apart newer) (v : Var) :
    (older.compose newer).find? v = ((older.find? v).map newer.apply).or (newer.find? v) := by
  rw [find?_compose]
  cases new : newer.find? v with
  | none => rfl
  | some t => rw [Option.map_some, apply_disjoint (apart v t new)]

theorem Idempotent.compose {older newer : Subst} (ho : older.Idempotent) (hn : newer.Idempotent)
    (apart : older.Apart newer) : (older.compose newer).Idempotent := by
  intro v t found
  rw [find?_compose_of_apart apart] at found
  rw [keys_compose, Finset.disjoint_union_right]
  cases old : older.find? v with
  | none =>
    rw [old] at found
    exact ⟨apart v t found, hn v t found⟩
  | some u =>
    rw [old] at found
    obtain rfl : newer.apply u = t := by simpa using found
    refine ⟨Finset.disjoint_left.mpr fun n mem bound => ?_, hn.disjoint_apply u⟩
    rcases hn.ids_apply mem with ⟨mem, _⟩ | ⟨w, x, _, found, mem⟩
    · exact Finset.disjoint_left.mp (ho v u old) mem bound
    · exact Finset.disjoint_left.mp (apart w x found) mem bound

theorem apply_compose {older newer : Subst} (ho : older.Idempotent) (hn : newer.Idempotent)
    (apart : older.Apart newer) (t : Ty) :
    (older.compose newer).apply t = newer.apply (older.apply t) := by
  rw [(ho.compose hn apart).apply_eq, ho.apply_eq, hn.apply_eq, Ty.bind_bind]
  refine Ty.bind_congr t fun v _ => ?_
  rw [image, find?_compose_of_apart apart, image]
  cases older.find? v with
  | none => rfl
  | some u => exact hn.apply_eq u

end Subst

/-! ## One level -/

namespace Ty

/-- What an addable variable may stand for. -/
def IsAddable (t : Ty) : Prop := t = .number ∨ t = .string ∨ ∃ v, t = .var v ∧ v.addable = true

end Ty

namespace Unify

/-- The ways in which one level of unification succeeds. `unify` settles the parts. -/
inductive Level (unify : Ty → Ty → Outcome) : Ty → Ty → Subst → Prop
  | same {v w : Var} (h : v.id = w.id) : Level unify (.var v) (.var w) .empty
  | prim (p : Prim) : Level unify (.prim p) (.prim p) .empty
  | bind {v : Var} {t : Ty} (free : v.id ∉ t.ids) (fits : v.addable = true → t.IsAddable) :
      Level unify (.var v) t (.single v t)
  | fixpoint {v : Var} {h t : Ty} {rest : Subst} (plain : v.addable = false) (free : v.id ∉ h.ids)
      (found : unify (.list h) ((Subst.single v (.list h)).apply (.pair h t)) = .ok rest) :
      Level unify (.var v) (.pair h t) ((Subst.single v (.list h)).compose rest)
  | func {ps qs : List Ty} {r s : Ty} {u : Subst} (arity : ps.length = qs.length)
      (found : rows unify .empty (ps ++ [r]) (qs ++ [s]) = .ok u) :
      Level unify (.func ps r) (.func qs s) u
  | pair {h t i u : Ty} {s : Subst} (found : rows unify .empty [h, t] [i, u] = .ok s) :
      Level unify (.pair h t) (.pair i u) s
  | list {e f : Ty} {s : Subst} (found : unify e f = .ok s) : Level unify (.list e) (.list f) s
  | listPair {e h t : Ty} {s : Subst} (found : rows unify .empty [e, .list e] [h, t] = .ok s) :
      Level unify (.list e) (.pair h t) s
  | swap {a b : Ty} {s : Subst} (h : Level unify a b s) : Level unify b a s

variable {unify : Ty → Ty → Outcome} {a b : Ty} {s : Subst}

theorem level_of_bindVars {v w : Var} (h : bindVars v w = .ok s) :
    Level unify (.var v) (.var w) s := by
  unfold bindVars at h
  split at h
  next same =>
    cases h
    exact .same (Var.same_iff.mp same)
  next differ =>
    rw [Var.same_iff] at differ
    split at h
    next flags =>
      cases h
      rw [Bool.and_eq_true, Bool.not_eq_true'] at flags
      refine .swap (.bind (by simpa using fun e => differ e.symm) fun addable => ?_)
      rw [flags.2] at addable
      cases addable
    next flags =>
      cases h
      refine .bind (by simpa using differ) fun addable => .inr (.inr ⟨w, rfl, ?_⟩)
      simpa [addable] using flags

theorem level_of_bindVar {v : Var} {t : Ty} (h : bindVar unify v t = .ok s) :
    Level unify (.var v) t s := by
  unfold bindVar at h
  split at h
  · split at h
    next p =>
      split at h
      next fits =>
        cases h
        refine .bind (by simp) fun _ => ?_
        cases p <;> simp [Prim.isAddable, Ty.IsAddable] at fits ⊢
      next => cases h
    next => cases h
  next plain =>
    split at h
    next free =>
      cases h
      refine .bind ?_ fun addable => absurd addable plain
      rw [← Ty.mentions_iff]
      simpa using free
    next =>
      split at h
      next i u =>
        split at h
        next => cases h
        next free =>
          unfold Unify.fixpoint at h
          simp only at h
          split at h
          next rest found =>
            cases h
            exact .fixpoint (by simpa using plain) (by rwa [← Ty.mentions_iff]) found
          next => cases h
      next => cases h

theorem level_of_step (h : step unify a b = .ok s) : Level unify a b s := by
  unfold step at h
  split at h
  · exact level_of_bindVars h
  · exact level_of_bindVar h
  · exact (level_of_bindVar h).swap
  · split at h
    next same =>
      cases h
      rw [beq_iff_eq.mp same]
      exact .prim _
    next => cases h
  · split at h
    next arity => exact .func (beq_iff_eq.mp arity) h
    next => cases h
  · exact .pair h
  · exact .list h
  · exact .listPair h
  · exact (Level.listPair h).swap
  · cases h

theorem unify_bounded : Bounded Polytype.unify := within_bounded _

/-- A property of all parts that have been unified carries over to the whole. -/
theorem unify_induction {P : Ty → Ty → Subst → Prop}
    (level : ∀ (unify : Ty → Ty → Outcome) (a b : Ty) (s : Subst), Bounded unify →
      (∀ {a b : Ty} {s : Subst}, unify a b = .ok s → P a b s) → Level unify a b s → P a b s)
    (found : Polytype.unify a b = .ok s) : P a b s := by
  suffices go : ∀ (n : Nat) {a b : Ty} {s : Subst}, within n a b = .ok s → P a b s from go _ found
  intro n
  induction n with
  | zero => exact fun h => by cases h
  | succ n ih => exact fun h => level _ _ _ _ (within_bounded n) ih (level_of_step h)

theorem apart_of_found (hu : Bounded unify) (hs : s.Idempotent) {l r : Ty} {f : Subst}
    (found : unify (s.apply l) (s.apply r) = .ok f) : s.Apart f := by
  intro v t bound
  have range := (hu found).range bound
  refine Finset.disjoint_left.mpr fun n mem => ?_
  rcases Finset.mem_union.mp (Finset.mem_sdiff.mp (range mem)).1 with mem | mem
  · exact Finset.disjoint_left.mp (hs.disjoint_apply l) mem
  · exact Finset.disjoint_left.mp (hs.disjoint_apply r) mem

theorem idempotent_compose_found (hu : Bounded unify) (hs : s.Idempotent) {l r : Ty} {f : Subst}
    (found : unify (s.apply l) (s.apply r) = .ok f) : (s.compose f).Idempotent :=
  hs.compose (hu found).idempotent (apart_of_found hu hs found)

theorem apply_compose_found (hu : Bounded unify) (hs : s.Idempotent) {l r : Ty} {f : Subst}
    (found : unify (s.apply l) (s.apply r) = .ok f) (t : Ty) :
    (s.compose f).apply t = f.apply (s.apply t) :=
  Subst.apply_compose hs (hu found).idempotent (apart_of_found hu hs found) t

/-! ## Unifiers -/

/-- `s` makes the two types equivalent. -/
def Unifies (s : Subst) (a b : Ty) : Prop := Ty.EquivBy Var.id (s.apply a) (s.apply b)

theorem idempotent_empty : Subst.empty.Idempotent := fun _ _ found => by cases found

theorem idempotent_single {v : Var} {t : Ty} (free : v.id ∉ t.ids) :
    (Subst.single v t).Idempotent := by
  intro w u found
  rw [Subst.find?_single] at found
  split at found
  · cases found
    simpa using free
  · cases found

theorem apply_single_self {v : Var} {t : Ty} (free : v.id ∉ t.ids) :
    (Subst.single v t).apply (.var v) = t := by
  rw [(idempotent_single free).apply_eq, Ty.bind, Subst.image, Subst.find?_single, Var.same_self]
  rfl

theorem found_under_first {v : Var} {h t : Ty} {rest : Subst} (free : v.id ∉ h.ids)
    (found : unify (.list h) ((Subst.single v (.list h)).apply (.pair h t)) = .ok rest) :
    unify ((Subst.single v (.list h)).apply (.list h))
      ((Subst.single v (.list h)).apply (.pair h t)) = .ok rest := by
  -- The fixpoint unifies two types under its first binding, like every other step.
  rwa [list_first free]

theorem rows_unifies (hb : Bounded unify)
    (hu : ∀ {a b : Ty} {s : Subst}, unify a b = .ok s → Unifies s a b) :
    ∀ {ls rs : List Ty} {s s' : Subst}, s.Idempotent → rows unify s ls rs = .ok s' →
      (∀ p ∈ ls.zip rs, Unifies s' p.1 p.2) ∧ ∀ {a b : Ty}, Unifies s a b → Unifies s' a b
  | [], _, s, s', _, eq => by
    simp only [rows] at eq
    cases eq
    simp
  | _ :: _, [], s, s', _, eq => by
    simp only [rows] at eq
    cases eq
    simp
  | l :: ls, r :: rs, s, s', hs, eq => by
    rw [rows] at eq
    cases found : unify (s.apply l) (s.apply r) with
    | error e =>
      rw [found] at eq
      cases eq
    | ok f =>
      rw [found] at eq
      obtain ⟨rest, kept⟩ := rows_unifies hb hu (idempotent_compose_found hb hs found) eq
      have step {a b : Ty} (h : Ty.EquivBy Var.id (f.apply (s.apply a)) (f.apply (s.apply b))) :
          Unifies s' a b := by
        refine kept ?_
        rwa [Unifies, apply_compose_found hb hs found, apply_compose_found hb hs found]
      refine ⟨?_, fun h => step (f.apply_congr h)⟩
      intro p hp
      rw [List.zip_cons_cons, List.mem_cons] at hp
      rcases hp with rfl | hp
      · exact step (hu found)
      · exact rest p hp

theorem level_unifies (hb : Bounded unify)
    (hu : ∀ {a b : Ty} {s : Subst}, unify a b = .ok s → Unifies s a b) (h : Level unify a b s) :
    Unifies s a b := by
  induction h with
  | same h =>
    rw [Unifies, Subst.apply_empty, Subst.apply_empty]
    exact .var h
  | prim p => exact .refl _
  | bind free _ =>
    rw [Unifies, apply_single_self free, Subst.apply_disjoint (by simpa using free)]
    exact .refl _
  | @fixpoint v h t rest _ free found =>
    have free' : v.id ∉ (Ty.list h).ids := free
    have compose := apply_compose_found hb (idempotent_single free') (found_under_first free found)
    rw [Unifies, compose, compose, apply_single_self free']
    exact hu found
  | @func ps qs r s u arity found =>
    obtain ⟨parts, _⟩ := rows_unifies hb hu idempotent_empty found
    rw [Unifies, Subst.apply_func, Subst.apply_func]
    rw [List.zip_append arity] at parts
    refine .func ?_ (parts (r, s) (by simp))
    rw [List.forall₂_map_left_iff, List.forall₂_map_right_iff, List.forall₂_iff_zip]
    exact ⟨arity, fun mem => parts _ (List.mem_append_left _ mem)⟩
  | @pair h t i u s found =>
    obtain ⟨parts, _⟩ := rows_unifies hb hu idempotent_empty found
    exact .pair (parts (h, i) (by simp)) (parts (t, u) (by simp))
  | list found => exact (hu found).element
  | @listPair e h t s found =>
    obtain ⟨parts, _⟩ := rows_unifies hb hu idempotent_empty found
    exact (Ty.EquivBy.fold _).trans (.pair (parts (e, h) (by simp)) (parts (.list e, t) (by simp)))
  | swap _ ih => exact ih.symm

theorem unify_unifies {a b : Ty} {s : Subst} (found : Polytype.unify a b = .ok s) : Unifies s a b :=
  unify_induction (P := fun a b s => Unifies s a b) (fun _ _ _ _ => level_unifies) found

/-! ## Flags -/

end Unify

namespace Subst

theorem mem_domain_insert {s : Subst} {v w : Var} {t : Ty} (hw : w ∈ (s.insert v t).domain) :
    w = v ∨ w ∈ s.domain := by
  obtain ⟨entries⟩ := s
  simp only [domain, insert] at hw ⊢
  induction entries with
  | nil => simpa [insertEntry] using hw
  | cons entry rest ih =>
    obtain ⟨u, r⟩ := entry
    unfold insertEntry at hw
    split at hw
    · simpa using hw
    · split at hw
      · exact .inr hw
      · rw [List.map_cons, List.mem_cons] at hw ⊢
        rcases hw with rfl | hw
        · exact .inr (.inl rfl)
        · exact (ih hw).imp_right .inr

theorem mem_domain_compose {older newer : Subst} {v : Var}
    (hv : v ∈ (older.compose newer).domain) : v ∈ older.domain ∨ v ∈ newer.domain := by
  have mapped : (older.mapTypes newer.apply).domain = older.domain := by
    simp [domain, mapTypes, Function.comp_def]
  rw [← mapped]
  unfold compose at hv
  revert hv
  generalize older.mapTypes newer.apply = s
  rw [show newer.domain = newer.entries.map (·.1) from rfl]
  induction newer.entries generalizing s with
  | nil => exact .inl
  | cons entry rest ih =>
    obtain ⟨w, t⟩ := entry
    intro hv
    rw [List.foldl_cons] at hv
    rw [List.map_cons, List.mem_cons]
    rcases ih _ hv with hv | hv
    · dsimp only at hv
      split at hv
      · exact .inl hv
      · rcases mem_domain_insert hv with rfl | hv
        · exact .inr (.inl rfl)
        · exact .inl hv
    · exact .inr (.inr hv)

/-- Bound variables and types of `s` have the flags of `k`, and the types of addable variables are
addable. -/
structure Respects (k : Nat → Bool) (s : Subst) : Prop where
  domain {v : Var} (hv : v ∈ s.domain) : v.addable = k v.id
  kinded {v : Var} {t : Ty} (found : s.find? v = some t) : t.Kinded k
  addable {v : Var} {t : Ty} (found : s.find? v = some t) (h : k v.id = true) : t.IsAddable

namespace Respects

variable {k : Nat → Bool} {s : Subst}

theorem empty : Respects k .empty where
  domain hv := by cases hv
  kinded found := by cases found
  addable found := by cases found

theorem image (h : s.Respects k) {v : Var} (hv : v.addable = k v.id) : (s.image v).Kinded k := by
  cases found : s.find? v with
  | none => simpa [Subst.image, found] using hv
  | some t => simpa [Subst.image, found] using h.kinded found

theorem apply (h : s.Respects k) (hs : s.Idempotent) {t : Ty} (ht : t.Kinded k) :
    (s.apply t).Kinded k := by
  rw [hs.apply_eq]
  exact .bind fun v hv => h.image (ht v hv)

theorem isAddable_apply (h : s.Respects k) (hs : s.Idempotent) {t : Ty} (ht : t.Kinded k)
    (add : t.IsAddable) : (s.apply t).IsAddable := by
  rcases add with rfl | rfl | ⟨v, rfl, addable⟩
  · exact .inl rfl
  · exact .inr (.inl rfl)
  · rw [Ty.kinded_var, addable] at ht
    rw [hs.apply_eq, Ty.bind, Subst.image]
    cases found : s.find? v with
    | none => exact .inr (.inr ⟨v, rfl, addable⟩)
    | some u => exact h.addable found ht.symm

theorem compose {f : Subst} (h : s.Respects k) (hf : f.Respects k) (idem : f.Idempotent)
    (apart : s.Apart f) : (s.compose f).Respects k := by
  have split {v : Var} {t : Ty} (found : (s.compose f).find? v = some t) :
      (∃ u, s.find? v = some u ∧ f.apply u = t) ∨ f.find? v = some t := by
    rw [find?_compose_of_apart apart] at found
    cases old : s.find? v with
    | none => exact .inr (by simpa [old] using found)
    | some u => exact .inl ⟨u, rfl, by simpa [old] using found⟩
  constructor
  · intro v hv
    rcases mem_domain_compose hv with hv | hv
    · exact h.domain hv
    · exact hf.domain hv
  · intro v t found
    rcases split found with ⟨u, old, rfl⟩ | new
    · exact hf.apply idem (h.kinded old)
    · exact hf.kinded new
  · intro v t found addable
    rcases split found with ⟨u, old, rfl⟩ | new
    · exact hf.isAddable_apply idem (h.kinded old) (h.addable old addable)
    · exact hf.addable new addable

end Respects

end Subst

namespace Unify

variable {unify : Ty → Ty → Outcome} {a b : Ty} {s : Subst} {k : Nat → Bool}

theorem respects_single {v : Var} {t : Ty} (hv : v.addable = k v.id) (ht : t.Kinded k)
    (fits : v.addable = true → t.IsAddable) : (Subst.single v t).Respects k := by
  have bound {w : Var} {u : Ty} (found : (Subst.single v t).find? w = some u) :
      v.id = w.id ∧ t = u := by
    rw [Subst.find?_single] at found
    split at found
    next same => exact ⟨Var.same_iff.mp same, by simpa using found⟩
    next => cases found
  constructor
  · intro w hw
    obtain rfl : w = v := by simpa [Subst.single, Subst.domain] using hw
    exact hv
  · intro w u found
    rw [← (bound found).2]
    exact ht
  · intro w u found addable
    rw [← (bound found).2]
    rw [← (bound found).1, ← hv] at addable
    exact fits addable

theorem rows_invariant {D : Ty → Prop} {S : Subst → Prop} (hb : Bounded unify)
    (hu : ∀ {a b : Ty} {s : Subst}, unify a b = .ok s → D a → D b → S s)
    (apply : ∀ {s : Subst} {t : Ty}, s.Idempotent → S s → D t → D (s.apply t))
    (compose : ∀ {s f : Subst}, S s → S f → f.Idempotent → s.Apart f → S (s.compose f)) :
    ∀ {ls rs : List Ty} {s s' : Subst}, s.Idempotent → S s → (∀ l ∈ ls, D l) → (∀ r ∈ rs, D r) →
      rows unify s ls rs = .ok s' → S s'
  | [], _, s, s', _, h, _, _, eq => by
    simp only [rows] at eq
    cases eq
    exact h
  | _ :: _, [], s, s', _, h, _, _, eq => by
    simp only [rows] at eq
    cases eq
    exact h
  | l :: ls, r :: rs, s, s', hs, h, hl, hr, eq => by
    rw [rows] at eq
    cases found : unify (s.apply l) (s.apply r) with
    | error e =>
      rw [found] at eq
      cases eq
    | ok f =>
      rw [found] at eq
      have hf : S f := hu found (apply hs h (hl l List.mem_cons_self))
        (apply hs h (hr r List.mem_cons_self))
      exact rows_invariant hb hu apply compose (idempotent_compose_found hb hs found)
        (compose h hf (hb found).idempotent (apart_of_found hb hs found))
        (fun x hx => hl x (List.mem_cons_of_mem _ hx))
        (fun x hx => hr x (List.mem_cons_of_mem _ hx)) eq

theorem rows_respects (hb : Bounded unify) (hu : ∀ {a b : Ty} {s : Subst}, unify a b = .ok s →
      a.Kinded k → b.Kinded k → s.Respects k) {ls rs : List Ty} (hl : ∀ l ∈ ls, l.Kinded k)
    (hr : ∀ r ∈ rs, r.Kinded k) (found : rows unify .empty ls rs = .ok s) : s.Respects k :=
  rows_invariant hb hu (fun hs h ht => h.apply hs ht) (fun h hf idem apart => h.compose hf idem apart)
    idempotent_empty .empty hl hr found

theorem level_respects (hb : Bounded unify) (hu : ∀ {a b : Ty} {s : Subst}, unify a b = .ok s →
      a.Kinded k → b.Kinded k → s.Respects k) (h : Level unify a b s) (ha : a.Kinded k)
    (hb' : b.Kinded k) : s.Respects k := by
  induction h with
  | same _ => exact .empty
  | prim _ => exact .empty
  | bind _ fits => exact respects_single (Ty.kinded_var.mp ha) hb' fits
  | @fixpoint v h t rest plain free found =>
    have single := idempotent_single (show v.id ∉ (Ty.list h).ids from free)
    have list : (Ty.list h).Kinded k := (Ty.kinded_pair.mp hb').1
    have first : (Subst.single v (.list h)).Respects k :=
      respects_single (Ty.kinded_var.mp ha) list fun addable => by
        rw [plain] at addable
        cases addable
    exact first.compose (hu found list (first.apply single hb')) (hb found).idempotent
      (apart_of_found hb single (found_under_first free found))
  | func _ found =>
    rw [Ty.kinded_func] at ha hb'
    refine rows_respects hb hu ?_ ?_ found
    · simpa [or_imp, forall_and] using ha
    · simpa [or_imp, forall_and] using hb'
  | pair found =>
    exact rows_respects hb hu (by simpa using ha) (by simpa using hb') found
  | list found => exact hu found ha hb'
  | listPair found =>
    refine rows_respects hb hu ?_ (by simpa using hb') found
    simpa using ha
  | swap _ ih => exact ih hb' ha

end Unify

theorem unify_respects {k : Nat → Bool} {a b : Ty} {s : Subst} (ha : a.Kinded k) (hb : b.Kinded k)
    (found : unify a b = .ok s) : s.Respects k := by
  refine Unify.unify_induction (P := fun a b s => a.Kinded k → b.Kinded k → s.Respects k) ?_ found
    ha hb
  exact fun _ _ _ _ => Unify.level_respects

/-- What unification finds makes the two types equivalent, is about their variables alone, and has
no bound variable in its types. -/
theorem unify_equates {a b : Ty} {s : Subst} (found : unify a b = .ok s) :
    Ty.EquivBy Var.id (s.apply a) (s.apply b) ∧
      (∀ v t, s.find? v = some t → v.id ∈ a.ids ∪ b.ids ∧ t.ids ⊆ a.ids ∪ b.ids) ∧
      (∀ v w t, s.binds v = true → s.find? w = some t → v.id ∉ t.ids) ∧
      ∀ t, s.apply (s.apply t) = s.apply t := by
  have solved := Unify.unify_bounded found
  refine ⟨?_, fun v t bound => ⟨?_, ?_⟩, ?_, ?_⟩
  · exact Unify.unify_unifies found
  · exact solved.keys (Subst.find?_isSome_iff.mp (by rw [bound]; rfl))
  · exact (solved.range bound).trans Finset.sdiff_subset
  · intro v w t bound given mem
    exact Finset.disjoint_left.mp (solved.idempotent w t given) mem (Subst.binds_iff.mp bound)
  · exact fun t => Subst.apply_disjoint (solved.idempotent.disjoint_apply t)

/-- A variable and a pair that ends in it. -/
theorem unify_equates_list : ∃ s, unify (.var (.plain 0)) (.pair .number (.var (.plain 0))) = .ok s ∧
    Ty.EquivBy Var.id (s.apply (.var (.plain 0))) (s.apply (.pair .number (.var (.plain 0)))) :=
  ⟨_, rfl, (unify_equates rfl).1⟩

end Polytype
