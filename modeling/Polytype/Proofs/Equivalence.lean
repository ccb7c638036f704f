import Mathlib.Data.Countable.Basic
import Mathlib.Data.List.Forall2
import Polytype.Unify.Levels

/-!
# Types up to list folding

A list of `e` and a pair of `e` and that list are one type. `EquivBy key` is the least congruence that
says so, with two variables counting as one if `key` gives the same for both: their numbers
(`Var.id`), or the variables with their flags (`id`, which is `Equiv`).

The congruence has canonical forms (`canon_eq_iff`), since `foldLists` finds every list. They give
the inversion lemmas, one for each pair of type formers, and the two facts about a variable that is
equivalent to a type around it: it does not stand below a function, a list or a head
(`EquivBy.not_mem_of_func` and the like), and at the end of a pair it is the list of the head
(`EquivBy.list_of_pair`).
-/

namespace Polytype

theorem Var.eq_of_flags {k : Nat → Bool} {v w : Var} (hv : v.addable = k v.id)
    (hw : w.addable = k w.id) (same : v.id = w.id) : v = w := by
  obtain ⟨i, x⟩ := v
  obtain ⟨j, y⟩ := w
  simp_all

namespace Ty

/-- Induction over types, with one hypothesis for all the parameters of a function. -/
@[elab_as_elim]
theorem ind {motive : Ty → Prop} (var : ∀ v, motive (.var v)) (prim : ∀ p, motive (.prim p))
    (func : ∀ ps r, (∀ p ∈ ps, motive p) → motive r → motive (.func ps r))
    (pair : ∀ h t, motive h → motive t → motive (.pair h t))
    (list : ∀ e, motive e → motive (.list e)) (t : Ty) : motive t :=
  @Ty.rec motive (fun ts => ∀ t ∈ ts, motive t) var prim func pair list
    (fun _ mem => absurd mem List.not_mem_nil)
    (fun _ _ first rest => List.forall_mem_cons.mpr ⟨first, rest⟩) t

@[simp] theorem foldListsAll_eq (ts : List Ty) : foldListsAll ts = ts.map foldLists := by
  induction ts with
  | nil => rfl
  | cons t ts ih => rw [foldListsAll, ih, List.map_cons]

theorem mem_vars_func {v : Var} {ps : List Ty} {r : Ty} :
    v ∈ (Ty.func ps r).vars ↔ (∃ p ∈ ps, v ∈ p.vars) ∨ v ∈ r.vars := by
  rw [vars, varsAll_eq, List.mem_append, List.mem_flatMap]

theorem mem_vars_pair {v : Var} {h t : Ty} : v ∈ (Ty.pair h t).vars ↔ v ∈ h.vars ∨ v ∈ t.vars := by
  rw [vars, List.mem_append]

/-! ## Flags -/

/-- Every variable has the flag that `k` gives its number. -/
def Kinded (k : Nat → Bool) (t : Ty) : Prop := ∀ v ∈ t.vars, v.addable = k v.id

section Kinded

variable {k : Nat → Bool}

@[simp] theorem kinded_var {v : Var} : (Ty.var v).Kinded k ↔ v.addable = k v.id := by
  simp [Kinded, vars]

@[simp] theorem kinded_prim (p : Prim) : (Ty.prim p).Kinded k := by simp [Kinded, vars]

@[simp] theorem kinded_func {ps : List Ty} {r : Ty} :
    (Ty.func ps r).Kinded k ↔ (∀ p ∈ ps, p.Kinded k) ∧ r.Kinded k := by
  unfold Kinded
  simp only [mem_vars_func]
  constructor
  · intro h
    exact ⟨fun p hp v hv => h v (.inl ⟨p, hp, hv⟩), fun v hv => h v (.inr hv)⟩
  · rintro ⟨hps, hr⟩ v (⟨p, hp, hv⟩ | hv)
    · exact hps p hp v hv
    · exact hr v hv

@[simp] theorem kinded_pair {h t : Ty} : (Ty.pair h t).Kinded k ↔ h.Kinded k ∧ t.Kinded k := by
  unfold Kinded
  simp only [mem_vars_pair, or_imp, forall_and]

@[simp] theorem kinded_list {e : Ty} : (Ty.list e).Kinded k ↔ e.Kinded k := Iff.rfl

theorem Kinded.bind {f : Var → Ty} {t : Ty} (h : ∀ v ∈ t.vars, (f v).Kinded k) :
    (t.bind f).Kinded k := by
  intro w hw
  rw [vars_bind, List.mem_flatMap] at hw
  obtain ⟨v, hv, hw⟩ := hw
  exact h v hv w hw

mutual
theorem eq_of_same : (a b : Ty) → a.same b = true → a.Kinded k → b.Kinded k → a = b
  | .var v, .var w, h, ha, hb => by
    rw [same, Var.same_iff] at h
    rw [Var.eq_of_flags (kinded_var.mp ha) (kinded_var.mp hb) h]
  | .prim p, .prim q, h, _, _ => by
    rw [same, beq_iff_eq] at h
    rw [h]
  | .func ps r, .func qs s, h, ha, hb => by
    rw [same, Bool.and_eq_true] at h
    rw [kinded_func] at ha hb
    rw [eq_of_sameAll ps qs h.1 ha.1 hb.1, eq_of_same r s h.2 ha.2 hb.2]
  | .pair i t, .pair j u, h, ha, hb => by
    rw [same, Bool.and_eq_true] at h
    rw [kinded_pair] at ha hb
    rw [eq_of_same i j h.1 ha.1 hb.1, eq_of_same t u h.2 ha.2 hb.2]
  | .list e, .list f, h, ha, hb => by
    rw [same] at h
    rw [eq_of_same e f h ha hb]

theorem eq_of_sameAll : (as bs : List Ty) → sameAll as bs = true →
    (∀ a ∈ as, a.Kinded k) → (∀ b ∈ bs, b.Kinded k) → as = bs
  | [], [], _, _, _ => rfl
  | a :: as, b :: bs, h, ha, hb => by
    rw [sameAll, Bool.and_eq_true] at h
    rw [eq_of_same a b h.1 (ha a List.mem_cons_self) (hb b List.mem_cons_self),
      eq_of_sameAll as bs h.2 (fun x hx => ha x (List.mem_cons_of_mem _ hx))
        (fun x hx => hb x (List.mem_cons_of_mem _ hx))]
end

end Kinded

/-! ## The congruence -/

/-- The least congruence that takes a list for the pair of its element and itself. Variables with
the same `key` count as one. -/
inductive EquivBy {κ : Type} (key : Var → κ) : Ty → Ty → Prop
  | refl (t : Ty) : EquivBy key t t
  | symm {a b : Ty} (h : EquivBy key a b) : EquivBy key b a
  | trans {a b c : Ty} (h : EquivBy key a b) (h' : EquivBy key b c) : EquivBy key a c
  | var {v w : Var} (h : key v = key w) : EquivBy key (.var v) (.var w)
  | fold (e : Ty) : EquivBy key (.list e) (.pair e (.list e))
  | param (before after : List Ty) (r : Ty) {p q : Ty} (h : EquivBy key p q) :
      EquivBy key (.func (before ++ p :: after) r) (.func (before ++ q :: after) r)
  | result (ps : List Ty) {r s : Ty} (h : EquivBy key r s) : EquivBy key (.func ps r) (.func ps s)
  | head {h i : Ty} (t : Ty) (e : EquivBy key h i) : EquivBy key (.pair h t) (.pair i t)
  | tail (h : Ty) {t u : Ty} (e : EquivBy key t u) : EquivBy key (.pair h t) (.pair h u)
  | element {e f : Ty} (h : EquivBy key e f) : EquivBy key (.list e) (.list f)

/-- The congruence on types whose variables are told apart by number and flag. -/
abbrev Equiv : Ty → Ty → Prop := EquivBy id

namespace EquivBy

variable {κ κ' : Type} {key : Var → κ} {key' : Var → κ'} {a b c : Ty}

theorem pair {h t i u : Ty} (hi : EquivBy key h i) (tu : EquivBy key t u) :
    EquivBy key (.pair h t) (.pair i u) := (hi.head t).trans (tu.tail i)

theorem func {ps qs : List Ty} {r s : Ty} (hp : List.Forall₂ (EquivBy key) ps qs)
    (hr : EquivBy key r s) : EquivBy key (.func ps r) (.func qs s) := by
  suffices go : ∀ before : List Ty, EquivBy key (.func (before ++ ps) r) (.func (before ++ qs) s) from
    go []
  induction hp with
  | nil => exact fun before => hr.result _
  | @cons p q ps qs h _ ih =>
    intro before
    have first := EquivBy.param before ps r h
    have rest := ih (before ++ [q])
    rw [List.append_assoc, List.append_assoc] at rest
    exact first.trans rest

theorem bind {f : Var → Ty} (hf : ∀ v w, key v = key w → EquivBy key' (f v) (f w))
    (h : EquivBy key a b) : EquivBy key' (a.bind f) (b.bind f) := by
  induction h with
  | refl t => exact .refl _
  | symm _ ih => exact ih.symm
  | trans _ _ ih ih' => exact ih.trans ih'
  | var h => exact hf _ _ h
  | fold e => exact .fold _
  | param before after r _ ih =>
    simp only [Ty.bind, bindAll_eq, List.map_append, List.map_cons]
    exact ih.param _ _ _
  | result ps _ ih => exact ih.result _
  | head t _ ih => exact ih.head _
  | tail h _ ih => exact ih.tail _
  | element _ ih => exact ih.element

theorem bind_same (h : Equiv a b) (f : Var → Ty) : EquivBy key (a.bind f) (b.bind f) := by
  refine h.bind fun v w same => ?_
  rw [id_eq, id_eq] at same
  rw [same]
  exact .refl _

theorem bind_congr {f g : Var → Ty} (t : Ty) (h : ∀ v ∈ t.vars, EquivBy key (f v) (g v)) :
    EquivBy key (t.bind f) (t.bind g) := by
  induction t using Ty.ind with
  | var v => exact h v (by simp [vars])
  | prim p => exact .refl _
  | func ps r ihps ihr =>
    simp only [mem_vars_func] at h
    simp only [Ty.bind, bindAll_eq]
    refine .func ?_ (ihr fun v hv => h v (.inr hv))
    rw [List.forall₂_map_left_iff, List.forall₂_map_right_iff]
    exact List.forall₂_same.mpr fun p hp => ihps p hp fun v hv => h v (.inl ⟨p, hp, hv⟩)
  | pair i u ihi ihu =>
    simp only [mem_vars_pair] at h
    exact .pair (ihi fun v hv => h v (.inl hv)) (ihu fun v hv => h v (.inr hv))
  | list e ihe => exact (ihe h).element

theorem exact_of_kinded {k : Nat → Bool} (h : EquivBy Var.id a b) (ha : a.Kinded k)
    (hb : b.Kinded k) : Equiv a b := by
  have flagged {t : Ty} (ht : t.Kinded k) : (t.bind fun v => .var ⟨v.id, k v.id⟩) = t := by
    rw [Ty.bind_congr (g := .var) t fun v hv => by rw [← ht v hv], Ty.bind_var]
  have := h.bind (f := fun v => .var ⟨v.id, k v.id⟩) fun v w same =>
    show Equiv (.var ⟨v.id, k v.id⟩) (.var ⟨w.id, k w.id⟩) by rw [same]; exact .refl _
  rwa [flagged ha, flagged hb] at this

theorem mem_vars (h : Equiv a b) {v : Var} : v ∈ a.vars ↔ v ∈ b.vars := by
  induction h with
  | refl t => exact Iff.rfl
  | symm _ ih => exact ih.symm
  | trans _ _ ih ih' => exact ih.trans ih'
  | var h =>
    rw [id_eq, id_eq] at h
    rw [h]
  | fold e => rw [mem_vars_pair, vars, or_self]
  | param before after r _ ih =>
    simp only [mem_vars_func, List.mem_append, List.mem_cons, or_and_right, exists_or,
      exists_eq_left, ih]
  | result ps _ ih => simp only [mem_vars_func, ih]
  | head t _ ih => simp only [mem_vars_pair, ih]
  | tail h _ ih => simp only [mem_vars_pair, ih]
  | element _ ih => simp only [vars, ih]

end EquivBy

/-! ## Folding lists -/

mutual
theorem EquivBy.of_same : (a b : Ty) → a.same b = true → EquivBy Var.id a b
  | .var v, .var w, h => .var (Var.same_iff.mp h)
  | .prim p, .prim q, h => by
    rw [same, beq_iff_eq] at h
    rw [h]
    exact .refl _
  | .func ps r, .func qs s, h => by
    rw [same, Bool.and_eq_true] at h
    exact .func (EquivBy.of_sameAll ps qs h.1) (EquivBy.of_same r s h.2)
  | .pair i t, .pair j u, h => by
    rw [same, Bool.and_eq_true] at h
    exact .pair (EquivBy.of_same i j h.1) (EquivBy.of_same t u h.2)
  | .list e, .list f, h => (EquivBy.of_same e f h).element

theorem EquivBy.of_sameAll : (as bs : List Ty) → sameAll as bs = true →
    List.Forall₂ (EquivBy Var.id) as bs
  | [], [], _ => .nil
  | a :: as, b :: bs, h => by
    rw [sameAll, Bool.and_eq_true] at h
    exact .cons (EquivBy.of_same a b h.1) (EquivBy.of_sameAll as bs h.2)
end

theorem cons_equiv (h t : Ty) : EquivBy Var.id (.pair h t) (cons h t) := by
  unfold cons
  split
  · split
    next e same =>
      have head := EquivBy.of_same e h same
      exact (head.symm.head _).trans (EquivBy.fold e).symm
    next => exact .refl _
  · exact .refl _

theorem foldLists_equiv (t : Ty) : EquivBy Var.id t t.foldLists := by
  induction t using Ty.ind with
  | var v => exact .refl _
  | prim p => exact .refl _
  | func ps r ihps ihr =>
    rw [foldLists, foldListsAll_eq]
    refine .func ?_ ihr
    rw [List.forall₂_map_right_iff]
    exact List.forall₂_same.mpr ihps
  | pair h t ihh iht => exact (ihh.pair iht).trans (cons_equiv _ _)
  | list e ihe => exact ihe.element

theorem mem_vars_cons {v : Var} {h t : Ty} (hv : v ∈ (cons h t).vars) : v ∈ h.vars ∨ v ∈ t.vars := by
  unfold cons at hv
  split at hv
  · split at hv
    · exact .inr hv
    · exact mem_vars_pair.mp hv
  · exact mem_vars_pair.mp hv

theorem mem_vars_foldLists {v : Var} (t : Ty) (hv : v ∈ t.foldLists.vars) : v ∈ t.vars := by
  induction t using Ty.ind with
  | var w => exact hv
  | prim p => exact hv
  | func ps r ihps ihr =>
    rw [foldLists, foldListsAll_eq, mem_vars_func] at hv
    rw [mem_vars_func]
    rcases hv with ⟨q, hq, hv⟩ | hv
    · obtain ⟨p, hp, rfl⟩ := List.mem_map.mp hq
      exact .inl ⟨p, hp, ihps p hp hv⟩
    · exact .inr (ihr hv)
  | pair h t ihh iht =>
    rw [mem_vars_pair]
    exact (mem_vars_cons hv).imp ihh iht
  | list e ihe => exact ihe hv

theorem Kinded.foldLists {k : Nat → Bool} {t : Ty} (h : t.Kinded k) : t.foldLists.Kinded k :=
  fun v hv => h v (mem_vars_foldLists t hv)

theorem cons_cases {k : Nat → Bool} {h t : Ty} (hh : h.Kinded k) (ht : t.Kinded k) :
    t = .list h ∧ cons h t = .list h ∨ t ≠ .list h ∧ cons h t = .pair h t := by
  unfold cons
  split
  next e =>
    split
    next same =>
      obtain rfl : e = h := eq_of_same e h same ht hh
      exact .inl ⟨rfl, rfl⟩
    next differ =>
      refine .inr ⟨?_, rfl⟩
      intro eq
      cases eq
      exact differ (same_self _)
  next not_list => exact .inr ⟨fun eq => not_list h eq, rfl⟩

/-! ## Canonical forms -/

section Canonical

variable {κ : Type} [Countable κ] {key : Var → κ}

/-- A number for each key, different ones for different keys. -/
noncomputable def code (x : κ) : Nat := (exists_injective_nat κ).choose x

theorem code_inj {x y : κ} (h : code x = code y) : x = y := (exists_injective_nat κ).choose_spec h

/-- The variable that stands for all variables with the key of `v`. -/
noncomputable def coded (key : Var → κ) (v : Var) : Ty := .var (.plain (code (key v)))

/-- The form in which all equivalent types are equal. -/
noncomputable def canon (key : Var → κ) (t : Ty) : Ty := (t.bind (coded key)).foldLists

@[simp] theorem canon_var (v : Var) : canon key (.var v) = coded key v := rfl

@[simp] theorem canon_prim (p : Prim) : canon key (.prim p) = .prim p := rfl

@[simp] theorem canon_func (ps : List Ty) (r : Ty) :
    canon key (.func ps r) = .func (ps.map (canon key)) (canon key r) := by
  simp only [canon, bind, bindAll_eq, foldLists, foldListsAll_eq, List.map_map]
  rfl

@[simp] theorem canon_list (e : Ty) : canon key (.list e) = .list (canon key e) := rfl

theorem canon_kinded (key : Var → κ) (t : Ty) : (canon key t).Kinded fun _ => false :=
  Kinded.foldLists (Kinded.bind fun _ _ => kinded_var.mpr rfl)

theorem canon_pair_cases (key : Var → κ) (h t : Ty) :
    canon key t = .list (canon key h) ∧ canon key (.pair h t) = .list (canon key h) ∨
      canon key t ≠ .list (canon key h) ∧
        canon key (.pair h t) = .pair (canon key h) (canon key t) :=
  cons_cases (canon_kinded key h) (canon_kinded key t)

theorem canon_fold (e : Ty) : canon key (.pair e (.list e)) = canon key (.list e) := by
  rcases canon_pair_cases key e (.list e) with ⟨_, eq⟩ | ⟨ne, _⟩
  · exact eq
  · exact absurd rfl ne

theorem canon_congr_pair {h t i u : Ty} (hi : canon key h = canon key i)
    (tu : canon key t = canon key u) : canon key (.pair h t) = canon key (.pair i u) := by
  show cons (canon key h) (canon key t) = cons (canon key i) (canon key u)
  rw [hi, tu]

theorem EquivBy.canon_eq {a b : Ty} (h : EquivBy key a b) : canon key a = canon key b := by
  induction h with
  | refl t => rfl
  | symm _ ih => exact ih.symm
  | trans _ _ ih ih' => exact ih.trans ih'
  | var h => rw [canon_var, canon_var, coded, coded, h]
  | fold e => exact (canon_fold e).symm
  | param before after r _ ih =>
    simp only [canon_func, List.map_append, List.map_cons, ih]
  | result ps _ ih => rw [canon_func, canon_func, ih]
  | head t _ ih => exact canon_congr_pair ih rfl
  | tail h _ ih => exact canon_congr_pair rfl ih
  | element _ ih => rw [canon_list, canon_list, ih]

/-- A variable with the key of the number `n`, if there is one. -/
noncomputable def decoded (key : Var → κ) (v : Var) : Ty :=
  open Classical in
  if h : ∃ w, code (key w) = v.id then .var h.choose else .var (.plain v.id)

theorem coded_decoded (key : Var → κ) (v : Var) : EquivBy key ((coded key v).bind (decoded key)) (.var v) := by
  have found : ∃ w, code (key w) = (Var.plain (code (key v))).id := ⟨v, rfl⟩
  rw [coded, Ty.bind, decoded, dif_pos found]
  exact .var (code_inj found.choose_spec)

theorem canon_eq_iff {a b : Ty} : canon key a = canon key b ↔ EquivBy key a b := by
  refine ⟨fun eq => ?_, EquivBy.canon_eq⟩
  have back (t : Ty) : EquivBy key ((t.bind (coded key)).bind (decoded key)) t := by
    have := EquivBy.bind_congr (g := .var) t fun v _ => coded_decoded key v
    rwa [Ty.bind_var, ← Ty.bind_bind] at this
  have folded : EquivBy Var.id (a.bind (coded key)) (b.bind (coded key)) :=
    (foldLists_equiv _).trans ((show foldLists _ = foldLists _ from eq) ▸ (foldLists_equiv _).symm)
  have decodes (v w : Var) (same : v.id = w.id) :
      EquivBy key (decoded key v) (decoded key w) := by
    rw [decoded, decoded, same]
    exact .refl _
  exact (back a).symm.trans ((folded.bind decodes).trans (back b))

/-! ## Inversion -/

/-- What two equivalent types have in common at the outside. -/
inductive Shape where
  | var
  | prim (p : Prim)
  | func (params : Nat)
  | chain

def shape : Ty → Shape
  | .var _ => .var
  | .prim p => .prim p
  | .func ps _ => .func ps.length
  | .pair _ _ | .list _ => .chain

theorem EquivBy.shape_eq {κ : Type} {key : Var → κ} {a b : Ty} (h : EquivBy key a b) :
    a.shape = b.shape := by
  induction h with
  | symm _ ih => exact ih.symm
  | trans _ _ ih ih' => exact ih.trans ih'
  | param before after r _ _ => simp [shape]
  | _ => rfl

theorem EquivBy.eq_prim {κ : Type} {key : Var → κ} {p : Prim} {t : Ty}
    (h : EquivBy key (.prim p) t) : t = .prim p := by
  have shape := h.shape_eq
  cases t with
  | prim q =>
    injection shape with eq
    rw [eq]
  | _ => cases shape

namespace EquivBy

theorem var_inv {v w : Var} (h : EquivBy key (.var v) (.var w)) : key v = key w := by
  have eq := h.canon_eq
  rw [canon_var, canon_var, coded, coded] at eq
  injection eq with eq
  injection eq with eq
  exact code_inj eq

theorem func_inv {ps qs : List Ty} {r s : Ty} (h : EquivBy key (.func ps r) (.func qs s)) :
    List.Forall₂ (EquivBy key) ps qs ∧ EquivBy key r s := by
  have eq := h.canon_eq
  rw [canon_func, canon_func] at eq
  injection eq with params result
  refine ⟨?_, canon_eq_iff.mp result⟩
  rw [← List.forall₂_eq_eq_eq, List.forall₂_map_left_iff, List.forall₂_map_right_iff] at params
  exact params.imp fun _ _ eq => canon_eq_iff.mp eq

theorem list_inv {e f : Ty} (h : EquivBy key (.list e) (.list f)) : EquivBy key e f := by
  have eq := h.canon_eq
  rw [canon_list, canon_list] at eq
  injection eq with eq
  exact canon_eq_iff.mp eq

theorem list_pair_inv {e h t : Ty} (eqv : EquivBy key (.list e) (.pair h t)) :
    EquivBy key e h ∧ EquivBy key (.list e) t := by
  have eq := eqv.canon_eq
  rcases canon_pair_cases key h t with ⟨tail, pair⟩ | ⟨_, pair⟩
  · rw [pair, canon_list] at eq
    injection eq with head
    refine ⟨canon_eq_iff.mp head, canon_eq_iff.mp ?_⟩
    rw [canon_list, tail, head]
  · rw [pair, canon_list] at eq
    cases eq

theorem pair_inv {h t i u : Ty} (eqv : EquivBy key (.pair h t) (.pair i u)) :
    EquivBy key h i ∧ EquivBy key t u := by
  have eq := eqv.canon_eq
  rcases canon_pair_cases key h t with ⟨tail, pair⟩ | ⟨_, pair⟩ <;>
    rcases canon_pair_cases key i u with ⟨tail', pair'⟩ | ⟨_, pair'⟩ <;>
    rw [pair, pair'] at eq
  · injection eq with head
    exact ⟨canon_eq_iff.mp head, canon_eq_iff.mp (by rw [tail, tail', head])⟩
  · cases eq
  · cases eq
  · injection eq with head tail
    exact ⟨canon_eq_iff.mp head, canon_eq_iff.mp tail⟩

end EquivBy

/-! ## Variables inside an equivalent type -/

theorem depth_le_cons {k : Nat → Bool} {h t : Ty} (hh : h.Kinded k) (ht : t.Kinded k) :
    h.depth < (cons h t).depth ∧ t.depth ≤ (cons h t).depth := by
  rcases cons_cases hh ht with ⟨eq, list⟩ | ⟨_, pair⟩
  · rw [list, eq, depth]
    omega
  · rw [pair, depth]
    omega

theorem depth_canon_le (key : Var → κ) {f : Var → Ty} {v : Var} (t : Ty) (hv : v ∈ t.vars) :
    (canon key (f v)).depth ≤ (canon key (t.bind f)).depth := by
  induction t using Ty.ind with
  | var w =>
    obtain rfl : v = w := by simpa [vars] using hv
    exact le_refl _
  | prim p => simp [vars] at hv
  | func ps r ihps ihr =>
    rw [bind, bindAll_eq, canon_func, depth]
    rcases mem_vars_func.mp hv with ⟨p, hp, hv⟩ | hv
    · have := ihps p hp hv
      have : (canon key (p.bind f)).depth ≤ depthAll ((ps.map (bind f)).map (canon key)) :=
        depth_le_depthAll (List.mem_map_of_mem (List.mem_map_of_mem hp))
      omega
    · have := ihr hv
      omega
  | pair h t ihh iht =>
    have := depth_le_cons (canon_kinded key (h.bind f)) (canon_kinded key (t.bind f))
    show _ ≤ (cons (canon key (h.bind f)) (canon key (t.bind f))).depth
    rcases mem_vars_pair.mp hv with hv | hv
    · have := ihh hv
      omega
    · have := iht hv
      omega
  | list e ihe =>
    have := ihe hv
    rw [bind, canon_list, depth]
    omega

namespace EquivBy

variable {f : Var → Ty} {v : Var}

theorem not_mem_of_func {ps : List Ty} {r : Ty} (h : EquivBy key (f v) ((Ty.func ps r).bind f)) :
    v ∉ (Ty.func ps r).vars := by
  intro hv
  have eq := h.canon_eq
  have deep : (canon key (f v)).depth = (canon key ((Ty.func ps r).bind f)).depth := by rw [eq]
  rw [Ty.bind, bindAll_eq, canon_func, depth] at deep
  rcases mem_vars_func.mp hv with ⟨p, hp, hv⟩ | hv
  · have := depth_canon_le key (f := f) p hv
    have : (canon key (p.bind f)).depth ≤ depthAll ((ps.map (Ty.bind f)).map (canon key)) :=
      depth_le_depthAll (List.mem_map_of_mem (List.mem_map_of_mem hp))
    omega
  · have := depth_canon_le key (f := f) r hv
    omega

theorem not_mem_of_list {e : Ty} (h : EquivBy key (f v) ((Ty.list e).bind f)) :
    v ∉ (Ty.list e).vars := by
  intro hv
  have deep : (canon key (f v)).depth = (canon key ((Ty.list e).bind f)).depth := by rw [h.canon_eq]
  have := depth_canon_le key (f := f) e hv
  rw [Ty.bind, canon_list, depth] at deep
  omega

theorem not_mem_of_pair {i t : Ty} (h : EquivBy key (f v) ((Ty.pair i t).bind f)) :
    v ∉ i.vars := by
  intro hv
  have deep : (canon key (f v)).depth = (canon key ((Ty.pair i t).bind f)).depth := by
    rw [h.canon_eq]
  have := depth_canon_le key (f := f) i hv
  have := depth_le_cons (canon_kinded key (i.bind f)) (canon_kinded key (t.bind f))
  change _ = (cons (canon key (i.bind f)) (canon key (t.bind f))).depth at deep
  omega

/-- A variable at the end of an equivalent pair is the list of the pair's head: a proper pair would
be deeper than its own tail. -/
theorem list_of_pair {i t : Ty} (h : EquivBy key (f v) ((Ty.pair i t).bind f)) (hv : v ∈ t.vars) :
    EquivBy key (f v) (.list (i.bind f)) := by
  have eq := h.canon_eq
  rw [Ty.bind] at eq
  rcases canon_pair_cases key (i.bind f) (t.bind f) with ⟨_, list⟩ | ⟨_, pair⟩
  · exact canon_eq_iff.mp (eq.trans list)
  · have := depth_canon_le key (f := f) t hv
    have deep : (canon key (f v)).depth =
        (Ty.pair (canon key (i.bind f)) (canon key (t.bind f))).depth := by rw [eq, pair]
    rw [depth] at deep
    omega

end EquivBy

end Canonical

end Ty

end Polytype
