import Mathlib.Logic.Equiv.Basic
import Polytype.Proofs.MostGeneral
import Polytype.Proofs.Renaming.Unification

/-!
# Unification from either side

Exchanging the two types changes which of two variables is bound to the other, and with it all that
is unified later. It does not change what comes out: either both orders succeed, and one result is
the other under a permutation of the numbers that keeps flags, or both fail with the same kind of
error (`unify_symmetric`).

The two runs are followed side by side. What they unify is the same up to a permutation and up to the
order of the sides (`facing`), and two variables bound the other way round add a transposition to the
permutation. A list that meets a pair always comes first, so from there on both runs have the same
order, and the proof is about both orders at once.
-/

namespace Polytype

/-! ## Permuted numbers -/

/-- The variable with its number permuted. -/
def Var.permute (ρ : Equiv.Perm Nat) (v : Var) : Var := { v with id := ρ v.id }

theorem Var.permute_faithful (ρ : Equiv.Perm Nat) : Var.Faithful (.permute ρ) := by
  intro v w
  rw [Bool.eq_iff_iff, Var.same_iff, Var.same_iff]
  exact ρ.injective.eq_iff

/-- Variables keep the flags of `k` under the permutation. -/
def KeepsFlags (k : Nat → Bool) (ρ : Equiv.Perm Nat) : Prop := ∀ n, k (ρ n) = k n

theorem KeepsFlags.swap {k : Nat → Bool} {ρ : Equiv.Perm Nat} (h : KeepsFlags k ρ) {m n : Nat}
    (flags : k m = k n) : KeepsFlags k ((Equiv.swap m n).trans ρ) := by
  intro i
  rw [Equiv.trans_apply, h]
  rcases eq_or_ne i m with rfl | hm
  · rw [Equiv.swap_apply_left, flags]
  · rcases eq_or_ne i n with rfl | hn
    · rw [Equiv.swap_apply_right, flags]
    · rw [Equiv.swap_apply_of_ne_of_ne hm hn]

namespace Ty

/-- The type with the numbers of its variables permuted. -/
abbrev permute (ρ : Equiv.Perm Nat) (t : Ty) : Ty := t.rename (.permute ρ)

theorem permute_var (ρ : Equiv.Perm Nat) (v : Var) : (Ty.var v).permute ρ = .var (v.permute ρ) := rfl

theorem permute_prim (ρ : Equiv.Perm Nat) (p : Prim) : (Ty.prim p).permute ρ = .prim p := rfl

theorem permute_func (ρ : Equiv.Perm Nat) (ps : List Ty) (r : Ty) :
    (Ty.func ps r).permute ρ = .func (ps.map (permute ρ)) (r.permute ρ) := rename_func ps r

theorem permute_pair (ρ : Equiv.Perm Nat) (h t : Ty) :
    (Ty.pair h t).permute ρ = .pair (h.permute ρ) (t.permute ρ) := rfl

theorem permute_list (ρ : Equiv.Perm Nat) (e : Ty) : (Ty.list e).permute ρ = .list (e.permute ρ) := rfl

theorem shape_permute (ρ : Equiv.Perm Nat) (t : Ty) : (t.permute ρ).shape = t.shape := by
  cases t with
  | func ps r => simp only [permute_func, shape, List.length_map]
  | _ => rfl

theorem permute_refl (t : Ty) : t.permute (.refl Nat) = t := rename_eq_self t fun _ _ => rfl

theorem permute_ne_var {ρ : Equiv.Perm Nat} {t : Ty} (h : ∀ w, t ≠ .var w) (w : Var) :
    t.permute ρ ≠ .var w := by
  cases t with
  | var v => exact absurd rfl (h v)
  | func ps r =>
    rw [permute_func]
    exact Ty.noConfusion
  | _ => exact Ty.noConfusion

end Ty

/-! ## Two runs -/

inductive UnifyError.Kind where
  | mismatch
  | arity
  | occurs
  deriving DecidableEq

def UnifyError.kind : UnifyError → Kind
  | .mismatch _ _ => .mismatch
  | .arity _ _ => .arity
  | .occurs _ _ => .occurs

/-- What two types of these different shapes are at odds about. -/
def UnifyError.Kind.between : Ty.Shape → Ty.Shape → Kind
  | .func _, .func _ => .arity
  | _, _ => .mismatch

theorem UnifyError.Kind.between_comm (x y : Ty.Shape) : between x y = between y x := by
  cases x <;> cases y <;> rfl

namespace Unify

variable {k : Nat → Bool} {ρ τ : Equiv.Perm Nat} {s s' : Subst}

/-- On types numbered by `ρ`, `s'` gives what `s` gives, numbered by `τ`. -/
def Variant (k : Nat → Bool) (ρ τ : Equiv.Perm Nat) (s s' : Subst) : Prop :=
  ∀ t : Ty, t.Kinded k → s'.apply (t.permute ρ) = (s.apply t).permute τ

/-- Both runs succeed with variants of one result, or both fail for the same kind of reason. -/
inductive Alike (k : Nat → Bool) (ρ : Equiv.Perm Nat) : Outcome → Outcome → Prop
  | ok {s s' : Subst} {τ : Equiv.Perm Nat} (flags : KeepsFlags k τ) (variant : Variant k ρ τ s s') :
      Alike k ρ (.ok s) (.ok s')
  | error {e e' : UnifyError} (kind : e.kind = e'.kind) : Alike k ρ (.error e) (.error e')

theorem Variant.empty (k : Nat → Bool) (ρ : Equiv.Perm Nat) : Variant k ρ ρ .empty .empty := by
  intro t _
  rw [Subst.apply_empty, Subst.apply_empty]

theorem Variant.rename (k : Nat → Bool) (ρ : Equiv.Perm Nat) (s : Subst) :
    Variant k ρ ρ s (s.rename (.permute ρ)) :=
  fun t _ => s.apply_rename (Var.permute_faithful ρ) t

theorem Variant.compose {f f' : Subst} {υ : Equiv.Perm Nat} (h : Variant k ρ τ s s')
    (hf : Variant k τ υ f f') (kinded : ∀ t : Ty, t.Kinded k → (s.apply t).Kinded k)
    (eq : ∀ t, (s.compose f).apply t = f.apply (s.apply t))
    (eq' : ∀ t, (s'.compose f').apply t = f'.apply (s'.apply t)) :
    Variant k ρ υ (s.compose f) (s'.compose f') := by
  intro t ht
  rw [eq, eq', h t ht, hf _ (kinded t ht)]

theorem Variant.of_vars (h : ∀ x : Var, x.addable = k x.id →
    s'.apply (.var (x.permute ρ)) = (s.apply (.var x)).permute τ) : Variant k ρ τ s s' := by
  intro t ht
  rw [Subst.apply, Subst.apply, Ty.permute, Ty.permute, Ty.rename, Ty.rename, Ty.bind_bind,
    Ty.bind_bind]
  exact Ty.bind_congr t fun x hx => h x (ht x hx)

theorem Variant.turned {v w : Var} (hv : v.addable = k v.id) (hw : w.addable = k w.id)
    (differ : v.id ≠ w.id) (flags : v.addable = w.addable) :
    Variant k ρ ((Equiv.swap v.id w.id).trans ρ) (.single v (.var w))
      (.single (w.permute ρ) (.var (v.permute ρ))) := by
  have free : v.id ∉ (Ty.var w).ids := by simpa using differ
  have free' : (w.permute ρ).id ∉ (Ty.var (v.permute ρ)).ids := by
    simpa [Var.permute] using fun e => differ e.symm
  have becomes : w.permute ((Equiv.swap v.id w.id).trans ρ) = v.permute ρ := by
    simp [Var.permute, flags]
  refine .of_vars fun x hx => ?_
  rcases eq_or_ne x.id v.id with hxv | hxv
  · obtain rfl : x = v := Var.eq_of_flags hx hv hxv
    rw [apply_single_self free, Subst.apply_disjoint (by simpa [Var.permute] using differ)]
    exact congrArg Ty.var becomes.symm
  · rcases eq_or_ne x.id w.id with hxw | hxw
    · obtain rfl : x = w := Var.eq_of_flags hx hw hxw
      rw [apply_single_self free', Subst.apply_disjoint (by simpa using hxv)]
      exact congrArg Ty.var becomes.symm
    · rw [Subst.apply_disjoint (by simpa [Var.permute] using hxw),
        Subst.apply_disjoint (by simpa using hxv)]
      simp [Ty.permute, Var.permute, Equiv.swap_apply_of_ne_of_ne hxv hxw]

/-! ## One level -/

/-- Unifies two types as they come, or with the sides exchanged. -/
def facing (turned : Bool) (unify : Ty → Ty → Outcome) (a b : Ty) : Outcome :=
  bif turned then unify b a else unify a b

variable {unify : Ty → Ty → Outcome} {a b : Ty} {turned : Bool}

theorem facing_bounded (turned : Bool) (h : Bounded unify) : Bounded (facing turned unify) := by
  intro a b s found
  cases turned with
  | false => exact h found
  | true =>
    rw [Finset.union_comm, Nat.max_comm]
    exact h found

theorem facing_rows (turned : Bool) (unify : Ty → Ty → Outcome) (s : Subst) (ls rs : List Ty) :
    (bif turned then rows unify s rs ls else rows unify s ls rs) =
      rows (facing turned unify) s ls rs := by
  cases turned with
  | false => rfl
  | true =>
    induction ls generalizing s rs with
    | nil => cases rs <;> simp only [rows, cond_true]
    | cons l ls ih =>
      cases rs with
      | nil => simp only [rows, cond_true]
      | cons r rs =>
        simp only [cond_true, rows] at ih ⊢
        exact congrArg _ (funext fun f => ih (s.compose f) rs)

theorem facing_var_left (turned : Bool) (v : Var) {t : Ty} (novar : ∀ w, t ≠ .var w) :
    facing turned (step unify) (.var v) t = bindVar unify v t := by
  cases t with
  | var w => exact absurd rfl (novar w)
  | _ => cases turned <;> rfl

theorem facing_var_right (turned : Bool) (v : Var) {t : Ty} (novar : ∀ w, t ≠ .var w) :
    facing turned (step unify) t (.var v) = bindVar unify v t := by
  cases t with
  | var w => exact absurd rfl (novar w)
  | _ => cases turned <;> rfl

theorem facing_prim (turned : Bool) (p : Prim) :
    facing turned (step unify) (.prim p) (.prim p) = .ok .empty := by
  cases turned <;> exact if_pos (beq_self_eq_true p)

theorem facing_func (turned : Bool) {ps qs : List Ty} (arity : ps.length = qs.length) (r s : Ty) :
    facing turned (step unify) (.func ps r) (.func qs s) =
      rows (facing turned unify) .empty (ps ++ [r]) (qs ++ [s]) := by
  rw [← facing_rows]
  cases turned with
  | false => exact if_pos (beq_iff_eq.mpr arity)
  | true => exact if_pos (beq_iff_eq.mpr arity.symm)

theorem facing_pair (turned : Bool) (h t i u : Ty) :
    facing turned (step unify) (.pair h t) (.pair i u) =
      rows (facing turned unify) .empty [h, t] [i, u] := by
  rw [← facing_rows]
  cases turned <;> rfl

theorem facing_list_pair (turned : Bool) (e h t : Ty) :
    facing turned (step unify) (.list e) (.pair h t) = rows unify .empty [e, .list e] [h, t] := by
  cases turned <;> rfl

theorem facing_pair_list (turned : Bool) (e h t : Ty) :
    facing turned (step unify) (.pair h t) (.list e) = rows unify .empty [e, .list e] [h, t] := by
  cases turned <;> rfl

theorem facing_list (turned : Bool) (e f : Ty) :
    facing turned (step unify) (.list e) (.list f) = facing turned unify e f := by
  cases turned <;> rfl

/-- On the way to `a` and `b`, the second run gives what the first one gives. -/
def Follows (k : Nat → Bool) (turned : Bool) (a b : Ty) : Prop :=
  ∀ {c e : Ty} {τ : Equiv.Perm Nat}, cost c e < cost a b → c.Kinded k → e.Kinded k →
    KeepsFlags k τ →
      Alike k τ (Polytype.unify c e) (facing turned Polytype.unify (c.permute τ) (e.permute τ))

theorem rows_alike (ih : Follows k turned a b) :
    ∀ {ls rs : List Ty} {s s' : Subst} {τ : Equiv.Perm Nat}, (∀ p ∈ ls.zip rs, Part a b p.1 p.2) →
      Solved (a.ids ∪ b.ids) (max a.depth b.depth) s → s.Respects k → s'.Idempotent →
      KeepsFlags k τ → Variant k ρ τ s s' → (∀ l ∈ ls, l.Kinded k) → (∀ r ∈ rs, r.Kinded k) →
      Alike k ρ (rows Polytype.unify s ls rs)
        (rows (facing turned Polytype.unify) s' (ls.map (Ty.permute ρ)) (rs.map (Ty.permute ρ)))
  | [], _, s, s', τ, _, _, _, _, flags, variant, _, _ => by
    simp only [List.map_nil, rows]
    exact .ok flags variant
  | _ :: _, [], s, s', τ, _, _, _, _, flags, variant, _, _ => by
    simp only [List.map_nil, List.map_cons, rows]
    exact .ok flags variant
  | l :: ls, r :: rs, s, s', τ, parts, solved, respects, idem', flags, variant, hl, hr => by
    have bounded' : Bounded (facing turned Polytype.unify) := facing_bounded turned unify_bounded
    have part := parts (l, r) List.mem_cons_self
    have kinded (t : Ty) (ht : t.Kinded k) := respects.apply solved.idempotent ht
    have kl := kinded l (hl l List.mem_cons_self)
    have kr := kinded r (hr r List.mem_cons_self)
    have first := ih (part.cost_lt solved) kl kr flags
    rw [← variant l (hl l List.mem_cons_self), ← variant r (hr r List.mem_cons_self)] at first
    rw [List.map_cons, List.map_cons, rows, rows]
    generalize found : Polytype.unify (s.apply l) (s.apply r) = outcome at first
    generalize found' : facing turned Polytype.unify (s'.apply (l.permute ρ))
      (s'.apply (r.permute ρ)) = outcome' at first
    cases first with
    | error kind => exact .error kind
    | ok flags' variant' =>
      exact rows_alike ih (fun p hp => parts p (List.mem_cons_of_mem _ hp))
        (part.solved unify_bounded solved found)
        (respects.compose (unify_respects kl kr found) (unify_bounded found).idempotent
          (apart_of_found unify_bounded solved.idempotent found))
        (idempotent_compose_found bounded' idem' found') flags'
        (variant.compose variant' kinded
          (apply_compose_found unify_bounded solved.idempotent found)
          (apply_compose_found bounded' idem' found'))
        (fun x hx => hl x (List.mem_cons_of_mem _ hx)) (fun x hx => hr x (List.mem_cons_of_mem _ hx))

theorem rows_alike_of_empty (ih : Follows k turned a b) (flags : KeepsFlags k ρ) {ls rs : List Ty}
    (parts : ∀ p ∈ ls.zip rs, Part a b p.1 p.2) (hl : ∀ l ∈ ls, l.Kinded k)
    (hr : ∀ r ∈ rs, r.Kinded k) :
    Alike k ρ (rows Polytype.unify .empty ls rs)
      (rows (facing turned Polytype.unify) .empty (ls.map (Ty.permute ρ)) (rs.map (Ty.permute ρ))) :=
  rows_alike ih parts .empty .empty idempotent_empty flags (.empty k ρ) hl hr

theorem fixpoint_alike {v : Var} {h t : Ty} (ih : Follows k false (.var v) (.pair h t))
    (flags : KeepsFlags k ρ) (hv : v.addable = k v.id) (hk : (Ty.pair h t).Kinded k)
    (plain : v.addable = false) (free : v.id ∉ h.ids) :
    Alike k ρ (fixpoint Polytype.unify v h t)
      (fixpoint Polytype.unify (v.permute ρ) (h.permute ρ) (t.permute ρ)) := by
  -- The restart has the list on the left in both runs.
  have idem := idempotent_single (show v.id ∉ (Ty.list h).ids from free)
  have free' : (v.permute ρ).id ∉ (h.permute ρ).ids := by
    rwa [← Ty.mentions_iff, Ty.permute, Ty.mentions_rename (Var.permute_faithful ρ), Ty.mentions_iff]
  have idem' := idempotent_single (show (v.permute ρ).id ∉ (Ty.list (h.permute ρ)).ids from free')
  have respects : (Subst.single v (.list h)).Respects k :=
    respects_single hv (Ty.kinded_pair.mp hk).1 fun addable => by
      rw [plain] at addable
      cases addable
  have variant : Variant k ρ ρ (.single v (.list h)) (.single (v.permute ρ) (.list (h.permute ρ))) :=
    .rename k ρ (.single v (.list h))
  have rest := ih (fixpoint_cost free) (Ty.kinded_pair.mp hk).1 (respects.apply idem hk) flags
  rw [← variant _ hk] at rest
  change Alike k ρ _ (Polytype.unify (.list (h.permute ρ)) ((Subst.single (v.permute ρ)
    (.list (h.permute ρ))).apply (.pair (h.permute ρ) (t.permute ρ)))) at rest
  simp only [fixpoint]
  generalize found : Polytype.unify (.list h) _ = outcome at rest ⊢
  generalize found' : Polytype.unify (.list (h.permute ρ)) _ = outcome' at rest ⊢
  cases rest with
  | error _ => exact .error rfl
  | ok flags' variant' =>
    exact .ok flags' (variant.compose variant' (fun t ht => respects.apply idem ht)
      (apply_compose_found unify_bounded idem (found_under_first free found))
      (apply_compose_found unify_bounded idem' (found_under_first free' found')))

theorem bindVar_alike {v : Var} {t : Ty} (ih : Follows k false (.var v) t) (flags : KeepsFlags k ρ)
    (hv : v.addable = k v.id) (ht : t.Kinded k) :
    Alike k ρ (bindVar Polytype.unify v t) (bindVar Polytype.unify (v.permute ρ) (t.permute ρ)) := by
  have faithful := Var.permute_faithful ρ
  have addable : (v.permute ρ).addable = v.addable := rfl
  unfold bindVar
  rw [addable, Ty.permute, Ty.mentions_rename faithful]
  split
  · cases t with
    | prim p =>
      simp only [Ty.rename_prim]
      split
      · exact .ok flags (.rename k ρ (.single v (.prim p)))
      · exact .error rfl
    | func ps r =>
      simp only [Ty.rename_func]
      exact .error rfl
    | _ => exact .error rfl
  next plain =>
    split
    · exact .ok flags (.rename k ρ (.single v t))
    · cases t with
      | pair h u =>
        simp only [Ty.rename_pair, Ty.mentions_rename faithful]
        split
        · exact .error rfl
        next free =>
          rw [Ty.mentions_iff] at free
          exact fixpoint_alike ih flags hv ht (by simpa using plain) free
      | func ps r =>
        simp only [Ty.rename_func]
        exact .error rfl
      | _ => exact .error rfl

theorem bindVars_of_same {v w : Var} (same : v.id = w.id) : bindVars v w = .ok .empty :=
  if_pos (Var.same_iff.mpr same)

theorem bindVars_of_ne {v w : Var} (differ : v.id ≠ w.id) : bindVars v w =
    .ok (if v.addable && !w.addable then .single w (.var v) else .single v (.var w)) := by
  rw [bindVars, if_neg (by rwa [Var.same_iff])]
  split <;> rfl

theorem bindVars_alike (turned : Bool) (flags : KeepsFlags k ρ) {v w : Var}
    (hv : v.addable = k v.id) (hw : w.addable = k w.id) :
    Alike k ρ (bindVars v w) (bif turned then bindVars (w.permute ρ) (v.permute ρ)
      else bindVars (v.permute ρ) (w.permute ρ)) := by
  -- Of two variables with different flags the plain one is bound in both runs.
  by_cases same : v.id = w.id
  · have same' : (v.permute ρ).id = (w.permute ρ).id := congrArg ρ same
    rw [bindVars_of_same same, bindVars_of_same same', bindVars_of_same same'.symm, Bool.cond_self]
    exact .ok flags (.empty k ρ)
  · have differ : (v.permute ρ).id ≠ (w.permute ρ).id := ρ.injective.ne same
    have left : (v.permute ρ).addable = v.addable := rfl
    have right : (w.permute ρ).addable = w.addable := rfl
    rw [bindVars_of_ne same, bindVars_of_ne differ, bindVars_of_ne differ.symm, left, right]
    have straight (x : Var) (t : Ty) := Alike.ok flags (.rename k ρ (.single x t))
    cases turned with
    | false => cases v.addable <;> cases w.addable <;> exact straight _ _
    | true =>
      by_cases equal : v.addable = w.addable
      · rw [equal, Bool.and_not_self]
        exact .ok (flags.swap (by rw [← hv, ← hw, equal])) (.turned hv hw same equal)
      · cases addable : v.addable <;> cases addable' : w.addable
        all_goals first
        | exact straight _ _
        | exact absurd (addable.trans addable'.symm) equal

theorem step_of_shape_ne (ha : ∀ v, a ≠ .var v) (hb : ∀ w, b ≠ .var w) (shape : a.shape ≠ b.shape) :
    ∃ e, step unify a b = .error e ∧ e.kind = .between a.shape b.shape := by
  cases a with
  | var v => exact absurd rfl (ha v)
  | prim p =>
    cases b with
    | var w => exact absurd rfl (hb w)
    | prim q =>
      refine ⟨_, if_neg fun eq => ?_, rfl⟩
      exact shape (congrArg Ty.Shape.prim (beq_iff_eq.mp eq))
    | _ => exact ⟨_, rfl, rfl⟩
  | func ps r =>
    cases b with
    | var w => exact absurd rfl (hb w)
    | func qs s =>
      refine ⟨_, if_neg fun eq => ?_, rfl⟩
      exact shape (congrArg Ty.Shape.func (beq_iff_eq.mp eq))
    | _ => exact ⟨_, rfl, rfl⟩
  | pair h t =>
    cases b with
    | var w => exact absurd rfl (hb w)
    | pair | list => exact absurd rfl shape
    | _ => exact ⟨_, rfl, rfl⟩
  | list e =>
    cases b with
    | var w => exact absurd rfl (hb w)
    | pair | list => exact absurd rfl shape
    | _ => exact ⟨_, rfl, rfl⟩

theorem mismatch_alike (turned : Bool) (ha : ∀ v, a ≠ .var v) (hb : ∀ w, b ≠ .var w)
    (shape : a.shape ≠ b.shape) :
    Alike k ρ (step unify a b) (facing turned (step unify) (a.permute ρ) (b.permute ρ)) := by
  have shape' : (a.permute ρ).shape ≠ (b.permute ρ).shape := by
    rwa [Ty.shape_permute, Ty.shape_permute]
  obtain ⟨e, failed, kind⟩ := @step_of_shape_ne unify _ _ ha hb shape
  rw [failed]
  cases turned with
  | false =>
    obtain ⟨e', failed', kind'⟩ := @step_of_shape_ne unify _ _ (Ty.permute_ne_var ha)
      (Ty.permute_ne_var hb) shape'
    rw [show facing false (step unify) _ _ = _ from failed']
    exact .error (by rw [kind, kind', Ty.shape_permute, Ty.shape_permute])
  | true =>
    obtain ⟨e', failed', kind'⟩ := @step_of_shape_ne unify _ _ (Ty.permute_ne_var hb)
      (Ty.permute_ne_var ha) shape'.symm
    rw [show facing true (step unify) _ _ = _ from failed']
    exact .error (by rw [kind, kind', Ty.shape_permute, Ty.shape_permute, UnifyError.Kind.between_comm])

theorem list_pair_alike {e h t : Ty} (ih : Follows k false a b) (flags : KeepsFlags k ρ)
    (parts : ∀ p ∈ [e, .list e].zip [h, t], Part a b p.1 p.2) (he : e.Kinded k)
    (hk : (Ty.pair h t).Kinded k) :
    Alike k ρ (rows Polytype.unify .empty [e, .list e] [h, t])
      (rows Polytype.unify .empty [e.permute ρ, .list (e.permute ρ)] [h.permute ρ, t.permute ρ]) :=
  rows_alike_of_empty ih flags parts (by simpa using he) (by simpa using hk)

theorem parts_alike (ih : ∀ turned, Follows k turned a b) (flags : KeepsFlags k ρ) (ha : a.Kinded k)
    (hb : b.Kinded k) (novar : ∀ v, a ≠ .var v) (shape : a.shape = b.shape) (turned : Bool) :
    Alike k ρ (facing false (step Polytype.unify) a b)
      (facing turned (step Polytype.unify) (a.permute ρ) (b.permute ρ)) := by
  cases a with
  | var v => exact absurd rfl (novar v)
  | prim p =>
    cases b with
    | prim q =>
      obtain rfl : p = q := by injection shape
      rw [Ty.permute_prim, facing_prim, facing_prim]
      exact .ok flags (.empty k ρ)
    | _ => cases shape
  | func ps r =>
    cases b with
    | func qs s =>
      have arity : ps.length = qs.length := by injection shape
      have arity' : (ps.map (Ty.permute ρ)).length = (qs.map (Ty.permute ρ)).length := by
        rw [List.length_map, List.length_map, arity]
      rw [Ty.kinded_func] at ha hb
      have parts := rows_alike_of_empty (ih turned) flags (fun _ => part_func)
        (by simpa [or_imp, forall_and] using ha) (by simpa [or_imp, forall_and] using hb)
      rw [Ty.permute_func, Ty.permute_func, facing_func false arity, facing_func turned arity']
      rwa [List.map_append, List.map_append] at parts
    | _ => cases shape
  | pair h t =>
    cases b with
    | pair i u =>
      rw [Ty.permute_pair, Ty.permute_pair, facing_pair, facing_pair]
      exact rows_alike_of_empty (ih turned) flags (fun _ => part_pair) (by simpa using ha)
        (by simpa using hb)
    | list e =>
      rw [Ty.permute_pair, Ty.permute_list, facing_pair_list, facing_pair_list]
      exact list_pair_alike (ih false) flags (fun _ mem => (part_list_pair mem).swap) hb ha
    | _ => cases shape
  | list e =>
    cases b with
    | pair h t =>
      rw [Ty.permute_pair, Ty.permute_list, facing_list_pair, facing_list_pair]
      exact list_pair_alike (ih false) flags (fun _ => part_list_pair) ha hb
    | list f =>
      have lt : cost e f < cost (.list e) (.list f) := by simpa using part_list.cost_lt .empty
      rw [Ty.permute_list, Ty.permute_list, facing_list, facing_list]
      exact ih turned lt ha hb flags
    | _ => cases shape

theorem step_alike (ih : ∀ turned, Follows k turned a b) (flags : KeepsFlags k ρ) (ha : a.Kinded k)
    (hb : b.Kinded k) (turned : Bool) :
    Alike k ρ (step Polytype.unify a b)
      (facing turned (step Polytype.unify) (a.permute ρ) (b.permute ρ)) := by
  change Alike k ρ (facing false (step Polytype.unify) a b) _
  by_cases left : ∃ v, a = .var v
  · obtain ⟨v, rfl⟩ := left
    by_cases right : ∃ w, b = .var w
    · obtain ⟨w, rfl⟩ := right
      have both := bindVars_alike turned flags (Ty.kinded_var.mp ha) (Ty.kinded_var.mp hb)
      cases turned <;> exact both
    · have novar (w : Var) : b ≠ .var w := fun eq => right ⟨w, eq⟩
      rw [Ty.permute_var, facing_var_left false v novar,
        facing_var_left turned _ (Ty.permute_ne_var novar)]
      exact bindVar_alike (ih false) flags (Ty.kinded_var.mp ha) hb
  · have novar (v : Var) : a ≠ .var v := fun eq => left ⟨v, eq⟩
    by_cases right : ∃ w, b = .var w
    · obtain ⟨w, rfl⟩ := right
      rw [Ty.permute_var, facing_var_right false w novar,
        facing_var_right turned _ (Ty.permute_ne_var novar)]
      exact bindVar_alike (fun lt => ih false (lt.trans_eq (cost_comm _ _))) flags
        (Ty.kinded_var.mp hb) ha
    · have novar' (w : Var) : b ≠ .var w := fun eq => right ⟨w, eq⟩
      by_cases shape : a.shape = b.shape
      · exact parts_alike ih flags ha hb novar shape turned
      · exact mismatch_alike turned novar novar' shape

/-- Unification gives variants for the same types under other numbers, whichever side comes first. -/
theorem unify_alike (flags : KeepsFlags k ρ) (ha : a.Kinded k) (hb : b.Kinded k) (turned : Bool) :
    Alike k ρ (Polytype.unify a b)
      (facing turned Polytype.unify (a.permute ρ) (b.permute ρ)) := by
  generalize n_eq : cost a b = n
  induction n using Nat.strong_induction_on generalizing a b ρ turned with
  | _ n ih =>
    have step := step_alike (fun turned _ _ _ lt hc he flags => ih _ (n_eq ▸ lt) flags hc he turned rfl)
      flags ha hb turned
    rw [unify_eq_step]
    cases turned with
    | false =>
      rw [show facing false Polytype.unify _ _ = _ from unify_eq_step _ _]
      exact step
    | true =>
      rw [show facing true Polytype.unify _ _ = _ from unify_eq_step _ _]
      exact step

end Unify

/-- Exchanging the sides changes the result of unification by a permutation of variables that keeps
flags, and of a failure it leaves the kind. -/
theorem unify_symmetric {k : Nat → Bool} {a b : Ty} (ha : a.Kinded k) (hb : b.Kinded k) :
    (∃ s s', unify a b = .ok s ∧ unify b a = .ok s' ∧
      ∃ ρ : Equiv.Perm Nat, (∀ n, k (ρ n) = k n) ∧
        ∀ t : Ty, t.Kinded k → s'.apply t = (s.apply t).permute ρ) ∨
      ∃ e e', unify a b = .error e ∧ unify b a = .error e' ∧ e.kind = e'.kind := by
  have both := Unify.unify_alike (ρ := .refl Nat) (fun _ => rfl) ha hb true
  rw [Ty.permute_refl, Ty.permute_refl] at both
  change Unify.Alike k _ (unify a b) (unify b a) at both
  generalize found : unify a b = outcome at both
  generalize found' : unify b a = outcome' at both
  cases both with
  | ok flags variant =>
    refine .inl ⟨_, _, rfl, rfl, _, flags, fun t ht => ?_⟩
    rw [← variant t ht, Ty.permute_refl]
  | error kind => exact .inr ⟨_, _, rfl, rfl, kind⟩

/-- A function of two variables with an addable result. -/
def forth : Ty := .func [.var (.plain 0), .var (.plain 2)] (.var ⟨3, true⟩)

/-- A function of another variable and of a list of the first one of `forth`. -/
def back : Ty := .func [.var (.plain 1), .list (.var (.plain 0))] (.var (.plain 4))

/-- The first parameters are bound one to the other or the other to the one, and so the second
parameters are lists of different variables. -/
theorem unify_symmetric_crossed :
    (forth.Kinded (· == 3) ∧ back.Kinded (· == 3)) ∧ ∃ s s' : Subst,
      unify forth back = .ok s ∧ unify back forth = .ok s' ∧
      s.apply (.var (.plain 2)) = .list (.var (.plain 1)) ∧
      s'.apply (.var (.plain 2)) = .list (.var (.plain 0)) ∧
      ∃ ρ : Equiv.Perm Nat, (∀ n, (ρ n == 3) = (n == 3)) ∧
        ∀ t : Ty, t.Kinded (· == 3) → s'.apply t = (s.apply t).permute ρ := by
  have kinded : forth.Kinded (· == 3) ∧ back.Kinded (· == 3) := by
    unfold Ty.Kinded
    decide
  rcases unify_symmetric kinded.1 kinded.2 with ⟨s, s', found, found', permuted⟩ | ⟨e, _, failed, _⟩
  · refine ⟨kinded, s, s', found, found', ?_, ?_, permuted⟩
    · cases found
      rfl
    · cases found'
      rfl
  · cases failed

end Polytype
