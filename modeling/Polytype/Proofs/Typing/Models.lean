import Polytype.Proofs.Schemes
import Polytype.Proofs.Typing.Rules

/-!
# Environments and their solutions

A solution of what inference has found out makes types of the environment into types of a typing.
`Models` says that an environment of inference, under a solution, allows no use of a name that an
environment of the type system does not.

For a declaration there is a second solution beside the given one, with variables of its own in place
of the quantified ones (`Good.exists_generic`). It agrees with the given solution on all that the
environment can see.
-/

namespace Polytype

variable {c c' : Context} {H : Set Var} {θ : Var → Ty} {Γ : Env}

/-! ## Environments -/

namespace Env

variable {env : Env} {x y : String}

theorem lookup_of_lookupLocal {σ : Scheme} (h : env.lookupLocal x = some σ) :
    env.lookup x = some σ := by
  obtain ⟨outermost, inner⟩ := env
  cases inner with
  | nil => simpa [lookup, scopes, lookupLocal, innermost] using h
  | cons scope rest =>
    rw [lookupLocal, innermost, List.headD_cons] at h
    rw [lookup, scopes, List.cons_append, List.findSome?_cons, h]

theorem lookup_erase_of_ne (ne : y ≠ x) : (env.erase x).lookup y = env.lookup y := by
  obtain ⟨outermost, inner⟩ := env
  cases inner <;> simp [lookup, erase, modify, scopes, List.findSome?_cons, ne]

theorem lookup_bindMonos_of_notMem {xs : List String} (h : y ∉ xs) (ts : List Ty) :
    (env.bindMonos xs ts).lookup y = env.lookup y := by
  induction xs generalizing env ts with
  | nil => rfl
  | cons x xs ih =>
    rw [List.mem_cons, not_or] at h
    cases ts with
    | nil => rfl
    | cons t ts => rw [bindMonos, ih h.2, lookup_bind, if_neg h.1]

theorem lookupLocal_bindMonos_of_notMem {xs : List String} (h : y ∉ xs) (ts : List Ty) :
    (env.bindMonos xs ts).lookupLocal y = env.lookupLocal y := by
  induction xs generalizing env ts with
  | nil => rfl
  | cons x xs ih =>
    rw [List.mem_cons, not_or] at h
    cases ts with
    | nil => rfl
    | cons t ts => rw [bindMonos, ih h.2, lookupLocal_bind, if_neg h.1]

end Env

/-- No name in the list is the key of an operator. -/
def NoOperator (xs : List String) : Prop := ∀ x ∈ xs, x ∉ Prelude.operators.map (·.1)

@[simp] theorem noOperator_cons {x : String} {xs : List String} :
    NoOperator (x :: xs) ↔ x ∉ Prelude.operators.map (·.1) ∧ NoOperator xs := List.forall_mem_cons

@[simp] theorem noOperator_append {xs ys : List String} :
    NoOperator (xs ++ ys) ↔ NoOperator xs ∧ NoOperator ys := List.forall_mem_append

/-- Operators mean what they mean in the prelude. -/
def Keeps (prelude env : Env) : Prop :=
  ∀ key ∈ Prelude.operators.map (·.1), env.lookup key = prelude.lookup key

namespace Keeps

variable {prelude env : Env}

theorem bind (h : Keeps prelude env) {x : String} (hx : x ∉ Prelude.operators.map (·.1))
    (σ : Scheme) : Keeps prelude (env.bind x σ) := by
  intro key hkey
  have ne : key ≠ x := fun eq => hx (eq ▸ hkey)
  rw [Env.lookup_bind, if_neg ne, h key hkey]

theorem bindMonos (h : Keeps prelude env) {xs : List String} (hxs : NoOperator xs) (ts : List Ty) :
    Keeps prelude (env.push.bindMonos xs ts) := by
  intro key hkey
  rw [Env.lookup_bindMonos_of_notMem fun mem => hxs key mem hkey, Env.lookup_push, h key hkey]

end Keeps

/-! ## Models -/

/-- Every instance of `σ`, with `θ` for its free variables, is one of `σ'`. -/
def Covers (θ : Var → Ty) (σ σ' : Scheme) : Prop := ∀ ι, σ.Admits ι → σ'.Instance (σ.fill ι θ)

theorem Covers.mono {t u : Ty} (h : (t.bind θ).Equiv u) : Covers θ (.mono t) (.mono u) := by
  intro ι _
  rw [Scheme.fill_mono]
  exact Scheme.instance_mono.mpr h.symm

theorem Covers.congr {θ' : Var → Ty} {σ σ' : Scheme} (h : Covers θ σ σ')
    (same : ∀ v, σ.Free v → (θ v).Equiv (θ' v)) : Covers θ' σ σ' := by
  intro ι admits
  refine (h ι admits).congr (.bind_congr σ.ty fun v hv => ?_)
  split
  · exact .refl _
  next free => exact same v ⟨hv, free⟩

/-- What a name can be used at in `env`, it can be used at in `Γ`. -/
def Models (θ : Var → Ty) (env Γ : Env) : Prop :=
  ∀ x σ, env.lookup x = some σ → ∃ σ', Γ.lookup x = some σ' ∧ Covers θ σ σ'

namespace Models

variable {env : Env}

theorem push (h : Models θ env Γ) : Models θ env.push Γ.push := h

theorem bind (h : Models θ env Γ) {σ σ' : Scheme} (covers : Covers θ σ σ') (x : String) :
    Models θ (env.bind x σ) (Γ.bind x σ') := by
  intro y ρ found
  rw [Env.lookup_bind] at found ⊢
  split
  next eq =>
    rw [if_pos eq] at found
    exact ⟨σ', rfl, Option.some.inj found ▸ covers⟩
  next ne =>
    rw [if_neg ne] at found
    exact h y ρ found

theorem bindMonos (h : Models θ env Γ) (xs : List String) (ts : List Ty) :
    Models θ (env.bindMonos xs ts) (Γ.bindMonos xs (ts.map (·.bind θ))) := by
  induction xs generalizing env Γ ts with
  | nil => exact h
  | cons x xs ih =>
    cases ts with
    | nil => exact h
    | cons t ts => exact ih (h.bind (.mono (.refl _)) x) ts

theorem rebind {θ' : Var → Ty} {x : String} {p M : Ty} (h : Models θ env Γ)
    (found : env.lookupLocal x = some (.mono p)) (own : (p.bind θ').Equiv M)
    (same : ∀ v, (env.erase x).FreeIn v → (θ v).Equiv (θ' v)) :
    Models θ' env (Γ.bind x (.mono M)) := by
  intro y σ found'
  rw [Env.lookup_bind]
  split
  next eq =>
    rw [eq, Env.lookup_of_lookupLocal found] at found'
    exact ⟨_, rfl, Option.some.inj found' ▸ .mono own⟩
  next ne =>
    obtain ⟨σ', known, covers⟩ := h y σ found'
    rw [← Env.lookup_erase_of_ne ne] at found'
    exact ⟨σ', known, covers.congr fun v hv => same v ⟨_, Env.mem_entries_lookup found', hv⟩⟩

end Models

/-- Each of the names still has the type that it got when the block was entered. -/
def Pending (θ : Var → Ty) (env Γ : Env) (xs : List String) : Prop :=
  ∀ x ∈ xs, ∃ p P, env.lookupLocal x = some (.mono p) ∧ Γ.lookupLocal x = some (.mono P) ∧
    (p.bind θ).Equiv P

namespace Pending

variable {env : Env} {xs : List String}

theorem mono {ys : List String} (h : Pending θ env Γ xs) (sub : ys ⊆ xs) : Pending θ env Γ ys :=
  fun y hy => h y (sub hy)

theorem bind (h : Pending θ env Γ xs) {x : String} (hx : x ∉ xs) (σ σ' : Scheme) :
    Pending θ (env.bind x σ) (Γ.bind x σ') xs := by
  intro y hy
  have ne : y ≠ x := fun eq => hx (eq ▸ hy)
  rw [Env.lookupLocal_bind, if_neg ne, Env.lookupLocal_bind, if_neg ne]
  exact h y hy

theorem bindMonos {ts Ts : List Ty} (length : ts.length = xs.length)
    (same : List.Forall₂ (fun t T => (t.bind θ).Equiv T) ts Ts) :
    Pending θ (env.bindMonos xs ts) (Γ.bindMonos xs Ts) xs := by
  induction xs generalizing env Γ ts Ts with
  | nil => simp [Pending]
  | cons x xs ih =>
    cases same with
    | nil => cases length
    | @cons t T ts Ts first rest =>
      have others : Pending θ (env.bindMonos (x :: xs) (t :: ts))
          (Γ.bindMonos (x :: xs) (T :: Ts)) xs := ih (Nat.succ.inj length) rest
      intro y hy
      by_cases later : y ∈ xs
      · exact others y later
      · obtain rfl : y = x := (List.mem_cons.mp hy).resolve_right later
        refine ⟨t, T, ?_, ?_, first⟩ <;>
          rw [Env.bindMonos, Env.lookupLocal_bindMonos_of_notMem later, Env.lookupLocal_bind,
            if_pos rfl]

end Pending

/-! ## Declared names -/

section Names

variable {α : Type}

theorem declaredNames_cons (s : Stmt α) (ss : List (Stmt α)) :
    declaredNames (s :: ss) = declaredNames [s] ++ declaredNames ss := by
  unfold declaredNames
  rw [List.filterMap_cons, List.filterMap_cons]
  cases s.declared? <;> rfl

theorem declaredNames_none {s : Stmt α} (h : s.declared? = none) (rest : List (Stmt α)) :
    declaredNames (s :: rest) = declaredNames rest := by
  simp [declaredNames, h]

theorem declaredNames_some {s : Stmt α} {n : Name α} (h : s.declared? = some n)
    (rest : List (Stmt α)) : declaredNames (s :: rest) = n.text :: declaredNames rest := by
  simp [declaredNames, h]

theorem Validation.repeats_eq_nil {seen : List String} {body : List (Stmt α)} :
    repeats seen body = [] ↔ (declaredNames body).Nodup ∧ ∀ x ∈ declaredNames body, x ∉ seen := by
  induction body generalizing seen with
  | nil => simp [repeats, declaredNames]
  | cons s rest ih =>
    unfold repeats
    cases declared : s.declared? with
    | none =>
      rw [declaredNames_none declared]
      exact ih
    | some n =>
      rw [declaredNames_some declared, List.nodup_cons, List.forall_mem_cons]
      by_cases again : n.text ∈ seen
      · simp [again]
      · simp only [List.contains_iff_mem, again, if_false, ih, List.mem_cons, not_or]
        grind

theorem NoOperator.declaredNames {body : List (Stmt α)} (h : NoOperator (Stmt.bindersAll body)) :
    NoOperator (declaredNames body) := by
  intro x hx
  obtain ⟨n, hn, rfl⟩ := List.mem_map.mp hx
  obtain ⟨s, hs, declared⟩ := List.mem_filterMap.mp hn
  refine h _ ?_
  rw [Stmt.bindersAll_eq]
  exact List.mem_flatMap.mpr ⟨s, hs, mem_binders_of_declared declared⟩

end Names

/-! ## Instances -/

theorem Instantiated.bind {σ : Scheme} {ren : Var → Var} {t : Ty}
    (inst : Instantiated c σ ren t c') (θ : Var → Ty) :
    t.bind θ = σ.fill (fun v => θ (ren v)) θ := by
  rw [inst.ty, Ty.bind_bind]
  refine Ty.bind_congr σ.ty fun v _ => ?_
  dsimp only [Ty.bind]
  split <;> rfl

theorem Instantiated.admits {σ : Scheme} {ren : Var → Var} {t : Ty}
    (inst : Instantiated c σ ren t c') (fits : Fits θ) : σ.Admits fun v => θ (ren v) :=
  fun _ hv flag => fits _ ((inst.flag hv).trans flag)

theorem Scheme.fill_closed {σ : Scheme} (closed : ∀ v, ¬σ.Free v) {ι θ θ' : Var → Ty} :
    σ.fill ι θ = σ.fill ι θ' := by
  refine Ty.bind_congr σ.ty fun v hv => ?_
  split
  · rfl
  next free => exact absurd ⟨hv, free⟩ (closed v)

theorem Models.closed {env : Env} (closed : ∀ entry ∈ env.entries, ∀ v, ¬entry.2.Free v) :
    Models θ env env := by
  intro x σ found
  refine ⟨σ, found, fun ι admits => ⟨ι, admits, ?_⟩⟩
  rw [Scheme.fill_closed (closed _ (Env.mem_entries_lookup found))]
  exact .refl _

/-! ## Generic solutions -/

theorem fits_var : Fits .var := fun v flag => .inr (.inr ⟨v, rfl, flag⟩)

/-- Variables of their own, from the number `n` on, for `vs`, and `θ` for all others. -/
def renamed (θ : Var → Ty) (vs : List Var) (n : Nat) (v : Var) : Ty :=
  if v ∈ vs then .var (v.shift n) else θ v

/-- What is known of a variable, under `ρ`. Variables with a flag that is not that of `k` do not
matter. -/
def through (k : Nat → Bool) (s : Subst) (ρ θ : Var → Ty) (v : Var) : Ty :=
  if v.addable = k v.id then (s.image v).bind ρ else θ v

theorem Fits.renamed (fits : Fits θ) (vs : List Var) (n : Nat) : Fits (renamed θ vs n) := by
  intro v flag
  unfold Polytype.renamed
  split
  · exact .inr (.inr ⟨_, rfl, flag⟩)
  · exact fits v flag

theorem Fits.through {k : Nat → Bool} {s : Subst} {ρ : Var → Ty} (fits : Fits θ) (fits' : Fits ρ)
    (respects : s.Respects k) : Fits (through k s ρ θ) := by
  intro v flag
  unfold Polytype.through
  split
  next kind =>
    refine fits'.bind ?_
    cases found : s.find? v with
    | none =>
      rw [Subst.image, found]
      exact .inr (.inr ⟨v, rfl, flag⟩)
    | some t =>
      rw [Subst.image, found]
      exact respects.addable found (kind ▸ flag)
  · exact fits v flag

section Through

variable {k : Nat → Bool} {ρ : Var → Ty}

theorem Regular.bind_through (h : Regular k c H) {t : Ty} (ht : t.Kinded k) :
    t.bind (through k c.subst ρ θ) = (c.apply t).bind ρ := by
  rw [Context.apply, h.idempotent.apply_eq, Ty.bind_bind]
  refine Ty.bind_congr t fun v hv => ?_
  rw [through, if_pos (ht v hv)]

theorem Regular.solves_through (h : Regular k c H) : Solves (through k c.subst ρ θ) c.subst := by
  intro v hv
  have flag := h.respects.domain hv
  have image : c.subst.image v = c.apply (.var v) := (h.idempotent.apply_var v).symm
  have kinded : (c.subst.image v).Kinded k := h.respects.image flag
  rw [h.bind_through kinded, through, if_pos flag, image, h.apply_apply]
  exact .refl _

end Through

theorem exists_bound (vs : List Var) : ∃ n, ∀ v ∈ vs, v.id < n := by
  induction vs with
  | nil => exact ⟨0, by simp⟩
  | cons v vs ih =>
    obtain ⟨n, below⟩ := ih
    refine ⟨max n (v.id + 1), List.forall_mem_cons.mpr ⟨by omega, fun w hw => ?_⟩⟩
    have := below w hw
    omega

open Classical in
theorem exists_generalizes (Γ : Env) (t : Ty) : ∃ σ, Generalizes Γ t σ :=
  ⟨⟨t.vars.filter fun v => ¬Γ.FreeIn v, t⟩, rfl, fun v => by simp⟩

theorem covers_of_generalizes {σ σ' : Scheme} {n : Nat}
    (outside : ∀ v, Γ.FreeIn v → v.id < n) (images : ∀ u ∈ σ.ty.vars, ∀ v ∈ (θ u).vars, v.id < n)
    (h : Generalizes Γ (σ.ty.bind (renamed θ σ.vars n)) σ') : Covers θ σ σ' := by
  intro ι admits
  -- Undoes the renaming and instantiates at once.
  let back (u : Var) : Ty :=
    if n ≤ u.id ∧ ⟨u.id - n, u.addable⟩ ∈ σ.vars then ι ⟨u.id - n, u.addable⟩ else .var u
  have back_shift {v : Var} (hv : v ∈ σ.vars) : back (v.shift n) = ι v := by
    have eq : (⟨(v.shift n).id - n, (v.shift n).addable⟩ : Var) = v := by simp [Var.shift]
    simp only [back]
    rw [eq, if_pos ⟨Nat.le_add_left _ _, hv⟩]
  have back_old {u : Var} (hu : u.id < n) : back u = .var u := if_neg fun h => by omega
  have fill_eq : σ'.fill back .var = σ.fill ι θ := by
    rw [Scheme.fill, h.ty, Ty.bind_bind]
    refine Ty.bind_congr σ.ty fun v hv => ?_
    rw [renamed]
    split
    next quantified =>
      have free : ¬Γ.FreeIn (v.shift n) := fun free => by
        have : v.id + n < n := outside _ free
        omega
      have mem : v.shift n ∈ σ'.vars := by
        refine (h.vars _).mpr ⟨?_, free⟩
        rw [Ty.vars_bind, List.mem_flatMap]
        refine ⟨v, hv, ?_⟩
        rw [renamed, if_pos quantified]
        exact List.mem_singleton.mpr rfl
      rw [Ty.bind, if_pos mem, back_shift quantified]
    next =>
      rw [← Ty.bind_var (θ v), Ty.bind_bind]
      refine Ty.bind_congr (θ v) fun u hu => ?_
      rw [Ty.bind]
      split
      · exact back_old (images v hv u hu)
      · rfl
  refine ⟨back, fun u hu flag => ?_, ?_⟩
  · simp only [back]
    split
    next old => exact admits _ old.2 flag
    · exact .inr (.inr ⟨u, rfl, flag⟩)
  · rw [fill_eq]
    exact .refl _

/-- A solution with variables of their own in place of those that a declaration quantifies. -/
theorem Good.exists_generic (good : Good c H) {t : Ty} (ht : t.Over H) (fits : Fits θ)
    (solved : Solves θ c.subst) (Γ : Env) :
    ∃ θ' M σ, Fits θ' ∧ Solves θ' c.subst ∧ (t.bind θ').Equiv M ∧
      (∀ v, c.env.FreeIn v → (θ v).Equiv (θ' v)) ∧ Generalizes Γ M σ ∧
      Covers θ (c.generalize t) σ := by
  obtain ⟨k, regular⟩ := good.sane
  obtain ⟨n, below⟩ := exists_bound (Γ.entries.flatMap (fun entry => entry.2.ty.vars) ++
    (c.resolve t).vars.flatMap fun u => (θ u).vars)
  have outside (v : Var) (hv : Γ.FreeIn v) : v.id < n := by
    obtain ⟨entry, he, free⟩ := hv
    exact below v (List.mem_append_left _ (List.mem_flatMap.mpr ⟨entry, he, free.1⟩))
  have images (u : Var) (hu : u ∈ (c.resolve t).vars) (v : Var) (hv : v ∈ (θ u).vars) : v.id < n :=
    below v (List.mem_append_right _ (List.mem_flatMap.mpr ⟨u, hu, hv⟩))
  have quantified {v : Var} (hv : v ∈ (c.generalize t).vars) := (regular.mem_generalize ht).mp hv
  obtain ⟨σ, generalizes⟩ :=
    exists_generalizes Γ ((c.resolve t).bind (renamed θ (c.generalize t).vars n))
  refine ⟨through k c.subst (renamed θ (c.generalize t).vars n) θ, _, σ,
    fits.through (fits.renamed _ n) regular.respects, regular.solves_through, ?_, ?_, generalizes,
    covers_of_generalizes outside images generalizes⟩
  · rw [regular.bind_through (regular.known ht).kinded]
    exact (regular.resolve_equiv ht).bind_same _
  · rintro v ⟨entry, he, free⟩
    have flag := ((regular.env he).1 v free.1).1
    have image : c.subst.image v = c.apply (.var v) := (regular.idempotent.apply_var v).symm
    have solved_v : (θ v).Equiv ((c.subst.image v).bind θ) := by
      rw [image]
      exact solved.apply regular.idempotent regular.respects (Ty.kinded_var.mpr flag)
    refine solved_v.trans ?_
    rw [through, if_pos flag]
    refine .bind_congr _ fun w hw => ?_
    -- What the environment sees is not quantified.
    have visible : c.visible.has w = true := by
      refine good.has_visible.mpr ⟨entry, he, v, free, ?_⟩
      rw [← image]
      exact Ty.mem_ids.mpr ⟨w, hw, rfl⟩
    rw [renamed, if_neg fun hw => by rw [(quantified hw).2] at visible; cases visible]
    exact .refl _

end Polytype
