import Polytype.Proofs.Collapse
import Polytype.Proofs.Flags

/-!
# When a trial succeeds

Two types may have a most general unifier that leaves all visible variables alone (`Sparing`). A trial
to unify them without binding anything visible looks at one unifier only, the one that unification
finds. Of two variables that are to be the same unification binds one, and which one depends on the
order of the types and not on what the environment sees. So it may bind a visible variable to one
that is not visible, where it could do the opposite (`Trades`).

That is the only way in which a trial can fail although the types have a sparing unifier
(`unifyUnseen_iff`). It does happen: the list type of a parameter is not recognized in a pair of a
head of any type and the parameter (`unifyUnseen_prepending`).
-/

namespace Polytype

variable {k : Nat → Bool} {c : Context} {H : Set Var} {a b t : Ty} {f : Subst} {σ θ : Var → Ty}
  {chapter : Chapter}

/-! ## Most general unifiers -/

/-- `σ` makes the two types equivalent, and every other assignment that does so is an instance of it. -/
structure MostGeneral (σ : Var → Ty) (a b : Ty) : Prop where
  fits : Fits σ
  unifies : Ty.Equiv (a.bind σ) (b.bind σ)
  general {θ : Var → Ty} (hθ : Fits θ) (eqv : Ty.Equiv (a.bind θ) (b.bind θ)) :
    ∃ δ, Fits δ ∧ ∀ v, Ty.Equiv (θ v) ((σ v).bind δ)

theorem MostGeneral.symm (h : MostGeneral σ a b) : MostGeneral σ b a where
  fits := h.fits
  unifies := h.unifies.symm
  general hθ eqv := h.general hθ eqv.symm

/-- The substitution as an assignment. Copies of a bound variable with the other flag count as other
variables. -/
def Subst.assignment (s : Subst) (v : Var) : Ty := if v ∈ s.domain then s.image v else .var v

theorem commit_empty (ha : a.Kinded k) (hb : b.Kinded k) (found : unify a b = .ok f) :
    Commit k .empty a b f :=
  ⟨Unify.idempotent_empty, .empty, ha, hb, by rwa [Subst.apply_empty, Subst.apply_empty]⟩

theorem solves_empty : Solves θ .empty := fun _ hv => by cases hv

theorem solves_found_iff (ha : a.Kinded k) (hb : b.Kinded k) (found : unify a b = .ok f)
    (hθ : Fits θ) : Solves θ f ↔ Ty.Equiv (a.bind θ) (b.bind θ) := by
  have commit := commit_empty ha hb found
  constructor
  · intro solved
    exact commit.equates (commit.solves_compose.mpr ⟨solves_empty, solved⟩)
  · intro eqv
    obtain ⟨f', commit', solved⟩ :=
      exists_commit Unify.idempotent_empty .empty ha hb hθ solves_empty eqv
    obtain rfl : f = f' := Except.ok.inj (commit.found.symm.trans commit'.found)
    exact (commit.solves_compose.mp solved).2

theorem Subst.Idempotent.solves_assignment (h : f.Idempotent) : Solves f.assignment f := by
  -- A bound variable does not occur in the types of the substitution, so these stay as they are.
  intro v hv
  have stays : (f.image v).bind f.assignment = f.image v := by
    refine (Ty.bind_congr _ fun w hw => if_neg fun bound => ?_).trans (Ty.bind_var _)
    exact Finset.disjoint_left.mp (h v _ (Subst.find?_of_mem_domain hv))
      (Ty.mem_ids.mpr ⟨w, hw, rfl⟩) (Subst.mem_keys.mpr ⟨w, bound, rfl⟩)
  rw [Subst.assignment, if_pos hv, stays]
  exact .refl _

theorem Subst.Respects.fits_assignment (h : f.Respects k) : Fits f.assignment := by
  intro v addable
  rw [Subst.assignment]
  split
  next hv =>
    exact h.addable (Subst.find?_of_mem_domain hv) ((h.domain hv).symm.trans addable)
  next => exact .inr (.inr ⟨v, rfl, addable⟩)

theorem mostGeneral_of_found (ha : a.Kinded k) (hb : b.Kinded k) (found : unify a b = .ok f) :
    MostGeneral f.assignment a b := by
  have commit := commit_empty ha hb found
  have fits := commit.foundRespects.fits_assignment
  refine ⟨fits, (solves_found_iff ha hb found fits).mp commit.foundIdempotent.solves_assignment,
    fun {θ} hθ eqv => ⟨θ, hθ, fun v => ?_⟩⟩
  rw [Subst.assignment]
  split
  next hv => exact (solves_found_iff ha hb found hθ).mpr eqv v hv
  next => exact .refl _

/-! ## Sparing unifiers -/

/-- What is known of the types has a most general unifier that binds no visible variable. -/
def Sparing (c : Context) (a b : Ty) : Prop :=
  ∃ σ, MostGeneral σ (c.apply a) (c.apply b) ∧ ∀ v, c.visible.has v = true → σ v = .var v

/-- Unification binds a visible variable to one that is not visible. -/
def Trades (c : Context) (a b : Ty) : Prop :=
  ∃ f, unify (c.apply a) (c.apply b) = .ok f ∧ ∃ v ∈ f.domain, ∃ w, f.image v = .var w ∧
    c.visible.has v = true ∧ c.visible.has w = false

theorem Sparing.symm (h : Sparing c a b) : Sparing c b a := by
  obtain ⟨σ, general, spares⟩ := h
  exact ⟨σ, general.symm, spares⟩

theorem sparing_comm : Sparing c a b ↔ Sparing c b a := ⟨.symm, .symm⟩

theorem Ty.eq_var_of_bind {v : Var} (h : Ty.Equiv (.var v) (t.bind σ)) : ∃ w, t = .var w := by
  cases t with
  | var w => exact ⟨w, rfl⟩
  | _ => cases h.shape_eq

namespace Regular

/-- A unifier that spares `v` solves what was found. So a binding of `v` can only be a variable that
the unifier makes `v` again. -/
theorem var_of_spared (h : Regular k c H) (ha : a.Over H) (hb : b.Over H)
    (found : unify (c.apply a) (c.apply b) = .ok f) (general : MostGeneral σ (c.apply a) (c.apply b))
    {v : Var} (hv : v ∈ f.domain) (spared : σ v = .var v) :
    ∃ w, f.image v = .var w ∧ Ty.Equiv (.var v) (σ w) := by
  have solved : Solves σ f :=
    (solves_found_iff (h.kinded_apply ha) (h.kinded_apply hb) found general.fits).mpr general.unifies
  have eqv := solved v hv
  rw [spared] at eqv
  obtain ⟨w, image⟩ := Ty.eq_var_of_bind eqv
  rw [image] at eqv
  exact ⟨w, image, eqv⟩

theorem exists_found (h : Regular k c H) (ha : a.Over H) (hb : b.Over H) (sparing : Sparing c a b) :
    ∃ f, unify (c.apply a) (c.apply b) = .ok f := by
  obtain ⟨σ, general, _⟩ := sparing
  obtain ⟨f, commit, _⟩ := exists_commit Unify.idempotent_empty .empty (h.kinded_apply ha)
    (h.kinded_apply hb) general.fits solves_empty general.unifies
  have found := commit.found
  rw [Subst.apply_empty, Subst.apply_empty] at found
  exact ⟨f, found⟩

theorem unseen_of_sparing (h : Regular k c H) (ha : a.Over H) (hb : b.Over H)
    (sparing : Sparing c a b) (steady : ¬Trades c a b)
    (found : unify (c.apply a) (c.apply b) = .ok f) {v : Var} (hv : v ∈ f.domain) :
    c.visible.has v = false := by
  obtain ⟨σ, general, spares⟩ := sparing
  rw [Bool.eq_false_iff]
  intro seen
  obtain ⟨w, image, eqv⟩ := h.var_of_spared ha hb found general hv (spares v seen)
  cases seen' : c.visible.has w with
  | false => exact steady ⟨f, found, v, hv, w, image, seen, seen'⟩
  | true =>
    rw [spares w seen'] at eqv
    have same : v = w := eqv.var_inv
    have bound : f.find? v = some (.var v) := by rw [Subst.find?_of_mem_domain hv, image, ← same]
    have apart := (Unify.unify_bounded found).idempotent v _ bound
    rw [Ty.ids_var, Finset.disjoint_singleton_left] at apart
    exact apart (Subst.mem_keys.mpr ⟨v, hv, rfl⟩)

theorem unifyUnseen_eq_true_iff (h : Regular k c H) (ha : a.Over H) (hb : b.Over H) :
    ((Walk.unifyUnseen a b).run c).1 = true ↔ Sparing c a b ∧ ¬Trades c a b := by
  have ka := h.kinded_apply ha
  have kb := h.kinded_apply hb
  rw [Walk.unifyUnseen_eq_true_iff]
  constructor
  · rintro ⟨f, found, unseen⟩
    refine ⟨⟨f.assignment, mostGeneral_of_found ka kb found, fun v seen => if_neg fun hv => ?_⟩, ?_⟩
    · exact absurd seen (Bool.eq_false_iff.mp (unseen v hv))
    · rintro ⟨f', found', v, hv, _, _, seen, _⟩
      obtain rfl : f = f' := Except.ok.inj (found.symm.trans found')
      exact absurd seen (Bool.eq_false_iff.mp (unseen v hv))
  · rintro ⟨sparing, steady⟩
    obtain ⟨f, found⟩ := h.exists_found ha hb sparing
    exact ⟨f, found, fun v hv => h.unseen_of_sparing ha hb sparing steady found hv⟩

theorem traded (h : Regular k c H) (ha : a.Over H) (hb : b.Over H)
    (refused : ((Walk.unifyUnseen a b).run c).1 = false)
    (accepted : ((Walk.unifyUnseen b a).run c).1 = true) : Sparing c a b ∧ Trades c a b := by
  have sparing : Sparing c a b := ((h.unifyUnseen_eq_true_iff hb ha).mp accepted).1.symm
  refine ⟨sparing, ?_⟩
  by_contra steady
  rw [(h.unifyUnseen_eq_true_iff ha hb).mpr ⟨sparing, steady⟩] at refused
  cases refused

end Regular

/-! ## Flags -/

/-- Among the variables of what is known of the types, a visible one and one that is not visible
have different flags. -/
def Separated (c : Context) (a b : Ty) : Prop :=
  ∀ v ∈ (c.apply a).vars ++ (c.apply b).vars, ∀ w ∈ (c.apply a).vars ++ (c.apply b).vars,
    c.visible.has v = true → c.visible.has w = false → v.addable ≠ w.addable

theorem Separated.symm (h : Separated c a b) : Separated c b a := by
  intro v hv w hw
  rw [List.mem_append, or_comm, ← List.mem_append] at hv hw
  exact h v hv w hw

namespace Regular

theorem mem_known (h : Regular k c H) (ha : a.Over H) (hb : b.Over H) {v : Var}
    (flag : v.addable = k v.id) (hv : v.id ∈ (c.apply a).ids ∪ (c.apply b).ids) :
    v ∈ (c.apply a).vars ++ (c.apply b).vars := by
  have mem {t : Ty} (ht : t.Over H) (hv : v.id ∈ (c.apply t).ids) : v ∈ (c.apply t).vars := by
    obtain ⟨w, hw, same⟩ := Ty.mem_ids.mp hv
    rwa [Var.eq_of_flags (h.kinded_apply ht w hw) flag same] at hw
  rw [List.mem_append]
  exact (Finset.mem_union.mp hv).imp (mem ha) (mem hb)

theorem not_trades (h : Regular k c H) (ha : a.Over H) (hb : b.Over H) (sparing : Sparing c a b)
    (separated : Separated c a b) : ¬Trades c a b := by
  rintro ⟨f, found, v, hv, w, image, seen, unseen⟩
  have solved := Unify.unify_bounded found
  have respects := unify_respects (h.kinded_apply ha) (h.kinded_apply hb) found
  have bound : f.find? v = some (.var w) := by rw [Subst.find?_of_mem_domain hv, image]
  have flag' : w.addable = k w.id := Ty.kinded_var.mp (respects.kinded bound)
  have among := solved.keys (Subst.mem_keys.mpr ⟨v, hv, rfl⟩)
  have among' : w.id ∈ (c.apply a).ids ∪ (c.apply b).ids :=
    (Finset.mem_sdiff.mp (solved.range bound (by simp))).1
  refine separated v (h.mem_known ha hb (respects.domain hv) among) w
    (h.mem_known ha hb flag' among') seen unseen ?_
  obtain ⟨σ, general, spares⟩ := sparing
  obtain ⟨w', image', eqv⟩ := h.var_of_spared ha hb found general hv (spares v seen)
  obtain rfl : w = w' := Ty.var.inj (image.symm.trans image')
  cases addable : v.addable with
  | true =>
    -- An addable variable is bound to what can be added.
    have fits : (Ty.var w).IsAddable :=
      respects.addable bound ((respects.domain hv).symm.trans addable)
    rcases fits with eq | eq | ⟨x, eq, hx⟩
    · cases eq
    · cases eq
    · rw [Ty.var.inj eq, hx]
  | false =>
    -- What the unifier makes of an addable variable is no plain one.
    symm
    rw [Bool.eq_false_iff]
    intro addable'
    rcases general.fits w addable' with eq | eq | ⟨x, eq, hx⟩ <;> rw [eq] at eqv
    · cases eqv.shape_eq
    · cases eqv.shape_eq
    · rw [show v = x from eqv.var_inv, hx] at addable
      cases addable

end Regular

/-! ## Trials at any time -/

/-- A context that has come of a new one, and the variables handed out by then. What analysing a
program does is a run of acts (`Moment.operated`), and so is what else can be asked of a context,
apart from its errors, which anyone may report or take. -/
inductive Operated (chapter : Chapter) : Context → Set Var → Prop
  | new : Operated chapter (Context.new chapter) (Prelude.vars chapter)
  | act {c c' : Context} {H H' : Set Var} (h : Operated chapter c H) (act : Act (c, H) (c', H')) :
      Operated chapter c' H'
  | errors {c : Context} {H : Set Var} (h : Operated chapter c H) (errors : List TypeError) :
      Operated chapter { c with errors } H

theorem Operated.sane (h : Operated chapter c H) : Sane c H := by
  induction h with
  | new => exact Prelude.new_regular chapter
  | act _ act ih =>
    obtain ⟨k, regular⟩ := ih
    obtain ⟨k', regular', _⟩ := act.regular regular
    exact ⟨k', regular'⟩
  | errors _ errors ih =>
    obtain ⟨k, regular⟩ := ih
    exact ⟨k, { regular with }⟩

theorem Operated.reach {x : Context × Set Var} (h : Operated chapter c H) (run : Reach (c, H) x) :
    Operated chapter x.1 x.2 := by
  induction run with
  | refl => exact h
  | tail _ act ih => exact ih.act act

theorem Moment.operated {kept : List Ty} (moment : Moment chapter c kept) :
    ∃ H, Operated chapter c H ∧ ∀ t ∈ kept, t.Over H := by
  obtain ⟨H, run, overs⟩ := moment.reach
  exact ⟨H, Operated.new.reach run, overs⟩

theorem Walk.collapseList_eq_iff {head element : Ty} :
    ((collapseList (.pair head (.list element))).run c).1 = .pair head (.list element) ↔
      ((unifyUnseen element head).run c).1 = false := by
  rcases unifyUnseen_cases element head c with tried | ⟨c', _, tried⟩
  · rw [collapseList_pair, run_bind, tried]
    exact ⟨fun _ => rfl, fun _ => rfl⟩
  · rw [collapseList_of_unifyUnseen tried, tried]
    exact ⟨nofun, nofun⟩

/-- When a trial succeeds, whether it depends on the order of the types, and when it succeeds in both
orders exactly if there is a sparing unifier. For the last it is enough that no two variables could
be traded. A pair of a head and a list becomes a list exactly if the trial of element and head
succeeds. -/
theorem unifyUnseen_iff (h : Operated chapter c H) (ha : a.Over H) (hb : b.Over H) :
    let tried := ((Walk.unifyUnseen a b).run c).1
    let turned := ((Walk.unifyUnseen b a).run c).1
    (tried = true ↔ Sparing c a b ∧ ¬Trades c a b) ∧
      (tried = turned ↔ (Sparing c a b → (Trades c a b ↔ Trades c b a))) ∧
      ((tried = true ↔ Sparing c a b) ∧ (turned = true ↔ Sparing c a b) ↔
        (Sparing c a b → ¬Trades c a b ∧ ¬Trades c b a)) ∧
      (Separated c a b → tried = turned ∧ (tried = true ↔ Sparing c a b)) ∧
      (((Walk.collapseList (.pair b (.list a))).run c).1 = .pair b (.list a) ↔ tried = false) := by
  intro tried turned
  obtain ⟨k, regular⟩ := h.sane
  have there : tried = true ↔ Sparing c a b ∧ ¬Trades c a b := regular.unifyUnseen_eq_true_iff ha hb
  have back : turned = true ↔ Sparing c a b ∧ ¬Trades c b a := by
    rw [sparing_comm]
    exact regular.unifyUnseen_eq_true_iff hb ha
  refine ⟨there, ?_, ?_, fun separated => ?_, Walk.collapseList_eq_iff⟩
  · rw [Bool.eq_iff_iff, there, back]
    grind
  · rw [there, back]
    grind
  · have steady : Sparing c a b → ¬Trades c a b ∧ ¬Trades c b a := fun sparing =>
      ⟨regular.not_trades ha hb sparing separated,
        regular.not_trades hb ha sparing.symm separated.symm⟩
    rw [Bool.eq_iff_iff, there, back]
    grind

/-- A new context that has handed out two variables. The first one is the type of a name. -/
def watched : Context :=
  let (v, c) := (Context.new .one).freshVar false
  let (_, c) := c.freshVar false
  { c with env := c.env.bind "x" (.mono (.var v)) }

/-- The second variable can be bound to the first one, and not the other way round. -/
theorem unifyUnseen_iff_watched : ∃ (H : Set Var) (seen unseen : Ty),
    (Operated .one watched H ∧ seen.Over H ∧ unseen.Over H) ∧
      ((Walk.unifyUnseen unseen seen).run watched).1 = true ∧
      ((Walk.unifyUnseen seen unseen).run watched).1 = false ∧
      (Sparing watched unseen seen ∧ ¬Trades watched unseen seen) ∧ Trades watched seen unseen := by
  let v : Var := ((Context.new .one).freshVar false).1
  let w : Var := (((Context.new .one).freshVar false).2.freshVar false).1
  have made := (Operated.new : Operated .one _ _).act (.fresh _ _ false) |>.act (.fresh _ _ false)
  have seen : (Ty.var v).Over (insert w (insert v (Prelude.vars .one))) :=
    Ty.over_var.mpr (.inr (.inl rfl))
  have unseen : (Ty.var w).Over (insert w (insert v (Prelude.vars .one))) :=
    Ty.over_var.mpr (.inl rfl)
  have operated : Operated .one watched (insert w (insert v (Prelude.vars .one))) := by
    refine made.act (.scope fun entry he => (Env.mem_entries_bind he).imp_right fun eq => ?_)
    rw [eq]
    exact ⟨seen, fun v hv => absurd hv List.not_mem_nil⟩
  obtain ⟨tried, turned⟩ : ((Walk.unifyUnseen (.var w) (.var v)).run watched).1 = true ∧
      ((Walk.unifyUnseen (.var v) (.var w)).run watched).1 = false := by decide +kernel
  obtain ⟨there, order, _⟩ := unifyUnseen_iff operated unseen seen
  have sparing := there.mp tried
  refine ⟨_, _, _, ⟨operated, seen, unseen⟩, tried, turned, sparing, ?_⟩
  by_contra steady
  have same := order.mpr fun _ => iff_of_false sparing.2 steady
  rw [tried, turned] at same
  cases same

/-- A function that puts something of any type before the list that it is given. -/
def prepending : Program Unit :=
  let tag : Tag Unit := ⟨{}, ()⟩
  let get (x : String) : Expr Unit := .name ⟨tag, x⟩
  let call (f : String) (args : List (Expr Unit)) : Expr Unit := .call tag (get f) args
  ⟨[.function tag ⟨tag, "f"⟩ [⟨tag, "xs"⟩] ⟨tag,
    [.expr (call "is_null" [get "xs"]),
     .ret tag (some (call "pair" [call "error" [.text tag "empty"], get "xs"]))]⟩]⟩

/-- The element of the parameter is visible and the head is not. They could be unified by a binding of
the head, and the pair is not taken for a list. -/
theorem unifyUnseen_prepending :
    ∃ (c : Context) (kept : List Ty) (head element : Ty), Moment .two c kept ∧
      (∃ t ∈ kept, t.same (.pair head (.list element)) = true) ∧
      Sparing c element head ∧ Trades c element head ∧
      ((Walk.unifyUnseen element head).run c).1 = false ∧
      ((Walk.unifyUnseen head element).run c).1 = true ∧
      ((Walk.collapseList (.pair head (.list element))).run c).1 = .pair head (.list element) := by
  let head : Var := .plain 35
  let element : Var := .plain 29
  obtain ⟨c, kept, moment, ⟨t, ht, same, vars⟩, refused, accepted⟩ :
      ∃ (c : Context) (kept : List Ty), Moment .two c kept ∧
        (∃ t ∈ kept, t.same (.pair (.var head) (.list (.var element))) = true ∧
          t.vars = [head, element]) ∧
        ((Walk.unifyUnseen (.var element) (.var head)).run c).1 = false ∧
        ((Walk.unifyUnseen (.var head) (.var element)).run c).1 = true := by
    have begun := @Visits.start _ prepending (Context.new .two)
    have call := Visits.part (.part (.part (.part begun (.toplevel [] _ [])) (.function _ _ _ _))
      (.stmt _ [_] _ [])) (.ret _ _)
    exact ⟨_, _, .leave .new call, by decide +kernel⟩
  obtain ⟨H, operated, overs⟩ := moment.operated
  obtain ⟨k, regular⟩ := operated.sane
  have held : head ∈ H := overs t ht head (by simp [vars])
  have held' : element ∈ H := overs t ht element (by simp [vars])
  obtain ⟨sparing, trades⟩ := regular.traded (Ty.over_var.mpr held') (Ty.over_var.mpr held) refused
    accepted
  exact ⟨c, kept, _, _, moment, ⟨t, ht, same⟩, sparing, trades, refused, accepted,
    Walk.collapseList_eq_iff.mpr refused⟩

end Polytype
