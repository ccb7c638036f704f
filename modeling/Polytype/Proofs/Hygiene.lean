import Polytype.Proofs.Walk.Moments
import Polytype.Proofs.Walk.Upkeep

/-!
# Hygiene of schemes

At every moment of every walk, all variables lie below the next one to hand out, and the quantified
variables of the schemes in scope are neither bound nor free in what the environment holds
(`visits_tidy`). The walk also holds types outside the environment, and they may well share variables
with it. What keeps them away from a scheme is that generalizing leaves out all that the environment
can see, and that each statement starts from nothing but the environment.
-/

namespace Polytype

variable {α β γ : Type} {c : Context} {H : Set Var}

/-! ## Tidy contexts -/

/-- What a context and the types held beside it are like at all times. -/
structure Tidy (c : Context) (held : List Ty) : Prop where
  subst : ∀ entry ∈ c.subst.entries, entry.1.id < c.nextVar ∧ ∀ n ∈ entry.2.ids, n < c.nextVar
  env : ∀ entry ∈ c.env.entries,
    (∀ v ∈ entry.2.vars, v.id < c.nextVar) ∧ ∀ n ∈ entry.2.ty.ids, n < c.nextVar
  held : ∀ t ∈ held, ∀ n ∈ t.ids, n < c.nextVar
  quantified : ∀ entry ∈ c.env.entries, ∀ q ∈ entry.2.vars, c.subst.binds q = false ∧
    ∀ other ∈ c.env.entries, (c.subst.applyScheme other.2).freeVars.has q = false

theorem Ty.Over.lt {k : Nat → Bool} {m n : Nat} {t : Ty} (h : t.Over (Known k n)) (hm : m ∈ t.ids) :
    m < n := by
  obtain ⟨v, hv, rfl⟩ := Ty.mem_ids.mp hm
  exact (h v hv).2

theorem visible_of_freeVars {entry : String × Scheme} (he : entry ∈ c.env.entries) {v : Var}
    (h : (c.subst.applyScheme entry.2).freeVars.has v = true) : c.visible.has v = true := by
  rw [Scheme.freeVars, VarSet.has_minus, Bool.and_eq_true, Bool.not_eq_true', has_freeVars,
    VarSet.has_iff] at h
  obtain ⟨⟨w, hw, same⟩, free⟩ := h
  refine has_visible.mpr ⟨entry, he, w, hw, same, fun q hq eq => ?_⟩
  have bound : VarSet.has entry.2.vars v = true := VarSet.has_iff.mpr ⟨q, hq, eq⟩
  exact Bool.false_ne_true (free.symm.trans bound)

theorem Good.unseen (good : Good c H) {entry : String × Scheme} (he : entry ∈ c.env.entries) {q : Var}
    (hq : q ∈ entry.2.vars) : c.visible.has q = false := by
  rw [Bool.eq_false_iff]
  intro seen
  obtain ⟨other, ho, w, free, mem⟩ := good.has_visible.mp seen
  exact (good.hygienic entry he q hq).2.env ho free q.id mem rfl

theorem Good.tidy (good : Good c ∅) (sane : Sane c H) {held : List Ty}
    (overH : ∀ t ∈ held, t.Over H) : Tidy c held := by
  obtain ⟨k, regular⟩ := sane
  refine ⟨fun entry he => ?_, fun entry he => ?_, fun t ht n hn => ?_, fun entry he q hq => ⟨?_, ?_⟩⟩
  · have bound : entry.1.id ∈ c.subst.keys :=
      Subst.mem_keys.mpr ⟨entry.1, List.mem_map_of_mem he, rfl⟩
    exact ⟨regular.keys bound, regular.range (Subst.find?_of_mem regular.increasing he)⟩
  · obtain ⟨known, quantified⟩ := regular.env he
    exact ⟨fun v hv => (known v (quantified v hv)).2, fun n hn => known.lt hn⟩
  · exact (regular.known (overH t ht)).lt hn
  · rw [Bool.eq_false_iff]
    exact fun bound => (good.hygienic entry he q hq).1 (Subst.binds_iff.mp bound)
  · intro other ho
    rw [Bool.eq_false_iff]
    intro free
    exact Bool.false_ne_true ((good.unseen he hq).symm.trans (visible_of_freeVars ho free))

/-! ## Parts and pieces are safe -/

namespace Walk

/-- Contexts stay good, and the types in what is found are at hand. -/
structure Safe (types : β → List Ty) (m : Walk β) : Prop where
  good {c : Context} (h : Good c ∅) : Good (m.run c).2 ∅
  traced (c : Context) (H : Set Var) : Traced m c H fun b _ H' => ∀ t ∈ types b, t.Over H'

theorem Safe.of_steady {types : β → List Ty} {m : Walk β}
    (h : ∀ c H, Steady m c H fun b H' => ∀ t ∈ types b, t.Over H') : Safe types m where
  good good := (h _ ∅).good good
  traced c H := Traced.mono (h c H) fun _ _ _ _ overH => overH.2

theorem Noted.types {nodes : List (Node Verdict)} (h : Noted H nodes) :
    ∀ t ∈ notedTypes nodes, t.Over H := by
  intro t ht
  obtain ⟨n, hn, ht⟩ := List.mem_flatMap.mp ht
  refine h n hn t ?_
  cases note : n.note with
  | typed u =>
    rw [note] at ht
    rw [List.mem_singleton.mp ht]
  | pending | untypable =>
    rw [note] at ht
    cases ht

theorem over_toList {o : Option Ty} (h : ∀ t ∈ o, t.Over H) : ∀ t ∈ o.toList, t.Over H :=
  fun t ht => h t (Option.mem_toList.mp ht)

theorem overs_mono {ts : List Ty} {H' : Set Var} (h : ∀ t ∈ ts, t.Over H) (sub : H ⊆ H') :
    ∀ t ∈ ts, t.Over H' := fun t ht => (h t ht).mono sub

theorem enterTest_safe (construct : Construct) (source : String) (pos : Position) (test : Expr α) :
    Safe (Piece.expr test).types (enterTest construct source pos test) := by
  refine .of_steady fun c H => .bind (infer_traced.forExpr test c H) fun r c₁ H₁ _ _ h => ?_
  refine .bind (.ite (fun _ => .pure trivial) fun _ => checkTest_steady _ _ _ h.1)
    fun _ c₂ H₂ _ sub _ => .pure (overs_mono ?_ sub)
  exact List.forall_mem_cons.mpr ⟨h.1, h.2.1.types⟩

theorem inferExprs_safe (es : List (Expr α)) : Safe argTypes (inferExprs es) := by
  refine .of_steady fun c H => Traced.mono (inferExprs_steady es fun e _ => infer_traced.forExpr e) ?_
  exact fun _ _ _ _ h => ⟨h.1, List.forall_mem_append.mpr ⟨h.2.1, h.2.2.1.types⟩⟩

theorem enterParams_safe (ps : List (Name α)) : Safe paramTypes (enterParams ps) where
  good good := by
    obtain ⟨H, good, _⟩ := good_params good ps
    exact good.mono (Set.empty_subset _)
  traced c H := .bind push_traced fun _ _ _ _ _ => (bindParams_traced ps).mono fun _ _ _ _ h =>
    List.forall_mem_append.mpr ⟨h.2.1, (noted_params h.2.2.1).types⟩

theorem enterStmts_safe (body earlier : List (Stmt α)) : Safe stmtTypes (enterStmts body earlier) where
  good good := good_body body earlier good
  traced c H := by
    refine .bind push_traced fun _ _ _ _ _ => .bind (hoist_traced body) fun _ _ _ _ _ => ?_
    refine (inferStmts_traced earlier fun s _ => infer_traced.forStmt s).mono fun _ _ _ _ h => ?_
    exact List.forall_mem_append.mpr ⟨over_toList h.2.1, h.2.2.1.types⟩

variable {p q : Piece α} {types : β → List Ty} {types' : γ → List Ty} {m : Walk β} {m' : Walk γ}

theorem Safe.frame (h : Safe types m) (frame : Nat → β → Frame p q)
    (eq : ∀ before b, (frame before b).types = types b) :
    Safe Frame.types (do
      let before ← errorCount
      let b ← m
      return frame before b) where
  good good := h.good good
  traced c H := by
    refine .bind errorCount_steady fun before c₁ H₁ _ _ => ?_
    refine .bind (h.traced c₁ H₁) fun b c₂ H₂ _ found => .pure ?_
    rw [eq]
    exact found

theorem Safe.frame₂ (h : Safe types m) (h' : Safe types' m') (frame : Nat → β → γ → Frame p q)
    (eq : ∀ before b b', (frame before b b').types = types b ++ types' b') :
    Safe Frame.types (do
      let before ← errorCount
      let b ← m
      let b' ← m'
      return frame before b b') where
  good good := h'.good (h.good good)
  traced c H := by
    refine .bind errorCount_steady fun before c₁ H₁ _ _ => ?_
    refine .bind (h.traced c₁ H₁) fun b c₂ H₂ _ first => ?_
    refine .bind (h'.traced c₂ H₂) fun b' c₃ H₃ sub second => .pure ?_
    rw [eq]
    exact List.forall_mem_append.mpr ⟨overs_mono first sub, second⟩

end Walk

open Walk

theorem Piece.safe (p : Piece α) : Safe p.types p.walk := by
  cases p with
  | program p =>
    refine .of_steady fun c H => Traced.mono (inferProgram_steady p) fun _ _ _ _ h => ⟨h.1, ?_⟩
    exact h.2.1.types
  | stmt s =>
    refine ⟨fun good => good_stmt s good, fun c H => ?_⟩
    refine (infer_traced.forStmt s c H).mono fun _ _ _ _ h => ?_
    exact List.forall_mem_append.mpr ⟨over_toList h.2.1, h.2.2.1.types⟩
  | expr e =>
    refine .of_steady fun c H => Traced.mono (infer_traced.forExpr e c H) fun _ _ _ _ h => ⟨h.1, ?_⟩
    exact List.forall_mem_cons.mpr ⟨h.2.1, h.2.2.1.types⟩
  | block b =>
    refine .of_steady fun c H => Traced.mono (infer_traced.forBlock b c H) fun _ _ _ _ h => ⟨h.1, ?_⟩
    exact List.forall_mem_append.mpr ⟨over_toList h.2.1, h.2.2.1.types⟩
  | branch b =>
    refine .of_steady fun c H => Traced.mono (infer_traced.forIf b c H) fun _ _ _ _ h => ⟨h.1, ?_⟩
    exact List.forall_mem_append.mpr ⟨over_toList h.2.1, h.2.2.1.types⟩
  | alternate a =>
    refine .of_steady fun c H => Traced.mono (infer_traced.forAlternate a c H) fun _ _ _ _ h => ⟨h.1, ?_⟩
    exact List.forall_mem_append.mpr ⟨over_toList h.2.1, h.2.2.1.types⟩

theorem Part.safe {p q : Piece α} {enter : Walk (Frame p q)} (h : Part enter) :
    Safe Frame.types enter := by
  cases h with
  | right tag op l r => exact (Piece.expr l).safe.frame (.right tag op l r) fun _ _ => rfl
  | consequent tag t c a =>
    exact (enterTest_safe _ _ _ t).frame (.consequent tag t c a) fun _ _ => rfl
  | alternate tag t c a =>
    exact (enterTest_safe _ _ _ t).frame₂ (Piece.expr c).safe (.alternate tag t c a) fun _ _ _ => rfl
  | arg tag f earlier e later =>
    exact (Piece.expr f).safe.frame₂ (inferExprs_safe earlier) (.arg tag f earlier e later)
      fun _ _ _ => rfl
  | arrow tag ps body => exact (enterParams_safe ps).frame (.arrow tag ps body) fun _ _ => rfl
  | arrowBlock tag ps body =>
    exact (enterParams_safe ps).frame (.arrowBlock tag ps body) fun _ _ => rfl
  | function tag n ps body =>
    exact (enterParams_safe ps).frame (.function tag n ps body) fun _ _ => rfl
  | stmt tag earlier s later =>
    exact (enterStmts_safe _ earlier).frame (.stmt tag earlier s later) fun _ _ => rfl
  | branchConsequent tag t c a =>
    exact (enterTest_safe _ _ _ t).frame (.branchConsequent tag t c a) fun _ _ => rfl
  | branchAlternate tag t c a =>
    exact (enterTest_safe _ _ _ t).frame₂ (Piece.block c).safe (.branchAlternate tag t c a)
      fun _ _ _ => rfl
  | toplevel earlier s later =>
    refine ⟨(enterStmts_safe _ earlier).good, fun c H => ?_⟩
    exact .bind ((enterStmts_safe _ earlier).traced c H) fun _ _ _ _ found => .pure found
  | ifElse | blockStmt | exprStmt | otherwise | elseIf =>
    exact .of_steady fun _ _ => .pure fun _ ht => absurd ht List.not_mem_nil
  | _ =>
    -- The frames that are left hold the number of errors alone.
    exact .of_steady fun _ _ => .bind errorCount_steady fun _ _ _ _ _ _ =>
      .pure fun _ ht => absurd ht List.not_mem_nil

/-! ## All moments -/

theorem Visits.reach {p : Program α} {c₀ : Context} {q : Piece α} {stack : Stack p q}
    (visit : Visits p c₀ q c stack) (start : Sane c₀ H) :
    ∃ H', Reach (c₀, H) (c, H') ∧ ∀ t ∈ stack.types, t.Over H' := by
  induction visit with
  | start => exact ⟨H, .refl, fun _ ht => absurd ht List.not_mem_nil⟩
  | part _ part ih =>
    obtain ⟨H₁, before, overs⟩ := ih
    obtain ⟨H', reach, found⟩ := part.safe.traced _ H₁ (before.sane start)
    exact ⟨H', before.trans reach,
      List.forall_mem_append.mpr ⟨overs_mono overs reach.held_subset, found⟩⟩

theorem Visits.safe {p : Program α} {c₀ : Context} {q : Piece α} {stack : Stack p q}
    (visit : Visits p c₀ q c stack) (start : Good c₀ ∅) :
    Good c ∅ ∧ ∃ H, Reach (c₀, ∅) (c, H) ∧ ∀ t ∈ stack.types, t.Over H := by
  refine ⟨?_, visit.reach start.sane⟩
  induction visit with
  | start => exact start
  | part _ part ih => exact part.safe.good ih

/-- The walk over any program, in a context that has been used for any programs before, comes to each
piece of it in a tidy context and leaves a tidy one. -/
theorem visits_tidy {chapter : Chapter} {c₀ : Context} (used : Used chapter c₀) {p : Program α}
    {q : Piece α} {stack : Stack p q} (visit : Visits p c₀ q c stack) :
    (inferProgram p).run c₀ = (q.walk >>= stack.resume).run c ∧ Tidy c stack.types ∧
      Tidy (q.walk.run c).2 (stack.types ++ q.types (q.walk.run c).1) := by
  obtain ⟨good, H, before, overs⟩ := visit.safe used.ready.good
  have sane : Sane c H := before.sane used.ready.good.sane
  obtain ⟨H', reach, found⟩ := q.safe.traced c H sane
  have overs' : ∀ t ∈ stack.types ++ q.types (q.walk.run c).1, t.Over H' :=
    List.forall_mem_append.mpr ⟨overs_mono overs reach.held_subset, found⟩
  exact ⟨visit.run_eq, good.tidy sane overs, (q.safe.good good).tidy (reach.sane sane) overs'⟩

/-- A function that returns an identity, and generalizes another one after that. -/
def returning : Program Unit :=
  let tag : Tag Unit := ⟨{}, ()⟩
  let name (x : String) : Name Unit := ⟨tag, x⟩
  let identity (x : String) : Expr Unit := .arrow tag [name x] (.name (name x))
  ⟨[.declare tag .constant (name "outer") (.arrowBlock tag [] ⟨tag,
    [.ret tag (some (identity "x")), .declare tag .constant (name "f") (identity "y"),
     .expr (.call tag (.name (name "f")) [.name (name "f")])]⟩)]⟩

/-- The last statement of the function, with the returned type at hand, when the program is analysed
for the second time. -/
theorem visits_tidy_returning : ∃ (q : Piece Unit) (c : Context) (stack : Stack returning q),
    (Used .one (analyse returning (Context.new .one)).2 ∧
      Visits returning (analyse returning (Context.new .one)).2 q c stack) ∧
    (inferProgram returning).run (analyse returning (Context.new .one)).2 =
      (q.walk >>= stack.resume).run c ∧
    Tidy c stack.types ∧ Tidy (q.walk.run c).2 (stack.types ++ q.types (q.walk.run c).1) := by
  have used : Used .one (analyse returning (Context.new .one)).2 := .single (.analyse returning _)
  have begun := @Visits.start _ returning (analyse returning (Context.new .one)).2
  have visit := Visits.part (.part (.part (.part begun (.toplevel [] _ [])) (.declare _ _ _ _))
    (.arrowBlock _ _ _)) (.stmt _ [_, _] _ [])
  exact ⟨_, _, _, ⟨used, visit⟩, visits_tidy used visit⟩

end Polytype
