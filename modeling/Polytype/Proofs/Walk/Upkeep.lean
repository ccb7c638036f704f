import Polytype.Proofs.Prelude
import Polytype.Proofs.Walk.Contexts

/-!
# Contexts stay good

Whether it reports errors or not, inference keeps contexts good: a declaration that could be typed
binds a generalized type or one at hand, and one that could not binds a fresh quantified variable. A
context in use has been through any number of programs (`Used`), and all that is left of them lies
above the prelude (`Used.ready`).
-/

namespace Polytype

variable {α : Type} {c c' : Context} {H : Set Var}

/-! ## Declarations -/

theorem Good.generalize_fresh (good : Good c H) :
    (c.freshVar false).2.generalize (.var (c.freshVar false).1) =
      ⟨[(c.freshVar false).1], .var (c.freshVar false).1⟩ := by
  -- A variable that has just been handed out is seen nowhere, so it can be quantified.
  obtain ⟨k, regular⟩ := good.sane
  have unbound : c.subst.find? (c.freshVar false).1 = none :=
    Subst.find?_eq_none_iff.mpr fun bound => Nat.lt_irrefl _ (regular.keys bound)
  have known : (c.freshVar false).2.resolve (.var (c.freshVar false).1) =
      .var (c.freshVar false).1 := by
    show (c.subst.apply _).foldLists = _
    rw [Subst.apply_unbound unbound]
    rfl
  have unseen : (c.freshVar false).2.visible.has (c.freshVar false).1 = false := by
    rw [Bool.eq_false_iff]
    intro seen
    obtain ⟨entry, he, w, free, mem⟩ := (good.fresh false).good.has_visible.mp seen
    have below : (c.apply (.var w)).Over (Known k c.nextVar) :=
      regular.over_apply (Ty.over_var.mpr ((regular.env he).1 w free.1))
    obtain ⟨u, hu, same⟩ := Ty.mem_ids.mp mem
    have lt := (below u hu).2
    rw [same] at lt
    exact Nat.lt_irrefl _ lt
  rw [Context.generalize, known]
  show (⟨List.filter _ [_], _⟩ : Scheme) = _
  rw [List.filter_cons_of_pos (by rw [unseen]; rfl)]
  rfl

theorem Good.bindAny (good : Good c H) (name : String) :
    Good { (c.freshVar false).2 with
      env := c.env.bind name ⟨[(c.freshVar false).1], .var (c.freshVar false).1⟩ } ∅ := by
  rw [← good.generalize_fresh]
  exact (good.fresh false).good.generalize name (Ty.over_var.mpr (Set.mem_insert _ _))

namespace Walk

theorem good_rebind (good : Good c H) {t : Ty} (ht : t.Over H) (name : String) (binding : Binding)
    (before : Nat) :
    Good ((do
      modifyEnv (·.erase name)
      let after ← errorCount
      (if before < after then do
        let any ← modifyGet (·.freshVar false)
        bind name ⟨[any], .var any⟩
        return Verdict.untypable
      else do
        let c ← get
        bind name (declared binding c t)
        return .typed (declared binding c t).ty) : Walk Verdict).run c).2 ∅ := by
  have erased : Good { c with env := c.env.erase name } H :=
    good.drop fun _ => Env.mem_entries_erase
  rw [run_bind, run_bind]
  split
  · exact erased.bindAny name
  · exact good_declared good name binding ht rfl

theorem good_declare (good : Good c H) {t : Ty} (ht : t.Over H) (name : String) (binding : Binding)
    (source : String) (pos : Position) (before : Nat) :
    Good ((declare name binding source pos before t).run c).2 ∅ := by
  have checked : Steady (if c.errors.length = before then checkPlaceholder name binding source pos t
      else pure ()) c H fun _ _ => True :=
    .ite (fun _ => checkPlaceholder_steady _ _ _ _ ht) fun _ => .pure trivial
  obtain ⟨H₁, goes, _⟩ := checked.goes good
  rw [declare_eq, run_bind, run_bind]
  exact good_rebind goes.good (ht.mono goes.subset) name binding before

theorem good_params (good : Good c ∅) (ps : List (Name α)) :
    ∃ H, Good ((bindParams ps).run { c with env := c.env.push }).2 H ∧
      ∀ t ∈ ((bindParams ps).run { c with env := c.env.push }).1.1, t.Over H := by
  obtain ⟨H, _, good, overH⟩ := good.push.bindFresh (ps.map (·.text))
  rw [List.length_map] at overH
  rw [bindParams_run]
  exact ⟨H, good, overH⟩

theorem Steady.good {β : Type} {m : Walk β} {post : β → Set Var → Prop} (h : Steady m c ∅ post)
    (good : Good c ∅) : Good (m.run c).2 ∅ := by
  obtain ⟨_, goes, _⟩ := h.goes good
  exact goes.good.mono (Set.empty_subset _)

theorem good_stmt (s : Stmt α) (good : Good c ∅) : Good ((inferStmt s).run c).2 ∅ := by
  cases s with
  | declare tag keyword n e =>
    obtain ⟨H₁, goes, overH, _⟩ := (infer_traced.forExpr e c ∅).goes good
    rw [inferStmt, run_bind, run_bind, run_bind]
    exact good_declare goes.good overH _ _ _ _ _
  | function tag n ps body =>
    obtain ⟨H₁, good₁, overs⟩ := good_params good ps
    obtain ⟨H₂, goes, overH, _⟩ := (infer_traced.forBlock body _ H₁).goes good₁
    have lambda := Ty.over_func.mpr ⟨fun t ht => (overs t ht).mono goes.subset, returnTy_over overH⟩
    rw [inferStmt, run_bind, run_bind, run_bind, run_bind, run_bind, run_bind]
    exact good_declare goes.good.pop lambda _ _ _ _ _
  | ret tag e =>
    cases e with
    | none =>
      rw [inferStmt]
      exact good
    | some e =>
      rw [inferStmt]
      refine @Steady.good _ _ _ (fun _ _ => True)
        (.bind errorCount_steady fun before _ _ _ _ _ => ?_) good
      refine .bind (infer_traced.forExpr e _ _) fun r _ _ _ _ h => ?_
      exact .bind (settle_steady before h.1) fun _ _ _ _ _ _ => .pure trivial
  | ifElse b =>
    rw [inferStmt, run_bind]
    exact (infer_traced.forIf b c ∅).good good
  | block b =>
    rw [inferStmt, run_bind]
    exact (infer_traced.forBlock b c ∅).good good
  | expr e =>
    rw [inferStmt, run_bind]
    exact (infer_traced.forExpr e c ∅).good good

theorem good_stmts (ss : List (Stmt α)) (good : Good c ∅) : Good ((inferStmts ss).run c).2 ∅ := by
  induction ss generalizing c with
  | nil => exact good
  | cons s ss ih =>
    rw [inferStmts, run_bind]
    exact ih (good_stmt s good)

theorem good_body (body ss : List (Stmt α)) (good : Good c ∅) :
    Good ((do modifyEnv Env.push; hoist body; inferStmts ss).run c).2 ∅ := by
  obtain ⟨H, _, good, _⟩ := good.push.bindFresh (declaredNames body)
  rw [run_bind, run_bind, hoist_run]
  exact good_stmts ss (good.mono (Set.empty_subset _))

end Walk

/-! ## Contexts in use -/

/-- One use of a context: a program is analysed in it, or its errors are taken. -/
inductive Turn : Context → Context → Prop
  | analyse {α : Type} (p : Program α) (c : Context) : Turn c (analyse p c).2
  | takeErrors (c : Context) : Turn c c.takeErrors.2

/-- A context that was new once, and has been used ever since. -/
def Used (chapter : Chapter) (c : Context) : Prop :=
  Relation.ReflTransGen Turn (Context.new chapter) c

/-- Good, with the prelude for an environment, and the variables of the prelude untouched. -/
structure Ready (chapter : Chapter) (c : Context) : Prop where
  good : Good c ∅
  env : c.env = (Context.new chapter).env
  next : (Context.new chapter).nextVar ≤ c.nextVar
  keys {n : Nat} (hn : n ∈ c.subst.keys) : (Context.new chapter).nextVar ≤ n

namespace Ready

variable {chapter : Chapter}

theorem new : Ready chapter (Context.new chapter) where
  good := Prelude.new_good chapter
  env := rfl
  next := le_rfl
  keys hn := by cases hn

theorem closed (h : Ready chapter c) {m : Nat} (hm : m ≤ c.nextVar) :
    Closed {n | m ≤ n} c ∅ where
  fresh hn := hm.trans hn
  held hv := absurd hv (Set.notMem_empty _)
  env he v hv := by
    rw [h.env] at he
    exact absurd hv (Prelude.closed_new he v)

theorem analyse (h : Ready chapter c) (p : Program α) : Ready chapter (analyse p c).2 := by
  obtain ⟨H', goes, _⟩ := (Walk.inferProgram_steady p).goes h.good
  obtain ⟨_, stays⟩ := goes.reach.closed h.good.sane (h.closed h.next)
  exact ⟨goes.good.mono (Set.empty_subset _), goes.env.trans h.env,
    h.next.trans goes.reach.next_le, fun hn => (stays.keys hn).elim h.keys id⟩

theorem takeErrors (h : Ready chapter c) : Ready chapter c.takeErrors.2 := by
  obtain ⟨⟨k, regular⟩, hygienic⟩ := h.good
  refine ⟨⟨⟨k, { regular with }⟩, fun entry he q hq => ?_⟩, h.env, h.next, h.keys⟩
  obtain ⟨unbound, closed⟩ := hygienic entry he q hq
  exact ⟨unbound, { closed with }⟩

end Ready

theorem Used.ready {chapter : Chapter} (h : Used chapter c) : Ready chapter c := by
  induction h with
  | refl => exact .new
  | tail _ turn ih =>
    cases turn with
    | analyse p c => exact ih.analyse p
    | takeErrors c => exact ih.takeErrors

end Polytype
