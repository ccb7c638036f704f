import Polytype.Proofs.Walk.Course
import Polytype.Proofs.Walk.Trace

/-!
# Runs without errors

No function of the walk takes an error back (`Grows`). So a run that ends without errors has none at
any step, and all of error recovery drops out of it: `Clean` has one equation for each construct,
which says what a run without errors consists of.
-/

namespace Polytype

variable {α β γ : Type}

namespace Walk

variable {c c' : Context} {m m' : Walk β} {f : β → Walk γ}

/-! ## Errors stay -/

/-- No error is ever taken back. -/
class Grows (m : Walk β) : Prop where
  keeps (c : Context) : c.errors <+: (m.run c).2.errors

namespace Grows

instance of_changes [h : Changes Set.univ m] : Grows m := ⟨fun c => (h.course c).errors⟩

instance (priority := low) bind [Grows m] [∀ b, Grows (f b)] : Grows (m >>= f) :=
  ⟨fun c => (keeps (m := m) c).trans (keeps (m := f _) _)⟩

instance (priority := low) ite {p : Prop} [Decidable p] [Grows m] [Grows m'] :
    Grows (if p then m else m') := by
  split <;> infer_instance

end Grows

instance (name : String) (scheme : Scheme) : Changes Set.univ (bind name scheme) :=
  bind_changes (Set.mem_univ name) scheme

instance (name : String) : Changes Set.univ (modifyEnv (·.erase name)) :=
  erase_changes (Set.mem_univ name)

instance (problem : Problem) (pos : Position) : Grows (report problem pos) :=
  ⟨fun _ => List.prefix_append _ _⟩

instance (name : String) (pos : Position) : Changes Set.univ (report (.unboundName name) pos) :=
  report_changes _ pos fun _ => trivial

instance (e : UnifyError) (construct : Construct) (source : String) (problem : Problem) :
    Changes Set.univ (blame construct source problem e) := by
  cases e <;> unfold blame <;> infer_instance

instance (params operands : List Ty) (construct : Construct) (operator source : String)
    (pos : Position) (pairs : List (Ty × Ty)) :
    Grows (checkOperands params operands construct operator source pos pairs) := by
  induction pairs with
  | nil => exact @Grows.of_changes _ _ (.pure _)
  | cons pair rest ih =>
    refine @Grows.bind _ _ _ _ _ fun failed => ?_
    cases failed <;> dsimp only <;> infer_instance

instance (key operator source : String) (construct : Construct) (operands : List Ty)
    (pos : Position) : Grows (useOperator key operator source construct operands pos) := by
  unfold useOperator
  refine @Grows.bind _ _ _ _ _ fun t => ?_
  split <;> infer_instance

instance (body : List (Stmt α)) : Changes Set.univ (hoist body) :=
  hoist_changes body fun _ _ _ _ => trivial

instance (ps : List (Name α)) : Changes Set.univ (bindParams ps) :=
  bindParams_changes ps fun _ _ => trivial

instance (name : String) (binding : Binding) (source : String) (pos : Position) (before : Nat)
    (t : Ty) : Changes Set.univ (declare name binding source pos before t) :=
  declare_changes (Set.mem_univ name) binding source pos before t

instance (e : Expr α) : Changes Set.univ (inferExpr e) := infer_changes.forExpr e fun _ _ => trivial

instance (es : List (Expr α)) : Changes Set.univ (inferExprs es) :=
  inferExprs_changes es fun _ _ => inferInstance

instance (s : Stmt α) : Changes Set.univ (inferStmt s) := infer_changes.forStmt s fun _ _ => trivial

instance (ss : List (Stmt α)) : Changes Set.univ (inferStmts ss) :=
  inferStmts_changes ss fun _ _ => inferInstance

instance (b : Block α) : Changes Set.univ (inferBlock b) :=
  infer_changes.forBlock b fun _ _ => trivial

instance (b : If α) : Changes Set.univ (inferIf b) := infer_changes.forIf b fun _ _ => trivial

instance (a : Alternate α) : Changes Set.univ (inferAlternate a) :=
  infer_changes.forAlternate a fun _ _ => trivial

/-! ## Clean runs -/

/-- `m` runs from `c` to `c'` with the outcome `b`, and there are no errors. -/
def Clean (m : Walk β) (c : Context) (b : β) (c' : Context) : Prop :=
  m.run c = (b, c') ∧ c'.errors = []

theorem Clean.start [Grows m] {b : β} (h : Clean m c b c') : c.errors = [] := by
  have before := Grows.keeps (m := m) c
  rw [h.1, h.2] at before
  exact List.prefix_nil.mp before

theorem clean_bind [∀ b, Grows (f b)] {r : γ} :
    Clean (m >>= f) c r c' ↔ ∃ b c₁, Clean m c b c₁ ∧ Clean (f b) c₁ r c' := by
  constructor
  · intro h
    rw [Clean, run_bind] at h
    exact ⟨_, _, ⟨rfl, Clean.start (m := f _) h⟩, h⟩
  · rintro ⟨b, c₁, ⟨run, _⟩, h⟩
    rw [Clean, run_bind, run]
    exact h

theorem clean_bind_of_run {b : β} {c₁ : Context} {r : γ} (run : m.run c = (b, c₁)) :
    Clean (m >>= f) c r c' ↔ Clean (f b) c₁ r c' := by
  rw [Clean, run_bind, run]
  rfl

theorem clean_of_run {b r : β} {c₁ : Context} (run : m.run c = (b, c₁)) (errors : c₁.errors = c.errors) :
    Clean m c r c' ↔ r = b ∧ c' = c₁ ∧ c.errors = [] := by
  rw [Clean, run, Prod.mk.injEq]
  constructor
  · rintro ⟨⟨rfl, rfl⟩, clean⟩
    exact ⟨rfl, rfl, errors ▸ clean⟩
  · rintro ⟨rfl, rfl, clean⟩
    exact ⟨⟨rfl, rfl⟩, errors.trans clean⟩

theorem clean_pure {b r : β} : Clean (pure b : Walk β) c r c' ↔ r = b ∧ c' = c ∧ c.errors = [] :=
  clean_of_run rfl rfl

theorem clean_errorCount {n : Nat} : Clean errorCount c n c' ↔ n = 0 ∧ c' = c ∧ c.errors = [] := by
  have run : errorCount.run c = (c.errors.length, c) := rfl
  rw [clean_of_run run rfl]
  constructor
  · rintro ⟨rfl, rfl, clean⟩
    exact ⟨List.length_eq_zero_iff.mpr clean, rfl, clean⟩
  · rintro ⟨rfl, rfl, clean⟩
    exact ⟨(List.length_eq_zero_iff.mpr clean).symm, rfl, clean⟩

theorem clean_apply {t r : Ty} : Clean (apply t) c r c' ↔ r = c.apply t ∧ c' = c ∧ c.errors = [] :=
  clean_of_run rfl rfl

theorem clean_lookup {name : String} {found : Option Scheme} :
    Clean (lookup name) c found c' ↔ found = c.env.lookup name ∧ c' = c ∧ c.errors = [] :=
  clean_of_run rfl rfl

theorem clean_modifyEnv {f : Env → Env} {u : Unit} :
    Clean (modifyEnv f) c u c' ↔ c' = { c with env := f c.env } ∧ c.errors = [] := by
  have run : (modifyEnv f).run c = ((), { c with env := f c.env }) := rfl
  rw [clean_of_run run rfl, and_iff_right rfl]

theorem clean_instantiate {scheme : Scheme} {t : Ty} :
    Clean (instantiate scheme) c t c' ↔
      t = (c.instantiate scheme).1 ∧ c' = (c.instantiate scheme).2 ∧ c.errors = [] := by
  obtain ⟨_, n, same⟩ := instantiate_course (N := Set.univ) c scheme
  have errors : (c.instantiate scheme).2.errors = c.errors := by rw [same]
  exact clean_of_run rfl errors

theorem not_clean_report {problem : Problem} {pos : Position} {u : Unit} :
    ¬Clean (report problem pos) c u c' := by
  rintro ⟨run, clean⟩
  have run : c.report problem pos = c' := congrArg Prod.snd run
  rw [← run] at clean
  exact List.append_ne_nil_of_right_ne_nil _ (List.cons_ne_nil _ _) clean

theorem clean_settle {t : Ty} {r : Verdict × Ty} {n : Nat} :
    Clean (settle n t) c r c' ↔ r = (.typed t, t) ∧ c' = c ∧ c.errors = [] := by
  unfold settle
  simp only [clean_bind, clean_errorCount]
  constructor
  · rintro ⟨_, _, ⟨rfl, rfl, _⟩, h⟩
    exact clean_pure.mp h
  · rintro ⟨rfl, rfl, clean⟩
    exact ⟨0, c', ⟨rfl, rfl, clean⟩, clean_pure.mpr ⟨rfl, rfl, clean⟩⟩

theorem clean_equate {a b : Ty} :
    Clean (equate a b) c none c' ↔ c.unify a b = .ok c' ∧ c.errors = [] := by
  rw [Clean, equate_run, unify_eq_ok]
  cases Polytype.unify (c.apply a) (c.apply b) with
  | error e =>
    constructor
    · rintro ⟨⟨⟩, _⟩
    · rintro ⟨⟨_, ⟨⟩, _⟩, _⟩
  | ok f =>
    constructor
    · rintro ⟨⟨⟩, clean⟩
      exact ⟨⟨f, rfl, rfl⟩, clean⟩
    · rintro ⟨⟨_, ⟨⟩, rfl⟩, clean⟩
      exact ⟨rfl, clean⟩

/-! ## Names and checks -/

theorem clean_useName {name : String} {pos : Position} {t : Ty} :
    Clean (useName name pos) c t c' ↔ ∃ scheme, c.env.lookup name = some scheme ∧
      Clean (instantiate scheme) c t c' := by
  have run : (lookup name).run c = (c.env.lookup name, c) := rfl
  unfold useName
  rw [clean_bind_of_run run]
  cases c.env.lookup name with
  | none =>
    constructor
    · intro h
      obtain ⟨_, _, reported, _⟩ := clean_bind.mp h
      exact absurd reported not_clean_report
    · rintro ⟨_, ⟨⟩, _⟩
  | some scheme =>
    constructor
    · intro h
      exact ⟨scheme, rfl, h⟩
    · rintro ⟨_, ⟨⟩, h⟩
      exact h

theorem clean_unify {a b : Ty} {failed : UnifyError → Walk β} [Grows m]
    (reports : ∀ e c r c', ¬Clean (failed e) c r c') {r : β} :
    Clean (do
      match ← equate a b with
      | none => m
      | some e => failed e) c r c' ↔
      ∃ c₁, (c.unify a b = .ok c₁ ∧ c.errors = []) ∧ Clean m c₁ r c' := by
  have run := equate_run a b c
  cases found : Polytype.unify (c.apply a) (c.apply b) with
  | error e =>
    rw [found] at run
    rw [clean_bind_of_run run]
    constructor
    · intro h
      exact absurd h (reports _ _ _ _)
    · rintro ⟨c₁, ⟨unified, _⟩, _⟩
      obtain ⟨_, ok, _⟩ := unify_eq_ok.mp unified
      cases found.symm.trans ok
  | ok f =>
    rw [found] at run
    rw [clean_bind_of_run run]
    constructor
    · intro h
      exact ⟨_, ⟨unify_eq_ok.mpr ⟨f, found, rfl⟩, h.start⟩, h⟩
    · rintro ⟨c₁, ⟨unified, _⟩, h⟩
      obtain ⟨_, ok, rfl⟩ := unify_eq_ok.mp unified
      cases found.symm.trans ok
      exact h

theorem clean_check {a b : Ty} {failed : UnifyError → Walk Unit}
    (reports : ∀ e c u c', ¬Clean (failed e) c u c') {u : Unit} :
    Clean (do
      match ← equate a b with
      | none => return
      | some e => failed e) c u c' ↔ c.unify a b = .ok c' ∧ c.errors = [] := by
  rw [clean_unify reports]
  constructor
  · rintro ⟨c₁, h, rest⟩
    obtain ⟨-, rfl, -⟩ := clean_pure.mp rest
    exact h
  · intro h
    exact ⟨c', h, clean_pure.mpr ⟨rfl, rfl, (clean_equate.mpr h).2⟩⟩

theorem not_clean_bind_report {problem : β → Problem} {pos : Position} {u : Unit} :
    ¬Clean (m >>= fun b => report (problem b) pos) c u c' := by
  intro h
  obtain ⟨_, _, _, reported⟩ := clean_bind.mp h
  exact not_clean_report reported

theorem not_clean_report_bind {problem : Problem} {pos : Position} {f : Unit → Walk γ}
    [∀ u, Grows (f u)] {r : γ} : ¬Clean (report problem pos >>= f) c r c' := by
  intro h
  obtain ⟨_, _, reported, _⟩ := clean_bind.mp h
  exact not_clean_report reported

theorem clean_checkTest {construct : Construct} {source : String} {pos : Position} {test : Ty}
    {u : Unit} : Clean (checkTest construct source pos test) c u c' ↔
      c.unify test .boolean = .ok c' ∧ c.errors = [] :=
  clean_check fun _ _ _ _ => not_clean_bind_report

theorem clean_checkBranches {construct : Construct} {source : String} {pos : Position}
    {consequent alternate : Ty} {u : Unit} :
    Clean (checkBranches construct source pos consequent alternate) c u c' ↔
      c.unify consequent alternate = .ok c' ∧ c.errors = [] := by
  refine clean_check fun e _ _ _ h => ?_
  obtain ⟨_, _, _, h⟩ := clean_bind.mp h
  obtain ⟨_, _, _, h⟩ := clean_bind.mp h
  exact not_clean_bind_report h

theorem clean_checkSame {construct : Construct} {source : String} {pos : Position}
    {expected found : Ty} {u : Unit} :
    Clean (checkSame construct source pos expected found) c u c' ↔
      c.unify expected found = .ok c' ∧ c.errors = [] := by
  refine clean_check fun e _ _ _ h => ?_
  obtain ⟨_, _, _, h⟩ := clean_bind.mp h
  obtain ⟨_, _, _, h⟩ := clean_bind.mp h
  exact not_clean_bind_report h

section Operands

variable {params operands : List Ty} {construct : Construct} {operator source : String}
  {pos : Position}

theorem clean_checkOperands_nil {u : Unit} :
    Clean (checkOperands params operands construct operator source pos []) c u c' ↔
      c' = c ∧ c.errors = [] := by
  rw [checkOperands, clean_pure]
  exact ⟨fun h => h.2, fun h => ⟨rfl, h⟩⟩

theorem clean_checkOperands_cons {param operand : Ty} {rest : List (Ty × Ty)} {u : Unit} :
    Clean (checkOperands params operands construct operator source pos ((param, operand) :: rest))
      c u c' ↔ ∃ c₁, (c.unify param operand = .ok c₁ ∧ c.errors = []) ∧
        Clean (checkOperands params operands construct operator source pos rest) c₁ u c' := by
  refine clean_unify fun e _ _ _ h => ?_
  obtain ⟨_, _, _, h⟩ := clean_bind.mp h
  obtain ⟨_, _, _, h⟩ := clean_bind.mp h
  exact not_clean_bind_report h

theorem clean_useOperator {key : String} {r : Ty}
    (used : ∀ t c₁, Clean (useName key pos) c t c₁ → ∃ params result, t = .func params result) :
    Clean (useOperator key operator source construct operands pos) c r c' ↔
      ∃ params result c₁, Clean (useName key pos) c (.func params result) c₁ ∧
        Clean (checkOperands params operands construct operator source pos (params.zip operands))
          c₁ () c' ∧ r = c'.apply result := by
  unfold useOperator
  rw [@clean_bind _ _ _ _ _ _ fun t => by split <;> infer_instance]
  constructor
  · rintro ⟨t, c₁, name, h⟩
    obtain ⟨params, result, rfl⟩ := used t c₁ name
    obtain ⟨_, c₂, checked, h⟩ := clean_bind.mp h
    obtain ⟨rfl, rfl, _⟩ := clean_apply.mp h
    exact ⟨params, result, c₁, name, checked, rfl⟩
  · rintro ⟨params, result, c₁, name, checked, rfl⟩
    exact ⟨_, c₁, name, clean_bind.mpr ⟨(), c', checked, clean_apply.mpr ⟨rfl, rfl, checked.2⟩⟩⟩

end Operands

/-! ## Calls -/

theorem clean_applyCallee {callee : Ty} {args : List Ty} {source : String} {pos : Position} {r : Ty} :
    Clean (applyCallee callee args source pos) c r c' ↔ ∃ c₁,
      (c.freshTy.2.unify callee (.func args c.freshTy.1) = .ok c₁ ∧ c.errors = []) ∧
        Clean (collapseList (c₁.apply c.freshTy.1)) c₁ r c' := by
  have run : freshTy.run c = (c.freshTy.1, c.freshTy.2) := rfl
  unfold applyCallee
  rw [clean_bind_of_run run]
  refine clean_unify fun e _ _ _ h => ?_
  dsimp only at h
  split at h
  · obtain ⟨_, _, _, h⟩ := clean_bind.mp h
    obtain ⟨_, _, _, h⟩ := clean_bind.mp h
    exact not_clean_report_bind h
  · obtain ⟨_, _, _, h⟩ := clean_bind.mp h
    obtain ⟨_, _, _, h⟩ := clean_bind.mp h
    obtain ⟨_, _, _, h⟩ := clean_bind.mp h
    exact not_clean_report_bind h

theorem clean_useCallee {callee : Ty} {args : List Ty} {source : String} {pos : Position} {r : Ty} :
    Clean (useCallee callee args source pos) c r c' ↔
      (∀ params result, c.apply callee = .func params result → params.length = args.length) ∧
        Clean (applyCallee (c.apply callee) args source pos) c r c' := by
  have run : (apply callee).run c = (c.apply callee, c) := rfl
  unfold useCallee
  rw [clean_bind_of_run run]
  split
  next params result known =>
    split
    next same =>
      rw [known]
      refine ⟨fun h => ⟨?_, h⟩, fun h => h.2⟩
      rintro _ _ ⟨⟩
      exact same
    next other =>
      constructor
      · intro h
        obtain ⟨_, _, _, h⟩ := clean_bind.mp h
        obtain ⟨_, _, _, h⟩ := clean_bind.mp h
        exact absurd h not_clean_report_bind
      · rintro ⟨h, _⟩
        exact absurd (h params result known) other
  next unknown => exact ⟨fun h => ⟨fun _ _ known => absurd known (unknown _ _), h⟩, fun h => h.2⟩

/-! ## Expressions -/

theorem clean_errorCount_bind {f : Nat → Walk γ} [∀ n, Grows (f n)] {r : γ} :
    Clean (errorCount >>= f) c r c' ↔ Clean (f 0) c r c' := by
  rw [clean_bind]
  constructor
  · rintro ⟨_, _, count, h⟩
    obtain ⟨rfl, rfl, _⟩ := clean_errorCount.mp count
    exact h
  · intro h
    exact ⟨0, c, clean_errorCount.mpr ⟨rfl, rfl, h.start⟩, h⟩

/-- Without errors, the note that the walk leaves is the type that the parent works with. -/
def Notes (m : Walk (Ty × Expr Verdict)) : Prop :=
  ∀ c r c', Clean m c r c' → r.2.note = .typed r.1

theorem Notes.bind {f : β → Walk (Ty × Expr Verdict)} [∀ b, Grows (f b)] (h : ∀ b, Notes (f b)) :
    Notes (m >>= f) := by
  intro c r c' clean
  obtain ⟨b, c₁, _, rest⟩ := clean_bind.mp clean
  exact h b c₁ r c' rest

theorem Notes.settle {n : Nat} {t : Ty} {f : Verdict × Ty → Walk (Ty × Expr Verdict)}
    [∀ b, Grows (f b)] (h : ∃ e : Expr Verdict, f (.typed t, t) = pure (t, e) ∧ e.note = .typed t) :
    Notes (settle n t >>= f) := by
  intro c r c' clean
  obtain ⟨_, _, settled, rest⟩ := clean_bind.mp clean
  obtain ⟨rfl, rfl, _⟩ := clean_settle.mp settled
  obtain ⟨e, ends, note⟩ := h
  rw [ends] at rest
  obtain ⟨rfl, _⟩ := clean_pure.mp rest
  exact note

theorem inferExpr_notes (e : Expr α) : Notes (inferExpr e) := by
  cases e with
  | number tag x | text tag x | boolean tag x =>
    intro c r c' h
    obtain ⟨rfl, _⟩ := clean_pure.mp h
    rfl
  | null tag | name n =>
    unfold inferExpr
    exact .bind fun _ => .bind fun _ => .settle ⟨_, rfl, rfl⟩
  | unary tag op e =>
    rw [inferExpr_unary]
    exact .bind fun _ => .bind fun _ => .bind fun _ => .settle ⟨_, rfl, rfl⟩
  | binary tag op l r =>
    rw [inferExpr_binary]
    exact .bind fun _ => .bind fun _ => .bind fun _ => .bind fun _ => .settle ⟨_, rfl, rfl⟩
  | conditional tag t d a =>
    rw [inferExpr_conditional]
    exact .bind fun _ => .bind fun _ => .bind fun _ => .bind fun _ => .bind fun _ => .bind fun _ =>
      .settle ⟨_, rfl, rfl⟩
  | call tag f args =>
    rw [inferExpr_call]
    exact .bind fun _ => .bind fun _ => .bind fun _ => .bind fun _ => .settle ⟨_, rfl, rfl⟩
  | arrow tag ps body | arrowBlock tag ps body =>
    unfold inferExpr
    exact .bind fun _ => .bind fun _ => .bind fun _ => .bind fun _ => .bind fun _ =>
      .settle ⟨_, rfl, rfl⟩
  | assign tag target e =>
    rw [inferExpr_assign]
    refine .bind fun _ => .bind fun _ => .bind fun found => ?_
    cases found with
    | none => exact fun _ _ _ h => absurd h not_clean_report_bind
    | some scheme => exact .bind fun _ => .bind fun _ => .settle ⟨_, rfl, rfl⟩

theorem Clean.note {e : Expr α} {r : Ty × Expr Verdict} (h : Clean (inferExpr e) c r c') :
    r.2.note = .typed r.1 := inferExpr_notes e c r c' h

theorem clean_null {tag : Tag α} {r : Ty × Expr Verdict} :
    Clean (inferExpr (.null tag)) c r c' ↔ ∃ t, Clean (useName Prelude.null tag.pos) c t c' ∧
      r = (t, .null (tag.annotate (.typed t))) := by
  rw [inferExpr, clean_errorCount_bind]
  simp only [clean_bind, clean_settle, clean_pure]
  constructor
  · rintro ⟨t, c₁, h, _, _, ⟨rfl, rfl, _⟩, rfl, rfl, _⟩
    exact ⟨t, h, rfl⟩
  · rintro ⟨t, h, rfl⟩
    exact ⟨t, c', h, _, _, ⟨rfl, rfl, h.2⟩, rfl, rfl, h.2⟩

theorem clean_name {n : Name α} {r : Ty × Expr Verdict} :
    Clean (inferExpr (.name n)) c r c' ↔ ∃ t, Clean (useName n.text n.pos) c t c' ∧
      r = (t, .name (n.annotate (.typed t))) := by
  rw [inferExpr, clean_errorCount_bind]
  simp only [clean_bind, clean_settle, clean_pure]
  constructor
  · rintro ⟨t, c₁, h, _, _, ⟨rfl, rfl, _⟩, rfl, rfl, _⟩
    exact ⟨t, h, rfl⟩
  · rintro ⟨t, h, rfl⟩
    exact ⟨t, c', h, _, _, ⟨rfl, rfl, h.2⟩, rfl, rfl, h.2⟩

theorem clean_unary {tag : Tag α} {op : UnaryOp} {e : Expr α} {r : Ty × Expr Verdict} :
    Clean (inferExpr (.unary tag op e)) c r c' ↔ ∃ x c₁ t, Clean (inferExpr e) c x c₁ ∧
      Clean (useOperator op.key op.symbol (Expr.unary tag op e).source .unaryExpression [x.1]
        tag.pos) c₁ t c' ∧ r = (t, .unary (tag.annotate (.typed t)) op x.2) := by
  rw [inferExpr_unary, clean_errorCount_bind]
  simp only [clean_bind, clean_settle, clean_pure]
  constructor
  · rintro ⟨x, c₁, h₁, t, c₂, h₂, _, _, ⟨rfl, rfl, _⟩, rfl, rfl, _⟩
    rw [h₁.note] at h₂
    exact ⟨x, c₁, t, h₁, h₂, rfl⟩
  · rintro ⟨x, c₁, t, h₁, h₂, rfl⟩
    refine ⟨x, c₁, h₁, t, c', ?_, _, _, ⟨rfl, rfl, h₂.2⟩, rfl, rfl, h₂.2⟩
    rw [h₁.note]
    exact h₂

theorem clean_binary {tag : Tag α} {op : BinaryOp} {l r : Expr α} {res : Ty × Expr Verdict} :
    Clean (inferExpr (.binary tag op l r)) c res c' ↔ ∃ x c₁ y c₂ t, Clean (inferExpr l) c x c₁ ∧
      Clean (inferExpr r) c₁ y c₂ ∧
      Clean (useOperator op.key op.symbol (Expr.binary tag op l r).source .binaryExpression
        [x.1, y.1] tag.pos) c₂ t c' ∧ res = (t, .binary (tag.annotate (.typed t)) op x.2 y.2) := by
  rw [inferExpr_binary, clean_errorCount_bind]
  simp only [clean_bind, clean_settle, clean_pure]
  constructor
  · rintro ⟨x, c₁, h₁, y, c₂, h₂, t, c₃, h₃, _, _, ⟨rfl, rfl, _⟩, rfl, rfl, _⟩
    rw [h₁.note, h₂.note] at h₃
    exact ⟨x, c₁, y, c₂, t, h₁, h₂, h₃, rfl⟩
  · rintro ⟨x, c₁, y, c₂, t, h₁, h₂, h₃, rfl⟩
    refine ⟨x, c₁, h₁, y, c₂, h₂, t, c', ?_, _, _, ⟨rfl, rfl, h₃.2⟩, rfl, rfl, h₃.2⟩
    rw [h₁.note, h₂.note]
    exact h₃

theorem clean_conditional {tag : Tag α} {t d a : Expr α} {r : Ty × Expr Verdict} :
    Clean (inferExpr (.conditional tag t d a)) c r c' ↔ ∃ x c₁ c₂ y c₃ z c₄,
      Clean (inferExpr t) c x c₁ ∧
      Clean (checkTest .conditionalExpression (Expr.conditionalHeader t) tag.pos x.1) c₁ () c₂ ∧
      Clean (inferExpr d) c₂ y c₃ ∧ Clean (inferExpr a) c₃ z c₄ ∧
      Clean (checkBranches .conditionalExpression (Expr.conditionalHeader t) tag.pos y.1 z.1)
        c₄ () c' ∧
      r = (c'.apply y.1, .conditional (tag.annotate (.typed (c'.apply y.1))) x.2 y.2 z.2) := by
  rw [inferExpr_conditional, clean_errorCount_bind]
  simp only [clean_bind, clean_settle, clean_pure]
  constructor
  · rintro ⟨x, c₁, h₁, _, c₂, h₂, y, c₃, h₃, z, c₄, h₄, t, c₅, h₅, _, _, ⟨rfl, rfl, _⟩, rfl, rfl, _⟩
    rw [h₁.note] at h₂
    rw [h₃.note, h₄.note] at h₅
    obtain ⟨_, c₆, joined, applied⟩ := clean_bind.mp h₅
    obtain ⟨rfl, rfl, _⟩ := clean_apply.mp applied
    exact ⟨x, c₁, c₂, y, c₃, z, c₄, h₁, h₂, h₃, h₄, joined, rfl⟩
  · rintro ⟨x, c₁, c₂, y, c₃, z, c₄, h₁, h₂, h₃, h₄, h₅, rfl⟩
    refine ⟨x, c₁, h₁, (), c₂, ?_, y, c₃, h₃, z, c₄, h₄, _, c', ?_, _, _, ⟨rfl, rfl, h₅.2⟩, rfl, rfl,
      h₅.2⟩
    · rw [h₁.note]
      exact h₂
    · rw [h₃.note, h₄.note]
      exact clean_bind.mpr ⟨(), c', h₅, clean_apply.mpr ⟨rfl, rfl, h₅.2⟩⟩

theorem clean_exprs_nil {r : List Ty × List (Expr Verdict)} :
    Clean (inferExprs ([] : List (Expr α))) c r c' ↔ r = ([], []) ∧ c' = c ∧ c.errors = [] :=
  clean_pure

theorem clean_exprs_cons {e : Expr α} {es : List (Expr α)} {r : List Ty × List (Expr Verdict)} :
    Clean (inferExprs (e :: es)) c r c' ↔ ∃ x c₁ xs, Clean (inferExpr e) c x c₁ ∧
      Clean (inferExprs es) c₁ xs c' ∧ r = (x.1 :: xs.1, x.2 :: xs.2) := by
  rw [inferExprs]
  simp only [clean_bind, clean_pure]
  constructor
  · rintro ⟨x, c₁, h₁, xs, c₂, h₂, rfl, rfl, _⟩
    exact ⟨x, c₁, xs, h₁, h₂, rfl⟩
  · rintro ⟨x, c₁, xs, h₁, h₂, rfl⟩
    exact ⟨x, c₁, h₁, xs, c', h₂, rfl, rfl, h₂.2⟩

theorem Clean.notes {es : List (Expr α)} {r : List Ty × List (Expr Verdict)}
    (h : Clean (inferExprs es) c r c') : r.2.any (·.note.isUntypable) = false := by
  induction es generalizing c r with
  | nil =>
    obtain ⟨rfl, _⟩ := clean_exprs_nil.mp h
    rfl
  | cons e es ih =>
    obtain ⟨x, c₁, xs, h₁, h₂, rfl⟩ := clean_exprs_cons.mp h
    rw [List.any_cons, ih h₂, h₁.note]
    rfl

theorem clean_call {tag : Tag α} {f : Expr α} {args : List (Expr α)} {r : Ty × Expr Verdict} :
    Clean (inferExpr (.call tag f args)) c r c' ↔ ∃ x c₁ xs c₂ t, Clean (inferExpr f) c x c₁ ∧
      Clean (inferExprs args) c₁ xs c₂ ∧
      Clean (useCallee x.1 xs.1 (Expr.call tag f args).source tag.pos) c₂ t c' ∧
      r = (t, .call (tag.annotate (.typed t)) x.2 xs.2) := by
  rw [inferExpr_call, clean_errorCount_bind]
  simp only [clean_bind, clean_settle, clean_pure]
  constructor
  · rintro ⟨x, c₁, h₁, xs, c₂, h₂, t, c₃, h₃, _, _, ⟨rfl, rfl, _⟩, rfl, rfl, _⟩
    rw [h₁.note, h₂.notes] at h₃
    exact ⟨x, c₁, xs, c₂, t, h₁, h₂, h₃, rfl⟩
  · rintro ⟨x, c₁, xs, c₂, t, h₁, h₂, h₃, rfl⟩
    refine ⟨x, c₁, h₁, xs, c₂, h₂, t, c', ?_, _, _, ⟨rfl, rfl, h₃.2⟩, rfl, rfl, h₃.2⟩
    rw [h₁.note, h₂.notes]
    exact h₃

theorem clean_arrow {tag : Tag α} {ps : List (Name α)} {body : Expr α} {r : Ty × Expr Verdict} :
    Clean (inferExpr (.arrow tag ps body)) c r c' ↔ ∃ xs c₁ y c₂,
      Clean (bindParams ps) { c with env := c.env.push } xs c₁ ∧ Clean (inferExpr body) c₁ y c₂ ∧
      c' = { c₂ with env := c₂.env.pop } ∧
      r = (.func xs.1 y.1, .arrow (tag.annotate (.typed (.func xs.1 y.1))) xs.2 y.2) := by
  rw [inferExpr, clean_errorCount_bind]
  simp only [clean_bind, clean_modifyEnv, clean_settle, clean_pure]
  constructor
  · rintro ⟨_, _, ⟨rfl, _⟩, xs, c₁, h₁, y, c₂, h₂, _, _, ⟨rfl, _⟩, _, _, ⟨rfl, rfl, _⟩, rfl, rfl, _⟩
    exact ⟨xs, c₁, y, c₂, h₁, h₂, rfl, rfl⟩
  · rintro ⟨xs, c₁, y, c₂, h₁, h₂, rfl, rfl⟩
    exact ⟨(), _, ⟨rfl, h₁.start⟩, xs, c₁, h₁, y, c₂, h₂, (), _, ⟨rfl, h₂.2⟩, _, _, ⟨rfl, rfl, h₂.2⟩,
      rfl, rfl, h₂.2⟩

theorem clean_arrowBlock {tag : Tag α} {ps : List (Name α)} {body : Block α}
    {r : Ty × Expr Verdict} :
    Clean (inferExpr (.arrowBlock tag ps body)) c r c' ↔ ∃ xs c₁ y c₂,
      Clean (bindParams ps) { c with env := c.env.push } xs c₁ ∧ Clean (inferBlock body) c₁ y c₂ ∧
      c' = { c₂ with env := c₂.env.pop } ∧ r = (.func xs.1 (returnTy y.1),
        .arrowBlock (tag.annotate (.typed (.func xs.1 (returnTy y.1)))) xs.2 y.2) := by
  rw [inferExpr, clean_errorCount_bind]
  simp only [clean_bind, clean_modifyEnv, clean_settle, clean_pure]
  constructor
  · rintro ⟨_, _, ⟨rfl, _⟩, xs, c₁, h₁, y, c₂, h₂, _, _, ⟨rfl, _⟩, _, _, ⟨rfl, rfl, _⟩, rfl, rfl, _⟩
    exact ⟨xs, c₁, y, c₂, h₁, h₂, rfl, rfl⟩
  · rintro ⟨xs, c₁, y, c₂, h₁, h₂, rfl, rfl⟩
    exact ⟨(), _, ⟨rfl, h₁.start⟩, xs, c₁, h₁, y, c₂, h₂, (), _, ⟨rfl, h₂.2⟩, _, _, ⟨rfl, rfl, h₂.2⟩,
      rfl, rfl, h₂.2⟩

theorem clean_assign {tag : Tag α} {target : Name α} {e : Expr α} {r : Ty × Expr Verdict} :
    Clean (inferExpr (.assign tag target e)) c r c' ↔ ∃ x c₁ scheme expected c₂,
      Clean (inferExpr e) c x c₁ ∧ c₁.env.lookup target.text = some scheme ∧
      Clean (instantiate scheme) c₁ expected c₂ ∧
      Clean (checkSame .assignment (Expr.assign tag target e).source tag.pos expected x.1) c₂ () c' ∧
      r = (c'.apply x.1, .assign (tag.annotate (.typed (c'.apply x.1)))
        (target.annotate (.typed expected)) x.2) := by
  rw [inferExpr_assign, clean_errorCount_bind]
  simp only [clean_bind, clean_lookup]
  constructor
  · rintro ⟨x, c₁, h₁, found, _, ⟨eq, rfl, _⟩, h₂⟩
    cases found with
    | none => exact absurd h₂ not_clean_report_bind
    | some scheme =>
      simp only [Option.elim, clean_bind, clean_settle, clean_pure] at h₂
      obtain ⟨expected, c₂, h₂, t, c₃, h₃, _, _, ⟨rfl, rfl, _⟩, rfl, rfl, _⟩ := h₂
      rw [h₁.note] at h₃
      obtain ⟨_, c₄, checked, applied⟩ := clean_bind.mp h₃
      obtain ⟨rfl, rfl, _⟩ := clean_apply.mp applied
      exact ⟨x, _, scheme, expected, c₂, h₁, eq.symm, h₂, checked, rfl⟩
  · rintro ⟨x, c₁, scheme, expected, c₂, h₁, eq, h₂, h₃, rfl⟩
    refine ⟨x, c₁, h₁, some scheme, c₁, ⟨eq.symm, rfl, h₁.2⟩, ?_⟩
    simp only [Option.elim, clean_bind, clean_settle, clean_pure]
    refine ⟨expected, c₂, h₂, _, c', ?_, _, _, ⟨rfl, rfl, h₃.2⟩, rfl, rfl, h₃.2⟩
    rw [h₁.note]
    exact clean_bind.mpr ⟨(), c', h₃, clean_apply.mpr ⟨rfl, rfl, h₃.2⟩⟩

/-! ## Declarations -/

theorem clean_checkPlaceholder {name : String} {binding : Binding} {source : String}
    {pos : Position} {t : Ty} {placeholder : Scheme} {u : Unit}
    (found : c.env.lookupLocal name = some placeholder) :
    Clean (checkPlaceholder name binding source pos t) c u c' ↔ ∃ expected c₁,
      Clean (instantiate placeholder) c expected c₁ ∧
      Clean (checkSame binding.construct source pos expected t) c₁ u c' := by
  have run : (lookupLocal name).run c = (some placeholder, c) := by
    rw [← found]
    rfl
  unfold checkPlaceholder
  rw [clean_bind_of_run run, clean_bind]

theorem clean_declare {name : String} {binding : Binding} {source : String} {pos : Position}
    {t : Ty} {note : Verdict} :
    Clean (declare name binding source pos 0 t) c note c' ↔ ∃ c₁ scheme,
      Clean (checkPlaceholder name binding source pos t) c () c₁ ∧
      scheme = declared binding { c₁ with env := c₁.env.erase name } t ∧
      note = .typed scheme.ty ∧ c' = { c₁ with env := (c₁.env.erase name).bind name scheme } := by
  rw [declare_eq, clean_errorCount_bind]
  simp only [clean_bind, clean_modifyEnv]
  constructor
  · rintro ⟨_, c₁, h₁, _, _, ⟨rfl, clean⟩, _, _, count, h₂⟩
    obtain ⟨rfl, rfl, _⟩ := clean_errorCount.mp count
    rw [if_pos trivial] at h₁
    obtain ⟨rfl, rfl, _⟩ := (clean_of_run rfl rfl).mp h₂
    exact ⟨c₁, _, h₁, rfl, rfl, rfl⟩
  · rintro ⟨c₁, _, h₁, rfl, rfl, rfl⟩
    refine ⟨(), c₁, ?_, (), _, ⟨rfl, h₁.2⟩, 0, _, clean_errorCount.mpr ⟨rfl, rfl, h₁.2⟩, ?_⟩
    · rw [if_pos trivial]
      exact h₁
    · exact (clean_of_run rfl rfl).mpr ⟨rfl, rfl, h₁.2⟩

/-! ## Statements -/

theorem clean_declaration {tag : Tag α} {keyword : Keyword} {name : Name α} {init : Expr α}
    {r : Option Ty × Stmt Verdict} :
    Clean (inferStmt (.declare tag keyword name init)) c r c' ↔ ∃ x c₁ note,
      Clean (inferExpr init) c x c₁ ∧
      Clean (declare name.text (.value keyword) (Stmt.declareHeader keyword name init) tag.pos 0 x.1)
        c₁ note c' ∧
      r = (none, .declare (tag.annotate note) keyword (name.annotate note) x.2) := by
  rw [inferStmt, clean_errorCount_bind]
  simp only [clean_bind, clean_pure]
  constructor
  · rintro ⟨x, c₁, h₁, note, c₂, h₂, rfl, rfl, _⟩
    exact ⟨x, c₁, note, h₁, h₂, rfl⟩
  · rintro ⟨x, c₁, note, h₁, h₂, rfl⟩
    exact ⟨x, c₁, h₁, note, c', h₂, rfl, rfl, h₂.2⟩

theorem clean_function {tag : Tag α} {name : Name α} {ps : List (Name α)} {body : Block α}
    {r : Option Ty × Stmt Verdict} :
    Clean (inferStmt (.function tag name ps body)) c r c' ↔ ∃ xs c₁ y c₂ note,
      Clean (bindParams ps) { c with env := c.env.push } xs c₁ ∧ Clean (inferBlock body) c₁ y c₂ ∧
      Clean (declare name.text .function (Stmt.functionHeader name ps) tag.pos 0
        (.func xs.1 (returnTy y.1))) { c₂ with env := c₂.env.pop } note c' ∧
      r = (none, .function (tag.annotate note) (name.annotate note) xs.2 y.2) := by
  rw [inferStmt, clean_errorCount_bind]
  simp only [clean_bind, clean_modifyEnv, clean_pure]
  constructor
  · rintro ⟨_, _, ⟨rfl, _⟩, xs, c₁, h₁, y, c₂, h₂, _, _, ⟨rfl, _⟩, note, c₃, h₃, rfl, rfl, _⟩
    exact ⟨xs, c₁, y, c₂, note, h₁, h₂, h₃, rfl⟩
  · rintro ⟨xs, c₁, y, c₂, note, h₁, h₂, h₃, rfl⟩
    exact ⟨(), _, ⟨rfl, h₁.start⟩, xs, c₁, h₁, y, c₂, h₂, (), _, ⟨rfl, h₂.2⟩, note, c', h₃, rfl, rfl,
      h₃.2⟩

theorem clean_return {tag : Tag α} {e : Expr α} {r : Option Ty × Stmt Verdict} :
    Clean (inferStmt (.ret tag (some e))) c r c' ↔ ∃ x, Clean (inferExpr e) c x c' ∧
      r = (some x.1, .ret (tag.annotate (.typed x.1)) (some x.2)) := by
  rw [inferStmt, clean_errorCount_bind]
  simp only [clean_bind, clean_settle, clean_pure]
  constructor
  · rintro ⟨x, c₁, h, _, _, ⟨rfl, rfl, _⟩, rfl, rfl, _⟩
    exact ⟨x, h, rfl⟩
  · rintro ⟨x, h, rfl⟩
    exact ⟨x, c', h, _, _, ⟨rfl, rfl, h.2⟩, rfl, rfl, h.2⟩

theorem clean_ifElse {b : If α} {r : Option Ty × Stmt Verdict} :
    Clean (inferStmt (.ifElse b)) c r c' ↔ ∃ x, Clean (inferIf b) c x c' ∧ r = (x.1, .ifElse x.2) := by
  rw [inferStmt]
  simp only [clean_bind, clean_pure]
  constructor
  · rintro ⟨x, c₁, h, rfl, rfl, _⟩
    exact ⟨x, h, rfl⟩
  · rintro ⟨x, h, rfl⟩
    exact ⟨x, c', h, rfl, rfl, h.2⟩

theorem clean_blockStmt {b : Block α} {r : Option Ty × Stmt Verdict} :
    Clean (inferStmt (.block b)) c r c' ↔ ∃ x, Clean (inferBlock b) c x c' ∧ r = (x.1, .block x.2) := by
  rw [inferStmt]
  simp only [clean_bind, clean_pure]
  constructor
  · rintro ⟨x, c₁, h, rfl, rfl, _⟩
    exact ⟨x, h, rfl⟩
  · rintro ⟨x, h, rfl⟩
    exact ⟨x, c', h, rfl, rfl, h.2⟩

theorem clean_exprStmt {e : Expr α} {r : Option Ty × Stmt Verdict} :
    Clean (inferStmt (.expr e)) c r c' ↔ ∃ x, Clean (inferExpr e) c x c' ∧ r = (none, .expr x.2) := by
  rw [inferStmt]
  simp only [clean_bind, clean_pure]
  constructor
  · rintro ⟨x, c₁, h, rfl, rfl, _⟩
    exact ⟨x, h, rfl⟩
  · rintro ⟨x, h, rfl⟩
    exact ⟨x, c', h, rfl, rfl, h.2⟩

theorem clean_stmts_cons {s : Stmt α} {ss : List (Stmt α)} {r : Option Ty × List (Stmt Verdict)} :
    Clean (inferStmts (s :: ss)) c r c' ↔ ∃ x c₁ xs, Clean (inferStmt s) c x c₁ ∧
      Clean (inferStmts ss) c₁ xs c' ∧ r = (firstReturn x.1 xs.1, x.2 :: xs.2) := by
  rw [inferStmts]
  simp only [clean_bind, clean_pure]
  constructor
  · rintro ⟨x, c₁, h₁, xs, c₂, h₂, rfl, rfl, _⟩
    exact ⟨x, c₁, xs, h₁, h₂, rfl⟩
  · rintro ⟨x, c₁, xs, h₁, h₂, rfl⟩
    exact ⟨x, c₁, h₁, xs, c', h₂, rfl, rfl, h₂.2⟩

/-! ## Blocks and branches -/

theorem map_returnTy (returned : Option Ty) : returned.map (fun _ => returnTy returned) = returned := by
  cases returned <;> rfl

theorem clean_block {tag : Tag α} {body : List (Stmt α)} {r : Option Ty × Block Verdict} :
    Clean (inferBlock ⟨tag, body⟩) c r c' ↔ ∃ c₁ x c₂,
      Clean (hoist body) { c with env := c.env.push } () c₁ ∧ Clean (inferStmts body) c₁ x c₂ ∧
      c' = { c₂ with env := c₂.env.pop } ∧
      r = (x.1, ⟨tag.annotate (.typed (returnTy x.1)), x.2⟩) := by
  rw [inferBlock, clean_errorCount_bind]
  simp only [clean_bind, clean_modifyEnv, clean_settle, clean_pure]
  constructor
  · rintro ⟨_, _, ⟨rfl, _⟩, _, c₁, h₁, x, c₂, h₂, _, _, ⟨rfl, _⟩, _, _, ⟨rfl, rfl, _⟩, rfl, rfl, _⟩
    rw [map_returnTy]
    exact ⟨c₁, x, c₂, h₁, h₂, rfl, rfl⟩
  · rintro ⟨c₁, x, c₂, h₁, h₂, rfl, rfl⟩
    refine ⟨(), _, ⟨rfl, h₁.start⟩, (), c₁, h₁, x, c₂, h₂, (), _, ⟨rfl, h₂.2⟩, _, _,
      ⟨rfl, rfl, h₂.2⟩, ?_, rfl, h₂.2⟩
    rw [map_returnTy]

theorem Clean.blockNote {b : Block α} {r : Option Ty × Block Verdict}
    (h : Clean (inferBlock b) c r c') : r.2.tag.note = .typed (returnTy r.1) := by
  obtain ⟨tag, body⟩ := b
  obtain ⟨_, _, _, _, _, _, rfl⟩ := clean_block.mp h
  rfl

theorem clean_joinBranches {source : String} {pos : Position} {consequent alternate r : Option Ty} :
    Clean (joinBranches source pos true consequent alternate) c r c' ↔
      (consequent = none ∧ alternate = none ∧ r = none ∧ c' = c ∧ c.errors = []) ∨
      (¬(consequent = none ∧ alternate = none) ∧ r = some (returnTy consequent) ∧
        c.unify (returnTy consequent) (returnTy alternate) = .ok c' ∧ c.errors = []) := by
  rw [joinBranches_eq]
  split
  next neither =>
    obtain ⟨rfl, rfl⟩ : consequent = none ∧ alternate = none := by simpa using neither
    rw [clean_pure]
    simp
  next some =>
    have some : ¬(consequent = none ∧ alternate = none) := by simpa using some
    rw [if_pos rfl, clean_bind]
    simp only [clean_checkBranches, clean_pure]
    constructor
    · rintro ⟨_, c₁, ⟨unified, clean⟩, rfl, rfl, _⟩
      exact .inr ⟨some, rfl, unified, clean⟩
    · rintro (⟨rfl, rfl, _⟩ | ⟨_, rfl, unified, clean⟩)
      · exact absurd ⟨rfl, rfl⟩ some
      · exact ⟨(), c', ⟨unified, clean⟩, rfl, rfl, (clean_equate.mpr ⟨unified, clean⟩).2⟩

theorem clean_absent {r : Option Ty × Bool × Alternate Verdict} :
    Clean (inferAlternate (.absent : Alternate α)) c r c' ↔
      r = (none, true, .absent) ∧ c' = c ∧ c.errors = [] := by
  rw [inferAlternate, clean_pure]

theorem clean_elseBlock {b : Block α} {r : Option Ty × Bool × Alternate Verdict} :
    Clean (inferAlternate (.block b)) c r c' ↔ ∃ x, Clean (inferBlock b) c x c' ∧
      r = (x.1, true, .block x.2) := by
  rw [inferAlternate]
  simp only [clean_bind, clean_pure]
  constructor
  · rintro ⟨x, c₁, h, rfl, rfl, _⟩
    rw [h.blockNote]
    exact ⟨x, h, rfl⟩
  · rintro ⟨x, h, rfl⟩
    refine ⟨x, c', h, ?_, rfl, h.2⟩
    rw [h.blockNote]
    rfl

theorem Clean.ifNote {b : If α} {r : Option Ty × If Verdict} (h : Clean (inferIf b) c r c') :
    r.2.tag.note = .typed (returnTy r.1) := by
  obtain ⟨tag, test, consequent, alternate⟩ := b
  rw [inferIf_eq, clean_errorCount_bind] at h
  simp only [clean_bind, clean_settle, clean_pure] at h
  obtain ⟨_, _, _, _, _, _, _, _, _, _, _, _, returned, _, _, _, _, ⟨rfl, _⟩, rfl, _⟩ := h
  dsimp only
  rw [map_returnTy]
  rfl

theorem clean_elseIf {b : If α} {r : Option Ty × Bool × Alternate Verdict} :
    Clean (inferAlternate (.elseIf b)) c r c' ↔ ∃ x, Clean (inferIf b) c x c' ∧
      r = (x.1, true, .elseIf x.2) := by
  rw [inferAlternate]
  simp only [clean_bind, clean_pure]
  constructor
  · rintro ⟨x, c₁, h, rfl, rfl, _⟩
    rw [h.ifNote]
    exact ⟨x, h, rfl⟩
  · rintro ⟨x, h, rfl⟩
    refine ⟨x, c', h, ?_, rfl, h.2⟩
    rw [h.ifNote]
    rfl

theorem Clean.sound {a : Alternate α} {r : Option Ty × Bool × Alternate Verdict}
    (h : Clean (inferAlternate a) c r c') : r.2.1 = true := by
  cases a with
  | absent =>
    obtain ⟨rfl, _⟩ := clean_absent.mp h
    rfl
  | block b =>
    obtain ⟨_, _, rfl⟩ := clean_elseBlock.mp h
    rfl
  | elseIf b =>
    obtain ⟨_, _, rfl⟩ := clean_elseIf.mp h
    rfl

theorem clean_if {tag : Tag α} {test : Expr α} {consequent : Block α} {alternate : Alternate α}
    {r : Option Ty × If Verdict} :
    Clean (inferIf ⟨tag, test, consequent, alternate⟩) c r c' ↔ ∃ x c₁ c₂ y c₃ z c₄ returned,
      Clean (inferExpr test) c x c₁ ∧
      Clean (checkTest .ifStatement (If.header ⟨tag, test, consequent, alternate⟩) tag.pos x.1)
        c₁ () c₂ ∧
      Clean (inferBlock consequent) c₂ y c₃ ∧ Clean (inferAlternate alternate) c₃ z c₄ ∧
      Clean (joinBranches (If.header ⟨tag, test, consequent, alternate⟩) tag.pos true y.1 z.1)
        c₄ returned c' ∧
      r = (returned, ⟨tag.annotate (.typed (returnTy returned)), x.2, y.2, z.2.2⟩) := by
  rw [inferIf_eq, clean_errorCount_bind]
  simp only [clean_bind, clean_settle, clean_pure]
  constructor
  · rintro ⟨x, c₁, h₁, _, c₂, h₂, y, c₃, h₃, z, c₄, h₄, returned, c₅, h₅, _, _, ⟨rfl, rfl, _⟩, rfl,
      rfl, _⟩
    rw [h₁.note] at h₂
    rw [h₃.blockNote, h₄.sound] at h₅
    rw [map_returnTy]
    exact ⟨x, c₁, c₂, y, c₃, z, c₄, returned, h₁, h₂, h₃, h₄, h₅, rfl⟩
  · rintro ⟨x, c₁, c₂, y, c₃, z, c₄, returned, h₁, h₂, h₃, h₄, h₅, rfl⟩
    refine ⟨x, c₁, h₁, (), c₂, ?_, y, c₃, h₃, z, c₄, h₄, returned, c', ?_, _, _, ⟨rfl, rfl, h₅.2⟩, ?_,
      rfl, h₅.2⟩
    · rw [h₁.note]
      exact h₂
    · rw [h₃.blockNote, h₄.sound]
      exact h₅
    · rw [map_returnTy]

theorem clean_program {p : Program α} {q : Program Verdict} :
    Clean (inferProgram p) c q c' ↔ ∃ c₁ x c₂,
      Clean (hoist p.body) { c with env := c.env.push } () c₁ ∧ Clean (inferStmts p.body) c₁ x c₂ ∧
      c' = { c₂ with env := c₂.env.pop } ∧ q = ⟨x.2⟩ := by
  unfold inferProgram
  simp only [clean_bind, clean_modifyEnv, clean_pure]
  constructor
  · rintro ⟨_, _, ⟨rfl, _⟩, _, c₁, h₁, x, c₂, h₂, _, _, ⟨rfl, _⟩, rfl, rfl, _⟩
    exact ⟨c₁, x, c₂, h₁, h₂, rfl, rfl⟩
  · rintro ⟨c₁, x, c₂, h₁, h₂, rfl, rfl⟩
    exact ⟨(), _, ⟨rfl, h₁.start⟩, (), c₁, h₁, x, c₂, h₂, (), _, ⟨rfl, h₂.2⟩, rfl, rfl, h₂.2⟩

end Walk

theorem infer_eq_analyse {chapter : Chapter} {p : Program α}
    (valid : Validation.errors chapter p = []) :
    infer chapter p = .ok (analyse (p.map fun _ => Verdict.pending) (Context.new chapter)) := by
  rw [infer, Validation.validate_of_errors valid]
  rfl

theorem valid_of_infer {chapter : Chapter} {p : Program α} {outcome : Program Verdict × Context}
    (inferred : infer chapter p = .ok outcome) : Validation.errors chapter p = [] := by
  cases accepted : validate chapter p with
  | ok r => exact Validation.errors_of_validate accepted
  | error errors =>
    rw [infer, accepted] at inferred
    cases inferred

/-- Inference without errors is a clean run over a program without faults. -/
theorem infer_clean {chapter : Chapter} {p : Program α} {q : Program Verdict} :
    infer chapter p = .ok (q, c) ∧ c.errors = [] ↔ Validation.errors chapter p = [] ∧
      ∃ a, Walk.Clean (Walk.inferProgram (p.map fun _ => Verdict.pending)) (Context.new chapter) a c ∧
        q = a.map (·.mapTy c.resolve) := by
  constructor
  · rintro ⟨inferred, clean⟩
    have valid := valid_of_infer inferred
    rw [infer_eq_analyse valid] at inferred
    cases inferred
    exact ⟨valid, _, ⟨rfl, clean⟩, rfl⟩
  · rintro ⟨valid, a, ⟨run, clean⟩, rfl⟩
    refine ⟨?_, clean⟩
    rw [infer_eq_analyse valid, analyse, run]

theorem exists_infer {chapter : Chapter} {p : Program α}
    (valid : (Validation.errors chapter p).isEmpty = true)
    (clean : (analyse (p.map fun _ => Verdict.pending) (Context.new chapter)).2.errors.isEmpty = true) :
    ∃ q c, infer chapter p = .ok (q, c) ∧ c.errors = [] :=
  ⟨_, _, infer_eq_analyse (List.isEmpty_iff.mp valid), List.isEmpty_iff.mp clean⟩

end Polytype
