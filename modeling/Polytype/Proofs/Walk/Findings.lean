import Polytype.Proofs.Accounts
import Polytype.Proofs.Typing.Models
import Polytype.Proofs.Walk.Course

/-!
# What a walk finds

Every error that the walk reports is accounted for, from any context whose environment binds the names
in scope. A check at a node reports at the position of the node, and only problems of the node's kind
(`Checks`). The verdict on a node is given by the number of errors since the walk came to it, and so
by whether any were found at it or below it (`settle_finds`). Scopes are opened and closed and
declarations bind their names again, whether they could be typed or not, so the names in scope are
always those that the environment binds.
-/

namespace Polytype

variable {α β γ : Type} {c : Context} {scope : List String}

namespace Walk

/-! ## Errors found in a run -/

/-- Run from `c`, the walk adds errors to those of `c`, and `post` holds of its result, of the
context it ends in and of the errors that it has added. -/
def Finds (m : Walk β) (c : Context) (post : β → Context → List TypeError → Prop) : Prop :=
  ∃ new, (m.run c).2.errors = c.errors ++ new ∧ post (m.run c).1 (m.run c).2 new

namespace Finds

variable {m : Walk β} {f : β → Walk γ} {post : γ → Context → List TypeError → Prop}

theorem quiet {post : β → Context → List TypeError → Prop} (errors : (m.run c).2.errors = c.errors)
    (h : post (m.run c).1 (m.run c).2 []) : Finds m c post :=
  ⟨[], by rw [errors, List.append_nil], h⟩

theorem pure {b : β} {post : β → Context → List TypeError → Prop} (h : post b c []) :
    Finds (pure b) c post := quiet rfl h

theorem mono {post post' : β → Context → List TypeError → Prop} (h : Finds m c post)
    (imp : ∀ b c' new, post b c' new → post' b c' new) : Finds m c post' := by
  obtain ⟨new, errors, h⟩ := h
  exact ⟨new, errors, imp _ _ _ h⟩

theorem bind {mid : β → Context → List TypeError → Prop} (hm : Finds m c mid)
    (hf : ∀ b c' new, c'.errors = c.errors ++ new → mid b c' new →
      Finds (f b) c' fun r c'' new' => post r c'' (new ++ new')) : Finds (m >>= f) c post := by
  obtain ⟨new, errors, h⟩ := hm
  obtain ⟨new', errors', h'⟩ := hf _ _ new errors h
  exact ⟨new ++ new', by rw [run_bind, errors', errors, List.append_assoc], h'⟩

theorem step {b : β} {c' : Context} (run : m.run c = (b, c')) (errors : c'.errors = c.errors)
    (h : Finds (f b) c' post) : Finds (m >>= f) c post := by
  obtain ⟨new, added, h⟩ := h
  refine ⟨new, ?_, ?_⟩
  · rw [run_bind, run, added, errors]
  · rw [run_bind, run]
    exact h

end Finds

/-! ## Checks -/

/-- In the environment `env`, the walk leaves it as it is and reports only problems that a node of
this kind can have, at the position of the node. -/
class Checks (env : Env) (kind : NodeKind) (pos : Position) (m : Walk β) : Prop where
  finds (c : Context) (h : c.env = env) : Finds m c fun _ c' new =>
    c'.env = env ∧ ∀ e ∈ new, e.At kind pos

variable {env : Env} {kind : NodeKind} {pos : Position} {construct : Construct}

namespace Checks

variable {m m' : Walk β} {f : β → Walk γ}

theorem quiet (h : ∀ c, (m.run c).2.env = c.env ∧ (m.run c).2.errors = c.errors) :
    Checks env kind pos m :=
  ⟨fun c same => .quiet (h c).2 ⟨(h c).1.trans same, by simp⟩⟩

instance pure (b : β) : Checks env kind pos (pure b : Walk β) := quiet fun _ => ⟨rfl, rfl⟩

instance bind [hm : Checks env kind pos m] [hf : ∀ b, Checks env kind pos (f b)] :
    Checks env kind pos (m >>= f) := by
  refine ⟨fun c same => .bind (hm.finds c same) fun b c' new _ h => ?_⟩
  obtain ⟨same', found⟩ := h
  obtain ⟨new', errors', same'', found'⟩ := (hf b).finds c' same'
  exact ⟨new', errors', same'', List.forall_mem_append.mpr ⟨found, found'⟩⟩

instance ite {p : Prop} [Decidable p] [Checks env kind pos m] [Checks env kind pos m'] :
    Checks env kind pos (if p then m else m') := by
  split <;> infer_instance

end Checks

theorem check_finds (kind : NodeKind) (pos : Position) {m : Walk β} [h : Checks c.env kind pos m] :
    Finds m c fun _ c' new => c'.env = c.env ∧ ∀ e ∈ new, e.At kind pos := h.finds c rfl

instance : Checks env kind pos freshTy := .quiet fun _ => ⟨rfl, rfl⟩

instance (t : Ty) : Checks env kind pos (apply t) := .quiet fun _ => ⟨rfl, rfl⟩

instance (t : Ty) : Checks env kind pos (resolve t) := .quiet fun _ => ⟨rfl, rfl⟩

instance (ts : List Ty) : Checks env kind pos (resolveAll ts) := .quiet fun _ => ⟨rfl, rfl⟩

instance (name : String) : Checks env kind pos (lookupLocal name) := .quiet fun _ => ⟨rfl, rfl⟩

instance (scheme : Scheme) : Checks env kind pos (instantiate scheme) :=
  .quiet (instantiate_quiet scheme)

instance (a b : Ty) : Checks env kind pos (equate a b) := by
  refine .quiet fun c => ?_
  rw [equate_run]
  split <;> exact ⟨rfl, rfl⟩

theorem report_checks {problem : Problem} (h : problem.Concerns kind) :
    Checks env kind pos (report problem pos) := by
  refine ⟨fun c same => ⟨[⟨problem, pos⟩], rfl, same, fun e he => ?_⟩⟩
  rw [List.mem_singleton.mp he]
  exact ⟨rfl, h⟩

theorem blame_checks {problem : Problem} (h : problem.Concerns kind)
    (named : kind.construct? = some construct) (source : String) (e : UnifyError) :
    Checks env kind pos (do report (← blame construct source problem e) pos) := by
  cases e with
  | occurs v t =>
    have (u : Ty) : Checks env kind pos (report (.infinite construct source v u) pos) :=
      report_checks named
    exact ⟨fun c same => (this (c.resolve t)).finds c same⟩
  | mismatch _ _ | arity _ _ => exact report_checks h

theorem check_checks (a b : Ty) (failed : UnifyError → Walk Unit)
    [∀ e, Checks env kind pos (failed e)] :
    Checks env kind pos (do
      match ← equate a b with
      | none => return
      | some e => failed e) := by
  refine @Checks.bind _ _ _ _ _ _ _ _ fun outcome => ?_
  cases outcome <;> dsimp only <;> infer_instance

theorem checkTest_checks (named : kind.construct? = some construct) (source : String) (test : Ty) :
    Checks env kind pos (checkTest construct source pos test) :=
  @check_checks _ _ _ _ _ _ fun _ => @Checks.bind _ _ _ _ _ _ _ _ fun _ => report_checks named

theorem checkBranches_checks (named : kind.construct? = some construct) (source : String)
    (a b : Ty) : Checks env kind pos (checkBranches construct source pos a b) :=
  @check_checks _ _ _ _ _ _ fun _ => @Checks.bind _ _ _ _ _ _ _ _ fun _ =>
    @Checks.bind _ _ _ _ _ _ _ _ fun _ => blame_checks (by exact named) named source _

theorem checkSame_checks (named : kind.construct? = some construct) (source : String)
    (a b : Ty) : Checks env kind pos (checkSame construct source pos a b) :=
  @check_checks _ _ _ _ _ _ fun _ => @Checks.bind _ _ _ _ _ _ _ _ fun _ =>
    @Checks.bind _ _ _ _ _ _ _ _ fun _ => blame_checks (by exact named) named source _

theorem checkOperands_checks (params operands : List Ty) (operator source : String)
    (named : kind.construct? = some construct)
    (h : ∀ ts s, (Problem.operands operator source ts (operands.map s)).Concerns kind)
    (pairs : List (Ty × Ty)) :
    Checks env kind pos (checkOperands params operands construct operator source pos pairs) := by
  induction pairs with
  | nil => exact .pure ()
  | cons pair rest ih =>
    unfold checkOperands
    refine @Checks.bind _ _ _ _ _ _ _ _ fun outcome => ?_
    cases outcome with
    | none => exact ih
    | some e =>
      refine ⟨fun c same => ?_⟩
      exact (blame_checks (h (params.map c.resolve) c.resolve) named source e).finds c same

theorem useOperator_checks {key : String} (bound : (env.lookup key).isSome) (operands : List Ty)
    (operator source : String) (named : kind.construct? = some construct)
    (h : ∀ ts s, (Problem.operands operator source ts (operands.map s)).Concerns kind) :
    Checks env kind pos (useOperator key operator source construct operands pos) := by
  refine ⟨fun c same => ?_⟩
  obtain ⟨scheme, found⟩ := Option.isSome_iff_exists.mp bound
  have run : (useName key pos).run c = c.instantiate scheme := by
    rw [useName_run, same, found, Option.elim_some]
  obtain ⟨env', errors⟩ := instantiate_quiet scheme c
  generalize c.instantiate scheme = outcome at run env' errors
  obtain ⟨t, c'⟩ := outcome
  refine .step run errors ?_
  cases t with
  | func params result =>
    have : Checks env kind pos (checkOperands params operands construct operator source pos
        (params.zip operands)) := checkOperands_checks params operands operator source named h _
    exact (inferInstance : Checks env kind pos (do
      checkOperands params operands construct operator source pos (params.zip operands)
      apply result)).finds c' (env'.trans same)
  | _ => exact Checks.finds _ (env'.trans same)

instance (t : Ty) : Checks env kind pos (collapseList t) := by
  unfold collapseList
  split
  next head element =>
    refine .quiet fun c => ?_
    have run := collapseList_run head element c
    unfold collapseList at run
    rw [run]
    cases unseen : c.unifyUnseen? element head with
    | none => exact ⟨rfl, rfl⟩
    | some c' =>
      obtain ⟨f, found, rfl⟩ := commit_of_unifyUnseen? unseen
      exact ⟨rfl, rfl⟩
  next => infer_instance

instance (callee : Ty) (args : List Ty) (source : String) :
    Checks env .call pos (applyCallee callee args source pos) := by
  unfold applyCallee
  refine @Checks.bind _ _ _ _ _ _ _ _ fun result => @Checks.bind _ _ _ _ _ _ _ _ fun outcome => ?_
  cases outcome with
  | none => infer_instance
  | some e =>
    dsimp only
    split
    next params _ =>
      have (ps as : List Ty) : Checks env .call pos (report (.arguments source ps as) pos) :=
        report_checks rfl
      infer_instance
    next =>
      refine @Checks.bind _ _ _ _ _ _ _ _ fun expected => @Checks.bind _ _ _ _ _ _ _ _ fun found => ?_
      have : Checks env .call pos (do report (← blame .functionCall source
          (.mismatch .functionCall source expected found) e) pos) :=
        blame_checks (by exact rfl) rfl source e
      rw [← bind_assoc]
      infer_instance

instance (callee : Ty) (args : List Ty) (source : String) :
    Checks env .call pos (useCallee callee args source pos) := by
  unfold useCallee
  have (ps as : List Ty) : Checks env .call pos (report (.argumentCount source ps as) pos) :=
    report_checks rfl
  refine @Checks.bind _ _ _ _ _ _ _ _ fun t => ?_
  split <;> infer_instance

theorem checkPlaceholder_checks (name : String) (binding : Binding)
    (named : kind.construct? = some binding.construct) (source : String) (t : Ty) :
    Checks env kind pos (checkPlaceholder name binding source pos t) := by
  have (expected : Ty) : Checks env kind pos (checkSame binding.construct source pos expected t) :=
    checkSame_checks named source expected t
  unfold checkPlaceholder
  refine @Checks.bind _ _ _ _ _ _ _ _ fun found => ?_
  cases found <;> dsimp only <;> infer_instance

instance (source : String) (checked : Bool) (consequent alternate : Option Ty) :
    Checks env .branch pos (joinBranches source pos checked consequent alternate) := by
  have (a b : Ty) : Checks env .branch pos (checkBranches .ifStatement source pos a b) :=
    checkBranches_checks rfl source a b
  rw [joinBranches_eq]
  infer_instance

theorem joinBranches_finds (source : String) (checked : Bool) (consequent alternate : Option Ty) :
    Finds (joinBranches source pos checked consequent alternate) c fun _ c' new =>
      c'.env = c.env ∧ (∀ e ∈ new, e.At .branch pos) ∧ (checked = true ∨ new = []) := by
  cases checked with
  | true => exact (check_finds .branch pos).mono fun _ _ _ h => ⟨h.1, h.2, .inl rfl⟩
  | false =>
    rw [joinBranches_eq]
    split <;> exact .pure ⟨rfl, by simp, .inr rfl⟩

/-! ## Verdicts -/

end Walk

theorem Verdict.Judges.mapTy {note : Verdict} {errors : List TypeError} (h : note.Judges errors)
    (g : Ty → Ty) : (note.mapTy g).Judges errors := by
  rcases h with ⟨none, t, rfl⟩ | ⟨some, rfl⟩
  · exact .inl ⟨none, g t, rfl⟩
  · exact .inr ⟨some, rfl⟩

theorem Verdict.Judges.none_of_typable {g : Ty → Ty} {note : Verdict} {errors : List TypeError}
    (h : (note.mapTy g).Judges errors) (typable : note.isUntypable = false) : errors = [] := by
  rcases h with ⟨none, -⟩ | ⟨-, untypable⟩
  · exact none
  · cases note <;> cases untypable
    cases typable

namespace Walk

variable {before : Nat} {below : List TypeError}

/-- The errors `below` have been reported after the first `before`. -/
def Since (before : Nat) (below : List TypeError) (c : Context) : Prop :=
  c.errors.length = before + below.length

namespace Since

theorem start (c : Context) : Since c.errors.length [] c := rfl

theorem add {c' : Context} {new : List TypeError} (since : Since before below c)
    (added : c'.errors = c.errors ++ new) : Since before (below ++ new) c' := by
  unfold Since at since ⊢
  rw [added, List.length_append, List.length_append]
  omega

theorem judges (since : Since before below c) (t : Ty) :
    (if before < c.errors.length then Verdict.untypable else .typed t).Judges below := by
  unfold Since at since
  by_cases none : below = []
  · simp [since, none]
  · have := List.length_pos_iff.mpr none
    rw [if_pos (by omega)]
    exact .inr ⟨none, rfl⟩

end Since

theorem settle_finds (since : Since before below c) (t : Ty) :
    Finds (settle before t) c fun r c' new => new = [] ∧ c'.env = c.env ∧ r.1.Judges below := by
  have judged := since.judges t
  unfold settle
  refine .step rfl rfl ?_
  split at judged
  next some =>
    rw [if_pos some]
    exact .step rfl rfl (.pure ⟨rfl, rfl, judged⟩)
  next none =>
    rw [if_neg none]
    exact .pure ⟨rfl, rfl, judged⟩

theorem leave_finds (kind : NodeKind) (pos : Position) {check : Walk Ty} [Checks c.env kind pos check]
    (since : Since before below c) (leave : Verdict → Ty → β) :
    Finds (do
      let result ← check
      let (note, t) ← settle before result
      return leave note t) c fun r c' late => c'.env = c.env ∧ (∀ e ∈ late, e.At kind pos) ∧
        ∃ note t, r = leave note t ∧ note.Judges (below ++ late) := by
  refine .bind (check_finds kind pos) fun result c' late added h => ?_
  refine .bind (settle_finds (since.add added) result) fun r c'' new _ h' => ?_
  obtain ⟨rfl, env, judged⟩ := h'
  refine .pure ?_
  rw [List.append_nil, List.append_nil]
  exact ⟨env.trans h.1, h.2, r.1, r.2, rfl, judged⟩

theorem useName_finds (binds : c.env.Binds scope) (name : String) (pos : Position) :
    Finds (useName name pos) c fun _ c' new => c'.env = c.env ∧ new = missing scope name pos := by
  have found := binds.lookup name
  unfold Finds missing
  rw [useName_run]
  cases known : c.env.lookup name with
  | none =>
    rw [known] at found
    rw [if_neg (by simpa using found)]
    exact ⟨_, rfl, rfl, rfl⟩
  | some scheme =>
    rw [known] at found
    rw [if_pos (by simpa using found)]
    obtain ⟨env, errors⟩ := instantiate_quiet scheme c
    exact ⟨[], by rw [List.append_nil]; exact errors, env, rfl⟩

theorem declare_finds (binds : c.env.Binds scope) {name : String} (hx : name ∈ scope)
    (binding : Binding) (named : kind.construct? = some binding.construct) (source : String)
    (since : Since before below c) (t : Ty) :
    Finds (declare name binding source pos before t) c fun note c' late =>
      (c.env.Local c'.env ∧ c'.env.Binds scope) ∧ (∀ e ∈ late, e.At kind pos) ∧
        note.Judges (below ++ late) ∧ (below = [] ∨ late = []) := by
  -- The name stays bound, whatever the verdict.
  have placeholder : Checks c.env kind pos (checkPlaceholder name binding source pos t) :=
    checkPlaceholder_checks name binding named source t
  have checked : Finds (if c.errors.length = before then
      checkPlaceholder name binding source pos t else pure ()) c fun _ c' late =>
        c'.env = c.env ∧ (∀ e ∈ late, e.At kind pos) ∧ (below = [] ∨ late = []) := by
    unfold Since at since
    by_cases none : below = []
    · exact (check_finds kind pos).mono fun _ _ _ h => ⟨h.1, h.2, .inl none⟩
    · have := List.length_pos_iff.mpr none
      rw [if_neg (by omega)]
      exact .pure ⟨rfl, by simp, .inr rfl⟩
  have rebound (c' : Context) (same : c'.env = c.env) (σ : Scheme) :
      c.env.Local ((c'.env.erase name).bind name σ) ∧
        ((c'.env.erase name).bind name σ).Binds scope := by
    rw [same, Env.bind_erase]
    exact ⟨Env.Local.modify _ _, binds.rebind hx σ⟩
  rw [declare_eq]
  refine .step rfl rfl (.bind checked fun _ c' late added h => ?_)
  obtain ⟨same, found, spared⟩ := h
  have since' := since.add added
  refine .step rfl rfl (.step rfl rfl ?_)
  split
  next some =>
    refine .step rfl rfl (.step rfl rfl (.pure ?_))
    rw [List.append_nil]
    exact ⟨rebound c' same _, found, by simpa [some] using since'.judges t, spared⟩
  next none =>
    refine .step rfl rfl (.step rfl rfl (.pure ?_))
    rw [List.append_nil]
    exact ⟨rebound c' same _, found, by simpa [none] using since'.judges _, spared⟩

end Walk

/-! ## Accounts of a walk -/

section Accounted

variable (g : Ty → Ty) (scope : List String) (errors : List TypeError)

/-- There is a settled account of the errors for the expression, with the verdicts of its outcome.
Verdicts are resolved at the end of the walk, and `g` stands for that. -/
def Expr.Accounted (e : Expr α) (outcome : Expr Verdict) : Prop :=
  ∃ t : Expr Account, t.mapNotes bare = e.mapNotes bare ∧
    t.mapNotes (·.verdict) = outcome.mapNotes (Verdict.mapTy g) ∧ t.reports = errors ∧ t.Settled scope

def Stmt.Accounted (s : Stmt α) (outcome : Stmt Verdict) : Prop :=
  ∃ t : Stmt Account, t.mapNotes bare = s.mapNotes bare ∧
    t.mapNotes (·.verdict) = outcome.mapNotes (Verdict.mapTy g) ∧ t.reports = errors ∧ t.Settled scope

def Block.Accounted (b : Block α) (outcome : Block Verdict) : Prop :=
  ∃ t : Block Account, t.mapNotes bare = b.mapNotes bare ∧
    t.mapNotes (·.verdict) = outcome.mapNotes (Verdict.mapTy g) ∧ t.reports = errors ∧ t.Settled scope

def If.Accounted (b : If α) (outcome : If Verdict) : Prop :=
  ∃ t : If Account, t.mapNotes bare = b.mapNotes bare ∧
    t.mapNotes (·.verdict) = outcome.mapNotes (Verdict.mapTy g) ∧ t.reports = errors ∧ t.Settled scope

def Alternate.Accounted (a : Alternate α) (outcome : Alternate Verdict) : Prop :=
  ∃ t : Alternate Account, t.mapNotes bare = a.mapNotes bare ∧
    t.mapNotes (·.verdict) = outcome.mapNotes (Verdict.mapTy g) ∧ t.reports = errors ∧ t.Settled scope

end Accounted

theorem Block.Settled.none_of_typable {g : Ty → Ty} {scope : List String} {t : Block Account}
    {outcome : Block Verdict} (h : t.Settled scope)
    (verdicts : t.mapNotes (·.verdict) = outcome.mapNotes (Verdict.mapTy g))
    (typable : outcome.tag.note.isUntypable = false) : t.reports = [] := by
  obtain ⟨tag, body⟩ := t
  obtain ⟨tag', body'⟩ := outcome
  have same : tag.note.verdict = tag'.note.mapTy g := by
    simp only [mapNotes_mk, Block.mk.injEq] at verdicts
    exact congrArg Tag.note verdicts.1
  exact Verdict.Judges.none_of_typable (same ▸ h.1.verdict) typable

theorem If.Settled.none_of_typable {g : Ty → Ty} {scope : List String} {t : If Account}
    {outcome : If Verdict} (h : t.Settled scope)
    (verdicts : t.mapNotes (·.verdict) = outcome.mapNotes (Verdict.mapTy g))
    (typable : outcome.tag.note.isUntypable = false) : t.reports = [] := by
  obtain ⟨tag, test, consequent, alternate⟩ := t
  obtain ⟨tag', test', consequent', alternate'⟩ := outcome
  have same : tag.note.verdict = tag'.note.mapTy g := by
    simp only [mapNotes_mk, If.mk.injEq] at verdicts
    exact congrArg Tag.note verdicts.1
  exact Verdict.Judges.none_of_typable (same ▸ h.1.verdict) typable

theorem Env.Local.bindMonos (env : Env) (xs : List String) (ts : List Ty) :
    env.Local (env.bindMonos xs ts) := by
  induction xs generalizing env ts with
  | nil => exact .refl env
  | cons x xs ih =>
    cases ts with
    | nil => exact .refl env
    | cons t ts => exact (Env.Local.modify env _).trans (ih _ ts)

theorem params_accounted (g : Ty → Ty) (ps : List (Name α)) (ts : List Ty)
    (length : ts.length = ps.length) : ∃ qs : List (Name Account),
      qs.map (Name.mapNote bare) = ps.map (Name.mapNote bare) ∧
      qs.map (Name.mapNote (·.verdict)) =
        (List.zipWith (fun p t => p.annotate (.typed t)) ps ts).map (Name.mapNote (Verdict.mapTy g)) ∧
      qs.flatMap (·.note.own) = [] ∧ ∀ q ∈ qs, q.Settles .param [] := by
  induction ps generalizing ts with
  | nil => exact ⟨[], rfl, by simp, rfl, by simp⟩
  | cons p ps ih =>
    cases ts with
    | nil => cases length
    | cons t ts =>
      obtain ⟨qs, source, outcome, own, settles⟩ := ih ts (Nat.succ.inj length)
      refine ⟨p.annotate { verdict := .typed (g t) } :: qs, ?_, ?_, own, ?_⟩
      · rw [List.map_cons, source]
        rfl
      · rw [List.map_cons, outcome]
        rfl
      · exact List.forall_mem_cons.mpr ⟨⟨.inl ⟨rfl, g t, rfl⟩, by simp [Account.own, Name.annotate]⟩,
          settles⟩

theorem map_text_congr {ps : List (Name α)} {qs : List (Name β)}
    (h : qs.map (Name.mapNote bare) = ps.map (Name.mapNote bare)) :
    qs.map (·.text) = ps.map (·.text) := by
  simpa [Function.comp_def] using congrArg (List.map (·.text)) h

namespace Walk

variable {g : Ty → Ty}

theorem inferExprs_finds (es : List (Expr α)) (ih : ∀ e ∈ es, ∀ scope c, c.env.Binds scope →
      Finds (inferExpr e) c fun r c' new => c'.env = c.env ∧ e.Accounted g scope new r.2)
    (binds : c.env.Binds scope) :
    Finds (inferExprs es) c fun r c' new => c'.env = c.env ∧ ∃ ts : List (Expr Account),
      ts.map (Expr.mapNotes bare) = es.map (Expr.mapNotes bare) ∧
      ts.map (Expr.mapNotes (·.verdict)) = r.2.map (Expr.mapNotes (Verdict.mapTy g)) ∧
      Expr.reportsAll ts = new ∧ Expr.SettledAll scope ts := by
  induction es generalizing c with
  | nil => exact .pure ⟨rfl, [], rfl, rfl, rfl, trivial⟩
  | cons e es rest =>
    obtain ⟨first, others⟩ := List.forall_mem_cons.mp ih
    unfold inferExprs
    refine .bind (first scope c binds) fun r c₁ new _ h => ?_
    obtain ⟨env₁, t, source, outcome, rfl, settled⟩ := h
    rw [← env₁] at binds
    refine .bind (rest others binds) fun rs c₂ news _ h => ?_
    obtain ⟨env₂, ts, sources, outcomes, rfl, settleds⟩ := h
    refine .pure ⟨env₂.trans env₁, t :: ts, ?_, ?_, ?_, settled, settleds⟩
    · simp [source, sources]
    · simp [outcome, outcomes]
    · simp [Expr.reportsAll]

theorem inferStmts_finds (ss : List (Stmt α)) (ih : ∀ s ∈ ss, ∀ scope c, c.env.Binds scope →
      (∀ n, s.declared? = some n → n.text ∈ scope) → Finds (inferStmt s) c fun r c' new =>
        (c.env.Local c'.env ∧ c'.env.Binds scope) ∧ s.Accounted g scope new r.2)
    (declares : ∀ x ∈ declaredNames ss, x ∈ scope) (binds : c.env.Binds scope) :
    Finds (inferStmts ss) c fun r c' new => c.env.Local c'.env ∧ ∃ ts : List (Stmt Account),
      ts.map (Stmt.mapNotes bare) = ss.map (Stmt.mapNotes bare) ∧
      ts.map (Stmt.mapNotes (·.verdict)) = r.2.map (Stmt.mapNotes (Verdict.mapTy g)) ∧
      Stmt.reportsAll ts = new ∧ Stmt.SettledAll scope ts := by
  induction ss generalizing c with
  | nil => exact .pure ⟨.refl _, [], rfl, rfl, rfl, trivial⟩
  | cons s ss rest =>
    obtain ⟨first, others⟩ := List.forall_mem_cons.mp ih
    rw [declaredNames_cons, List.forall_mem_append] at declares
    have declared : ∀ n, s.declared? = some n → n.text ∈ scope := by
      intro n hn
      exact declares.1 _ (by simp [declaredNames, hn])
    unfold inferStmts
    refine .bind (first scope c binds declared) fun r c₁ new _ h => ?_
    obtain ⟨⟨inside₁, binds₁⟩, t, source, outcome, rfl, settled⟩ := h
    refine .bind (rest others declares.2 binds₁) fun rs c₂ news _ h => ?_
    obtain ⟨inside₂, ts, sources, outcomes, rfl, settleds⟩ := h
    refine .pure ⟨inside₁.trans inside₂, t :: ts, ?_, ?_, ?_, settled, settleds⟩
    · simp [source, sources]
    · simp [outcome, outcomes]
    · simp [Stmt.reportsAll]

theorem enclosed_finds {δ : Type} {xs : List String} {walk : Walk δ} {f : δ → Walk γ}
    {mid : δ → List TypeError → Prop} {post : γ → Context → List TypeError → Prop}
    (body : Finds walk (Context.bindFresh { c with env := c.env.push } xs) fun r c' new =>
      (Context.bindFresh { c with env := c.env.push } xs).env.Local c'.env ∧ mid r new)
    (rest : ∀ r c' new, c'.errors = c.errors ++ new → c'.env = c.env → mid r new →
      Finds (f r) c' fun r c'' new' => post r c'' (new ++ new')) :
    Finds (do
      let r ← walk
      modifyEnv Env.pop
      f r) (Context.bindFresh { c with env := c.env.push } xs) post := by
  refine .bind body fun r c' new added h => .step rfl rfl (rest r _ new added ?_ h.2)
  exact ((Env.Local.bindMonos _ _ _).trans h.1).pop_push

theorem infer_finds (g : Ty → Ty) : Hereditary (α := α)
    (fun e => ∀ scope c, c.env.Binds scope → Finds (inferExpr e) c fun r c' new =>
      c'.env = c.env ∧ e.Accounted g scope new r.2)
    (fun s => ∀ scope c, c.env.Binds scope → (∀ n, s.declared? = some n → n.text ∈ scope) →
      Finds (inferStmt s) c fun r c' new =>
        (c.env.Local c'.env ∧ c'.env.Binds scope) ∧ s.Accounted g scope new r.2)
    (fun b => ∀ scope c, c.env.Binds scope → Finds (inferBlock b) c fun r c' new =>
      c'.env = c.env ∧ b.Accounted g scope new r.2)
    (fun b => ∀ scope c, c.env.Binds scope → Finds (inferIf b) c fun r c' new =>
      c'.env = c.env ∧ b.Accounted g scope new r.2)
    (fun a => ∀ scope c, c.env.Binds scope → Finds (inferAlternate a) c fun r c' new =>
      c'.env = c.env ∧ (r.2.1 = true → new = []) ∧ a.Accounted g scope new r.2.2) where
  number tag x scope c _ := .pure ⟨rfl, .number (tag.annotate { verdict := .typed (g .number) }) x,
    rfl, rfl, rfl, .inl ⟨rfl, _, rfl⟩, by simp [Account.own, Tag.annotate]⟩
  text tag s scope c _ := .pure ⟨rfl, .text (tag.annotate { verdict := .typed (g .string) }) s,
    rfl, rfl, rfl, .inl ⟨rfl, _, rfl⟩, by simp [Account.own, Tag.annotate]⟩
  boolean tag b scope c _ := .pure ⟨rfl, .boolean (tag.annotate { verdict := .typed (g .boolean) }) b,
    rfl, rfl, rfl, .inl ⟨rfl, _, rfl⟩, by simp [Account.own, Tag.annotate]⟩
  null tag scope c binds := by
    unfold inferExpr
    refine .step rfl rfl (.bind (useName_finds binds _ _) fun t c₁ new added h => ?_)
    obtain ⟨env₁, rfl⟩ := h
    refine .bind (settle_finds ((Since.start c).add added) t) fun r c₂ none _ h => ?_
    obtain ⟨rfl, env₂, judged⟩ := h
    refine .pure ⟨env₂.trans env₁,
      .null (tag.annotate ⟨r.1.mapTy g, [], missing scope Prelude.null tag.pos⟩), rfl, rfl, ?_, ?_⟩
    · simp [Expr.reports, Account.own, Tag.annotate]
    · exact ⟨judged.mapTy g, rfl⟩
  name n scope c binds := by
    unfold inferExpr
    refine .step rfl rfl (.bind (useName_finds binds _ _) fun t c₁ new added h => ?_)
    obtain ⟨env₁, rfl⟩ := h
    refine .bind (settle_finds ((Since.start c).add added) t) fun r c₂ none _ h => ?_
    obtain ⟨rfl, env₂, judged⟩ := h
    refine .pure ⟨env₂.trans env₁,
      .name (n.annotate ⟨r.1.mapTy g, [], missing scope n.text n.pos⟩), rfl, rfl, ?_, ?_⟩
    · simp [Expr.reports, Account.own, Name.annotate]
    · exact ⟨judged.mapTy g, rfl⟩
  unary tag op e ih scope c binds := by
    rw [inferExpr_unary]
    refine .step rfl rfl (.bind (ih scope c binds) fun r c₁ new added h => ?_)
    obtain ⟨env₁, t, source, outcome, rfl, settled⟩ := h
    have bound := (binds.lookup op.key).mpr (binds.operators (Prelude.mem_keys_unary op))
    rw [← env₁] at bound
    have : Checks c₁.env .unary tag.pos (useOperator op.key op.symbol (Expr.unary tag op e).source
        .unaryExpression [r.1] tag.pos) := useOperator_checks bound _ _ _ rfl fun _ _ => rfl
    refine (leave_finds .unary tag.pos ((Since.start c).add added)
      fun note ty => (ty, Expr.unary (tag.annotate note) op r.2)).mono fun _ c₂ late h => ?_
    obtain ⟨env₂, own, note, ty, rfl, judged⟩ := h
    refine ⟨env₂.trans env₁, .unary (tag.annotate ⟨note.mapTy g, [], late⟩) op t, ?_, ?_, rfl,
      ⟨judged.mapTy g, own⟩, settled⟩
    · simp [source]
    · simp [outcome]
  binary tag op l r ihl ihr scope c binds := by
    rw [inferExpr_binary]
    refine .step rfl rfl (.bind (ihl scope c binds) fun r₁ c₁ new added₁ h => ?_)
    obtain ⟨env₁, t, source₁, outcome₁, rfl, settled₁⟩ := h
    refine .bind (ihr scope c₁ (env₁ ▸ binds)) fun r₂ c₂ new added₂ h => ?_
    obtain ⟨env₂, u, source₂, outcome₂, rfl, settled₂⟩ := h
    have bound := (binds.lookup op.key).mpr (binds.operators (Prelude.mem_keys_binary op))
    rw [← env₁, ← env₂] at bound
    have : Checks c₂.env .binary tag.pos (useOperator op.key op.symbol
        (Expr.binary tag op l r).source .binaryExpression [r₁.1, r₂.1] tag.pos) :=
      useOperator_checks bound _ _ _ rfl fun _ _ => rfl
    refine (leave_finds .binary tag.pos (((Since.start c).add added₁).add added₂)
      fun note ty => (ty, Expr.binary (tag.annotate note) op r₁.2 r₂.2)).mono fun _ c₃ late h => ?_
    obtain ⟨env₃, own, note, ty, rfl, judged⟩ := h
    refine ⟨env₃.trans (env₂.trans env₁), .binary (tag.annotate ⟨note.mapTy g, [], late⟩) op t u,
      ?_, ?_, ?_, ⟨judged.mapTy g, own⟩, settled₁, settled₂⟩
    · simp [source₁, source₂]
    · simp [outcome₁, outcome₂]
    · simp [Expr.reports, Account.own, Tag.annotate]
  conditional tag t d a iht ihd iha scope c binds := by
    have test (env : Env) (ty : Ty) : Checks env .conditional tag.pos (checkTest
        .conditionalExpression (Expr.conditionalHeader t) tag.pos ty) := checkTest_checks rfl _ _
    have branches (env : Env) (a b : Ty) : Checks env .conditional tag.pos (checkBranches
        .conditionalExpression (Expr.conditionalHeader t) tag.pos a b) := checkBranches_checks rfl _ _ _
    rw [inferExpr_conditional]
    refine .step rfl rfl (.bind (iht scope c binds) fun r₁ c₁ new added₁ h => ?_)
    obtain ⟨env₁, t₁, source₁, outcome₁, rfl, settled₁⟩ := h
    refine .bind (check_finds .conditional tag.pos) fun _ c₂ early added₂ h => ?_
    obtain ⟨env₂, first⟩ := h
    rw [env₁] at env₂
    refine .bind (ihd scope c₂ (env₂ ▸ binds)) fun r₃ c₃ new added₃ h => ?_
    obtain ⟨env₃, t₃, source₃, outcome₃, rfl, settled₃⟩ := h
    rw [env₂] at env₃
    refine .bind (iha scope c₃ (env₃ ▸ binds)) fun r₄ c₄ new added₄ h => ?_
    obtain ⟨env₄, t₄, source₄, outcome₄, rfl, settled₄⟩ := h
    rw [env₃] at env₄
    refine (leave_finds .conditional tag.pos
      (((((Since.start c).add added₁).add added₂).add added₃).add added₄)
      fun note ty => (ty, Expr.conditional (tag.annotate note) r₁.2 r₃.2 r₄.2)).mono
      fun _ c₅ late h => ?_
    obtain ⟨env₅, second, note, ty, rfl, judged⟩ := h
    refine ⟨env₅.trans env₄, .conditional (tag.annotate ⟨note.mapTy g, early, late⟩) t₁ t₃ t₄,
      ?_, ?_, ?_, ⟨judged.mapTy g, List.forall_mem_append.mpr ⟨first, second⟩⟩,
      settled₁, settled₃, settled₄⟩
    · simp [source₁, source₃, source₄]
    · simp [outcome₁, outcome₃, outcome₄]
    · simp [Expr.reports, Tag.annotate]
  call tag f args ihf ihargs scope c binds := by
    rw [inferExpr_call]
    refine .step rfl rfl (.bind (ihf scope c binds) fun r₁ c₁ new added₁ h => ?_)
    obtain ⟨env₁, t, source₁, outcome₁, rfl, settled₁⟩ := h
    refine .bind (inferExprs_finds args ihargs (env₁ ▸ binds)) fun r₂ c₂ new added₂ h => ?_
    obtain ⟨env₂, ts, source₂, outcome₂, rfl, settled₂⟩ := h
    refine (leave_finds .call tag.pos (((Since.start c).add added₁).add added₂)
      fun note ty => (ty, Expr.call (tag.annotate note) r₁.2 r₂.2)).mono fun _ c₃ late h => ?_
    obtain ⟨env₃, own, note, ty, rfl, judged⟩ := h
    refine ⟨env₃.trans (env₂.trans env₁), .call (tag.annotate ⟨note.mapTy g, [], late⟩) t ts,
      ?_, ?_, ?_, ⟨judged.mapTy g, own⟩, settled₁, settled₂⟩
    · simp [source₁, source₂]
    · simp [outcome₁, outcome₂]
    · simp [Expr.reports, Account.own, Tag.annotate]
  arrow tag ps body ih scope c binds := by
    obtain ⟨qs, sources, outcomes, none, settles⟩ :=
      params_accounted g ps (freshTys c.nextVar ps.length) (length_freshTys _ _)
    unfold inferExpr
    refine .step rfl rfl (.step rfl rfl (.step (bindParams_run ps _) rfl ?_))
    refine enclosed_finds ((ih _ _ (binds.push.bindFresh (ps.map (·.text)))).mono
      fun r c' new h => ⟨h.1 ▸ .refl _, h.2⟩) fun r c₁ new added env₁ h => ?_
    obtain ⟨t, source, outcome, rfl, settled⟩ := h
    refine .bind (settle_finds ((Since.start c).add added) _) fun r₂ c₂ new _ h => ?_
    obtain ⟨rfl, env₂, judged⟩ := h
    have all (tag : Tag Account) (own : tag.note.own = []) :
        (Expr.arrow tag qs t).reports = t.reports := by simp [Expr.reports, none, own]
    refine .pure ⟨env₂.trans env₁, .arrow (tag.annotate { verdict := r₂.1.mapTy g }) qs t,
      ?_, ?_, ?_, ⟨?_, by simp [Account.own, Tag.annotate]⟩, settles, map_text_congr sources ▸ settled⟩
    · simp [sources, source]
    · simp [outcomes, outcome]
    · simp [all, Account.own, Tag.annotate]
    · rw [all _ rfl]
      exact judged.mapTy g
  arrowBlock tag ps body ih scope c binds := by
    obtain ⟨qs, sources, outcomes, none, settles⟩ :=
      params_accounted g ps (freshTys c.nextVar ps.length) (length_freshTys _ _)
    unfold inferExpr
    refine .step rfl rfl (.step rfl rfl (.step (bindParams_run ps _) rfl ?_))
    refine enclosed_finds ((ih _ _ (binds.push.bindFresh (ps.map (·.text)))).mono
      fun r c' new h => ⟨h.1 ▸ .refl _, h.2⟩) fun r c₁ new added env₁ h => ?_
    obtain ⟨t, source, outcome, rfl, settled⟩ := h
    refine .bind (settle_finds ((Since.start c).add added) _) fun r₂ c₂ new _ h => ?_
    obtain ⟨rfl, env₂, judged⟩ := h
    have all (tag : Tag Account) (own : tag.note.own = []) :
        (Expr.arrowBlock tag qs t).reports = t.reports := by simp [Expr.reports, none, own]
    refine .pure ⟨env₂.trans env₁, .arrowBlock (tag.annotate { verdict := r₂.1.mapTy g }) qs t,
      ?_, ?_, ?_, ⟨?_, by simp [Account.own, Tag.annotate]⟩, settles, map_text_congr sources ▸ settled⟩
    · simp [sources, source]
    · simp [outcomes, outcome]
    · simp [all, Account.own, Tag.annotate]
    · rw [all _ rfl]
      exact judged.mapTy g
  assign tag target e ih scope c binds := by
    rw [inferExpr_assign]
    refine .step rfl rfl (.bind (ih scope c binds) fun r c₁ new added h => ?_)
    obtain ⟨env₁, t, source, outcome, rfl, settled⟩ := h
    have found := binds.lookup target.text
    have all (note : Verdict) (name : Account) (late : List TypeError) :
        (Expr.assign (tag.annotate ⟨note, [], late⟩) (target.annotate name) t).reports =
          t.reports ++ name.own ++ late := by
      simp [Expr.reports, Account.own, Tag.annotate, Name.annotate]
    refine .step rfl rfl ?_
    rw [env₁]
    cases known : c.env.lookup target.text with
    | none =>
      rw [known] at found
      have unbound : missing scope target.text target.pos =
          [⟨.unboundName target.text, target.pos⟩] := if_neg (by simpa using found)
      have reported : Finds (report (.unboundName target.text) target.pos) c₁ fun _ c' new =>
          c'.env = c₁.env ∧ new = missing scope target.text target.pos :=
        ⟨_, by rw [unbound]; rfl, rfl, rfl⟩
      refine .bind reported fun _ c₂ new added₂ h => .step rfl rfl ?_
      obtain ⟨env₂, rfl⟩ := h
      have since : Since c.errors.length _ c₂.freshTy.2 := ((Since.start c).add added).add added₂
      refine .bind (settle_finds since _) fun r₃ c₃ new _ h => ?_
      obtain ⟨rfl, env₃, judged⟩ := h
      refine .pure ⟨env₃.trans (env₂.trans env₁), .assign (tag.annotate { verdict := r₃.1.mapTy g })
        (target.annotate ⟨.untypable, [], missing scope target.text target.pos⟩) t,
        ?_, ?_, ?_, ⟨?_, by simp [Account.own, Tag.annotate]⟩, ⟨?_, rfl⟩, settled⟩
      · simp [source]
      · simp [outcome, Verdict.mapTy]
      · simp [all, Account.own]
      · rw [all, List.append_nil]
        exact judged.mapTy g
      · exact .inr ⟨by simp [unbound, Account.own, Name.annotate], rfl⟩
    | some scheme =>
      rw [known] at found
      have bound : missing scope target.text target.pos = [] := if_pos (by simpa using found)
      have run : (instantiate scheme).run c₁ = c₁.instantiate scheme := rfl
      obtain ⟨env₂, same⟩ := instantiate_quiet scheme c₁
      generalize c₁.instantiate scheme = instantiated at run env₂ same
      obtain ⟨expected, c₂⟩ := instantiated
      have : Checks c₂.env .assign tag.pos (checkSame .assignment (Expr.assign tag target e).source
          tag.pos expected r.1) := checkSame_checks rfl _ _ _
      refine .step run same ((leave_finds .assign tag.pos ((Since.start c).add (same.trans added))
        fun note ty => (ty, Expr.assign (tag.annotate note) (target.annotate (.typed expected)) r.2)).mono
        fun _ c₃ late h => ?_)
      obtain ⟨env₃, own, note, ty, rfl, judged⟩ := h
      refine ⟨env₃.trans (env₂.trans env₁), .assign (tag.annotate ⟨note.mapTy g, [], late⟩)
        (target.annotate { verdict := .typed (g expected) }) t, ?_, ?_, ?_, ⟨?_, own⟩,
        ⟨.inl ⟨rfl, _, rfl⟩, bound.symm⟩, settled⟩
      · simp [source]
      · simp [outcome, Verdict.mapTy]
      · simp [all, Account.own]
      · rw [all]
        simpa [Account.own, Tag.annotate] using judged.mapTy g
  declare tag keyword n e ih scope c binds declares := by
    have named : (NodeKind.declaration keyword).construct? = some (Binding.value keyword).construct := by
      cases keyword <;> rfl
    unfold inferStmt
    refine .step rfl rfl (.bind (ih scope c binds) fun r c₁ new added h => ?_)
    obtain ⟨env₁, t, source, outcome, rfl, settled⟩ := h
    refine .bind (declare_finds (env₁ ▸ binds) (declares n rfl) (.value keyword) named _
      ((Since.start c).add added) r.1) fun note c₂ late _ h => ?_
    obtain ⟨⟨inside, binds₂⟩, own, judged, -⟩ := h
    have all : (Stmt.declare (tag.annotate ⟨note.mapTy g, [], late⟩) keyword
        (n.annotate { verdict := note.mapTy g }) t).reports = t.reports ++ late := by
      simp [Stmt.reports, Account.own, Tag.annotate, Name.annotate]
    refine .pure ⟨⟨env₁ ▸ inside, binds₂⟩, .declare (tag.annotate ⟨note.mapTy g, [], late⟩) keyword
      (n.annotate { verdict := note.mapTy g }) t, ?_, ?_, ?_, ⟨?_, own⟩, rfl, settled⟩
    · simp [source]
    · simp [outcome]
    · rw [all, List.append_nil]
    · rw [all]
      exact judged.mapTy g
  function tag n ps body ih scope c binds declares := by
    obtain ⟨qs, sources, outcomes, none, settles⟩ :=
      params_accounted g ps (freshTys c.nextVar ps.length) (length_freshTys _ _)
    have named : NodeKind.function.construct? = some Binding.function.construct := rfl
    unfold inferStmt
    refine .step rfl rfl (.step rfl rfl (.step (bindParams_run ps _) rfl ?_))
    refine enclosed_finds ((ih _ _ (binds.push.bindFresh (ps.map (·.text)))).mono
      fun r c' new h => ⟨h.1 ▸ .refl _, h.2⟩) fun r c₁ new added env₁ h => ?_
    obtain ⟨t, source, outcome, rfl, settled⟩ := h
    refine .bind (declare_finds (env₁ ▸ binds) (declares n rfl) .function named _
      ((Since.start c).add added) _) fun note c₂ late _ h => ?_
    obtain ⟨⟨inside, binds₂⟩, own, judged, spared⟩ := h
    have all : (Stmt.function (tag.annotate ⟨note.mapTy g, [], late⟩)
        (n.annotate { verdict := note.mapTy g }) qs t).reports = t.reports ++ late := by
      rw [Stmt.reports, none]
      simp [Account.own, Tag.annotate, Name.annotate]
    refine .pure ⟨⟨env₁ ▸ inside, binds₂⟩, .function (tag.annotate ⟨note.mapTy g, [], late⟩)
      (n.annotate { verdict := note.mapTy g }) qs t, ?_, ?_, ?_, ⟨⟨?_, own⟩, spared⟩, rfl, settles,
      map_text_congr sources ▸ settled⟩
    · simp [sources, source]
    · simp [outcomes, outcome]
    · simp [all]
    · rw [all]
      exact judged.mapTy g
  retNothing tag scope c binds _ := .pure ⟨⟨.refl _, binds⟩,
    .ret (tag.annotate { verdict := .typed (g .undefined) }) none,
    rfl, rfl, rfl, .inl ⟨rfl, _, rfl⟩, by simp [Account.own, Tag.annotate]⟩
  ret tag e ih scope c binds _ := by
    unfold inferStmt
    refine .step rfl rfl (.bind (ih scope c binds) fun r c₁ new added h => ?_)
    obtain ⟨env₁, t, source, outcome, rfl, settled⟩ := h
    refine .bind (settle_finds ((Since.start c).add added) _) fun r₂ c₂ new _ h => ?_
    obtain ⟨rfl, env₂, judged⟩ := h
    rw [env₁] at env₂
    refine .pure ⟨⟨env₂ ▸ .refl _, env₂ ▸ binds⟩,
      .ret (tag.annotate { verdict := r₂.1.mapTy g }) (some t), ?_, ?_, ?_, ?_, settled⟩
    · simp [source]
    · simp [outcome]
    · simp [Stmt.reports, Account.own, Tag.annotate]
    · refine ⟨?_, by simp [Account.own, Tag.annotate]⟩
      simpa [Stmt.reports, Account.own, Tag.annotate] using judged.mapTy g
  ifElse b ih scope c binds _ := by
    unfold inferStmt
    refine .bind (ih scope c binds) fun r c₁ new _ h => ?_
    obtain ⟨env₁, t, source, outcome, rfl, settled⟩ := h
    refine .pure ⟨⟨env₁ ▸ .refl _, env₁ ▸ binds⟩, .ifElse t, ?_, ?_, ?_, settled⟩
    · rw [Stmt.mapNotes_ifElse, source, Stmt.mapNotes_ifElse]
    · rw [Stmt.mapNotes_ifElse, outcome, Stmt.mapNotes_ifElse]
    · rw [Stmt.reports, List.append_nil]
  block b ih scope c binds _ := by
    unfold inferStmt
    refine .bind (ih scope c binds) fun r c₁ new _ h => ?_
    obtain ⟨env₁, t, source, outcome, rfl, settled⟩ := h
    refine .pure ⟨⟨env₁ ▸ .refl _, env₁ ▸ binds⟩, .block t, ?_, ?_, ?_, settled⟩
    · rw [Stmt.mapNotes_block, source, Stmt.mapNotes_block]
    · rw [Stmt.mapNotes_block, outcome, Stmt.mapNotes_block]
    · rw [Stmt.reports, List.append_nil]
  expr e ih scope c binds _ := by
    unfold inferStmt
    refine .bind (ih scope c binds) fun r c₁ new _ h => ?_
    obtain ⟨env₁, t, source, outcome, rfl, settled⟩ := h
    refine .pure ⟨⟨env₁ ▸ .refl _, env₁ ▸ binds⟩, .expr t, ?_, ?_, ?_, settled⟩
    · rw [Stmt.mapNotes_expr, source, Stmt.mapNotes_expr]
    · rw [Stmt.mapNotes_expr, outcome, Stmt.mapNotes_expr]
    · rw [Stmt.reports, List.append_nil]
  body tag body ih scope c binds := by
    unfold inferBlock
    refine .step rfl rfl (.step rfl rfl (.step (hoist_run body _) rfl ?_))
    refine enclosed_finds (inferStmts_finds body ih (fun _ => List.mem_append_left _)
      (binds.push.bindFresh (declaredNames body))) fun r c₁ new added env₁ h => ?_
    obtain ⟨ts, source, outcome, rfl, settled⟩ := h
    have names : declaredNames ts = declaredNames body := by
      rw [← declaredNames_map bare, source, declaredNames_map]
    refine .bind (settle_finds ((Since.start c).add added) _) fun r₂ c₂ new _ h => ?_
    obtain ⟨rfl, env₂, judged⟩ := h
    refine .pure ⟨env₂.trans env₁, ⟨tag.annotate { verdict := r₂.1.mapTy g }, ts⟩,
      ?_, ?_, ?_, ⟨?_, by simp [Account.own, Tag.annotate]⟩, names ▸ settled⟩
    · simp [source]
    · simp [outcome]
    · rfl
    · simpa [Block.reports, Account.own, Tag.annotate] using judged.mapTy g
  branch tag test consequent alternate iht ihc iha scope c binds := by
    have test (env : Env) (ty : Ty) : Checks env .branch tag.pos (checkTest .ifStatement
        (If.header ⟨tag, test, consequent, alternate⟩) tag.pos ty) := checkTest_checks rfl _ _
    rw [inferIf_eq]
    refine .step rfl rfl (.bind (iht scope c binds) fun r₁ c₁ new added₁ h => ?_)
    obtain ⟨env₁, t₁, source₁, outcome₁, rfl, settled₁⟩ := h
    refine .bind (check_finds .branch tag.pos) fun _ c₂ early added₂ h => ?_
    obtain ⟨env₂, first⟩ := h
    rw [env₁] at env₂
    refine .bind (ihc scope c₂ (env₂ ▸ binds)) fun r₃ c₃ new added₃ h => ?_
    obtain ⟨env₃, t₃, source₃, outcome₃, rfl, settled₃⟩ := h
    rw [env₂] at env₃
    refine .bind (iha scope c₃ (env₃ ▸ binds)) fun r₄ c₄ new added₄ h => ?_
    obtain ⟨env₄, sound₄, t₄, source₄, outcome₄, rfl, settled₄⟩ := h
    rw [env₃] at env₄
    refine .bind (joinBranches_finds ..) fun returned c₅ late added₅ h => ?_
    obtain ⟨env₅, second, checked⟩ := h
    have spared : t₃.reports ++ t₄.reports = [] ∨ late = [] := by
      refine checked.imp_left fun both => ?_
      rw [Bool.and_eq_true, Bool.not_eq_true'] at both
      rw [settled₃.none_of_typable outcome₃ both.1, sound₄ both.2, List.append_nil]
    refine .bind (settle_finds
      ((((((Since.start c).add added₁).add added₂).add added₃).add added₄).add added₅) _)
      fun r₆ c₆ new _ h => ?_
    obtain ⟨rfl, env₆, judged⟩ := h
    refine .pure ⟨env₆.trans (env₅.trans env₄), ⟨tag.annotate ⟨r₆.1.mapTy g, early, late⟩, t₁, t₃, t₄⟩,
      ?_, ?_, ?_, ⟨⟨judged.mapTy g, List.forall_mem_append.mpr ⟨first, second⟩⟩, spared⟩,
      settled₁, settled₃, settled₄⟩
    · simp [source₁, source₃, source₄]
    · simp [outcome₁, outcome₃, outcome₄]
    · simp [If.reports, Tag.annotate]
  absent scope c _ := .pure ⟨rfl, fun _ => rfl, .absent, rfl, rfl, rfl, trivial⟩
  otherwise b ih scope c binds := by
    unfold inferAlternate
    refine .bind (ih scope c binds) fun r c₁ new _ h => ?_
    obtain ⟨env₁, t, source, outcome, rfl, settled⟩ := h
    refine .pure ⟨env₁, fun sound => ?_, .block t, ?_, ?_, ?_, settled⟩
    · rw [List.append_nil]
      exact settled.none_of_typable outcome (Bool.not_eq_true' _ ▸ sound)
    · rw [Alternate.mapNotes_block, source, Alternate.mapNotes_block]
    · rw [Alternate.mapNotes_block, outcome, Alternate.mapNotes_block]
    · rw [Alternate.reports, List.append_nil]
  elseIf b ih scope c binds := by
    unfold inferAlternate
    refine .bind (ih scope c binds) fun r c₁ new _ h => ?_
    obtain ⟨env₁, t, source, outcome, rfl, settled⟩ := h
    refine .pure ⟨env₁, fun sound => ?_, .elseIf t, ?_, ?_, ?_, settled⟩
    · rw [List.append_nil]
      exact settled.none_of_typable outcome (Bool.not_eq_true' _ ▸ sound)
    · rw [Alternate.mapNotes_elseIf, source, Alternate.mapNotes_elseIf]
    · rw [Alternate.mapNotes_elseIf, outcome, Alternate.mapNotes_elseIf]
    · rw [Alternate.reports, List.append_nil]

theorem inferProgram_finds (g : Ty → Ty) (p : Program α) (binds : c.env.Binds scope) :
    Finds (inferProgram p) c fun q _ new => ∃ t : Program Account,
      t.map bare = p.map bare ∧ t.map (·.verdict) = q.map (Verdict.mapTy g) ∧ t.reports = new ∧
        t.Settled scope := by
  unfold inferProgram
  refine .step rfl rfl (.step (hoist_run p.body _) rfl ?_)
  refine enclosed_finds (inferStmts_finds p.body (fun s _ => (infer_finds g).forStmt s)
    (fun _ => List.mem_append_left _) (binds.push.bindFresh (declaredNames p.body)))
    fun r c₁ new added env₁ h => ?_
  obtain ⟨ts, source, outcome, rfl, settled⟩ := h
  have names : declaredNames ts = declaredNames p.body := by
    rw [← declaredNames_map bare, source, declaredNames_map]
  refine .pure ⟨⟨ts⟩, ?_, ?_, (List.append_nil _).symm, ?_⟩
  · rw [Program.map_eq, Program.map_eq, source]
  · rw [Program.map_eq, Program.map_eq, outcome]
  · rw [Program.Settled, names]
    exact settled

end Walk

/-- All that an analysis reports is accounted for. -/
theorem analyse_accounted (p : Program α) (binds : c.env.Binds scope) : ∃ t : Program Account,
    t.map bare = p.map bare ∧ t.map (·.verdict) = (analyse p c).1 ∧
      (analyse p c).2.errors = c.errors ++ t.reports ∧ t.Settled scope := by
  obtain ⟨_, errors, t, source, outcome, rfl, settled⟩ :=
    Walk.inferProgram_finds ((Walk.inferProgram p).run c).2.resolve p binds
  exact ⟨t, source, outcome, errors, settled⟩

end Polytype
