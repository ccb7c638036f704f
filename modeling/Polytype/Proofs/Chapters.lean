import Polytype.Proofs.Accounts
import Polytype.Proofs.Independence
import Polytype.Proofs.Walk.Clean

/-!
# Later chapters

A program without unbound names comes out the same in any later chapter: it is accepted there, its
errors read the same, and so do its verdicts (`infer_later`). It may have other errors, and it may
declare names that only the later prelude binds.

A later prelude has more bindings at its end, under names of their own. They take the numbers that
come after those of the earlier prelude, so all variables of the run have higher numbers. No use of a
name of the program leads to these bindings, and since their schemes are closed, the environment sees
no more variables than before. So a new context of the later chapter mirrors one of the earlier
chapter (`mirror_new`).
-/

namespace Polytype

variable {α : Type} {chapter later : Chapter}

/-! ## Validation -/

namespace Validation

theorem needsAssignment_later {p : Place} (offers : later.offers p.chapter = true)
    {construct : String} {pos : Position} (h : needsAssignment p construct pos = []) :
    needsAssignment { p with chapter := later } construct pos = [] := by
  unfold needsAssignment Chapter.offers at *
  simp only [decide_eq_true_eq, ite_eq_left_iff, List.cons_ne_nil, imp_false, not_not] at *
  omega

theorem check_later : Hereditary (α := α)
    (fun e => ∀ p : Place, later.offers p.chapter = true → checkExpr p e = [] →
      checkExpr { p with chapter := later } e = [])
    (fun s => ∀ p : Place, later.offers p.chapter = true → checkStmt p s = [] →
      checkStmt { p with chapter := later } s = [])
    (fun b => ∀ p : Place, later.offers p.chapter = true → checkBlock p b = [] →
      checkBlock { p with chapter := later } b = [])
    (fun b => ∀ p : Place, later.offers p.chapter = true → checkIf p b = [] →
      checkIf { p with chapter := later } b = [])
    (fun a => ∀ p : Place, later.offers p.chapter = true → checkAlternate p a = [] →
      checkAlternate { p with chapter := later } a = []) := by
  constructor
  case call =>
    intro tag callee args ih ihs p offers h
    simp only [checkExpr, checkExprs_eq, List.append_eq_nil_iff, List.flatMap_eq_nil_iff] at h ⊢
    exact ⟨ih p offers h.1, fun e he => ihs e he p offers (h.2 e he)⟩
  case assign =>
    intro tag target e ih p offers h
    simp only [checkExpr, List.append_eq_nil_iff] at h ⊢
    exact ⟨⟨needsAssignment_later offers h.1.1, h.1.2⟩, ih p offers h.2⟩
  case declare =>
    intro tag keyword n e ih p offers h
    cases keyword with
    | constant => exact ih p offers h
    | mutable =>
      simp only [checkStmt, List.append_eq_nil_iff] at h ⊢
      exact ⟨needsAssignment_later offers h.1, ih p offers h.2⟩
  case body =>
    intro tag body ih p offers h
    simp only [checkBlock, checkStmts_eq, List.append_eq_nil_iff, List.flatMap_eq_nil_iff] at h ⊢
    exact ⟨h.1, fun s hs => ih s hs (p.enter (blockFrame body)) offers (h.2 s hs)⟩
  case ret =>
    intro tag e ih p offers h
    simp only [checkStmt, List.append_eq_nil_iff] at h ⊢
    exact ⟨h.1, ih p offers h.2⟩
  case arrow =>
    intro tag ps body ih p
    exact ih (p.enter (paramFrame ps))
  case arrowBlock =>
    intro tag ps body ih p
    exact ih (p.enterFunction (paramFrame ps))
  case function =>
    intro tag n ps body ih p
    exact ih (p.enterFunction (paramFrame ps))
  all_goals
    intros
    simp_all [checkExpr, checkStmt, checkIf, checkAlternate]

theorem errors_later (offers : later.offers chapter = true) {p : Program α}
    (h : errors chapter p = []) : errors later p = [] := by
  unfold errors at h ⊢
  simp only [checkStmts_eq, List.append_eq_nil_iff, List.flatMap_eq_nil_iff] at h ⊢
  exact ⟨h.1, fun s hs => check_later.forStmt s _ offers (h.2 s hs)⟩

end Validation

/-! ## Preludes -/

namespace Prelude

/-- The bindings that the later prelude has at its end. -/
def added (chapter later : Chapter) : List Entry :=
  (if later.offers .two && !chapter.offers .two then lists else []) ++
    (if later.offers .three && !chapter.offers .three then listUpdates else [])

theorem entries_later (offers : later.offers chapter = true) :
    entries later = entries chapter ++ added chapter later := by
  cases chapter <;> cases later <;>
    simp [entries, added, Chapter.offers, Chapter.number] at offers ⊢

theorem neat_added : ∀ entry ∈ added chapter later, entry.2.Neat := by
  intro entry he
  unfold added at he
  exact neat_lists entry (by grind)

theorem lists_new : ∀ entry ∈ lists, entry.1 ∉ (operators ++ basics).map (·.1) := by decide

theorem listUpdates_new :
    ∀ entry ∈ listUpdates, entry.1 ∉ (operators ++ basics ++ lists).map (·.1) := by decide

theorem added_new {entry : Entry} (he : entry ∈ added chapter later) :
    entry.1 ∉ (entries chapter).map (·.1) := by
  rcases List.mem_append.mp he with mem | mem <;> split at mem
  next offered =>
    have new := lists_new entry mem
    cases chapter <;> simp_all [entries, Chapter.offers, Chapter.number]
  next => cases mem
  next offered =>
    have new := listUpdates_new entry mem
    cases chapter <;> simp_all [entries, Chapter.offers, Chapter.number]
  next => cases mem

theorem numbered_append (n : Nat) (es more : List Entry) : numbered n (es ++ more) =
    ((numbered n es).1 ++ (numbered (numbered n es).2 more).1,
      (numbered (numbered n es).2 more).2) := by
  induction es generalizing n with
  | nil => rfl
  | cons e es ih =>
    rw [List.cons_append, numbered, numbered, ih]
    rfl

theorem numbered_later (offers : later.offers chapter = true) : numbered 0 (entries later) =
    ((numbered 0 (entries chapter)).1 ++
        (numbered (Context.new chapter).nextVar (added chapter later)).1,
      (numbered (Context.new chapter).nextVar (added chapter later)).2) := by
  rw [entries_later offers, numbered_append, nextVar_new]

end Prelude

/-- How a run in a new context of the earlier chapter is seen in one of the later chapter. -/
def Chapter.transfer (chapter later : Chapter) : Transfer where
  base := (Context.new chapter).nextVar
  offset := (Prelude.numbered (Context.new chapter).nextVar (Prelude.added chapter later)).2 -
    (Context.new chapter).nextVar
  earlier := []
  extra := (Prelude.numbered (Context.new chapter).nextVar (Prelude.added chapter later)).1
  closed := by
    intro entry he v hv
    obtain ⟨le, k, closed⟩ :=
      Prelude.numbered_closed (Context.new chapter).nextVar _ Prelude.neat_added
    obtain ⟨bound, _, above, below⟩ := (closed entry he).1 v hv
    exact ⟨bound, above, by omega⟩

theorem Scope.Wider.bindExtra {T : Transfer} {scope scope' : Scope} (h : Wider T scope scope')
    (es : List (String × Scheme)) (extra : ∀ entry ∈ es, entry ∈ T.extra)
    (new : ∀ entry ∈ es, scope.lookup entry.1 = none) :
    Wider T scope (es.foldl (fun scope entry => Scope.bind entry.1 entry.2 scope) scope') := by
  induction es generalizing scope' with
  | nil => exact h
  | cons entry es ih =>
    obtain ⟨mem, extra⟩ := List.forall_mem_cons.mp extra
    obtain ⟨first, new⟩ := List.forall_mem_cons.mp new
    refine ih (.extra mem first ?_) extra new
    -- Nothing is erased from the narrower scope.
    have absent : Scope.erase entry.1 scope = scope := by
      rw [Scope.erase, List.filter_eq_self]
      intro other mem
      have differ : (entry.1 != other.1) = true := List.lookup_eq_none_iff.mp first other mem
      rw [bne_comm]
      exact differ
    have erased := h.erase entry.1
    rwa [absent] at erased

theorem nextVar_later (offers : later.offers chapter = true) :
    (Context.new later).nextVar = (Context.new chapter).nextVar + (chapter.transfer later).offset := by
  obtain ⟨le, _⟩ := Prelude.numbered_closed (Context.new chapter).nextVar _ Prelude.neat_added
  rw [Prelude.nextVar_new later, Prelude.numbered_later offers]
  exact (Nat.add_sub_cancel' le).symm

theorem lookup_extra {entry : String × Scheme} (he : entry ∈ (chapter.transfer later).extra) :
    (Context.new chapter).env.outermost.lookup entry.1 = none := by
  have name : entry.1 ∈ (Prelude.added chapter later).map (·.1) := by
    rw [← Prelude.map_fst_numbered]
    exact List.mem_map_of_mem he
  obtain ⟨other, mem, same⟩ := List.mem_map.mp name
  have new := Prelude.added_new mem
  rw [same, ← Prelude.map_fst_numbered 0, ← Scope.isSome_lookup_ofList] at new
  exact Option.not_isSome_iff_eq_none.mp new

theorem wider_later (offers : later.offers chapter = true) :
    Scope.Wider (chapter.transfer later) (Context.new chapter).env.outermost
      (Context.new later).env.outermost := by
  have outermost : (Context.new later).env.outermost = (chapter.transfer later).extra.foldl
      (fun scope entry => Scope.bind entry.1 entry.2 scope) (Context.new chapter).env.outermost := by
    rw [Prelude.outermost_new, Prelude.outermost_new, Prelude.numbered_later offers]
    exact List.foldl_append
  rw [outermost]
  exact (Prelude.wider_new rfl).bindExtra _ (fun _ => id) fun _ => lookup_extra

theorem mirror_new (offers : later.offers chapter = true) :
    Mirror (chapter.transfer later) (Context.new chapter) (Context.new later) where
  idempotent := Unify.idempotent_empty
  idempotent' := Unify.idempotent_empty
  subst _ := rfl
  base := le_rfl
  next := nextVar_later offers
  env := ⟨rfl, wider_later offers⟩
  unbound _ _ _ _ := Finset.notMem_empty _
  errors := rfl

/-- A program that is accepted, and in which no name is unbound, is accepted in every later chapter.
Its errors read the same there, and so do the types of its declarations and all verdicts. -/
theorem infer_later {p : Program α} {q : Program Verdict} {c : Context}
    (offers : later.offers chapter = true) (inferred : infer chapter p = .ok (q, c))
    (bound : ∀ e ∈ c.errors, ∀ name, e.problem ≠ .unboundName name) :
    validate later p = .ok (p.map fun _ => .pending) ∧ ∃ q' c', infer later p = .ok (q', c') ∧
      TypeError.report c'.errors = TypeError.report c.errors ∧
      q'.declarationTypes = q.declarationTypes ∧ q'.map Verdict.shown = q.map Verdict.shown := by
  have valid := valid_of_infer inferred
  have accepted := Validation.errors_later offers valid
  obtain ⟨rfl, rfl⟩ : _ = q ∧ _ = c :=
    Prod.ext_iff.mp (Except.ok.inj ((infer_eq_analyse valid).symm.trans inferred))
  -- No name is reported, so no lookup has come to an extra binding.
  obtain ⟨program, mirror⟩ := (mirror_new offers).analyse _ fun _ => bound
  have renumbering := (chapter.transfer later).renumbering
  have again := infer_eq_analyse accepted
  generalize analyse _ (Context.new later) = outcome at program mirror again
  obtain ⟨q', c'⟩ := outcome
  dsimp only at program mirror
  refine ⟨Validation.validate_of_errors accepted, q', c', again, ?_, ?_, ?_⟩
  · rw [mirror.errors]
    exact TypeError.report_rename renumbering _
  · rw [program]
    exact declarationTypes_rename renumbering _
  · rw [program, Program.map_map]
    exact congrArg (Program.map · _) (funext (Verdict.shown_rename renumbering))

/-- Declares names that the preludes of later chapters bind to something else, and calls the
functions with wrong arguments. -/
def shadowing : Program Unit :=
  let tag (line : Nat) : Tag Unit := ⟨{ line }, ()⟩
  let name (line : Nat) (x : String) : Name Unit := ⟨tag line, x⟩
  let use (line : Nat) (x : String) : Expr Unit := .name (name line x)
  ⟨[.declare (tag 1) .constant (name 1 "head") (.arrow (tag 1) [name 1 "x"]
      (.binary (tag 1) .add (use 1 "x") (.number (tag 1) 1))),
    .function (tag 2) (name 2 "pair") [name 2 "f", name 2 "set_head"] ⟨tag 2,
      [.ret (tag 3) (some (.call (tag 3) (use 3 "f") [.call (tag 3) (use 3 "head")
        [use 3 "set_head"]]))]⟩,
    .expr (.call (tag 4) (use 4 "pair") [.boolean (tag 4) true, .number (tag 4) 1]),
    .declare (tag 5) .constant (name 5 "tail") (.call (tag 5) (use 5 "head") [.text (tag 5) "a"])]⟩

theorem infer_later_shadowing : ∃ q c,
    (Chapter.four.offers .one = true ∧ infer .one shadowing = .ok (q, c) ∧ c.errors.length = 2 ∧
      ∀ e ∈ c.errors, ∀ name, e.problem ≠ .unboundName name) ∧
    validate .four shadowing = .ok (shadowing.map fun _ => .pending) ∧
    ∃ q' c', infer .four shadowing = .ok (q', c') ∧
      TypeError.report c'.errors = TypeError.report c.errors ∧
      q'.declarationTypes = q.declarationTypes ∧ q'.map Verdict.shown = q.map Verdict.shown := by
  have valid : Validation.errors .one shadowing = [] := List.isEmpty_iff.mp (by decide +kernel)
  have inferred := infer_eq_analyse valid
  have errors : (analyse (shadowing.map fun _ => Verdict.pending) (Context.new .one)).2.errors.length =
      2 ∧ ∀ e ∈ (analyse (shadowing.map fun _ => Verdict.pending) (Context.new .one)).2.errors,
        e.unbound?.isNone := by decide +kernel
  generalize analyse _ (Context.new .one) = outcome at inferred errors
  obtain ⟨q, c⟩ := outcome
  have bound : ∀ e ∈ c.errors, ∀ name, e.problem ≠ .unboundName name := by
    intro e he name eq
    have none := errors.2 e he
    rw [TypeError.unbound?, eq] at none
    cases none
  exact ⟨q, c, ⟨rfl, inferred, errors.1, bound⟩, infer_later rfl inferred bound⟩

end Polytype
