import Polytype.Proofs.FaultOrder
import Polytype.Proofs.Walk.Findings

/-!
# The order of errors

A declaration, a function and an `if` have a check at their own line after all that is in them. A
function and an `if` leave that check out if there are errors in their statements (`Tag.Spares`). So
the errors of a line-ordered program come in the order of their lines (`infer_ordered`): all errors of
an expression are on the line of its statement, and those of a statement stand on its line, or on the
lines of the statements in it.
-/

namespace Polytype

variable {α β : Type}

/-- There is no arrow function with a block, and the target of an assignment is on the line of the
statement around it. -/
def Site.Straight (s : Site α) : Prop :=
  match s.item with
  | .expr (.arrowBlock _ _ _) => False
  | .expr (.assign _ target _) => lineWithin s.around = some target.pos.line
  | _ => True

instance : (s : Site α) → Decidable s.Straight
  | ⟨.expr (.arrowBlock _ _ _), _⟩ => .isFalse id
  | ⟨.expr (.assign _ _ _), _⟩ => inferInstanceAs (Decidable (_ = _))
  | ⟨.expr (.number _ _), _⟩ | ⟨.expr (.text _ _), _⟩ | ⟨.expr (.boolean _ _), _⟩
  | ⟨.expr (.null _), _⟩ | ⟨.expr (.name _), _⟩ | ⟨.expr (.unary _ _ _), _⟩
  | ⟨.expr (.binary _ _ _ _), _⟩ | ⟨.expr (.conditional _ _ _ _), _⟩ | ⟨.expr (.call _ _ _), _⟩
  | ⟨.expr (.arrow _ _ _), _⟩ | ⟨.stmt _, _⟩ | ⟨.list _, _⟩ => .isTrue trivial

/-- Expressions stay on the lines of their statements, and statements are on later and later lines. -/
structure Program.LineOrdered (p : Program α) : Prop where
  straight : ∀ s ∈ p.sites, s.Straight
  placed : ∀ s ∈ p.sites, s.Placed
  ordered : p.lines.Pairwise (· ≤ ·)

/-! ## Layout -/

/-- Laid out like a text, with no statements inside expressions. -/
structure Arranged (S : List (Site α)) : Prop where
  straight : ∀ s ∈ S, s.Straight
  laid : LaidOut none S

namespace Arranged

variable {s : Site α} {S T : List (Site α)}

theorem sublist (h : Arranged S) (sites : T.Sublist S) : Arranged T :=
  ⟨fun s mem => h.straight s (sites.subset mem), h.laid.sublist sites (.inl rfl)⟩

theorem left (h : Arranged (S ++ T)) : Arranged S := h.sublist (List.sublist_append_left S T)

theorem right (h : Arranged (S ++ T)) : Arranged T := h.sublist (List.sublist_append_right S T)

theorem tail (h : Arranged (s :: S)) : Arranged S := h.sublist (List.sublist_cons_self s S)

theorem expr {e : Expr α} {around : List (Enclosure α)} (h : Arranged (⟨.expr e, around⟩ :: S)) :
    lineWithin around = some e.pos.line := h.laid.placed _ List.mem_cons_self

end Arranged

/-! ## Errors in order -/

/-- Errors on lines of statements among the sites, in the order of their lines. -/
structure InOrder (S : List (Site α)) (errors : List TypeError) : Prop where
  lines : ∀ e ∈ errors, e.pos.line ∈ stmtLines S
  sorted : errors.Pairwise fun x y => x.pos.line ≤ y.pos.line

namespace InOrder

variable {s : Site α} {S T : List (Site α)} {xs ys : List TypeError}

theorem nil : InOrder S [] := ⟨by simp, .nil⟩

theorem cons (h : InOrder S xs) : InOrder (s :: S) xs :=
  ⟨fun e mem => ((List.sublist_cons_self s S).filterMap _).subset (h.lines e mem), h.sorted⟩

theorem append (arranged : Arranged (S ++ T)) (hx : InOrder S xs) (hy : InOrder T ys) :
    InOrder (S ++ T) (xs ++ ys) := by
  have across := arranged.laid.sorted
  rw [stmtLines_append, Option.toList_none, List.nil_append, List.pairwise_append] at across
  constructor
  · rw [stmtLines_append]
    exact List.forall_mem_append.mpr
      ⟨fun e mem => List.mem_append_left _ (hx.lines e mem),
        fun e mem => List.mem_append_right _ (hy.lines e mem)⟩
  · exact List.pairwise_append.mpr ⟨hx.sorted, hy.sorted, fun x memx y memy =>
      across.2.2 _ (hx.lines x memx) _ (hy.lines y memy)⟩

theorem stmt {t : Stmt α} {around : List (Enclosure α)} (h : ∀ x ∈ xs, t.pos.line = x.pos.line) :
    InOrder (⟨.stmt t, around⟩ :: S) xs where
  lines x mem := (h x mem) ▸ List.mem_cons_self
  sorted := List.pairwise_of_forall_mem_list fun x hx y hy => by rw [← h x hx, ← h y hy]

end InOrder

/-! ## Accounts of programs that are laid out line by line -/

theorem params_own {ps : List (Name Account)} (h : ∀ p ∈ ps, p.Settles .param []) :
    ps.flatMap (·.note.own) = [] :=
  List.flatMap_eq_nil_iff.mpr fun p mem => (h p mem).own_unchecked rfl rfl

theorem Arranged.own {e : Expr Account} {tag : Tag Account} {around : List (Enclosure Account)}
    {S : List (Site Account)} {kind : NodeKind} {errors : List TypeError}
    (arranged : Arranged (⟨.expr e, around⟩ :: S)) (h : tag.Settles kind errors)
    (root : e.pos = tag.pos) : ∀ x ∈ tag.note.own, lineWithin around = some x.pos.line := by
  intro x mem
  rw [arranged.expr, root, h.pos mem]

theorem stmts_ordered {around : List (Enclosure Account)} {ss : List (Stmt Account)}
    (arranged : Arranged (Stmt.sitesAll around ss))
    (h : ∀ s ∈ ss, Arranged (s.sites around) → InOrder (s.sites around) s.reports) :
    InOrder (Stmt.sitesAll around ss) (Stmt.reportsAll ss) := by
  induction ss with
  | nil => exact .nil
  | cons s ss ih =>
    rw [List.forall_mem_cons] at h
    exact .append arranged (h.1 arranged.left) (ih arranged.right h.2)

theorem reports_ordered : Hereditary
    (fun e => ∀ around scope, e.Settled scope → Arranged (e.sites around) →
      ∀ x ∈ e.reports, lineWithin around = some x.pos.line)
    (fun s => ∀ around scope, s.Settled scope → Arranged (s.sites around) →
      InOrder (s.sites around) s.reports)
    (fun b => ∀ around scope, b.Settled scope → Arranged (b.sites around) →
      InOrder (b.sites around) b.reports)
    (fun b => ∀ around scope, b.Settled scope → Arranged (Stmt.sites around (.ifElse b)) →
      InOrder (Stmt.sites around (.ifElse b)) b.reports)
    (fun a => ∀ around scope, a.Settled scope → Arranged (a.sites around) →
      InOrder (a.sites around) a.reports) where
  number tag x around scope h arranged e mem := by rw [arranged.expr, h.pos mem]; rfl
  text tag s around scope h arranged e mem := by rw [arranged.expr, h.pos mem]; rfl
  boolean tag b around scope h arranged e mem := by rw [arranged.expr, h.pos mem]; rfl
  null tag around scope h arranged e mem := by rw [arranged.expr, h.pos mem]; rfl
  name n around scope h arranged e mem := by rw [arranged.expr, h.pos mem]; rfl
  unary tag op e ih around scope h arranged := by
    rw [Expr.reports, List.forall_mem_append]
    exact ⟨ih around scope h.2 arranged.tail, arranged.own h.1 rfl⟩
  binary tag op l r ihl ihr around scope h arranged := by
    rw [Expr.reports, List.forall_mem_append, List.forall_mem_append]
    exact ⟨⟨ihl around scope h.2.1 arranged.tail.left, ihr around scope h.2.2 arranged.tail.right⟩,
      arranged.own h.1 rfl⟩
  conditional tag t c a iht ihc iha around scope h arranged := by
    obtain ⟨early, late⟩ := List.forall_mem_append.mp (arranged.own h.1 rfl)
    have parts := arranged.tail
    simp only [Expr.reports, List.forall_mem_append]
    exact ⟨⟨⟨⟨iht around scope h.2.1 parts.left.left, early⟩,
      ihc around scope h.2.2.1 parts.left.right⟩, iha around scope h.2.2.2 parts.right⟩, late⟩
  call tag f args ihf ihargs around scope h arranged := by
    have parts := arranged.tail
    rw [Expr.sitesAll_eq] at parts
    rw [Expr.reports, Expr.reportsAll_eq, List.forall_mem_append, List.forall_mem_append,
      List.forall_mem_flatMap]
    refine ⟨⟨ihf around scope h.2.1 parts.left, fun e mem => ?_⟩, arranged.own h.1 rfl⟩
    exact ihargs e mem around scope (Expr.settledAll_iff.mp h.2.2 e mem)
      (parts.right.sublist (List.sublist_flatten_of_mem (List.mem_map_of_mem mem)))
  arrow tag ps body ih around scope h arranged := by
    rw [Expr.reports, params_own h.2.1, List.nil_append, List.forall_mem_append]
    exact ⟨ih (.arrow ps :: around) _ h.2.2 arranged.tail, arranged.own h.1 rfl⟩
  arrowBlock tag ps body ih around scope h arranged := by
    cases arranged.straight _ List.mem_cons_self
  assign tag target e ih around scope h arranged := by
    have straight : lineWithin around = some target.pos.line :=
      arranged.straight _ List.mem_cons_self
    rw [Expr.reports, List.forall_mem_append, List.forall_mem_append]
    refine ⟨⟨ih around scope h.2.2 arranged.tail, fun x mem => ?_⟩, arranged.own h.1 rfl⟩
    rw [straight, h.2.1.pos mem]
  declare tag keyword n e ih around scope h arranged := by
    have inside := ih (.stmt (.declare tag keyword n e) :: around) scope h.2.2 arranged.tail
    have named : n.note.own = [] := by rw [h.2.1]; rfl
    refine .stmt ?_
    rw [Stmt.reports, named, List.nil_append, List.forall_mem_append]
    exact ⟨fun x mem => Option.some.inj (inside x mem), fun x mem => by rw [h.1.pos mem]; rfl⟩
  function tag n ps body ih around scope h arranged := by
    have inside := ih (.function ps :: .stmt (.function tag n ps body) :: around) _ h.2.2.2
      arranged.tail
    have named : n.note.own = [] := by rw [h.2.1]; rfl
    rw [Stmt.reports, named, params_own h.2.2.1, List.nil_append, List.nil_append]
    -- Without errors in the body all are on the line of the header, and with them the check is left out.
    rcases h.1.spares with none | none
    · rw [none, List.nil_append]
      exact .stmt fun x mem => by rw [h.1.pos mem]; rfl
    · rw [none, List.append_nil]
      exact inside.cons
  retNothing tag around scope h arranged := .stmt fun x mem => by rw [h.pos mem]; rfl
  ret tag e ih around scope h arranged := by
    have inside := ih (.stmt (.ret tag (some e)) :: around) scope h.2 arranged.tail
    refine .stmt ?_
    rw [Stmt.reports, List.forall_mem_append]
    exact ⟨fun x mem => Option.some.inj (inside x mem), fun x mem => by rw [h.1.pos mem]; rfl⟩
  ifElse b ih around scope h arranged := ih around scope h arranged
  block b ih around scope h arranged :=
    (ih (.stmt (.block b) :: around) scope h arranged.tail).cons
  expr e ih around scope h arranged :=
    .stmt fun x mem => Option.some.inj (ih (.stmt (.expr e) :: around) scope h arranged.tail x mem)
  body tag body ih around scope h arranged := by
    rw [Block.reports, h.1.own_unchecked rfl rfl, List.append_nil]
    exact (stmts_ordered arranged.tail fun s mem =>
      ih s mem (.list body :: around) _ (Stmt.settledAll_iff.mp h.2 s mem)).cons
  branch tag test consequent alternate iht ihc iha around scope h arranged := by
    obtain ⟨settles, tests, consequents, alternates⟩ := h
    let within := .stmt (.ifElse ⟨tag, test, consequent, alternate⟩) :: around
    have parts : Arranged (test.sites within ++ consequent.sites within ++ alternate.sites within) :=
      arranged.tail
    have tested := iht within scope tests parts.left.left
    obtain ⟨early, late⟩ := List.forall_mem_append.mp fun x mem =>
      congrArg Position.line (settles.pos mem).symm
    have header : ∀ x ∈ test.reports ++ tag.note.early, tag.pos.line = x.pos.line :=
      List.forall_mem_append.mpr ⟨fun x mem => Option.some.inj (tested x mem), early⟩
    rw [If.reports, List.append_assoc _ consequent.reports]
    rcases settles.spares with none | none
    · rw [none, List.append_nil]
      exact .stmt (List.forall_mem_append.mpr ⟨header, late⟩)
    · rw [none, List.append_nil, ← List.append_assoc]
      exact .append (S := (_ :: test.sites within) ++ consequent.sites within) arranged
        (.append (S := _ :: test.sites within) arranged.left (.stmt header)
          (ihc within scope consequents parts.left.right))
        (iha within scope alternates parts.right)
  absent around scope h arranged := .nil
  otherwise b ih around scope h arranged := ih around scope h arranged
  elseIf b ih around scope h arranged := ih around scope h arranged

theorem Program.reports_ordered {scope : List String} {t : Program Account} (h : t.Settled scope)
    (ordered : t.LineOrdered) : t.reports.Pairwise fun x y => x.pos.line ≤ y.pos.line := by
  have arranged : Arranged t.sites := ⟨ordered.straight, ordered.placed, ordered.ordered⟩
  exact (stmts_ordered arranged.tail fun s mem =>
    Polytype.reports_ordered.forStmt s _ _ (Stmt.settledAll_iff.mp h s mem)).sorted

/-! ## Inference -/

theorem Site.straight_mapNotes (f : α → β) (s : Site α) : (s.mapNotes f).Straight ↔ s.Straight := by
  obtain ⟨item, around⟩ := s
  cases item with
  | expr e =>
    cases e with
    | assign tag target e =>
      rw [mapNotes, Item.mapNotes, Expr.mapNotes_assign, Straight, lineWithin_mapNotes]
      exact Iff.rfl
    | _ => simp [mapNotes, Item.mapNotes, Straight]
  | _ => exact Iff.rfl

theorem Program.lineOrdered_map (f : α → β) (p : Program α) :
    (p.map f).LineOrdered ↔ p.LineOrdered := by
  have lines : (p.map f).lines = p.lines := by
    rw [Program.lines, sites_map, stmtLines_mapNotes]
    rfl
  constructor
  · rintro ⟨straight, placed, ordered⟩
    rw [sites_map, List.forall_mem_map] at straight placed
    exact ⟨fun s mem => (s.straight_mapNotes f).mp (straight s mem),
      fun s mem => (s.placed_mapNotes f).mp (placed s mem), lines ▸ ordered⟩
  · rintro ⟨straight, placed, ordered⟩
    refine ⟨?_, ?_, lines ▸ ordered⟩
    · rw [sites_map, List.forall_mem_map]
      exact fun s mem => (s.straight_mapNotes f).mpr (straight s mem)
    · rw [sites_map, List.forall_mem_map]
      exact fun s mem => (s.placed_mapNotes f).mpr (placed s mem)

/-- The errors of a line-ordered program that is accepted are in the order of their lines. -/
theorem infer_ordered {chapter : Chapter} {p : Program α} {annotated : Program Verdict}
    (ordered : p.LineOrdered) (accepted : validate chapter p = .ok annotated) :
    ∃ q c, infer chapter p = .ok (q, c) ∧
      c.errors.Pairwise fun x y => x.pos.line ≤ y.pos.line := by
  have inferred := infer_eq_analyse (Validation.errors_of_validate accepted)
  obtain ⟨t, source, _, errors, settled⟩ :=
    analyse_accounted (p.map fun _ => Verdict.pending) (.new chapter)
  have same : t.LineOrdered := by
    rw [← Program.lineOrdered_map bare, source, Program.map_bare, Program.lineOrdered_map]
    exact ordered
  have found : (analyse (p.map fun _ => Verdict.pending) (Context.new chapter)).2.errors.Pairwise
      fun x y => x.pos.line ≤ y.pos.line := by
    rw [errors]
    exact Program.reports_ordered settled same
  exact ⟨_, _, inferred, found⟩

/-- A test that is no boolean, unbound names in both branches and in a constant, and a function whose
uses before its declaration do not fit it. -/
def mistakes : Program Unit :=
  ⟨[Build.function 1 "f" ["x"]
      [Build.ifElse 2 (Build.number 1)
        [Build.ret 3 (Build.binary .add (Build.ident "x") (Build.ident "y"))]
        (some [Build.expr 4 (Build.assign "z" (Build.ident "x"))])],
    Build.declare .constant 5 "a" (Build.unary .not (Build.ident "b")),
    Build.declare .constant 6 "c" (Build.callNamed "g" [Build.boolean true]),
    Build.function 7 "g" ["x"]
      [Build.ret 8 (Build.binary .sub (Build.ident "x") (Build.number 1))]]⟩

theorem infer_ordered_mistakes : mistakes.LineOrdered ∧
    ∃ annotated q c, validate .three mistakes = .ok annotated ∧
      infer .three mistakes = .ok (q, c) ∧ c.errors.map (·.pos.line) = [2, 3, 4, 5, 7] ∧
      c.errors.Pairwise fun x y => x.pos.line ≤ y.pos.line := by
  have ordered : mistakes.LineOrdered :=
    ⟨by decide +kernel, by decide +kernel, by decide +kernel⟩
  have valid : Validation.errors .three mistakes = [] := List.isEmpty_iff.mp (by decide +kernel)
  have accepted := Validation.validate_of_errors valid
  obtain ⟨q, c, inferred, sorted⟩ := infer_ordered ordered accepted
  have lines : (analyse (mistakes.map fun _ => Verdict.pending) (Context.new .three)).2.errors.map
      (·.pos.line) = [2, 3, 4, 5, 7] := by decide +kernel
  rw [← Except.ok.inj (inferred.symm.trans (infer_eq_analyse valid))] at lines
  exact ⟨ordered, _, q, c, accepted, inferred, lines, sorted⟩

end Polytype
