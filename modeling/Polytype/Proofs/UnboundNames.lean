import Polytype.Proofs.Walk.Findings

/-!
# Unbound names

A name is reported as unbound exactly where it is used out of scope, whatever else is wrong with the
program (`infer_unbound`). In a settled account the errors of uses are those of names that are not
in scope, and no other node has such an error (`unbound_reports`).
-/

namespace Polytype

variable {α β : Type} {kind : NodeKind} {pos : Position}

/-- The uses of names that are not in scope. -/
def unboundUses (uses : List (Use α)) : List (String × Position) :=
  (uses.filter (·.Unbound)).map fun u => (u.name, u.pos)

@[simp] theorem unboundUses_nil : unboundUses ([] : List (Use α)) = [] := rfl

@[simp] theorem unboundUses_append (us vs : List (Use α)) :
    unboundUses (us ++ vs) = unboundUses us ++ unboundUses vs := by
  simp [unboundUses]

theorem unboundUses_map (f : α → β) (us : List (Use α)) :
    unboundUses (us.map (Use.mapNote f)) = unboundUses us := by
  unfold unboundUses
  rw [List.filter_map, List.map_map]
  rfl

theorem unboundUses_flatMap {T : Type} (uses : T → List (Use α)) (ts : List T) :
    unboundUses (ts.flatMap uses) = ts.flatMap fun t => unboundUses (uses t) := by
  induction ts with
  | nil => rfl
  | cons t ts ih => rw [List.flatMap_cons, unboundUses_append, ih, List.flatMap_cons]

theorem TypeError.At.unbound? {e : TypeError} (h : e.At kind pos) (hk : kind.isUse = false) :
    e.unbound? = none := by
  obtain ⟨problem, _⟩ := e
  cases problem with
  | unboundName name =>
    have : kind.isUse = true := h.2
    rw [hk] at this
    cases this
  | _ => rfl

theorem Tag.Settles.unbound {tag : Tag Account} {errors : List TypeError}
    (h : tag.Settles kind errors) (hk : kind.isUse = false) :
    tag.note.early.filterMap TypeError.unbound? = [] ∧
      tag.note.late.filterMap TypeError.unbound? = [] := by
  rw [List.filterMap_eq_nil_iff, List.filterMap_eq_nil_iff]
  obtain ⟨early, late⟩ := List.forall_mem_append.mp h.own
  exact ⟨fun e he => (early e he).unbound? hk, fun e he => (late e he).unbound? hk⟩

theorem Tag.Settles.unbound_own {tag : Tag Account} {errors : List TypeError}
    (h : tag.Settles kind errors) (hk : kind.isUse = false) :
    tag.note.own.filterMap TypeError.unbound? = [] := by
  rw [Account.own, List.filterMap_append, (h.unbound hk).1, (h.unbound hk).2, List.append_nil]

theorem Tag.Names.unbound {tag : Tag Account} {scope : List String} {name : String}
    (h : tag.Names scope name) :
    tag.note.own.filterMap TypeError.unbound? = unboundUses [⟨tag, name, scope⟩] := by
  rw [h.own, missing, unboundUses]
  by_cases bound : name ∈ scope
  · simp [bound]
  · simp [bound, TypeError.unbound?]

theorem params_unbound {ps : List (Name Account)} (h : ∀ p ∈ ps, p.Settles .param []) :
    (ps.flatMap (·.note.own)).filterMap TypeError.unbound? = [] := by
  rw [List.filterMap_eq_nil_iff]
  intro e he
  obtain ⟨p, hp, he⟩ := List.mem_flatMap.mp he
  exact ((h p hp).own e he).unbound? rfl

theorem unbound_reports : Hereditary
    (fun e => ∀ scope, e.Settled scope →
      e.reports.filterMap TypeError.unbound? = unboundUses (e.uses scope))
    (fun s => ∀ scope, s.Settled scope →
      s.reports.filterMap TypeError.unbound? = unboundUses (s.uses scope))
    (fun b => ∀ scope, b.Settled scope →
      b.reports.filterMap TypeError.unbound? = unboundUses (b.uses scope))
    (fun b => ∀ scope, b.Settled scope →
      b.reports.filterMap TypeError.unbound? = unboundUses (b.uses scope))
    (fun a => ∀ scope, a.Settled scope →
      a.reports.filterMap TypeError.unbound? = unboundUses (a.uses scope)) where
  number tag x scope h := h.unbound_own rfl
  text tag s scope h := h.unbound_own rfl
  boolean tag b scope h := h.unbound_own rfl
  null tag scope h := h.unbound
  name n scope h := h.unbound
  unary tag op e ih scope h := by
    rw [Expr.reports, List.filterMap_append, ih scope h.2, h.1.unbound_own rfl, List.append_nil,
      Expr.uses]
  binary tag op l r ihl ihr scope h := by
    simp only [Expr.reports, Expr.uses, List.filterMap_append, unboundUses_append,
      ihl scope h.2.1, ihr scope h.2.2, h.1.unbound_own rfl, List.append_nil]
  conditional tag t c a iht ihc iha scope h := by
    simp only [Expr.reports, Expr.uses, List.filterMap_append, unboundUses_append, iht scope h.2.1,
      ihc scope h.2.2.1, iha scope h.2.2.2, (h.1.unbound rfl).1, (h.1.unbound rfl).2, List.append_nil]
  call tag f args ihf ihargs scope h := by
    have all := List.flatMap_congr fun e he => ihargs e he scope (Expr.settledAll_iff.mp h.2.2 e he)
    simp only [Expr.reports, Expr.uses, Expr.reportsAll_eq, Expr.usesAll_eq, List.filterMap_append,
      List.filterMap_flatMap, unboundUses_append, unboundUses_flatMap, ihf scope h.2.1, all,
      h.1.unbound_own rfl, List.append_nil]
  arrow tag ps body ih scope h := by
    simp only [Expr.reports, Expr.uses, List.filterMap_append, params_unbound h.2.1, ih _ h.2.2,
      h.1.unbound_own rfl, List.append_nil, List.nil_append]
  arrowBlock tag ps body ih scope h := by
    simp only [Expr.reports, Expr.uses, List.filterMap_append, params_unbound h.2.1, ih _ h.2.2,
      h.1.unbound_own rfl, List.append_nil, List.nil_append]
  assign tag target e ih scope h := by
    simp only [Expr.reports, Expr.uses, List.filterMap_append, unboundUses_append, ih scope h.2.2,
      h.2.1.unbound, h.1.unbound_own rfl, List.append_nil]
  declare tag keyword n e ih scope h := by
    have none : n.note.own = [] := by rw [h.2.1]; rfl
    simp only [Stmt.reports, Stmt.uses, List.filterMap_append, none, ih scope h.2.2,
      h.1.unbound_own rfl, List.append_nil, List.nil_append]
  function tag n ps body ih scope h := by
    have none : n.note.own = [] := by rw [h.2.1]; rfl
    simp only [Stmt.reports, Stmt.uses, List.filterMap_append, none, params_unbound h.2.2.1,
      ih _ h.2.2.2, h.1.unbound_own rfl, List.append_nil, List.nil_append]
  retNothing tag scope h := h.unbound_own rfl
  ret tag e ih scope h := by
    rw [Stmt.reports, List.filterMap_append, ih scope h.2, h.1.unbound_own rfl, List.append_nil,
      Stmt.uses]
  ifElse b ih scope h := ih scope h
  block b ih scope h := ih scope h
  expr e ih scope h := ih scope h
  body tag body ih scope h := by
    have all := List.flatMap_congr fun s hs => ih s hs _ (Stmt.settledAll_iff.mp h.2 s hs)
    simp only [Block.reports, Block.uses, Stmt.reportsAll_eq, Stmt.usesAll_eq, List.filterMap_append,
      List.filterMap_flatMap, unboundUses_flatMap, all, h.1.unbound_own rfl, List.append_nil]
  branch tag test consequent alternate iht ihc iha scope h := by
    simp only [If.reports, If.uses, List.filterMap_append, unboundUses_append, iht scope h.2.1,
      ihc scope h.2.2.1, iha scope h.2.2.2, (h.1.unbound rfl).1, (h.1.unbound rfl).2, List.append_nil]
  absent scope _ := rfl
  otherwise b ih scope h := ih scope h
  elseIf b ih scope h := ih scope h

theorem Program.unbound_reports {scope : List String} {t : Program Account} (h : t.Settled scope) :
    t.reports.filterMap TypeError.unbound? = unboundUses (t.uses scope) := by
  have all := List.flatMap_congr fun s hs =>
    Polytype.unbound_reports.forStmt s _ (Stmt.settledAll_iff.mp h s hs)
  rw [reports, uses, Stmt.reportsAll_eq, Stmt.usesAll_eq, List.filterMap_flatMap,
    unboundUses_flatMap, all]

/-- Of a program that is accepted, the unbound names that are reported are the uses of names that are
not in scope, in the order of the walk. -/
theorem infer_unbound {chapter : Chapter} {p : Program α} {annotated : Program Verdict}
    (accepted : validate chapter p = .ok annotated) :
    ∃ q c, infer chapter p = .ok (q, c) ∧
      c.errors.filterMap TypeError.unbound? = unboundUses (p.uses (Prelude.names chapter)) := by
  have inferred := infer_eq_analyse (Validation.errors_of_validate accepted)
  obtain ⟨t, source, _, errors, settled⟩ :=
    analyse_accounted (p.map fun _ => Verdict.pending) (.new chapter)
  have uses : unboundUses (t.uses (Prelude.names chapter)) =
      unboundUses (p.uses (Prelude.names chapter)) := by
    rw [← unboundUses_map bare, ← Program.uses_map, source, Program.map_bare, Program.uses_map,
      unboundUses_map]
  have found : (analyse (p.map fun _ => Verdict.pending) (Context.new chapter)).2.errors.filterMap
      TypeError.unbound? = unboundUses (p.uses (Prelude.names chapter)) := by
    rw [errors, ← uses, ← Program.unbound_reports settled]
    rfl
  exact ⟨_, _, inferred, found⟩

/-- Names that are used before their declaration, and names that are never declared. A parameter is
used outside its function, an addition fails, and an assignment lacks both its value and its
target. -/
def strays : Program Unit :=
  let tag (line : Nat) : Tag Unit := ⟨{ line }, ()⟩
  let name (line : Nat) (x : String) : Name Unit := ⟨tag line, x⟩
  let use (line : Nat) (x : String) : Expr Unit := .name (name line x)
  ⟨[.declare (tag 1) .constant (name 1 "f") (.arrow (tag 1) [name 1 "x"] (use 1 "y")),
    .function (tag 2) (name 2 "g") [name 2 "x"] ⟨tag 2,
      [.declare (tag 3) .constant (name 3 "z") (.binary (tag 3) .add (use 3 "w") (use 3 "x")),
       .ret (tag 4) (some (use 4 "z")),
       .declare (tag 5) .constant (name 5 "w") (use 5 "v")]⟩,
    .expr (.call (tag 6) (use 6 "x") [use 6 "w", use 6 "set_head", .null (tag 6)]),
    .expr (.assign (tag 7) (name 7 "target") (use 7 "value")),
    .declare (tag 8) .mutable (name 8 "y") (.binary (tag 8) .add (.number (tag 8) 1)
      (.boolean (tag 8) true))]⟩

theorem infer_unbound_strays : ∃ annotated q c, validate .three strays = .ok annotated ∧
    infer .three strays = .ok (q, c) ∧ c.errors.length = 6 ∧
    c.errors.filterMap TypeError.unbound? = unboundUses (strays.uses (Prelude.names .three)) ∧
    unboundUses (strays.uses (Prelude.names .three)) = [("v", { line := 5 }), ("x", { line := 6 }),
      ("w", { line := 6 }), ("value", { line := 7 }), ("target", { line := 7 })] := by
  have valid : Validation.errors .three strays = [] := List.isEmpty_iff.mp (by decide +kernel)
  have accepted := Validation.validate_of_errors valid
  obtain ⟨q, c, inferred, unbound⟩ := infer_unbound accepted
  have count : (analyse (strays.map fun _ => Verdict.pending) (Context.new .three)).2.errors.length =
      6 := by decide +kernel
  rw [← Except.ok.inj (inferred.symm.trans (infer_eq_analyse valid))] at count
  exact ⟨_, q, c, accepted, inferred, count, unbound, by decide +kernel⟩

end Polytype
