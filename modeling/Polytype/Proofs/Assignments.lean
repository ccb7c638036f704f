import Polytype.Proofs.UnboundNames
import Polytype.Proofs.Walk.Clean
import Polytype.Proofs.WellFormed
import Polytype.Tree.Build

/-!
# What programs assign to

Two passes look at the target of an assignment. Validation finds it among the names that the program
binds, and rejects constants and functions. Inference finds it in an environment that starts with the
prelude, and reports it if it is not there. A name of the prelude that the program does not bind is
no constant for the one and bound for the other, so it can be assigned to (`assignment_targets`).
-/

namespace Polytype

variable {α : Type} {chapter : Chapter}

/-- The target is a variable or a parameter of the program. -/
def Assignment.IsVariable (a : Assignment α) : Prop :=
  a.meaning? = some (.value .mutable) ∨ a.meaning? = some .parameter

instance (a : Assignment α) : Decidable a.IsVariable := inferInstanceAs (Decidable (_ ∨ _))

/-! ## Surroundings as a scope -/

def Enclosure.names : Enclosure α → List String
  | .list body => declaredNames body
  | .stmt _ => []
  | .function ps | .arrow ps => ps.map (·.text)

/-- The names that the surroundings bind. -/
def namesWithin (around : List (Enclosure α)) : List String := around.flatMap Enclosure.names

theorem Stmt.isSome_meaning? (x : String) (s : Stmt α) : (s.meaning? x).isSome ↔ s.Declares x := by
  cases s <;> simp [meaning?, Declares, declared?]

theorem Enclosure.isSome_meaning? (x : String) (enclosure : Enclosure α) :
    (enclosure.meaning? x).isSome ↔ x ∈ enclosure.names := by
  cases enclosure with
  | list body =>
    rw [meaning?, names, List.isSome_findSome?, mem_declaredNames]
    simp only [List.any_eq_true, List.mem_reverse, Stmt.isSome_meaning?]
  | stmt s => simp [meaning?, names]
  | function ps => simp [meaning?, names]
  | arrow ps => simp [meaning?, names]

theorem Site.isSome_meaning? (s : Site α) (x : String) :
    (s.meaning? x).isSome ↔ x ∈ namesWithin s.around := by
  rw [meaning?, namesWithin, List.isSome_findSome?, List.mem_flatMap]
  simp only [List.any_eq_true, Enclosure.isSome_meaning?]

/-! ## Targets are uses -/

/-- The target of each assignment among the sites is used, with what its surroundings bind in
scope, and what was in scope outside. -/
def TargetsUsed (outer : List String) (sites : List (Site α)) (uses : List (Use α)) : Prop :=
  ∀ s ∈ sites, ∀ a ∈ s.assignment?,
    ⟨a.target.toTag, a.target.text, namesWithin s.around ++ outer⟩ ∈ uses

namespace TargetsUsed

variable {outer : List String} {s : Site α} {S T : List (Site α)} {us vs : List (Use α)}

theorem nil : TargetsUsed outer [] us := by
  intro s mem
  cases mem

theorem cons (plain : s.assignment? = none) (h : TargetsUsed outer S us) :
    TargetsUsed outer (s :: S) us := by
  refine List.forall_mem_cons.mpr ⟨fun a mem => ?_, h⟩
  rw [plain] at mem
  cases mem

theorem append (hS : TargetsUsed outer S us) (hT : TargetsUsed outer T vs) :
    TargetsUsed outer (S ++ T) (us ++ vs) :=
  List.forall_mem_append.mpr
    ⟨fun s hs a ha => List.mem_append_left _ (hS s hs a ha),
      fun s hs a ha => List.mem_append_right _ (hT s hs a ha)⟩

theorem flatMap {γ : Type} {xs : List γ} {sites : γ → List (Site α)} {uses : γ → List (Use α)}
    (h : ∀ x ∈ xs, TargetsUsed outer (sites x) (uses x)) :
    TargetsUsed outer (xs.flatMap sites) (xs.flatMap uses) :=
  List.forall_mem_flatMap.mpr fun x hx s hs a ha => List.mem_flatMap.mpr ⟨x, hx, h x hx s hs a ha⟩

end TargetsUsed

theorem targets_used (outer : List String) : Hereditary (α := α)
    (fun e => ∀ around, TargetsUsed outer (e.sites around) (e.uses (namesWithin around ++ outer)))
    (fun s => ∀ around, TargetsUsed outer (s.sites around) (s.uses (namesWithin around ++ outer)))
    (fun b => ∀ around, TargetsUsed outer (b.sites around) (b.uses (namesWithin around ++ outer)))
    (fun b => ∀ around, TargetsUsed outer (b.inner around) (b.uses (namesWithin around ++ outer)))
    (fun a => ∀ around, TargetsUsed outer (a.sites around) (a.uses (namesWithin around ++ outer)))
    where
  number tag x around := .cons rfl .nil
  text tag s around := .cons rfl .nil
  boolean tag b around := .cons rfl .nil
  null tag around := .cons rfl .nil
  name n around := .cons rfl .nil
  unary tag op e ih around := .cons rfl (ih around)
  binary tag op l r ihl ihr around := .cons rfl (.append (ihl around) (ihr around))
  conditional tag t c a iht ihc iha around :=
    .cons rfl (.append (.append (iht around) (ihc around)) (iha around))
  call tag f args ihf ihargs around := by
    rw [Expr.sites, Expr.sitesAll_eq, Expr.uses, Expr.usesAll_eq]
    exact .cons rfl (.append (ihf around) (.flatMap fun e he => ihargs e he around))
  arrow tag ps body ih around := by
    rw [Expr.uses, ← List.append_assoc]
    exact .cons rfl (ih (.arrow ps :: around))
  arrowBlock tag ps body ih around := by
    rw [Expr.uses, ← List.append_assoc]
    exact .cons rfl (ih (.function ps :: around))
  assign tag target e ih around := by
    refine List.forall_mem_cons.mpr ⟨?_, fun s hs a ha => List.mem_append_left _ (ih around s hs a ha)⟩
    rintro a ⟨⟩
    exact List.mem_append_right _ List.mem_cons_self
  declare tag keyword n e ih around := .cons rfl (ih (.stmt (.declare tag keyword n e) :: around))
  function tag n ps body ih around := by
    rw [Stmt.uses, ← List.append_assoc]
    exact .cons rfl (ih (.function ps :: .stmt (.function tag n ps body) :: around))
  retNothing tag around := .cons rfl .nil
  ret tag e ih around := .cons rfl (ih (.stmt (.ret tag (some e)) :: around))
  ifElse b ih around := .cons rfl (ih around)
  block b ih around := .cons rfl (ih (.stmt (.block b) :: around))
  expr e ih around := .cons rfl (ih (.stmt (.expr e) :: around))
  body tag body ih around := by
    rw [Block.sites, Stmt.sitesAll_eq, Block.uses, Stmt.usesAll_eq, ← List.append_assoc]
    exact .cons rfl (.flatMap fun s hs => ih s hs (.list body :: around))
  branch tag test consequent alternate iht ihc iha around := by
    have within (b : If α) : namesWithin (.stmt (.ifElse b) :: around) = namesWithin around := rfl
    rw [If.uses, ← within]
    exact .append (.append (iht _) (ihc _)) (iha _)
  absent around := .nil
  otherwise b ih around := ih around
  elseIf b ih around := .cons rfl (ih around)

theorem Program.targets_used (outer : List String) (p : Program α) :
    TargetsUsed outer p.sites (p.uses outer) := by
  have within : namesWithin [.list p.body] = declaredNames p.body := List.append_nil _
  rw [sites, uses, Stmt.sitesAll_eq, Stmt.usesAll_eq, ← within]
  exact .cons rfl (.flatMap fun s _ => (Polytype.targets_used outer).forStmt s [.list p.body])

theorem uses_scope : Hereditary (α := α)
    (fun e => ∀ scope, ∀ u ∈ e.uses scope, scope ⊆ u.scope)
    (fun s => ∀ scope, ∀ u ∈ s.uses scope, scope ⊆ u.scope)
    (fun b => ∀ scope, ∀ u ∈ b.uses scope, scope ⊆ u.scope)
    (fun b => ∀ scope, ∀ u ∈ b.uses scope, scope ⊆ u.scope)
    (fun a => ∀ scope, ∀ u ∈ a.uses scope, scope ⊆ u.scope) := by
  have outside {names scope : List String} {u : Use α} (h : names ++ scope ⊆ u.scope) :
      scope ⊆ u.scope := (List.append_subset.mp h).2
  constructor
  case call =>
    intro tag f args ihf ihargs scope
    rw [Expr.uses, Expr.usesAll_eq, List.forall_mem_append, List.forall_mem_flatMap]
    exact ⟨ihf scope, fun e he => ihargs e he scope⟩
  case body =>
    intro tag body ih scope
    rw [Block.uses, Stmt.usesAll_eq, List.forall_mem_flatMap]
    exact fun s hs u hu => outside (ih s hs _ u hu)
  case arrow => exact fun tag ps body ih scope u hu => outside (ih _ u hu)
  case arrowBlock => exact fun tag ps body ih scope u hu => outside (ih _ u hu)
  case function => exact fun tag n ps body ih scope u hu => outside (ih _ u hu)
  all_goals
    intros
    simp_all [Expr.uses, Stmt.uses, If.uses, Alternate.uses]
  all_goals grind

theorem Program.uses_scope {outer : List String} {p : Program α} {u : Use α}
    (mem : u ∈ p.uses outer) : outer ⊆ u.scope := by
  rw [uses, Stmt.usesAll_eq] at mem
  obtain ⟨s, -, mem⟩ := List.mem_flatMap.mp mem
  exact (List.append_subset.mp (Polytype.uses_scope.forStmt s _ u mem)).2

/-! ## Reports -/

theorem TypeError.unbound?_eq_some {e : TypeError} {x : String} {pos : Position} :
    e.unbound? = some (x, pos) ↔ e = ⟨.unboundName x, pos⟩ := by
  obtain ⟨problem, pos'⟩ := e
  cases problem <;> simp [unbound?]

theorem mem_errors_unbound (chapter : Chapter) (p : Program α) (x : String) (pos : Position) :
    ⟨.unboundName x, pos⟩ ∈
        (analyse (p.map fun _ => Verdict.pending) (Context.new chapter)).2.errors ↔
      ∃ u ∈ p.uses (Prelude.names chapter), u.Unbound ∧ u.name = x ∧ u.pos = pos := by
  obtain ⟨t, source, _, errors, settled⟩ :=
    analyse_accounted (p.map fun _ => Verdict.pending) (.new chapter)
  have uses : unboundUses (t.uses (Prelude.names chapter)) =
      unboundUses (p.uses (Prelude.names chapter)) := by
    rw [← unboundUses_map bare, ← Program.uses_map, source, Program.map_bare, Program.uses_map,
      unboundUses_map]
  have reported : ⟨.unboundName x, pos⟩ ∈ t.reports ↔
      (x, pos) ∈ unboundUses (p.uses (Prelude.names chapter)) := by
    rw [← uses, ← Program.unbound_reports settled, List.mem_filterMap]
    simp only [TypeError.unbound?_eq_some, exists_eq_right]
  rw [errors]
  refine reported.trans ?_
  simp only [unboundUses, List.mem_map, List.mem_filter, decide_eq_true_eq, Prod.mk.injEq, and_assoc]

theorem Site.meaning?_assignment {s : Site α} {a : Assignment α} (h : a ∈ s.assignment?) :
    a.meaning? = s.meaning? a.target.text := by
  obtain ⟨item, around⟩ := s
  cases item with
  | expr e =>
    cases e with
    | assign tag target e =>
      cases h
      rfl
    | _ => cases h
  | _ => cases h

section Targets

variable {p : Program α} {s : Site α} {a : Assignment α}

theorem fixed_rejected (hs : s ∈ p.sites) (ha : a ∈ s.assignment?) (fixed : a.IsFixed) :
    ∃ errors, validate chapter p = .error errors ∧
      ⟨.assignedConstant a.target.text, a.pos⟩ ∈ errors := by
  have here : ⟨.assignedConstant a.target.text, a.pos⟩ ∈ s.faults chapter := by
    refine List.mem_append_right _ (List.mem_map.mpr ⟨a, List.mem_filter.mpr ⟨?_, ?_⟩, rfl⟩)
    · exact Option.mem_toList.mpr ha
    · exact decide_eq_true fixed
  have found : ⟨.assignedConstant a.target.text, a.pos⟩ ∈ Validation.errors chapter p := by
    rw [Validation.errors_eq]
    exact List.mem_flatMap.mpr ⟨s, hs, here⟩
  refine ⟨_, Validation.validate_of_faults ?_, found⟩
  exact List.ne_nil_of_mem found

theorem unresolved_of_accepted (valid : Validation.errors chapter p = []) (hs : s ∈ p.sites)
    (ha : a ∈ s.assignment?) (other : ¬ a.IsVariable) : a.meaning? = none := by
  have fixed := (Program.wellFormed_iff.mpr valid).targets s hs a ha
  unfold Assignment.IsFixed at fixed
  unfold Assignment.IsVariable at other
  rcases meaning : a.meaning? with _ | ⟨_ | _⟩ | _ | _ <;> simp_all

theorem unresolved_reported (hs : s ∈ p.sites) (ha : a ∈ s.assignment?)
    (unresolved : a.meaning? = none) :
    ⟨.unboundName a.target.text, a.target.pos⟩ ∈
        (analyse (p.map fun _ => Verdict.pending) (Context.new chapter)).2.errors ↔
      a.target.text ∉ Prelude.names chapter := by
  rw [mem_errors_unbound]
  constructor
  · rintro ⟨u, mem, unbound, name, -⟩ bound
    exact unbound (name ▸ Program.uses_scope mem bound)
  · intro foreign
    refine ⟨_, p.targets_used _ s hs a ha, ?_, rfl, rfl⟩
    rw [Site.meaning?_assignment ha, ← Option.not_isSome_iff_eq_none, Site.isSome_meaning?] at unresolved
    exact fun bound => (List.mem_append.mp bound).elim unresolved foreign

end Targets

/-- An assignment to a constant or a function is a fault. Of a program without faults, a target that
is no variable and no parameter is reported, unless the prelude binds it. So a program without errors
assigns to variables and parameters only, if it does not assign to names of the prelude. -/
theorem assignment_targets (chapter : Chapter) (p : Program α) :
    (∀ s ∈ p.sites, ∀ a ∈ s.assignment?, a.IsFixed → ∃ errors,
      validate chapter p = .error errors ∧ ⟨.assignedConstant a.target.text, a.pos⟩ ∈ errors) ∧
    ∀ q c, infer chapter p = .ok (q, c) →
      (∀ s ∈ p.sites, ∀ a ∈ s.assignment?, ¬ a.IsVariable → a.meaning? = none ∧
        (⟨.unboundName a.target.text, a.target.pos⟩ ∈ c.errors ↔
          a.target.text ∉ Prelude.names chapter)) ∧
      (c.errors = [] → ((∀ s ∈ p.sites, ∀ a ∈ s.assignment?, a.IsVariable) ↔
        ∀ s ∈ p.sites, ∀ a ∈ s.assignment?, a.meaning? = none →
          a.target.text ∉ Prelude.names chapter)) := by
  refine ⟨fun s hs a ha => fixed_rejected hs ha, fun q c inferred => ?_⟩
  have valid := valid_of_infer inferred
  obtain ⟨rfl, rfl⟩ : _ = q ∧ _ = c :=
    Prod.ext_iff.mp (Except.ok.inj ((infer_eq_analyse valid).symm.trans inferred))
  have others (s : Site α) (hs : s ∈ p.sites) (a : Assignment α) (ha : a ∈ s.assignment?)
      (other : ¬ a.IsVariable) := unresolved_of_accepted valid hs ha other
  refine ⟨fun s hs a ha other => ?_, fun clean => ⟨?_, ?_⟩⟩
  · have unresolved := others s hs a ha other
    exact ⟨unresolved, unresolved_reported hs ha unresolved⟩
  · intro all s hs a ha unresolved
    rcases all s hs a ha with mutable | parameter
    · cases unresolved.symm.trans mutable
    · cases unresolved.symm.trans parameter
  · intro foreign s hs a ha
    by_contra other
    have unresolved := others s hs a ha other
    have reported := (unresolved_reported hs ha unresolved).mpr (foreign s hs a ha unresolved)
    rw [clean] at reported
    cases reported

/-- A variable and a parameter change their values, in a function that hides the name of a constant. -/
def exchange : Program Unit :=
  ⟨[Build.declare .mutable 1 "x" (Build.number 1),
    Build.declare .constant 2 "y" (Build.number 2),
    Build.function 3 "f" ["y"]
      [Build.declare .constant 4 "z" (Build.ident "x"),
       Build.expr 5 (Build.assign "x" (Build.ident "y")),
       Build.expr 6 (Build.assign "y" (Build.ident "z")),
       Build.ret 7 (Build.ident "y")]]⟩

theorem assignment_targets_exchange : ∃ q c, infer .three exchange = .ok (q, c) ∧ c.errors = [] ∧
    (exchange.sites.filterMap (·.assignment?)).map (·.target.text) = ["x", "y"] ∧
    ∀ s ∈ exchange.sites, ∀ a ∈ s.assignment?, a.IsVariable := by
  have valid : Validation.errors .three exchange = [] := List.isEmpty_iff.mp (by decide +kernel)
  have inferred := infer_eq_analyse valid
  have clean : (analyse (exchange.map fun _ => Verdict.pending) (Context.new .three)).2.errors = [] :=
    List.isEmpty_iff.mp (by decide +kernel)
  generalize analyse _ (Context.new .three) = outcome at inferred clean
  obtain ⟨q, c⟩ := outcome
  exact ⟨q, c, inferred, clean, by decide +kernel,
    (((assignment_targets .three exchange).2 q c inferred).2 clean).mpr (by decide +kernel)⟩

def assignPi : Program Unit := ⟨[Build.expr 1 (Build.assign "math_PI" (Build.number 3))]⟩

/-- The prelude binds the target, and nothing is reported. -/
theorem assignPi_clean : ∃ q c, infer .three assignPi = .ok (q, c) ∧ c.errors = [] ∧
    ∃ s ∈ assignPi.sites, ∃ a ∈ s.assignment?, a.target.text = "math_PI" ∧ ¬ a.IsVariable := by
  have valid : Validation.errors .three assignPi = [] := List.isEmpty_iff.mp (by decide +kernel)
  have inferred := infer_eq_analyse valid
  have clean : (analyse (assignPi.map fun _ => Verdict.pending) (Context.new .three)).2.errors = [] :=
    List.isEmpty_iff.mp (by decide +kernel)
  generalize analyse _ (Context.new .three) = outcome at inferred clean
  obtain ⟨q, c⟩ := outcome
  exact ⟨q, c, inferred, clean, by decide +kernel⟩

end Polytype
