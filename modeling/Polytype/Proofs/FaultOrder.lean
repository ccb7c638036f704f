import Polytype.Proofs.WellFormed
import Polytype.Tree.Build

/-!
# The order of faults

Validation lists the repeated declarations of a list before the faults of its statements, and goes
through a statement from left to right. So its errors are in the order of their lines if and only if
every site is `Tidy` (`errors_ordered_iff`). This is about programs laid out like a text: no
expression leaves the line of its statement, and statements are on later and later lines.
-/

namespace Polytype

variable {α : Type} {chapter : Chapter}

/-- In the order of their lines. -/
def Ordered (errors : List ValidationError) : Prop :=
  errors.Pairwise fun x y => x.pos.line ≤ y.pos.line

instance (errors : List ValidationError) : Decidable (Ordered errors) :=
  inferInstanceAs (Decidable (errors.Pairwise _))

/-- What is on line `l` comes before all that is not. -/
def Leads (l : Nat) (errors : List ValidationError) : Prop :=
  errors.Pairwise fun x y => y.pos.line = l → x.pos.line = l

theorem ordered_append {xs ys : List ValidationError} :
    Ordered (xs ++ ys) ↔ Ordered xs ∧ Ordered ys ∧ ∀ x ∈ xs, ∀ y ∈ ys, x.pos.line ≤ y.pos.line :=
  List.pairwise_append

theorem leads_append {l : Nat} {xs ys : List ValidationError} :
    Leads l (xs ++ ys) ↔
      Leads l xs ∧ Leads l ys ∧ ∀ x ∈ xs, ∀ y ∈ ys, y.pos.line = l → x.pos.line = l :=
  List.pairwise_append

/-- No repeated declaration of a list is on a later line than a fault inside one of its statements,
and the faults on a statement's own line come before those of the statements in it. -/
def Site.Tidy (chapter : Chapter) (s : Site α) : Prop :=
  match s.item with
  | .list body =>
    ∀ x ∈ redeclarations body,
      ∀ y ∈ faultsOf chapter (Stmt.sitesAll (.list body :: s.around) body), x.pos.line ≤ y.pos.line
  | .stmt t => Leads t.pos.line (faultsOf chapter (t.inner s.around))
  | .expr _ => True

/-! ## Layout -/

section Layout

variable {own : Option Nat} {s : Site α} {S T : List (Site α)}

@[simp] theorem stmtLines_append : stmtLines (S ++ T) = stmtLines S ++ stmtLines T :=
  List.filterMap_append

theorem stmtLines_sublist (around : List (Enclosure α)) (ss : List (Stmt α)) :
    (ss.map (·.pos.line)).Sublist (stmtLines (Stmt.sitesAll around ss)) := by
  induction ss with
  | nil => exact .slnil
  | cons s ss ih =>
    have later : (ss.map (·.pos.line)).Sublist
        (stmtLines (s.inner around ++ Stmt.sitesAll around ss)) := by
      rw [stmtLines_append]
      exact ih.trans (List.sublist_append_right _ _)
    exact later.cons_cons s.pos.line

/-- Sites laid out like a text, inside a statement on the line `own` if there is one. -/
structure LaidOut (own : Option Nat) (S : List (Site α)) : Prop where
  placed : ∀ s ∈ S, s.Placed
  sorted : (own.toList ++ stmtLines S).Pairwise (· ≤ ·)

namespace LaidOut

theorem sublist {own' : Option Nat} (h : LaidOut own S) (sites : T.Sublist S)
    (outer : own' = none ∨ own' = own) : LaidOut own' T where
  placed s mem := h.placed s (sites.subset mem)
  sorted := by
    refine h.sorted.sublist (List.Sublist.append ?_ (sites.filterMap _))
    rcases outer with rfl | rfl
    · exact List.nil_sublist _
    · exact .refl _

theorem left (h : LaidOut own (S ++ T)) : LaidOut own S :=
  h.sublist (List.sublist_append_left S T) (.inr rfl)

theorem right (h : LaidOut own (S ++ T)) : LaidOut own T :=
  h.sublist (List.sublist_append_right S T) (.inr rfl)

theorem tail (h : LaidOut own (s :: S)) : LaidOut own S :=
  h.sublist (List.sublist_cons_self s S) (.inr rfl)

theorem alone (h : LaidOut own S) : LaidOut none S := h.sublist (.refl S) (.inl rfl)

theorem inner {t : Stmt α} {around : List (Enclosure α)}
    (h : LaidOut own (⟨.stmt t, around⟩ :: S)) : LaidOut (some t.pos.line) S :=
  ⟨h.tail.placed, h.alone.sorted⟩

end LaidOut

end Layout

/-! ## Where the faults of a site are -/

namespace Site

variable {x : ValidationError} {around : List (Enclosure α)}

theorem pos_of_stmt {t : Stmt α} (mem : x ∈ faults chapter ⟨.stmt t, around⟩) : x.pos = t.pos := by
  cases t with
  | declare tag keyword n e =>
    cases keyword with
    | constant =>
      rw [Plain.faults ⟨rfl, rfl, rfl, rfl⟩] at mem
      cases mem
    | mutable =>
      rw [faults_mutable, Validation.needsAssignment] at mem
      grind [Stmt.pos]
  | ret tag e =>
    rw [faults_ret] at mem
    grind [Stmt.pos]
  | _ =>
    rw [Plain.faults ⟨rfl, rfl, rfl, rfl⟩] at mem
    cases mem

theorem pos_of_expr {e : Expr α} (mem : x ∈ faults chapter ⟨.expr e, around⟩) : x.pos = e.pos := by
  cases e with
  | assign tag target e =>
    rw [faults_assign, Validation.needsAssignment] at mem
    grind [Expr.pos, Expr.tag]
  | _ =>
    rw [Plain.faults ⟨rfl, rfl, rfl, rfl⟩] at mem
    cases mem

end Site

namespace Validation

theorem repeats_sublist (seen : List String) (body : List (Stmt α)) :
    ((repeats seen body).map (·.pos)).Sublist (body.map (·.pos)) := by
  induction body generalizing seen with
  | nil => exact .slnil
  | cons s rest ih =>
    unfold repeats
    cases s.declared? with
    | none => exact (ih seen).cons _
    | some n =>
      dsimp only
      split
      · exact (ih seen).cons_cons _
      · exact (ih _).cons _

theorem repeats_lines (body : List (Stmt α)) :
    ((repeats [] body).map (·.pos.line)).Sublist (body.map (·.pos.line)) := by
  have := (repeats_sublist [] body).map (·.line)
  rwa [List.map_map, List.map_map] at this

end Validation

/-! ## Faults of sites that are laid out -/

/-- Where the faults are, and when they are in order. -/
structure Traced (chapter : Chapter) (own : Option Nat) (S : List (Site α)) : Prop where
  lines : ∀ x ∈ faultsOf chapter S, x.pos.line ∈ own.toList ++ stmtLines S
  ordered : Ordered (faultsOf chapter S) ↔
    (∀ s ∈ S, s.Tidy chapter) ∧ ∀ l ∈ own, Leads l (faultsOf chapter S)

namespace Traced

theorem ordered_none {P : Prop} {errors : List ValidationError} :
    (P ∧ ∀ l ∈ (none : Option Nat), Leads l errors) ↔ P :=
  and_iff_left fun _ mem => by cases mem

variable {own : Option Nat} {S T : List (Site α)}

theorem nil : Traced chapter own ([] : List (Site α)) := by
  constructor <;> simp [Ordered, Leads]

theorem append (laid : LaidOut own (S ++ T)) (hS : Traced chapter own S)
    (hT : Traced chapter own T) : Traced chapter own (S ++ T) := by
  have sorted := laid.sorted
  rw [stmtLines_append, List.pairwise_append, List.pairwise_append] at sorted
  obtain ⟨-, ⟨-, -, across⟩, after⟩ := sorted
  have cross (x y : ValidationError) (hx : x ∈ faultsOf chapter S) (hy : y ∈ faultsOf chapter T) :
      x.pos.line ≤ y.pos.line ↔ ∀ l ∈ own, y.pos.line = l → x.pos.line = l := by
    have hx := hS.lines x hx
    have hy := hT.lines y hy
    -- Between lines of statements there is nothing to show, so all is about a `y` on the line `own`.
    cases own with
    | none => grind
    | some l =>
      have least := after l List.mem_cons_self x.pos.line
      grind
  constructor
  · intro x mem
    rw [faultsOf_append, List.mem_append] at mem
    rw [stmtLines_append]
    have := hS.lines x
    have := hT.lines x
    grind
  · rw [faultsOf_append, ordered_append, hS.ordered, hT.ordered]
    simp only [leads_append, List.forall_mem_append]
    grind

theorem cons {s : Site α} (laid : LaidOut own (s :: S)) (first : Traced chapter own [s])
    (rest : Traced chapter own S) : Traced chapter own (s :: S) :=
  append (S := [s]) laid first rest

theorem within {l : Nat} (laid : LaidOut (some l) S) (h : Traced chapter none S) :
    Traced chapter (some l) S := by
  constructor
  · intro x mem
    exact List.mem_append_right _ (h.lines x mem)
  · have first : ∀ x ∈ faultsOf chapter S, l ≤ x.pos.line := by
      intro x mem
      exact List.rel_of_pairwise_cons laid.sorted (h.lines x mem)
    have leads (ordered : Ordered (faultsOf chapter S)) : Leads l (faultsOf chapter S) := by
      refine List.Pairwise.imp_of_mem ?_ ordered
      intro x y hx hy le same
      exact Nat.le_antisymm (same ▸ le) (first x hx)
    rw [h.ordered, ordered_none] at leads ⊢
    refine (and_iff_left_of_imp fun tidy l' same => ?_).symm
    exact Option.some.inj same ▸ leads tidy

theorem expr {e : Expr α} {around : List (Enclosure α)}
    (placed : Site.Placed ⟨.expr e, around⟩) :
    Traced chapter (lineWithin around) [⟨.expr e, around⟩] := by
  have here : ∀ x ∈ faultsOf chapter [⟨.expr e, around⟩], x.pos.line = e.pos.line := by
    intro x mem
    rw [faultsOf_cons, faultsOf_nil, List.append_nil] at mem
    rw [Site.pos_of_expr mem]
  have within : lineWithin around = some e.pos.line := placed
  have ordered : Ordered (faultsOf chapter [⟨.expr e, around⟩]) :=
    List.pairwise_of_forall_mem_list fun x hx y hy => by rw [here x hx, here y hy]
  have leads : Leads e.pos.line (faultsOf chapter [⟨.expr e, around⟩]) :=
    List.pairwise_of_forall_mem_list fun x hx y _ _ => here x hx
  rw [within]
  constructor
  · intro x mem
    rw [here x mem]
    exact List.mem_cons_self
  · refine iff_of_true ordered ⟨List.forall_mem_singleton.mpr trivial, ?_⟩
    rintro l ⟨⟩
    exact leads

theorem stmt {t : Stmt α} {around : List (Enclosure α)}
    (laid : LaidOut none (t.sites around))
    (h : Traced chapter (some t.pos.line) (t.inner around)) :
    Traced chapter none (t.sites around) := by
  have own : ∀ x ∈ Site.faults chapter ⟨.stmt t, around⟩, x.pos.line = t.pos.line := by
    intro x mem
    rw [Site.pos_of_stmt mem]
  have least : ∀ x ∈ faultsOf chapter (t.inner around), t.pos.line ≤ x.pos.line := by
    intro x mem
    rcases List.mem_cons.mp (h.lines x mem) with same | inside
    · exact same.ge
    · exact List.rel_of_pairwise_cons laid.sorted inside
  constructor
  · intro x mem
    rcases List.mem_append.mp mem with here | inside
    · rw [own x here]
      exact List.mem_cons_self
    · exact h.lines x inside
  · have ordered : Ordered (faultsOf chapter (t.sites around)) ↔
        Ordered (faultsOf chapter (t.inner around)) := by
      rw [Stmt.sites, faultsOf_cons, ordered_append]
      refine ⟨fun h => h.2.1, fun h => ⟨?_, h, ?_⟩⟩
      · exact List.pairwise_of_forall_mem_list fun x hx y hy => by rw [own x hx, own y hy]
      · intro x hx y hy
        rw [own x hx]
        exact least y hy
    rw [ordered, h.ordered, ordered_none, Stmt.sites, List.forall_mem_cons, and_comm]
    exact and_congr_left' ⟨fun leads => leads _ rfl, fun leads l same => Option.some.inj same ▸ leads⟩

theorem exprs {around : List (Enclosure α)} {es : List (Expr α)}
    (laid : LaidOut own (Expr.sitesAll around es))
    (h : ∀ e ∈ es, LaidOut own (e.sites around) → Traced chapter own (e.sites around)) :
    Traced chapter own (Expr.sitesAll around es) := by
  induction es with
  | nil => exact nil
  | cons e es ih =>
    rw [List.forall_mem_cons] at h
    exact append laid (h.1 laid.left) (ih laid.right h.2)

theorem stmts {around : List (Enclosure α)} {body : List (Stmt α)}
    (laid : LaidOut none (Stmt.sitesAll around body))
    (h : ∀ s ∈ body, LaidOut none (s.sites around) → Traced chapter none (s.sites around)) :
    Traced chapter none (Stmt.sitesAll around body) := by
  induction body with
  | nil => exact nil
  | cons s rest ih =>
    rw [List.forall_mem_cons] at h
    exact append laid (h.1 laid.left) (ih laid.right h.2)

theorem list {around : List (Enclosure α)} {body : List (Stmt α)}
    (laid : LaidOut none (Stmt.sitesAll (.list body :: around) body))
    (h : Traced chapter none (Stmt.sitesAll (.list body :: around) body)) :
    Traced chapter none (⟨.list body, around⟩ :: Stmt.sitesAll (.list body :: around) body) := by
  have repeated := (Validation.repeats_lines body).trans
    (stmtLines_sublist (.list body :: around) body)
  constructor
  · intro x mem
    rw [faultsOf_cons, Site.faults_list] at mem
    rcases List.mem_append.mp mem with here | inside
    · exact repeated.subset (List.mem_map_of_mem here)
    · exact h.lines x inside
  · have own : Ordered (Validation.repeats [] body) :=
      List.pairwise_map.mp (laid.sorted.sublist repeated)
    have same (x : ValidationError) := (Validation.repeats_redeclarations body).mem_iff (a := x)
    rw [ordered_none, faultsOf_cons, Site.faults_list, ordered_append, iff_true_intro own, true_and,
      h.ordered, ordered_none, List.forall_mem_cons, and_comm]
    exact and_congr_left' (forall_congr' fun x => imp_congr_left (same x))

end Traced

theorem traced (chapter : Chapter) : Hereditary (α := α)
    (fun e => ∀ around, LaidOut (lineWithin around) (e.sites around) →
      Traced chapter (lineWithin around) (e.sites around))
    (fun s => ∀ around, LaidOut none (s.sites around) → Traced chapter none (s.sites around))
    (fun b => ∀ around, LaidOut none (b.sites around) → Traced chapter none (b.sites around))
    (fun b => ∀ around, LaidOut (some b.tag.pos.line) (b.inner around) →
      Traced chapter (some b.tag.pos.line) (b.inner around))
    (fun a => ∀ around, LaidOut none (a.sites around) → Traced chapter none (a.sites around)) where
  number tag x around laid := .expr (laid.placed _ List.mem_cons_self)
  text tag s around laid := .expr (laid.placed _ List.mem_cons_self)
  boolean tag b around laid := .expr (laid.placed _ List.mem_cons_self)
  null tag around laid := .expr (laid.placed _ List.mem_cons_self)
  name n around laid := .expr (laid.placed _ List.mem_cons_self)
  unary tag op e ih around laid :=
    .cons laid (.expr (laid.placed _ List.mem_cons_self)) (ih around laid.tail)
  binary tag op l r ihl ihr around laid := by
    have parts := laid.tail
    exact .cons laid (.expr (laid.placed _ List.mem_cons_self))
      (.append parts (ihl around parts.left) (ihr around parts.right))
  conditional tag t c a iht ihc iha around laid := by
    have parts := laid.tail
    exact .cons laid (.expr (laid.placed _ List.mem_cons_self))
      (.append parts
        (.append parts.left (iht around parts.left.left) (ihc around parts.left.right))
        (iha around parts.right))
  call tag f args ihf ihargs around laid := by
    have parts := laid.tail
    exact .cons laid (.expr (laid.placed _ List.mem_cons_self))
      (.append parts (ihf around parts.left) (.exprs parts.right fun e mem => ihargs e mem around))
  arrow tag ps body ih around laid :=
    .cons laid (.expr (laid.placed _ List.mem_cons_self)) (ih (.arrow ps :: around) laid.tail)
  arrowBlock tag ps body ih around laid := by
    have placed : lineWithin around = some tag.pos.line := laid.placed _ List.mem_cons_self
    have parts := laid.tail
    -- The statements of the block are on lines of their own, and the faults after it need not be.
    have inside := ih (.function ps :: around) parts.alone
    refine .cons laid (.expr placed) ?_
    rw [placed] at parts ⊢
    exact .within parts inside
  assign tag target e ih around laid :=
    .cons laid (.expr (laid.placed _ List.mem_cons_self)) (ih around laid.tail)
  declare tag keyword n e ih around laid :=
    .stmt laid (ih (.stmt (.declare tag keyword n e) :: around) laid.inner)
  function tag n ps body ih around laid := .stmt laid (.within laid.inner (ih _ laid.inner.alone))
  retNothing tag around laid := .stmt laid .nil
  ret tag e ih around laid := .stmt laid (ih (.stmt (.ret tag (some e)) :: around) laid.inner)
  ifElse b ih around laid := .stmt laid (ih _ laid.inner)
  block b ih around laid := .stmt laid (.within laid.inner (ih _ laid.inner.alone))
  expr e ih around laid := .stmt laid (ih (.stmt (.expr e) :: around) laid.inner)
  body tag body ih around laid :=
    .list laid.tail (.stmts laid.tail fun s mem => ih s mem (.list body :: around))
  branch tag test consequent alternate iht ihc iha around laid := by
    have tested := iht (.stmt (.ifElse ⟨tag, test, consequent, alternate⟩) :: around) laid.left.left
    exact .append laid
      (.append laid.left tested (.within laid.left.right (ihc _ laid.left.right.alone)))
      (.within laid.right (iha _ laid.right.alone))
  absent around laid := .nil
  otherwise b ih around laid := ih around laid
  elseIf b ih around laid := .stmt (t := .ifElse b) laid (ih _ laid.inner)

theorem Program.traced (chapter : Chapter) {p : Program α} (laid : LaidOut none p.sites) :
    Traced chapter none p.sites :=
  .list laid.tail (.stmts laid.tail fun s _ => (Polytype.traced chapter).forStmt s [.list p.body])

/-- Of a program that is laid out like a text and rejected, the errors are in the order of their
lines if and only if every site is tidy. -/
theorem errors_ordered_iff {p : Program α} {errors : List ValidationError}
    (placed : ∀ s ∈ p.sites, s.Placed) (sorted : p.lines.Pairwise (· ≤ ·))
    (rejected : validate chapter p = .error errors) :
    Ordered errors ↔ ∀ s ∈ p.sites, s.Tidy chapter := by
  have traced := p.traced chapter ⟨placed, sorted⟩
  rw [Validation.errors_of_rejected rejected, Validation.errors_eq, traced.ordered,
    Traced.ordered_none]

/-- A repeated declaration, an assignment to a function in a block, and a stray `return`. -/
def descending : Program Unit :=
  ⟨[Build.declare .constant 1 "f" (Build.number 1),
    Build.function 2 "f" [] [Build.ret 3 (Build.ident "f")],
    Build.block 4
      [Build.declare .mutable 5 "x" (Build.ident "f"),
       Build.expr 6 (Build.assign "f" (Build.ident "x"))],
    Build.ret 7 (Build.ident "f")]⟩

theorem errors_ordered_iff_descending :
    (∀ s ∈ descending.sites, s.Placed) ∧ descending.lines.Pairwise (· ≤ ·) ∧
    ∃ errors, validate .three descending = .error errors ∧
      errors.map (·.pos.line) = [2, 6, 7] ∧ Ordered errors ∧
      ∀ s ∈ descending.sites, s.Tidy .three := by
  have placed : ∀ s ∈ descending.sites, s.Placed := by decide +kernel
  have sorted : descending.lines.Pairwise (· ≤ ·) := by decide +kernel
  have rejected : validate .three descending =
      .error [⟨.declaredTwice "f", { line := 2 }⟩, ⟨.assignedConstant "f", { line := 6 }⟩,
        ⟨.returnOutside, { line := 7 }⟩] := by rfl
  exact ⟨placed, sorted, _, rejected, rfl, by decide,
    (errors_ordered_iff placed sorted rejected).mp (by decide)⟩

/-- A stray `return` before a repeated declaration. -/
def returnFirst : Program Unit :=
  ⟨[Build.ret 1 (Build.number 1), Build.declare .constant 2 "a" (Build.number 1),
    Build.declare .constant 3 "a" (Build.number 2)]⟩

/-- The declaration comes first in the errors. -/
theorem not_ordered_returnFirst :
    (∀ s ∈ returnFirst.sites, s.Placed) ∧ returnFirst.lines.Pairwise (· ≤ ·) ∧
    ∃ errors, validate .four returnFirst = .error errors ∧
      errors = [⟨.declaredTwice "a", { line := 3 }⟩, ⟨.returnOutside, { line := 1 }⟩] ∧
      ¬ Ordered errors :=
  ⟨by decide +kernel, by decide +kernel, _, rfl, rfl, by decide⟩

end Polytype
