import Polytype.Proofs.Typing.Rules

/-!
# The parts of a program and what is around them

`Program.sites` lists the statements, the expressions and the lists of statements of a program. Each
comes before its own parts, and with all that it stands in, from the inside out. What stands around a
name says what the name means there: the innermost list of statements that declares it counts, or the
innermost parameters it is among, and in a list its last declaration.
-/

namespace Polytype

variable {α β : Type}

/-- Something that parts of a program stand in. -/
inductive Enclosure (α : Type) where
  | list (body : List (Stmt α))
  | stmt (s : Stmt α)
  /-- The body of a function declaration, or of an arrow function with a block. -/
  | function (params : List (Name α))
  | arrow (params : List (Name α))

inductive Item (α : Type) where
  | list (body : List (Stmt α))
  | stmt (s : Stmt α)
  | expr (e : Expr α)

structure Site (α : Type) where
  item : Item α
  around : List (Enclosure α)

mutual
def Expr.sites (around : List (Enclosure α)) : Expr α → List (Site α)
  | .unary tag op e => ⟨.expr (.unary tag op e), around⟩ :: e.sites around
  | .binary tag op l r => ⟨.expr (.binary tag op l r), around⟩ :: (l.sites around ++ r.sites around)
  | .conditional tag t c a =>
    ⟨.expr (.conditional tag t c a), around⟩ ::
      (t.sites around ++ c.sites around ++ a.sites around)
  | .call tag f args =>
    ⟨.expr (.call tag f args), around⟩ :: (f.sites around ++ Expr.sitesAll around args)
  | .arrow tag ps body => ⟨.expr (.arrow tag ps body), around⟩ :: body.sites (.arrow ps :: around)
  | .arrowBlock tag ps body =>
    ⟨.expr (.arrowBlock tag ps body), around⟩ :: body.sites (.function ps :: around)
  | .assign tag target e => ⟨.expr (.assign tag target e), around⟩ :: e.sites around
  | e => [⟨.expr e, around⟩]

def Expr.sitesAll (around : List (Enclosure α)) : List (Expr α) → List (Site α)
  | [] => []
  | e :: es => e.sites around ++ Expr.sitesAll around es

/-- The sites in a statement, without its own. -/
def Stmt.inner (around : List (Enclosure α)) : Stmt α → List (Site α)
  | .declare tag keyword n e => e.sites (.stmt (.declare tag keyword n e) :: around)
  | .function tag n ps body =>
    body.sites (.function ps :: .stmt (.function tag n ps body) :: around)
  | .ret _ none => []
  | .ret tag (some e) => e.sites (.stmt (.ret tag (some e)) :: around)
  | .ifElse b => b.inner around
  | .block b => b.sites (.stmt (.block b) :: around)
  | .expr e => e.sites (.stmt (.expr e) :: around)

def Stmt.sitesAll (around : List (Enclosure α)) : List (Stmt α) → List (Site α)
  | [] => []
  | s :: ss => ⟨.stmt s, around⟩ :: s.inner around ++ Stmt.sitesAll around ss

def Block.sites (around : List (Enclosure α)) : Block α → List (Site α)
  | ⟨_, body⟩ => ⟨.list body, around⟩ :: Stmt.sitesAll (.list body :: around) body

def If.inner (around : List (Enclosure α)) : If α → List (Site α)
  | ⟨tag, test, consequent, alternate⟩ =>
    let within := .stmt (.ifElse ⟨tag, test, consequent, alternate⟩) :: around
    test.sites within ++ consequent.sites within ++ alternate.sites within

/-- An `if` after `else` is a statement of its own. -/
def Alternate.sites (around : List (Enclosure α)) : Alternate α → List (Site α)
  | .absent => []
  | .block b => b.sites around
  | .elseIf b => ⟨.stmt (.ifElse b), around⟩ :: b.inner around
end

def Stmt.sites (around : List (Enclosure α)) (s : Stmt α) : List (Site α) :=
  ⟨.stmt s, around⟩ :: s.inner around

def Program.sites (p : Program α) : List (Site α) :=
  ⟨.list p.body, []⟩ :: Stmt.sitesAll [.list p.body] p.body

theorem Expr.sitesAll_eq (around : List (Enclosure α)) (es : List (Expr α)) :
    sitesAll around es = es.flatMap (sites around) := by
  induction es with
  | nil => rfl
  | cons e es ih => rw [sitesAll, ih, List.flatMap_cons]

theorem Stmt.sitesAll_eq (around : List (Enclosure α)) (ss : List (Stmt α)) :
    sitesAll around ss = ss.flatMap (sites around) := by
  induction ss with
  | nil => rfl
  | cons s ss ih => rw [sitesAll, ih, List.flatMap_cons, sites]

/-! ## What names mean -/

/-- What can bind a name in a program. -/
inductive Meaning where
  | value (keyword : Keyword)
  | function
  | parameter
  deriving DecidableEq

/-- What the statement makes of the name, if it declares it. -/
def Stmt.meaning? (x : String) : Stmt α → Option Meaning
  | .declare _ keyword n _ => if n.text = x then some (.value keyword) else none
  | .function _ n _ _ => if n.text = x then some .function else none
  | _ => none

def Enclosure.meaning? (x : String) : Enclosure α → Option Meaning
  | .list body => body.reverse.findSome? (Stmt.meaning? x)
  | .stmt _ => none
  | .function ps | .arrow ps => if x ∈ ps.map (·.text) then some .parameter else none

namespace Site

/-- What the name means here, if the program binds it. -/
def meaning? (s : Site α) (x : String) : Option Meaning := s.around.findSome? (·.meaning? x)

/-- There is a function to return from. -/
def InFunction (s : Site α) : Prop := ∃ params, Enclosure.function params ∈ s.around

end Site

def Enclosure.isFunction : Enclosure α → Bool
  | .function _ => true
  | _ => false

theorem Site.inFunction_iff {s : Site α} : s.InFunction ↔ s.around.any (·.isFunction) = true := by
  rw [List.any_eq_true]
  constructor
  · rintro ⟨params, mem⟩
    exact ⟨_, mem, rfl⟩
  · rintro ⟨enclosure, mem, function⟩
    cases enclosure with
    | function params => exact ⟨params, mem⟩
    | _ => cases function

instance (s : Site α) : Decidable s.InFunction := decidable_of_iff' _ Site.inFunction_iff

/-! ## Lines -/

def Enclosure.line? : Enclosure α → Option Nat
  | .stmt s => some s.pos.line
  | _ => none

/-- The line of the innermost statement among the surroundings. -/
def lineWithin (around : List (Enclosure α)) : Option Nat := around.findSome? Enclosure.line?

@[simp] theorem lineWithin_list (body : List (Stmt α)) (around : List (Enclosure α)) :
    lineWithin (.list body :: around) = lineWithin around := rfl

@[simp] theorem lineWithin_stmt (s : Stmt α) (around : List (Enclosure α)) :
    lineWithin (.stmt s :: around) = some s.pos.line := rfl

@[simp] theorem lineWithin_function (ps : List (Name α)) (around : List (Enclosure α)) :
    lineWithin (.function ps :: around) = lineWithin around := rfl

@[simp] theorem lineWithin_arrow (ps : List (Name α)) (around : List (Enclosure α)) :
    lineWithin (.arrow ps :: around) = lineWithin around := rfl

/-- An expression is on the line of the innermost statement around it. -/
def Site.Placed (s : Site α) : Prop :=
  match s.item with
  | .expr e => lineWithin s.around = some e.pos.line
  | _ => True

instance : (s : Site α) → Decidable s.Placed
  | ⟨.expr _, _⟩ => inferInstanceAs (Decidable (_ = _))
  | ⟨.stmt _, _⟩ | ⟨.list _, _⟩ => .isTrue trivial

def Site.line? (s : Site α) : Option Nat :=
  match s.item with
  | .stmt t => some t.pos.line
  | _ => none

/-- The lines of the statements among the sites. -/
def stmtLines (sites : List (Site α)) : List Nat := sites.filterMap Site.line?

/-- The lines of all statements, a statement before those inside it. -/
def Program.lines (p : Program α) : List Nat := stmtLines p.sites

/-! ## Notes -/

def Enclosure.mapNotes (f : α → β) : Enclosure α → Enclosure β
  | .list body => .list (body.map (Stmt.mapNotes f))
  | .stmt s => .stmt (s.mapNotes f)
  | .function ps => .function (ps.map (Name.mapNote f))
  | .arrow ps => .arrow (ps.map (Name.mapNote f))

def Item.mapNotes (f : α → β) : Item α → Item β
  | .list body => .list (body.map (Stmt.mapNotes f))
  | .stmt s => .stmt (s.mapNotes f)
  | .expr e => .expr (e.mapNotes f)

def Site.mapNotes (f : α → β) (s : Site α) : Site β :=
  ⟨s.item.mapNotes f, s.around.map (Enclosure.mapNotes f)⟩

section Notes

variable (f : α → β)

theorem Stmt.sitesAll_map (ss : List (Stmt α)) (around : List (Enclosure α))
    (ih : ∀ s ∈ ss, ∀ around, (s.mapNotes f).inner (around.map (Enclosure.mapNotes f)) =
      (s.inner around).map (Site.mapNotes f)) :
    sitesAll (around.map (Enclosure.mapNotes f)) (ss.map (Stmt.mapNotes f)) =
      (sitesAll around ss).map (Site.mapNotes f) := by
  rw [sitesAll_eq, sitesAll_eq, List.map_flatMap]
  exact flatMap_map_congr fun s hs => congrArg (List.cons _) (ih s hs around)

theorem sites_mapNotes : Hereditary
    (fun e => ∀ around, (e.mapNotes f).sites (around.map (Enclosure.mapNotes f)) =
      (e.sites around).map (Site.mapNotes f))
    (fun s => ∀ around, (s.mapNotes f).inner (around.map (Enclosure.mapNotes f)) =
      (s.inner around).map (Site.mapNotes f))
    (fun b => ∀ around, (b.mapNotes f).sites (around.map (Enclosure.mapNotes f)) =
      (b.sites around).map (Site.mapNotes f))
    (fun b => ∀ around, (b.mapNotes f).inner (around.map (Enclosure.mapNotes f)) =
      (b.inner around).map (Site.mapNotes f))
    (fun a => ∀ around, (a.mapNotes f).sites (around.map (Enclosure.mapNotes f)) =
      (a.sites around).map (Site.mapNotes f)) where
  number tag x around := rfl
  text tag s around := rfl
  boolean tag b around := rfl
  null tag around := rfl
  name n around := rfl
  unary tag op e ih around := congrArg (List.cons _) (ih around)
  binary tag op l r ihl ihr around := by
    rw [Expr.sites, List.map_cons, List.map_append, ← ihl, ← ihr]
    rfl
  conditional tag t c a iht ihc iha around := by
    rw [Expr.sites, List.map_cons, List.map_append, List.map_append, ← iht, ← ihc, ← iha]
    rfl
  call tag callee args ihf ihargs around := by
    have all : (args.map (Expr.mapNotes f)).flatMap (Expr.sites (around.map (Enclosure.mapNotes f))) =
        args.flatMap fun e => (e.sites around).map (Site.mapNotes f) :=
      flatMap_map_congr fun e he => ihargs e he around
    rw [Expr.mapNotes_call, Expr.sites, Expr.sites, List.map_cons, List.map_append, ← ihf,
      Expr.sitesAll_eq, Expr.sitesAll_eq, all, List.map_flatMap, ← Expr.mapNotes_call]
    rfl
  arrow tag ps body ih around := by
    rw [Expr.sites, List.map_cons, ← ih, Expr.mapNotes_arrow, Expr.sites, ← Expr.mapNotes_arrow]
    rfl
  arrowBlock tag ps body ih around := by
    rw [Expr.sites, List.map_cons, ← ih, Expr.mapNotes_arrowBlock, Expr.sites,
      ← Expr.mapNotes_arrowBlock]
    rfl
  assign tag target e ih around := congrArg (List.cons _) (ih around)
  declare tag keyword n e ih around := ih (.stmt (.declare tag keyword n e) :: around)
  function tag n ps body ih around := by
    rw [Stmt.inner, ← ih, Stmt.mapNotes_function, Stmt.inner, ← Stmt.mapNotes_function]
    rfl
  retNothing tag around := rfl
  ret tag e ih around := ih (.stmt (.ret tag (some e)) :: around)
  ifElse b ih around := by
    rw [Stmt.mapNotes_ifElse, Stmt.inner, Stmt.inner, ih]
  block b ih around := ih (.stmt (.block b) :: around)
  expr e ih around := ih (.stmt (.expr e) :: around)
  body tag body ih around := by
    rw [Block.mapNotes_mk, Block.sites, Block.sites, List.map_cons,
      ← Stmt.sitesAll_map f body (.list body :: around) ih]
    rfl
  branch tag test consequent alternate iht ihc iha around := by
    rw [If.inner, List.map_append, List.map_append, ← iht, ← ihc, ← iha]
    rfl
  absent around := rfl
  otherwise b ih around := ih around
  elseIf b ih around := congrArg (List.cons _) (ih around)

theorem Program.sites_map (p : Program α) : (p.map f).sites = p.sites.map (Site.mapNotes f) := by
  rw [map_eq, sites, sites, List.map_cons, ← Stmt.sitesAll_map f p.body [.list p.body] fun s _ =>
    (sites_mapNotes f).forStmt s]
  rfl

@[simp] theorem lineWithin_mapNotes (around : List (Enclosure α)) :
    lineWithin (around.map (Enclosure.mapNotes f)) = lineWithin around := by
  rw [lineWithin, lineWithin, List.findSome?_map]
  congr
  funext enclosure
  cases enclosure with
  | stmt s => exact congrArg (fun pos => some pos.line) (s.pos_mapNotes f)
  | _ => rfl

theorem Site.placed_mapNotes (s : Site α) : (s.mapNotes f).Placed ↔ s.Placed := by
  obtain ⟨item, around⟩ := s
  cases item with
  | expr e =>
    change lineWithin (around.map (Enclosure.mapNotes f)) = some (e.mapNotes f).pos.line ↔ _
    rw [lineWithin_mapNotes, e.pos_mapNotes]
    rfl
  | _ => exact Iff.rfl

theorem stmtLines_mapNotes (S : List (Site α)) : stmtLines (S.map (Site.mapNotes f)) = stmtLines S := by
  rw [stmtLines, stmtLines, List.filterMap_map]
  congr
  funext s
  obtain ⟨item, around⟩ := s
  cases item with
  | stmt t => exact congrArg (fun pos => some pos.line) (t.pos_mapNotes f)
  | _ => rfl

end Notes

end Polytype
