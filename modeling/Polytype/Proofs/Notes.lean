import Polytype.Tree.Nodes
import Polytype.Validation

/-!
# Trees and their notes

`mapNotes` changes the notes of a tree and nothing else. Its equations, one for each constructor, are
what the proofs about annotated trees use. `bare` takes all notes away: two trees with the same bare
tree are one program. Names that a program declares and the faults that validation finds do not
depend on notes.
-/

namespace Polytype

variable {α β γ : Type}

/-- Takes a note away. -/
def bare : α → Unit := fun _ => ()

@[simp] theorem bare_eq (note : α) : bare note = () := rfl

namespace Tag

def mapNote (f : α → β) (tag : Tag α) : Tag β := tag.annotate (f tag.note)

@[simp] theorem mapNote_note (f : α → β) (tag : Tag α) : (tag.mapNote f).note = f tag.note := rfl

@[simp] theorem mapNote_annotate (f : β → γ) (tag : Tag α) (note : β) :
    (tag.annotate note).mapNote f = tag.annotate (f note) := rfl

@[simp] theorem mapNote_bare (tag : Tag α) : tag.mapNote bare = tag.annotate () := rfl

end Tag

namespace Name

def mapNote (f : α → β) (name : Name α) : Name β := name.annotate (f name.note)

@[simp] theorem mapNote_note (f : α → β) (name : Name α) : (name.mapNote f).note = f name.note :=
  rfl

@[simp] theorem mapNote_text (f : α → β) (name : Name α) : (name.mapNote f).text = name.text := rfl

@[simp] theorem annotate_text (name : Name α) (note : β) : (name.annotate note).text = name.text :=
  rfl

@[simp] theorem annotate_note (name : Name α) (note : β) : (name.annotate note).note = note := rfl

@[simp] theorem mapNote_annotate (f : β → γ) (name : Name α) (note : β) :
    (name.annotate note).mapNote f = name.annotate (f note) := rfl

@[simp] theorem mapNote_bare (name : Name α) : name.mapNote bare = name.annotate () := rfl

theorem traverseAll_id (f : α → β) (ns : List (Name α)) :
    traverseAll (m := Id) (fun note => pure (f note)) ns = ns.map (mapNote f) := by
  induction ns with
  | nil => rfl
  | cons n ns ih =>
    rw [traverseAll, ih]
    rfl

end Name

/-! ## Changing notes -/

def Expr.mapNotes (f : α → β) (e : Expr α) : Expr β := e.traverse (m := Id) fun note => pure (f note)

def Stmt.mapNotes (f : α → β) (s : Stmt α) : Stmt β := s.traverse (m := Id) fun note => pure (f note)

def Block.mapNotes (f : α → β) (b : Block α) : Block β :=
  b.traverse (m := Id) fun note => pure (f note)

def If.mapNotes (f : α → β) (b : If α) : If β := b.traverse (m := Id) fun note => pure (f note)

def Alternate.mapNotes (f : α → β) (a : Alternate α) : Alternate β :=
  a.traverse (m := Id) fun note => pure (f note)

section Equations

variable (f : α → β) (tag : Tag α) (n : Name α) (ps : List (Name α))

theorem Expr.traverseAll_id (es : List (Expr α)) :
    Expr.traverseAll (m := Id) (fun note => pure (f note)) es = es.map (mapNotes f) := by
  induction es with
  | nil => rfl
  | cons e es ih =>
    rw [traverseAll, ih]
    rfl

theorem Stmt.traverseAll_id (ss : List (Stmt α)) :
    Stmt.traverseAll (m := Id) (fun note => pure (f note)) ss = ss.map (mapNotes f) := by
  induction ss with
  | nil => rfl
  | cons s ss ih =>
    rw [traverseAll, ih]
    rfl

namespace Expr

@[simp] theorem mapNotes_number (x : Float) :
    (Expr.number tag x).mapNotes f = .number (tag.mapNote f) x := rfl

@[simp] theorem mapNotes_text (s : String) :
    (Expr.text tag s).mapNotes f = .text (tag.mapNote f) s := rfl

@[simp] theorem mapNotes_boolean (b : Bool) :
    (Expr.boolean tag b).mapNotes f = .boolean (tag.mapNote f) b := rfl

@[simp] theorem mapNotes_null : (Expr.null tag).mapNotes f = .null (tag.mapNote f) := rfl

@[simp] theorem mapNotes_name : (Expr.name n).mapNotes f = .name (n.mapNote f) := rfl

@[simp] theorem mapNotes_unary (op : UnaryOp) (e : Expr α) :
    (Expr.unary tag op e).mapNotes f = .unary (tag.mapNote f) op (e.mapNotes f) := rfl

@[simp] theorem mapNotes_binary (op : BinaryOp) (l r : Expr α) :
    (Expr.binary tag op l r).mapNotes f =
      .binary (tag.mapNote f) op (l.mapNotes f) (r.mapNotes f) := rfl

@[simp] theorem mapNotes_conditional (t c a : Expr α) :
    (Expr.conditional tag t c a).mapNotes f =
      .conditional (tag.mapNote f) (t.mapNotes f) (c.mapNotes f) (a.mapNotes f) := rfl

@[simp] theorem mapNotes_call (callee : Expr α) (args : List (Expr α)) :
    (Expr.call tag callee args).mapNotes f =
      .call (tag.mapNote f) (callee.mapNotes f) (args.map (mapNotes f)) := by
  rw [mapNotes, traverse, traverseAll_id]
  rfl

@[simp] theorem mapNotes_arrow (body : Expr α) :
    (Expr.arrow tag ps body).mapNotes f =
      .arrow (tag.mapNote f) (ps.map (Name.mapNote f)) (body.mapNotes f) := by
  rw [mapNotes, traverse, Name.traverseAll_id]
  rfl

@[simp] theorem mapNotes_arrowBlock (body : Block α) :
    (Expr.arrowBlock tag ps body).mapNotes f =
      .arrowBlock (tag.mapNote f) (ps.map (Name.mapNote f)) (body.mapNotes f) := by
  rw [mapNotes, traverse, Name.traverseAll_id]
  rfl

@[simp] theorem mapNotes_assign (e : Expr α) :
    (Expr.assign tag n e).mapNotes f = .assign (tag.mapNote f) (n.mapNote f) (e.mapNotes f) := rfl

end Expr

namespace Stmt

@[simp] theorem mapNotes_declare (keyword : Keyword) (e : Expr α) :
    (Stmt.declare tag keyword n e).mapNotes f =
      .declare (tag.mapNote f) keyword (n.mapNote f) (e.mapNotes f) := rfl

@[simp] theorem mapNotes_function (body : Block α) :
    (Stmt.function tag n ps body).mapNotes f =
      .function (tag.mapNote f) (n.mapNote f) (ps.map (Name.mapNote f)) (body.mapNotes f) := by
  rw [mapNotes, traverse, Name.traverseAll_id]
  rfl

@[simp] theorem mapNotes_ret (e : Option (Expr α)) :
    (Stmt.ret tag e).mapNotes f = .ret (tag.mapNote f) (e.map (Expr.mapNotes f)) := by
  cases e <;> rfl

@[simp] theorem mapNotes_ifElse (b : If α) :
    (Stmt.ifElse b).mapNotes f = .ifElse (b.mapNotes f) := rfl

@[simp] theorem mapNotes_block (b : Block α) :
    (Stmt.block b).mapNotes f = .block (b.mapNotes f) := rfl

@[simp] theorem mapNotes_expr (e : Expr α) : (Stmt.expr e).mapNotes f = .expr (e.mapNotes f) := rfl

end Stmt

@[simp] theorem Block.mapNotes_mk (body : List (Stmt α)) :
    (Block.mk tag body).mapNotes f = ⟨tag.mapNote f, body.map (Stmt.mapNotes f)⟩ := by
  rw [mapNotes, traverse, Stmt.traverseAll_id]
  rfl

@[simp] theorem If.mapNotes_mk (test : Expr α) (consequent : Block α) (alternate : Alternate α) :
    (If.mk tag test consequent alternate).mapNotes f =
      ⟨tag.mapNote f, test.mapNotes f, consequent.mapNotes f, alternate.mapNotes f⟩ := rfl

namespace Alternate

@[simp] theorem mapNotes_absent : (Alternate.absent : Alternate α).mapNotes f = .absent := rfl

@[simp] theorem mapNotes_block (b : Block α) :
    (Alternate.block b).mapNotes f = .block (b.mapNotes f) := rfl

@[simp] theorem mapNotes_elseIf (b : If α) :
    (Alternate.elseIf b).mapNotes f = .elseIf (b.mapNotes f) := rfl

end Alternate

theorem Program.map_eq (p : Program α) : p.map f = ⟨p.body.map (Stmt.mapNotes f)⟩ := by
  rw [map, traverse, Stmt.traverseAll_id]
  rfl

end Equations

/-! ## Induction over trees -/

section Induction

/-- A tree has the property if its parts do, one case for each constructor. -/
structure Hereditary (P : Expr α → Prop) (Q : Stmt α → Prop) (B : Block α → Prop) (I : If α → Prop)
    (A : Alternate α → Prop) : Prop where
  number (tag : Tag α) (x : Float) : P (.number tag x)
  text (tag : Tag α) (s : String) : P (.text tag s)
  boolean (tag : Tag α) (b : Bool) : P (.boolean tag b)
  null (tag : Tag α) : P (.null tag)
  name (n : Name α) : P (.name n)
  unary (tag : Tag α) (op : UnaryOp) (e : Expr α) : P e → P (.unary tag op e)
  binary (tag : Tag α) (op : BinaryOp) (l r : Expr α) : P l → P r → P (.binary tag op l r)
  conditional (tag : Tag α) (t c a : Expr α) : P t → P c → P a → P (.conditional tag t c a)
  call (tag : Tag α) (f : Expr α) (args : List (Expr α)) :
    P f → (∀ e ∈ args, P e) → P (.call tag f args)
  arrow (tag : Tag α) (ps : List (Name α)) (body : Expr α) : P body → P (.arrow tag ps body)
  arrowBlock (tag : Tag α) (ps : List (Name α)) (body : Block α) :
    B body → P (.arrowBlock tag ps body)
  assign (tag : Tag α) (target : Name α) (e : Expr α) : P e → P (.assign tag target e)
  declare (tag : Tag α) (keyword : Keyword) (n : Name α) (e : Expr α) :
    P e → Q (.declare tag keyword n e)
  function (tag : Tag α) (n : Name α) (ps : List (Name α)) (body : Block α) :
    B body → Q (.function tag n ps body)
  retNothing (tag : Tag α) : Q (.ret tag none)
  ret (tag : Tag α) (e : Expr α) : P e → Q (.ret tag (some e))
  ifElse (b : If α) : I b → Q (.ifElse b)
  block (b : Block α) : B b → Q (.block b)
  expr (e : Expr α) : P e → Q (.expr e)
  body (tag : Tag α) (body : List (Stmt α)) : (∀ s ∈ body, Q s) → B ⟨tag, body⟩
  branch (tag : Tag α) (test : Expr α) (consequent : Block α) (alternate : Alternate α) :
    P test → B consequent → A alternate → I ⟨tag, test, consequent, alternate⟩
  absent : A .absent
  otherwise (b : Block α) : B b → A (.block b)
  elseIf (b : If α) : I b → A (.elseIf b)

namespace Hereditary

variable {P : Expr α → Prop} {Q : Stmt α → Prop} {B : Block α → Prop} {I : If α → Prop}
  {A : Alternate α → Prop}

mutual
theorem forExpr (h : Hereditary P Q B I A) : (e : Expr α) → P e
  | .number tag x => h.number tag x
  | .text tag s => h.text tag s
  | .boolean tag b => h.boolean tag b
  | .null tag => h.null tag
  | .name n => h.name n
  | .unary tag op e => h.unary tag op e (forExpr h e)
  | .binary tag op l r => h.binary tag op l r (forExpr h l) (forExpr h r)
  | .conditional tag t c a => h.conditional tag t c a (forExpr h t) (forExpr h c) (forExpr h a)
  | .call tag f args => h.call tag f args (forExpr h f) (forExprs h args)
  | .arrow tag ps body => h.arrow tag ps body (forExpr h body)
  | .arrowBlock tag ps body => h.arrowBlock tag ps body (forBlock h body)
  | .assign tag target e => h.assign tag target e (forExpr h e)

theorem forExprs (h : Hereditary P Q B I A) : (es : List (Expr α)) → ∀ e ∈ es, P e
  | [] => fun _ he => by cases he
  | e :: es => List.forall_mem_cons.mpr ⟨forExpr h e, forExprs h es⟩

theorem forStmt (h : Hereditary P Q B I A) : (s : Stmt α) → Q s
  | .declare tag keyword n e => h.declare tag keyword n e (forExpr h e)
  | .function tag n ps body => h.function tag n ps body (forBlock h body)
  | .ret tag none => h.retNothing tag
  | .ret tag (some e) => h.ret tag e (forExpr h e)
  | .ifElse b => h.ifElse b (forIf h b)
  | .block b => h.block b (forBlock h b)
  | .expr e => h.expr e (forExpr h e)

theorem forStmts (h : Hereditary P Q B I A) : (ss : List (Stmt α)) → ∀ s ∈ ss, Q s
  | [] => fun _ hs => by cases hs
  | s :: ss => List.forall_mem_cons.mpr ⟨forStmt h s, forStmts h ss⟩

theorem forBlock (h : Hereditary P Q B I A) : (b : Block α) → B b
  | ⟨tag, body⟩ => h.body tag body (forStmts h body)

theorem forIf (h : Hereditary P Q B I A) : (b : If α) → I b
  | ⟨tag, test, consequent, alternate⟩ => h.branch tag test consequent alternate (forExpr h test)
    (forBlock h consequent) (forAlternate h alternate)

theorem forAlternate (h : Hereditary P Q B I A) : (a : Alternate α) → A a
  | .absent => h.absent
  | .block b => h.otherwise b (forBlock h b)
  | .elseIf b => h.elseIf b (forIf h b)
end

end Hereditary

/-- Induction over expressions alone. An arrow with a block is a leaf. -/
@[elab_as_elim]
theorem Expr.ind {P : Expr α → Prop} (number : ∀ tag x, P (.number tag x))
    (text : ∀ tag s, P (.text tag s)) (boolean : ∀ tag b, P (.boolean tag b))
    (null : ∀ tag, P (.null tag)) (name : ∀ n, P (.name n))
    (unary : ∀ tag op e, P e → P (.unary tag op e))
    (binary : ∀ tag op l r, P l → P r → P (.binary tag op l r))
    (conditional : ∀ tag t c a, P t → P c → P a → P (.conditional tag t c a))
    (call : ∀ tag f args, P f → (∀ e ∈ args, P e) → P (.call tag f args))
    (arrow : ∀ tag ps body, P body → P (.arrow tag ps body))
    (arrowBlock : ∀ tag ps body, P (.arrowBlock tag ps body))
    (assign : ∀ tag target e, P e → P (.assign tag target e)) (e : Expr α) : P e :=
  have h : Hereditary P (fun _ => True) (fun _ => True) (fun _ => True) fun _ => True := {
    number, text, boolean, null, name, unary, binary, conditional, call, arrow, assign
    arrowBlock := fun tag ps body _ => arrowBlock tag ps body
    declare := fun _ _ _ _ _ => trivial
    function := fun _ _ _ _ _ => trivial
    retNothing := fun _ => trivial
    ret := fun _ _ _ => trivial
    ifElse := fun _ _ => trivial
    block := fun _ _ => trivial
    expr := fun _ _ => trivial
    body := fun _ _ _ => trivial
    branch := fun _ _ _ _ _ _ _ => trivial
    absent := trivial
    otherwise := fun _ _ => trivial
    elseIf := fun _ _ => trivial }
  h.forExpr e

end Induction

theorem mapNotes_mapNotes (f : α → β) (g : β → γ) : Hereditary
    (fun e => (e.mapNotes f).mapNotes g = e.mapNotes (g ∘ f))
    (fun s => (s.mapNotes f).mapNotes g = s.mapNotes (g ∘ f))
    (fun b => (b.mapNotes f).mapNotes g = b.mapNotes (g ∘ f))
    (fun b => (b.mapNotes f).mapNotes g = b.mapNotes (g ∘ f))
    (fun a => (a.mapNotes f).mapNotes g = a.mapNotes (g ∘ f)) := by
  have tags (tag : Tag α) : (tag.mapNote f).mapNote g = tag.mapNote (g ∘ f) := rfl
  have names (n : Name α) : (n.mapNote f).mapNote g = n.mapNote (g ∘ f) := rfl
  constructor <;> intros <;> simp_all [Function.comp_def]

theorem flatMap_map_congr {δ ε : Type} {g : ε → List γ} {h : δ → ε} {g' : δ → List γ} {xs : List δ}
    (same : ∀ x ∈ xs, g (h x) = g' x) : (xs.map h).flatMap g = xs.flatMap g' := by
  rw [List.flatMap_def, List.flatMap_def, List.map_map]
  exact congrArg List.flatten (List.map_congr_left same)

theorem Expr.nodesAll_eq (es : List (Expr α)) : nodesAll es = es.flatMap nodes := by
  induction es with
  | nil => rfl
  | cons e es ih => rw [nodesAll, ih, List.flatMap_cons]

theorem Stmt.nodesAll_eq (ss : List (Stmt α)) : nodesAll ss = ss.flatMap nodes := by
  induction ss with
  | nil => rfl
  | cons s ss ih => rw [nodesAll, ih, List.flatMap_cons]

def Node.mapNote (f : α → β) (n : Node α) : Node β := ⟨n.toTag.mapNote f, n.kind⟩

theorem nodes_mapNotes (f : α → β) : Hereditary
    (fun e => (e.mapNotes f).nodes = e.nodes.map (Node.mapNote f))
    (fun s => (s.mapNotes f).nodes = s.nodes.map (Node.mapNote f))
    (fun b => (b.mapNotes f).nodes = b.nodes.map (Node.mapNote f))
    (fun b => (b.mapNotes f).nodes = b.nodes.map (Node.mapNote f))
    (fun a => (a.mapNotes f).nodes = a.nodes.map (Node.mapNote f)) := by
  have tags (tag : Tag α) (kind : NodeKind) :
      (tag.mapNote f).node kind = (tag.node kind).mapNote f := rfl
  have names (n : Name α) (kind : NodeKind) :
      (n.mapNote f).node kind = (n.node kind).mapNote f := rfl
  constructor
  case call =>
    intro tag callee args callee_ih args_ih
    simp only [Expr.mapNotes_call, Expr.nodes, Expr.nodesAll_eq, callee_ih, flatMap_map_congr args_ih,
      List.map_cons, List.map_append, List.map_flatMap, tags]
  case body =>
    intro tag body ih
    simp only [Block.mapNotes_mk, Block.nodes, Stmt.nodesAll_eq, flatMap_map_congr ih, List.map_cons,
      List.map_flatMap, tags]
  all_goals
    intros
    simp_all [Expr.nodes, Stmt.nodes, If.nodes, Alternate.nodes, Function.comp_def]

theorem Program.nodes_map (f : α → β) (p : Program α) :
    (p.map f).nodes = p.nodes.map (Node.mapNote f) := by
  rw [map_eq, nodes, nodes, Stmt.nodesAll_eq, Stmt.nodesAll_eq, List.map_flatMap]
  exact flatMap_map_congr fun s _ => (nodes_mapNotes f).forStmt s

theorem Program.map_map (f : α → β) (g : β → γ) (p : Program α) : (p.map f).map g = p.map (g ∘ f) := by
  simp only [map_eq, List.map_map]
  exact congrArg Program.mk (List.map_congr_left fun s _ => (mapNotes_mapNotes f g).forStmt s)

theorem Program.map_bare (f : α → β) (p : Program α) : (p.map f).map bare = p.map bare :=
  p.map_map f bare

/-! ## Declared names -/

mutual
/-- The names that are declared somewhere in the tree, parameters included. -/
def Expr.binders : Expr α → List String
  | .number _ _ | .text _ _ | .boolean _ _ | .null _ | .name _ => []
  | .unary _ _ e => e.binders
  | .binary _ _ l r => l.binders ++ r.binders
  | .conditional _ t c a => t.binders ++ c.binders ++ a.binders
  | .call _ f args => f.binders ++ Expr.bindersAll args
  | .arrow _ ps body => ps.map (·.text) ++ body.binders
  | .arrowBlock _ ps body => ps.map (·.text) ++ body.binders
  | .assign _ _ e => e.binders

def Expr.bindersAll : List (Expr α) → List String
  | [] => []
  | e :: es => e.binders ++ Expr.bindersAll es

def Stmt.binders : Stmt α → List String
  | .declare _ _ n e => n.text :: e.binders
  | .function _ n ps body => n.text :: (ps.map (·.text) ++ body.binders)
  | .ret _ none => []
  | .ret _ (some e) => e.binders
  | .ifElse b => b.binders
  | .block b => b.binders
  | .expr e => e.binders

def Stmt.bindersAll : List (Stmt α) → List String
  | [] => []
  | s :: ss => s.binders ++ Stmt.bindersAll ss

def Block.binders : Block α → List String
  | ⟨_, body⟩ => Stmt.bindersAll body

def If.binders : If α → List String
  | ⟨_, test, consequent, alternate⟩ =>
    test.binders ++ consequent.binders ++ alternate.binders

def Alternate.binders : Alternate α → List String
  | .absent => []
  | .block b => b.binders
  | .elseIf b => b.binders
end

def Program.binders (p : Program α) : List String := Stmt.bindersAll p.body

theorem Expr.bindersAll_eq (es : List (Expr α)) : bindersAll es = es.flatMap binders := by
  induction es with
  | nil => rfl
  | cons e es ih => rw [bindersAll, ih, List.flatMap_cons]

theorem Stmt.bindersAll_eq (ss : List (Stmt α)) : bindersAll ss = ss.flatMap binders := by
  induction ss with
  | nil => rfl
  | cons s ss ih => rw [bindersAll, ih, List.flatMap_cons]

theorem binders_mapNotes (f : α → β) : Hereditary
    (fun e => (e.mapNotes f).binders = e.binders)
    (fun s => (s.mapNotes f).binders = s.binders)
    (fun b => (b.mapNotes f).binders = b.binders)
    (fun b => (b.mapNotes f).binders = b.binders)
    (fun a => (a.mapNotes f).binders = a.binders) := by
  constructor
  case call =>
    intro tag callee args callee_ih args_ih
    simp only [Expr.mapNotes_call, Expr.binders, Expr.bindersAll_eq, callee_ih, flatMap_map_congr args_ih]
  case body =>
    intro tag body ih
    simp only [Block.mapNotes_mk, Block.binders, Stmt.bindersAll_eq, flatMap_map_congr ih]
  all_goals
    intros
    simp_all [Expr.binders, Stmt.binders, If.binders, Alternate.binders]

theorem Program.binders_map (f : α → β) (p : Program α) : (p.map f).binders = p.binders := by
  rw [map_eq, binders, binders, Stmt.bindersAll_eq, Stmt.bindersAll_eq]
  exact flatMap_map_congr fun s _ => (binders_mapNotes f).forStmt s

theorem mem_binders_of_declared {s : Stmt α} {n : Name α} (h : s.declared? = some n) :
    n.text ∈ s.binders := by
  cases s with
  | declare tag keyword n e =>
    cases h
    exact List.mem_cons_self
  | function tag n ps body =>
    cases h
    exact List.mem_cons_self
  | ret tag e => cases h
  | ifElse b => cases h
  | block b => cases h
  | expr e => cases h

/-! ## Validation -/

namespace Validation

theorem declaration?_mapNotes (f : α → β) (s : Stmt α) :
    declaration? (s.mapNotes f) = declaration? s := by
  cases s with
  | declare tag keyword n e => cases keyword <;> rfl
  | function tag n ps body =>
    rw [Stmt.mapNotes_function]
    rfl
  | ret tag e =>
    rw [Stmt.mapNotes_ret]
    rfl
  | _ => rfl

theorem blockFrame_map (f : α → β) (ss : List (Stmt α)) :
    blockFrame (ss.map (Stmt.mapNotes f)) = blockFrame ss := by
  simp only [blockFrame, List.filterMap_map, Function.comp_def, declaration?_mapNotes]

theorem paramFrame_map (f : α → β) (ps : List (Name α)) :
    paramFrame (ps.map (Name.mapNote f)) = paramFrame ps := by
  simp [paramFrame]

end Validation

@[simp] theorem Stmt.declared?_mapNotes (f : α → β) (s : Stmt α) :
    (s.mapNotes f).declared? = s.declared?.map (Name.mapNote f) := by
  cases s with
  | function tag n ps body =>
    rw [mapNotes_function]
    rfl
  | ret tag e =>
    rw [mapNotes_ret]
    rfl
  | _ => rfl

@[simp] theorem Expr.pos_mapNotes (f : α → β) (e : Expr α) : (e.mapNotes f).pos = e.pos := by
  cases e with
  | call tag callee args =>
    rw [mapNotes_call]
    rfl
  | arrow tag ps body =>
    rw [mapNotes_arrow]
    rfl
  | arrowBlock tag ps body =>
    rw [mapNotes_arrowBlock]
    rfl
  | _ => rfl

@[simp] theorem Stmt.pos_mapNotes (f : α → β) (s : Stmt α) : (s.mapNotes f).pos = s.pos := by
  cases s with
  | function tag n ps body =>
    rw [mapNotes_function]
    rfl
  | ret tag e =>
    rw [mapNotes_ret]
    rfl
  | ifElse b =>
    obtain ⟨tag, test, consequent, alternate⟩ := b
    rfl
  | block b =>
    obtain ⟨tag, body⟩ := b
    rw [mapNotes_block, Block.mapNotes_mk]
    rfl
  | expr e => exact e.pos_mapNotes f
  | declare tag keyword n e => rfl

namespace Validation

theorem repeats_map (f : α → β) (seen : List String) (ss : List (Stmt α)) :
    repeats seen (ss.map (Stmt.mapNotes f)) = repeats seen ss := by
  induction ss generalizing seen with
  | nil => rfl
  | cons s ss ih =>
    rw [List.map_cons, repeats, repeats, Stmt.declared?_mapNotes]
    cases s.declared? with
    | none => exact ih seen
    | some n => simp only [Option.map_some, Name.mapNote_text, Stmt.pos_mapNotes, ih]

theorem checkExprs_eq (p : Place) (es : List (Expr α)) : checkExprs p es = es.flatMap (checkExpr p) := by
  induction es with
  | nil => rfl
  | cons e es ih => rw [checkExprs, ih, List.flatMap_cons]

theorem checkStmts_eq (p : Place) (ss : List (Stmt α)) : checkStmts p ss = ss.flatMap (checkStmt p) := by
  induction ss with
  | nil => rfl
  | cons s ss ih => rw [checkStmts, ih, List.flatMap_cons]

theorem check_mapNotes (f : α → β) : Hereditary
    (fun e => ∀ p, checkExpr p (e.mapNotes f) = checkExpr p e)
    (fun s => ∀ p, checkStmt p (s.mapNotes f) = checkStmt p s)
    (fun b => ∀ p, checkBlock p (b.mapNotes f) = checkBlock p b)
    (fun b => ∀ p, checkIf p (b.mapNotes f) = checkIf p b)
    (fun a => ∀ p, checkAlternate p (a.mapNotes f) = checkAlternate p a) := by
  constructor
  case call =>
    intro tag callee args callee_ih args_ih p
    simp only [Expr.mapNotes_call, checkExpr, checkExprs_eq, callee_ih,
      flatMap_map_congr fun e he => args_ih e he p]
  case body =>
    intro tag body ih p
    simp only [Block.mapNotes_mk, checkBlock, checkStmts_eq, repeats_map, blockFrame_map,
      flatMap_map_congr fun s hs => ih s hs _]
  case declare =>
    intro tag keyword n e ih p
    cases keyword with
    | constant => simp only [Stmt.mapNotes_declare, checkStmt, ih]
    | mutable =>
      simp only [Stmt.mapNotes_declare, checkStmt, ih]
      rfl
  case assign =>
    intro tag target e ih p
    simp only [Expr.mapNotes_assign, checkExpr, ih]
    rfl
  case ret =>
    intro tag e ih p
    simp only [Stmt.mapNotes_ret, Option.map_some, checkStmt, ih]
    rfl
  case retNothing =>
    intro tag p
    rfl
  all_goals
    intros
    simp_all [checkExpr, checkStmt, checkIf, checkAlternate, paramFrame_map]

theorem errors_map (f : α → β) (chapter : Chapter) (p : Program α) :
    errors chapter (p.map f) = errors chapter p := by
  simp only [Program.map_eq, errors, repeats_map, blockFrame_map, checkStmts_eq]
  rw [flatMap_map_congr fun s _ => (check_mapNotes f).forStmt s _]

theorem validate_of_errors {chapter : Chapter} {p : Program α} (h : errors chapter p = []) :
    validate chapter p = .ok (p.map fun _ => .pending) := by
  rw [validate, h]

theorem errors_of_validate {chapter : Chapter} {p : Program α} {q : Program Verdict}
    (h : validate chapter p = .ok q) : errors chapter p = [] := by
  unfold validate at h
  split at h
  next valid => exact valid
  next => cases h

end Validation

end Polytype
