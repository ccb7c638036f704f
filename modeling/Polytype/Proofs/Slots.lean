import Polytype.Proofs.Notes
import Polytype.Tree.Build

/-!
# Slots for notes

Every node of a program has a slot for a note. A slot is found by its path: the numbers of the children
to go through, from the outside in. What the children of a node are is said for one node at a time
(`Subtree.children`), and so is what a node says by itself (`Subtree.label`). Along the paths one sees
the whole program: two programs with the same labels, places and notes there are equal
(`Program.ext_at?`), so no slot is left out. `Program.slots` lists the slots, those inside a node before
its own and those of earlier children before those of later ones. Every slot is listed
(`Program.mem_slots`), in this order (`Program.slots_ordered`), and hence once.
-/

namespace Polytype

variable {α β : Type}

/-! ## Nodes and their children -/

/-- A node of a program with all that is inside it. -/
inductive Subtree (α : Type) where
  /-- A name that is declared or assigned to, or a parameter. -/
  | name (n : Name α)
  | expr (e : Expr α)
  | declare (tag : Tag α) (keyword : Keyword) (name : Name α) (init : Expr α)
  | function (tag : Tag α) (name : Name α) (params : List (Name α)) (body : Block α)
  | ret (tag : Tag α) (value : Option (Expr α))
  | branch (b : If α)
  | block (b : Block α)

/-- What a node says by itself. -/
inductive Label where
  | name (text : String)
  | number (value : Float)
  | text (value : String)
  | boolean (value : Bool)
  | null
  | ident (text : String)
  | unary (op : UnaryOp)
  | binary (op : BinaryOp)
  | conditional
  | call
  | arrow
  | assign
  | declare (keyword : Keyword)
  | function
  | ret
  | branch
  | block

namespace Expr

def label : Expr α → Label
  | .number _ x => .number x
  | .text _ s => .text s
  | .boolean _ b => .boolean b
  | .null _ => .null
  | .name n => .ident n.text
  | .unary _ op _ => .unary op
  | .binary _ op _ _ => .binary op
  | .conditional _ _ _ _ => .conditional
  | .call _ _ _ => .call
  | .arrow _ _ _ | .arrowBlock _ _ _ => .arrow
  | .assign _ _ _ => .assign

def children : Expr α → List (Subtree α)
  | .number _ _ | .text _ _ | .boolean _ _ | .null _ | .name _ => []
  | .unary _ _ e => [.expr e]
  | .binary _ _ l r => [.expr l, .expr r]
  | .conditional _ t c a => [.expr t, .expr c, .expr a]
  | .call _ f args => .expr f :: args.map .expr
  | .arrow _ ps body => ps.map .name ++ [.expr body]
  | .arrowBlock _ ps body => ps.map .name ++ [.block body]
  | .assign _ target e => [.name target, .expr e]

end Expr

/-- A block, an `if` or an expression that is a statement is the node itself. -/
def Stmt.subtree : Stmt α → Subtree α
  | .declare tag keyword n e => .declare tag keyword n e
  | .function tag n ps body => .function tag n ps body
  | .ret tag e => .ret tag e
  | .ifElse b => .branch b
  | .block b => .block b
  | .expr e => .expr e

def Alternate.children : Alternate α → List (Subtree α)
  | .absent => []
  | .block b => [.block b]
  | .elseIf b => [.branch b]

namespace Subtree

def tag : Subtree α → Tag α
  | .name n => n.toTag
  | .expr e => e.tag
  | .declare tag _ _ _ | .function tag _ _ _ | .ret tag _ => tag
  | .branch b => b.tag
  | .block b => b.tag

def label : Subtree α → Label
  | .name n => .name n.text
  | .expr e => e.label
  | .declare _ keyword _ _ => .declare keyword
  | .function _ _ _ _ => .function
  | .ret _ _ => .ret
  | .branch _ => .branch
  | .block _ => .block

def children : Subtree α → List (Subtree α)
  | .name _ => []
  | .expr e => e.children
  | .declare _ _ n e => [.name n, .expr e]
  | .function _ n ps body => .name n :: ps.map .name ++ [.block body]
  | .ret _ e => e.toList.map .expr
  | .branch b => .expr b.test :: .block b.consequent :: b.alternate.children
  | .block b => b.body.map Stmt.subtree

end Subtree

def Program.children (p : Program α) : List (Subtree α) := p.body.map Stmt.subtree

namespace Subtree

/-! ## Induction -/

/-- The number of nodes in the subtree. -/
def size : Subtree α → Nat
  | .name _ => 1
  | .expr e => e.nodes.length
  | .declare tag keyword n e => (Stmt.declare tag keyword n e).nodes.length
  | .function tag n ps body => (Stmt.function tag n ps body).nodes.length
  | .ret tag e => (Stmt.ret tag e).nodes.length
  | .branch b => b.nodes.length
  | .block b => b.nodes.length

def total : List (Subtree α) → Nat
  | [] => 0
  | t :: ts => t.size + total ts

theorem total_append (ts us : List (Subtree α)) : total (ts ++ us) = total ts + total us := by
  induction ts with
  | nil => exact (Nat.zero_add _).symm
  | cons t ts ih => rw [List.cons_append, total, total, ih, Nat.add_assoc]

theorem total_names (ps : List (Name α)) : total (ps.map name) = ps.length := by
  induction ps with
  | nil => rfl
  | cons p ps ih => rw [List.map_cons, total, ih, size, List.length_cons, Nat.add_comm]

theorem total_exprs (es : List (Expr α)) : total (es.map expr) = (Expr.nodesAll es).length := by
  induction es with
  | nil => rfl
  | cons e es ih => rw [List.map_cons, total, ih, size, Expr.nodesAll, List.length_append]

theorem total_stmts (ss : List (Stmt α)) :
    total (ss.map Stmt.subtree) = (Stmt.nodesAll ss).length := by
  have one (s : Stmt α) : s.subtree.size = s.nodes.length := by cases s <;> rfl
  induction ss with
  | nil => rfl
  | cons s ss ih => rw [List.map_cons, total, ih, one, Stmt.nodesAll, List.length_append]

theorem total_alternate (a : Alternate α) : total a.children = a.nodes.length := by
  cases a <;> rfl

theorem size_eq (t : Subtree α) : t.size = total t.children + 1 := by
  cases t with
  | name n => rfl
  | expr e =>
    cases e <;>
      simp only [size, Expr.nodes, children, Expr.children, total, total_append,
        total_names, total_exprs, List.length_cons, List.length_append, List.length_map,
        List.length_nil] <;>
      omega
  | declare tag keyword n e =>
    simp only [size, Stmt.nodes, children, total, List.length_cons]
    omega
  | function tag n ps body =>
    simp only [size, Stmt.nodes, children, total, total_append, total_names,
      List.length_cons, List.length_append, List.length_map]
    omega
  | ret tag e => cases e <;> rfl
  | branch b =>
    obtain ⟨tag, test, consequent, alternate⟩ := b
    simp only [size, If.nodes, children, total, total_alternate, List.length_cons,
      List.length_append]
    omega
  | block b =>
    obtain ⟨tag, body⟩ := b
    simp only [size, Block.nodes, children, total_stmts, List.length_cons]

/-- Induction over lists of subtrees: the children of the first one, and the others. -/
@[elab_as_elim]
theorem forest_ind {P : List (Subtree α) → Prop} (nil : P [])
    (cons : ∀ t ts, P t.children → P ts → P (t :: ts)) : (ts : List (Subtree α)) → P ts
  | [] => nil
  | t :: ts => cons t ts (forest_ind nil cons t.children) (forest_ind nil cons ts)
termination_by ts => total ts
decreasing_by all_goals
  rw [total, size_eq]
  omega

/-! ## Paths -/

def pos (t : Subtree α) : Position := t.tag.pos

def note (t : Subtree α) : α := t.tag.note

/-- The subtree that a path leads to. -/
def at? (t : Subtree α) : List Nat → Option (Subtree α)
  | [] => some t
  | i :: path => t.children[i]?.bind fun child => child.at? path

/-- The same with a list to start from. -/
def find? (ts : List (Subtree α)) : List Nat → Option (Subtree α)
  | [] => none
  | i :: path => ts[i]?.bind fun t => t.at? path

def noteAt? (ts : List (Subtree α)) (path : List Nat) : Option α := (find? ts path).map note

/-- What the node at the end of a path says by itself, and where it stands in the text. -/
def outlineAt? (ts : List (Subtree α)) (path : List Nat) : Option (Label × Position) :=
  (find? ts path).map fun t => (t.label, t.pos)

section Observations

variable {γ : Type} {g : Subtree α → γ} {h : Subtree β → γ} {t : Subtree α} {u : Subtree β}
  {ts : List (Subtree α)} {us : List (Subtree β)}

theorem forall_map_find?_cons :
    (∀ path, (find? (t :: ts) path).map g = (find? (u :: us) path).map h) ↔
      g t = h u ∧ (∀ path, (find? t.children path).map g = (find? u.children path).map h) ∧
        ∀ path, (find? ts path).map g = (find? us path).map h := by
  constructor
  · intro same
    refine ⟨Option.some.inj (same [0]), fun path => ?_, fun path => ?_⟩
    · cases path with
      | nil => rfl
      | cons i path => exact same (0 :: i :: path)
    · cases path with
      | nil => rfl
      | cons i path => exact same ((i + 1) :: path)
  · rintro ⟨first, inside, others⟩ path
    rcases path with _ | ⟨_ | i, path⟩
    · rfl
    · cases path with
      | nil => exact congrArg some first
      | cons i path => exact inside (i :: path)
    · exact others (i :: path)

end Observations

/-! ## What makes up a program -/

def name? : Subtree α → Option (Name α)
  | .name n => some n
  | _ => none

def expr? : Subtree α → Option (Expr α)
  | .expr e => some e
  | _ => none

def stmt? : Subtree α → Option (Stmt α)
  | .name _ => none
  | .expr e => some (.expr e)
  | .declare tag keyword n e => some (.declare tag keyword n e)
  | .function tag n ps body => some (.function tag n ps body)
  | .ret tag e => some (.ret tag e)
  | .branch b => some (.ifElse b)
  | .block b => some (.block b)

/-- The parameters among the children of a function, and its body. -/
def signature? (ts : List (Subtree α)) : Option (List (Name α) × Subtree α) :=
  ts.getLast?.map fun body => (ts.filterMap name?, body)

def arrow? (tag : Tag α) : List (Name α) × Subtree α → Option (Subtree α)
  | (ps, .expr body) => some (.expr (.arrow tag ps body))
  | (ps, .block body) => some (.expr (.arrowBlock tag ps body))
  | _ => none

def function? (tag : Tag α) (n : Name α) : List (Name α) × Subtree α → Option (Subtree α)
  | (ps, .block body) => some (.function tag n ps body)
  | _ => none

/-- Puts a node together from what it says by itself, its tag and its children. -/
def ofRoot? (tag : Tag α) : Label → List (Subtree α) → Option (Subtree α)
  | .name text, [] => some (.name ⟨tag, text⟩)
  | .number x, [] => some (.expr (.number tag x))
  | .text s, [] => some (.expr (.text tag s))
  | .boolean b, [] => some (.expr (.boolean tag b))
  | .null, [] => some (.expr (.null tag))
  | .ident text, [] => some (.expr (.name ⟨tag, text⟩))
  | .unary op, [.expr e] => some (.expr (.unary tag op e))
  | .binary op, [.expr l, .expr r] => some (.expr (.binary tag op l r))
  | .conditional, [.expr t, .expr c, .expr a] => some (.expr (.conditional tag t c a))
  | .call, .expr f :: args => some (.expr (.call tag f (args.filterMap expr?)))
  | .arrow, ts => (signature? ts).bind (arrow? tag)
  | .assign, [.name target, .expr e] => some (.expr (.assign tag target e))
  | .declare keyword, [.name n, .expr e] => some (.declare tag keyword n e)
  | .function, .name n :: ts => (signature? ts).bind (function? tag n)
  | .ret, ts => some (.ret tag (ts.filterMap expr?).head?)
  | .branch, [.expr t, .block c] => some (.branch ⟨tag, t, c, .absent⟩)
  | .branch, [.expr t, .block c, .block a] => some (.branch ⟨tag, t, c, .block a⟩)
  | .branch, [.expr t, .block c, .branch b] => some (.branch ⟨tag, t, c, .elseIf b⟩)
  | .block, ts => some (.block ⟨tag, ts.filterMap stmt?⟩)
  | _, _ => none

theorem signature?_params (ps : List (Name α)) {body : Subtree α} (h : body.name? = none) :
    signature? (ps.map name ++ [body]) = some (ps, body) := by
  have params : (ps.map name ++ [body]).filterMap name? = ps := by
    induction ps with
    | nil => exact List.filterMap_cons_none h
    | cons p ps ih => exact congrArg (List.cons p) ih
  rw [signature?, List.getLast?_concat, params]
  rfl

theorem filterMap_exprs (es : List (Expr α)) : (es.map expr).filterMap expr? = es :=
  List.filterMap_map.trans List.filterMap_some

theorem filterMap_stmts (ss : List (Stmt α)) : (ss.map Stmt.subtree).filterMap stmt? = ss := by
  have each : stmt? ∘ Stmt.subtree = (some : Stmt α → Option (Stmt α)) := by
    funext s
    cases s <;> rfl
  rw [List.filterMap_map, each, List.filterMap_some]

theorem ofRoot?_root (t : Subtree α) : ofRoot? t.tag t.label t.children = some t := by
  cases t with
  | name n => rfl
  | expr e =>
    cases e with
    | call tag f args =>
      exact congrArg (fun args => some (expr (.call tag f args))) (filterMap_exprs args)
    | arrow tag ps body | arrowBlock tag ps body =>
      exact congrArg (Option.bind · (arrow? tag)) (signature?_params ps rfl)
    | _ => rfl
  | declare tag keyword n e => rfl
  | function tag n ps body =>
    exact congrArg (Option.bind · (function? tag n)) (signature?_params ps rfl)
  | ret tag e => cases e <;> rfl
  | branch b =>
    obtain ⟨tag, test, consequent, alternate⟩ := b
    cases alternate <;> rfl
  | block b =>
    obtain ⟨tag, body⟩ := b
    exact congrArg (fun body => some (block ⟨tag, body⟩)) (filterMap_stmts body)

theorem ext_root {t u : Subtree α} (label : t.label = u.label) (pos : t.pos = u.pos)
    (note : t.note = u.note) (children : t.children = u.children) : t = u := by
  have tag : t.tag = u.tag := calc
    t.tag = ⟨t.pos, t.note⟩ := rfl
    _ = u.tag := by rw [pos, note]; rfl
  have same : some t = some u := by rw [← t.ofRoot?_root, ← u.ofRoot?_root, label, tag, children]
  exact Option.some.inj same

theorem ext_at? {ts us : List (Subtree α)}
    (outlines : ∀ path, outlineAt? ts path = outlineAt? us path)
    (notes : ∀ path, noteAt? ts path = noteAt? us path) : ts = us := by
  induction ts using forest_ind generalizing us with
  | nil =>
    cases us with
    | nil => rfl
    | cons u us => cases outlines [0]
  | cons t ts ih_children ih =>
    cases us with
    | nil => cases outlines [0]
    | cons u us =>
      obtain ⟨outline, outlines_inside, outlines_after⟩ := forall_map_find?_cons.mp outlines
      obtain ⟨note, notes_inside, notes_after⟩ := forall_map_find?_cons.mp notes
      obtain ⟨label, pos⟩ := Prod.mk.inj outline
      rw [ext_root label pos note (ih_children outlines_inside notes_inside),
        ih outlines_after notes_after]

end Subtree

/-! ## Listing the slots -/

structure Slot (α : Type) where
  path : List Nat
  note : α

namespace Slot

def inside (i : Nat) (slot : Slot α) : Slot α := { slot with path := i :: slot.path }

end Slot

/-- `Before a b`: the node at `a` is inside the one at `b`, or where the paths part `a` goes to an
earlier child. -/
def Before : List Nat → List Nat → Prop
  | [], _ => False
  | _ :: _, [] => True
  | i :: a, j :: b => i < j ∨ i = j ∧ Before a b

theorem Before.irrefl (a : List Nat) : ¬ Before a a := by
  induction a with
  | nil => exact id
  | cons i a ih =>
    rintro (less | ⟨-, before⟩)
    · exact Nat.lt_irrefl i less
    · exact ih before

namespace Subtree

/-- The slots of subtrees that stand next to each other, the first of them as child `start`. -/
def slotsFrom (start : Nat) : List (Subtree α) → List (Slot α)
  | [] => []
  | t :: ts =>
    (slotsFrom 0 t.children).map (Slot.inside start) ++ ⟨[start], t.note⟩ :: slotsFrom (start + 1) ts
termination_by ts => total ts
decreasing_by all_goals
  rw [total, size_eq]
  omega

theorem mem_slotsFrom {start : Nat} {ts : List (Subtree α)} {slot : Slot α} :
    slot ∈ slotsFrom start ts ↔
      ∃ i path t, find? ts (i :: path) = some t ∧ slot = ⟨(start + i) :: path, t.note⟩ := by
  induction ts using forest_ind generalizing start slot with
  | nil => simp [slotsFrom, find?]
  | cons t ts ih_children ih =>
    rw [slotsFrom, List.mem_append, List.mem_map, List.mem_cons, ih]
    constructor
    · rintro (⟨inner, mem, rfl⟩ | rfl | ⟨i, path, u, found, rfl⟩)
      · obtain ⟨i, path, u, found, rfl⟩ := ih_children.mp mem
        exact ⟨0, i :: path, u, found, by simp [Slot.inside]⟩
      · exact ⟨0, [], t, rfl, rfl⟩
      · exact ⟨i + 1, path, u, found, by rw [Nat.add_right_comm, Nat.add_assoc]⟩
    · rintro ⟨i, path, u, found, rfl⟩
      cases i with
      | zero =>
        -- The path ends at the first subtree or goes on to one of its children.
        cases path with
        | nil =>
          cases found
          exact .inr (.inl rfl)
        | cons i path =>
          exact .inl ⟨_, ih_children.mpr ⟨i, path, u, found, rfl⟩, by simp [Slot.inside]⟩
      | succ i => exact .inr (.inr ⟨i, path, u, found, by rw [Nat.add_right_comm, Nat.add_assoc]⟩)

theorem slotsFrom_ordered (start : Nat) (ts : List (Subtree α)) :
    (slotsFrom start ts).Pairwise fun a b => Before a.path b.path := by
  induction ts using forest_ind generalizing start with
  | nil => simp [slotsFrom]
  | cons t ts ih_children ih =>
    rw [slotsFrom, List.pairwise_append, List.pairwise_cons]
    refine ⟨?_, ⟨?_, ih (start + 1)⟩, ?_⟩
    · exact List.pairwise_map.mpr ((ih_children 0).imp fun before => .inr ⟨rfl, before⟩)
    · intro slot mem
      obtain ⟨i, path, u, -, rfl⟩ := mem_slotsFrom.mp mem
      exact .inl (by omega)
    · intro first inside later mem
      obtain ⟨inner, inner_mem, rfl⟩ := List.mem_map.mp inside
      obtain ⟨i, path, u, -, rfl⟩ := mem_slotsFrom.mp inner_mem
      rcases List.mem_cons.mp mem with rfl | mem
      · exact .inr ⟨rfl, trivial⟩
      · obtain ⟨j, other, w, -, rfl⟩ := mem_slotsFrom.mp mem
        exact .inl (by omega)

end Subtree

namespace Program

def noteAt? (p : Program α) (path : List Nat) : Option α := Subtree.noteAt? p.children path

def outlineAt? (p : Program α) (path : List Nat) : Option (Label × Position) :=
  Subtree.outlineAt? p.children path

/-- A program is the outlines and the notes of its nodes. -/
theorem ext_at? {p q : Program α} (outlines : ∀ path, p.outlineAt? path = q.outlineAt? path)
    (notes : ∀ path, p.noteAt? path = q.noteAt? path) : p = q := by
  have bodies := congrArg (List.filterMap Subtree.stmt?) (Subtree.ext_at? outlines notes)
  simp only [children, Subtree.filterMap_stmts] at bodies
  exact congrArg Program.mk bodies

def slots (p : Program α) : List (Slot α) := Subtree.slotsFrom 0 p.children

theorem mem_slots (p : Program α) (slot : Slot α) :
    slot ∈ p.slots ↔ p.noteAt? slot.path = some slot.note := by
  rw [slots, Subtree.mem_slotsFrom, noteAt?, Subtree.noteAt?, Option.map_eq_some_iff]
  constructor
  · rintro ⟨i, path, t, found, rfl⟩
    exact ⟨t, by rwa [Nat.zero_add], rfl⟩
  · rintro ⟨t, found, note⟩
    obtain ⟨path, _⟩ := slot
    cases path with
    | nil => cases found
    | cons i path => exact ⟨i, path, t, found, by simp_all⟩

theorem slots_ordered (p : Program α) : p.slots.Pairwise fun a b => Before a.path b.path :=
  Subtree.slotsFrom_ordered 0 p.children

theorem slots_nodup (p : Program α) : (p.slots.map Slot.path).Nodup := by
  refine List.pairwise_map.mpr (p.slots_ordered.imp ?_)
  intro a b before same
  exact Before.irrefl b.path (same ▸ before)

/-- In `x => x ? f(x) : null` the parameter is first and the arrow last. -/
example : (Program.mk [Build.expr 1 (Build.arrow ["x"] (Build.conditional (Build.ident "x")
      (Build.callNamed "f" [Build.ident "x"]) Build.null))]).slots.map Slot.path =
    [[0, 0], [0, 1, 0], [0, 1, 1, 0], [0, 1, 1, 1], [0, 1, 1], [0, 1, 2], [0, 1], [0]] := by
  cbv

end Program

end Polytype
