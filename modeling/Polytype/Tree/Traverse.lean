import Polytype.Tree.Basic

/-!
# Walking over the notes of a tree

Both walks visit every node once, a node after all of its children and the children in the order in
which they are written. `traverse` rebuilds the tree in any monad and may change the type of the
notes. `mapAccum` hands a state from note to note and updates each one.
-/

namespace Polytype

variable {α β σ : Type} {m : Type → Type} [Monad m]

/-! ## In any monad -/

namespace Tag

def traverse (f : α → m β) (tag : Tag α) : m (Tag β) := do
  return tag.annotate (← f tag.note)

end Tag

namespace Name

def traverse (f : α → m β) (name : Name α) : m (Name β) := do
  return name.annotate (← f name.note)

def traverseAll (f : α → m β) : List (Name α) → m (List (Name β))
  | [] => pure []
  | n :: ns => do
    let n ← n.traverse f
    let ns ← traverseAll f ns
    return n :: ns

end Name

mutual
def Expr.traverse (f : α → m β) : Expr α → m (Expr β)
  | .number tag x => do return .number (← tag.traverse f) x
  | .text tag s => do return .text (← tag.traverse f) s
  | .boolean tag b => do return .boolean (← tag.traverse f) b
  | .null tag => do return .null (← tag.traverse f)
  | .name n => do return .name (← n.traverse f)
  | .unary tag op e => do
    let e ← e.traverse f
    return .unary (← tag.traverse f) op e
  | .binary tag op l r => do
    let l ← l.traverse f
    let r ← r.traverse f
    return .binary (← tag.traverse f) op l r
  | .conditional tag t c a => do
    let t ← t.traverse f
    let c ← c.traverse f
    let a ← a.traverse f
    return .conditional (← tag.traverse f) t c a
  | .call tag callee args => do
    let callee ← callee.traverse f
    let args ← Expr.traverseAll f args
    return .call (← tag.traverse f) callee args
  | .arrow tag ps body => do
    let ps ← Name.traverseAll f ps
    let body ← body.traverse f
    return .arrow (← tag.traverse f) ps body
  | .arrowBlock tag ps body => do
    let ps ← Name.traverseAll f ps
    let body ← body.traverse f
    return .arrowBlock (← tag.traverse f) ps body
  | .assign tag target e => do
    let target ← target.traverse f
    let e ← e.traverse f
    return .assign (← tag.traverse f) target e

def Expr.traverseAll (f : α → m β) : List (Expr α) → m (List (Expr β))
  | [] => pure []
  | e :: es => do
    let e ← e.traverse f
    let es ← Expr.traverseAll f es
    return e :: es

def Stmt.traverse (f : α → m β) : Stmt α → m (Stmt β)
  | .declare tag keyword name init => do
    let name ← name.traverse f
    let init ← init.traverse f
    return .declare (← tag.traverse f) keyword name init
  | .function tag name ps body => do
    let name ← name.traverse f
    let ps ← Name.traverseAll f ps
    let body ← body.traverse f
    return .function (← tag.traverse f) name ps body
  | .ret tag none => do return .ret (← tag.traverse f) none
  | .ret tag (some e) => do
    let e ← e.traverse f
    return .ret (← tag.traverse f) (some e)
  | .ifElse branch => do return .ifElse (← branch.traverse f)
  | .block b => do return .block (← b.traverse f)
  | .expr e => do return .expr (← e.traverse f)

def Stmt.traverseAll (f : α → m β) : List (Stmt α) → m (List (Stmt β))
  | [] => pure []
  | s :: ss => do
    let s ← s.traverse f
    let ss ← Stmt.traverseAll f ss
    return s :: ss

def Block.traverse (f : α → m β) : Block α → m (Block β)
  | ⟨tag, body⟩ => do
    let body ← Stmt.traverseAll f body
    return ⟨← tag.traverse f, body⟩

def If.traverse (f : α → m β) : If α → m (If β)
  | ⟨tag, test, consequent, alternate⟩ => do
    let test ← test.traverse f
    let consequent ← consequent.traverse f
    let alternate ← alternate.traverse f
    return ⟨← tag.traverse f, test, consequent, alternate⟩

def Alternate.traverse (f : α → m β) : Alternate α → m (Alternate β)
  | .absent => pure .absent
  | .block b => do return .block (← b.traverse f)
  | .elseIf branch => do return .elseIf (← branch.traverse f)
end

namespace Program

def traverse (f : α → m β) (p : Program α) : m (Program β) := do
  return ⟨← Stmt.traverseAll f p.body⟩

def map (f : α → β) (p : Program α) : Program β := Id.run (p.traverse fun note => pure (f note))

end Program

/-! ## With a state -/

namespace Tag

def mapAccum (f : σ → α → σ × α) (s : σ) (tag : Tag α) : σ × Tag α :=
  let (s, note) := f s tag.note
  (s, { tag with note })

end Tag

namespace Name

def mapAccum (f : σ → α → σ × α) (s : σ) (name : Name α) : σ × Name α :=
  let (s, note) := f s name.note
  (s, { name with note })

def mapAccumAll (f : σ → α → σ × α) (s : σ) : List (Name α) → σ × List (Name α)
  | [] => (s, [])
  | n :: ns =>
    let (s, n) := n.mapAccum f s
    let (s, ns) := mapAccumAll f s ns
    (s, n :: ns)

end Name

mutual
def Expr.mapAccum (f : σ → α → σ × α) (s : σ) : Expr α → σ × Expr α
  | .number tag x =>
    let (s, tag) := tag.mapAccum f s
    (s, .number tag x)
  | .text tag t =>
    let (s, tag) := tag.mapAccum f s
    (s, .text tag t)
  | .boolean tag b =>
    let (s, tag) := tag.mapAccum f s
    (s, .boolean tag b)
  | .null tag =>
    let (s, tag) := tag.mapAccum f s
    (s, .null tag)
  | .name n =>
    let (s, n) := n.mapAccum f s
    (s, .name n)
  | .unary tag op e =>
    let (s, e) := e.mapAccum f s
    let (s, tag) := tag.mapAccum f s
    (s, .unary tag op e)
  | .binary tag op l r =>
    let (s, l) := l.mapAccum f s
    let (s, r) := r.mapAccum f s
    let (s, tag) := tag.mapAccum f s
    (s, .binary tag op l r)
  | .conditional tag t c a =>
    let (s, t) := t.mapAccum f s
    let (s, c) := c.mapAccum f s
    let (s, a) := a.mapAccum f s
    let (s, tag) := tag.mapAccum f s
    (s, .conditional tag t c a)
  | .call tag callee args =>
    let (s, callee) := callee.mapAccum f s
    let (s, args) := Expr.mapAccumAll f s args
    let (s, tag) := tag.mapAccum f s
    (s, .call tag callee args)
  | .arrow tag ps body =>
    let (s, ps) := Name.mapAccumAll f s ps
    let (s, body) := body.mapAccum f s
    let (s, tag) := tag.mapAccum f s
    (s, .arrow tag ps body)
  | .arrowBlock tag ps body =>
    let (s, ps) := Name.mapAccumAll f s ps
    let (s, body) := body.mapAccum f s
    let (s, tag) := tag.mapAccum f s
    (s, .arrowBlock tag ps body)
  | .assign tag target e =>
    let (s, target) := target.mapAccum f s
    let (s, e) := e.mapAccum f s
    let (s, tag) := tag.mapAccum f s
    (s, .assign tag target e)

def Expr.mapAccumAll (f : σ → α → σ × α) (s : σ) : List (Expr α) → σ × List (Expr α)
  | [] => (s, [])
  | e :: es =>
    let (s, e) := e.mapAccum f s
    let (s, es) := Expr.mapAccumAll f s es
    (s, e :: es)

def Stmt.mapAccum (f : σ → α → σ × α) (s : σ) : Stmt α → σ × Stmt α
  | .declare tag keyword name init =>
    let (s, name) := name.mapAccum f s
    let (s, init) := init.mapAccum f s
    let (s, tag) := tag.mapAccum f s
    (s, .declare tag keyword name init)
  | .function tag name ps body =>
    let (s, name) := name.mapAccum f s
    let (s, ps) := Name.mapAccumAll f s ps
    let (s, body) := body.mapAccum f s
    let (s, tag) := tag.mapAccum f s
    (s, .function tag name ps body)
  | .ret tag none =>
    let (s, tag) := tag.mapAccum f s
    (s, .ret tag none)
  | .ret tag (some e) =>
    let (s, e) := e.mapAccum f s
    let (s, tag) := tag.mapAccum f s
    (s, .ret tag (some e))
  | .ifElse branch =>
    let (s, branch) := branch.mapAccum f s
    (s, .ifElse branch)
  | .block b =>
    let (s, b) := b.mapAccum f s
    (s, .block b)
  | .expr e =>
    let (s, e) := e.mapAccum f s
    (s, .expr e)

def Stmt.mapAccumAll (f : σ → α → σ × α) (s : σ) : List (Stmt α) → σ × List (Stmt α)
  | [] => (s, [])
  | t :: ts =>
    let (s, t) := t.mapAccum f s
    let (s, ts) := Stmt.mapAccumAll f s ts
    (s, t :: ts)

def Block.mapAccum (f : σ → α → σ × α) (s : σ) : Block α → σ × Block α
  | ⟨tag, body⟩ =>
    let (s, body) := Stmt.mapAccumAll f s body
    let (s, tag) := tag.mapAccum f s
    (s, ⟨tag, body⟩)

def If.mapAccum (f : σ → α → σ × α) (s : σ) : If α → σ × If α
  | ⟨tag, test, consequent, alternate⟩ =>
    let (s, test) := test.mapAccum f s
    let (s, consequent) := consequent.mapAccum f s
    let (s, alternate) := alternate.mapAccum f s
    let (s, tag) := tag.mapAccum f s
    (s, ⟨tag, test, consequent, alternate⟩)

def Alternate.mapAccum (f : σ → α → σ × α) (s : σ) : Alternate α → σ × Alternate α
  | .absent => (s, .absent)
  | .block b =>
    let (s, b) := b.mapAccum f s
    (s, .block b)
  | .elseIf branch =>
    let (s, branch) := branch.mapAccum f s
    (s, .elseIf branch)
end

namespace Program

def mapAccum (f : σ → α → σ × α) (s : σ) (p : Program α) : σ × Program α :=
  let (s, body) := Stmt.mapAccumAll f s p.body
  (s, ⟨body⟩)

end Program

end Polytype
