import Polytype.Unify

/-!
# Printing types

Variables are renamed in order of first appearance: plain ones become `T1`, `T2`, and so on, addable
ones `Addable1`, `Addable2`, each kind with a count of its own. Types that are printed by one namer
share its names.
-/

namespace Polytype

/-- The names given so far, by variable number, and how many of each kind. -/
structure Namer where
  names : List (Nat × String) := []
  plain : Nat := 0
  addable : Nat := 0

namespace Namer

/-- Gives a variable its name, a new one at its first appearance. -/
def name (v : Var) (n : Namer) : String × Namer :=
  match n.names.lookup v.id with
  | some text => (text, n)
  | none =>
    if v.addable then
      let text := "Addable" ++ toString (n.addable + 1)
      (text, { n with names := (v.id, text) :: n.names, addable := n.addable + 1 })
    else
      let text := "T" ++ toString (n.plain + 1)
      (text, { n with names := (v.id, text) :: n.names, plain := n.plain + 1 })

end Namer

namespace Ty

mutual
def print : Ty → StateM Namer String
  | .var v => modifyGet (Namer.name v)
  | .prim p => pure p.name
  | .func ps r => do
    let ps ← printParams ps
    let r ← r.print
    return ps ++ " -> " ++ r
  | .pair h t => do
    let h ← h.print
    let t ← t.print
    return "[" ++ h ++ ", " ++ t ++ "]"
  | .list e => do
    let e ← e.print
    return "List<" ++ e ++ ">"

/-- A single parameter stands bare, unless it is a function. -/
def printParams : List Ty → StateM Namer String
  | [] => pure "()"
  | [p] => do
    let text ← p.print
    return if p.isFunc then "(" ++ text ++ ")" else text
  | p :: q :: rest => do
    let p ← p.print
    let q ← q.print
    let rest ← printAll rest
    return "(" ++ ", ".intercalate (p :: q :: rest) ++ ")"

def printAll : List Ty → StateM Namer (List String)
  | [] => pure []
  | t :: ts => do
    let t ← t.print
    let ts ← printAll ts
    return t :: ts
end

/-- A type printed on its own, its variables counted from one. -/
def text (t : Ty) : String := (t.print.run {}).1

end Ty

namespace Scheme

def text (s : Scheme) : String := s.ty.text

end Scheme

namespace UnifyError

def message : UnifyError → String
  | .mismatch e f => "type mismatch: expected " ++ e.text ++ ", found " ++ f.text
  | .arity e f => "arity mismatch: expected " ++ e.text ++ ", found " ++ f.text
  | .occurs v t =>
    "occurs check: cannot construct infinite type " ++ (Ty.var v).text ++ " = " ++ t.text

end UnifyError

end Polytype
