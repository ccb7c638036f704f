import Polytype.Subst

/-!
# Unification

`unify a b` looks for a substitution that makes `a` and `b` the same type, a list and a pair of its
element and the list counting as one. It gives the bindings found, or the first conflict met from
left to right, and nothing in between.

Two moves are special to lists. A list meets a pair by meeting its head with the element and its
tail with the list. A variable that recurs in the tail of a pair becomes the list of the pair's
head, if the pair then reads as that list.
-/

namespace Polytype

inductive UnifyError where
  | mismatch (expected found : Ty)
  /-- Functions of different numbers of parameters. -/
  | arity (expected found : Ty)
  /-- The variable would have to contain itself. -/
  | occurs (v : Var) (ty : Ty)
  deriving Inhabited

namespace Unify

abbrev Outcome := Except UnifyError Subst

/-- Unifies two rows of types from left to right. What is found is applied to the types still to
come. -/
def rows (unify : Ty → Ty → Outcome) : Subst → List Ty → List Ty → Outcome
  | s, l :: ls, r :: rs => do
    let found ← unify (s.apply l) (s.apply r)
    rows unify (s.compose found) ls rs
  | s, _, _ => .ok s

/-- Solves `v` against a pair whose tail, and not its head, mentions `v`: a list of the head, if the
pair is one. -/
def fixpoint (unify : Ty → Ty → Outcome) (v : Var) (head tail : Ty) : Outcome :=
  let first := Subst.single v (.list head)
  match unify (.list head) (first.apply (.pair head tail)) with
  | .ok rest => .ok (first.compose rest)
  | .error _ => .error (.occurs v (.pair head tail))

/-- Solves a variable against a type that is no variable. -/
def bindVar (unify : Ty → Ty → Outcome) (v : Var) (t : Ty) : Outcome :=
  if v.addable then
    match t with
    | .prim p =>
      if p.isAddable then .ok (.single v (.prim p)) else .error (.mismatch (.var v) (.prim p))
    | t => .error (.mismatch (.var v) t)
  else if !t.mentions v then .ok (.single v t)
  else
    match t with
    | .pair h u => if h.mentions v then .error (.occurs v t) else fixpoint unify v h u
    | t => .error (.occurs v t)

/-- Of two variables the plain one is bound, so that an addable one keeps its limits. -/
def bindVars (v w : Var) : Outcome :=
  if v.same w then .ok .empty
  else if v.addable && !w.addable then .ok (.single w (.var v))
  else .ok (.single v (.var w))

/-- One level of unification. `unify` settles the parts. -/
def step (unify : Ty → Ty → Outcome) : Ty → Ty → Outcome
  | .var v, .var w => bindVars v w
  | .var v, t => bindVar unify v t
  | t, .var v => bindVar unify v t
  | .prim p, .prim q =>
    if p == q then .ok .empty else .error (.mismatch (.prim p) (.prim q))
  | .func ps r, .func qs s =>
    if ps.length == qs.length then rows unify .empty (ps ++ [r]) (qs ++ [s])
    else .error (.arity (.func ps r) (.func qs s))
  | .pair h t, .pair i u => rows unify .empty [h, t] [i, u]
  | .list e, .list f => unify e f
  | .list e, .pair h t => rows unify .empty [e, .list e] [h, t]
  | .pair h t, .list e => rows unify .empty [e, .list e] [h, t]
  | a, b => .error (.mismatch a b)

/-- Unification to a nesting of at most `n` levels. -/
def within : Nat → Ty → Ty → Outcome
  | 0, a, b => .error (.mismatch a b)
  | n + 1, a, b => step (within n) a b

/-- Levels that `a` and `b` can need. A part is less deep than the whole, and binding `k` variables
makes it at most `2 ^ k` times as deep while `k` variables are gone. -/
def levels (a b : Ty) : Nat :=
  (a.depth + b.depth) * Nat.pow 4 (VarSet.ofList (a.vars ++ b.vars)).length + 1

end Unify

def unify (a b : Ty) : Except UnifyError Subst := Unify.within (Unify.levels a b) a b

end Polytype
