import Polytype.Diagnostic
import Polytype.Env
import Polytype.Prelude

/-!
# Inference contexts

A context holds all that an inference run changes: the supply of variables, what has been learnt
about them, the environment and the errors so far. It can be used for several programs. Variables
are never handed out twice, and errors add up until they are taken.
-/

namespace Polytype

structure Context where
  chapter : Chapter
  /-- The number of the next variable to hand out. -/
  nextVar : Nat
  subst : Subst
  env : Env
  /-- In the order of reporting. -/
  errors : List TypeError

namespace Context

/-- A context that knows the prelude of its chapter and nothing else. -/
def new (chapter : Chapter) : Context :=
  let (entries, nextVar) := Prelude.numbered 0 (Prelude.entries chapter)
  { chapter, nextVar, subst := .empty, env := { outermost := Scope.ofList entries }, errors := [] }

instance : Inhabited Context := ⟨new default⟩

/-! ## Variables and schemes -/

def freshVar (addable : Bool) (c : Context) : Var × Context :=
  (⟨c.nextVar, addable⟩, { c with nextVar := c.nextVar + 1 })

/-- A plain variable as a type. -/
def freshTy (c : Context) : Ty × Context :=
  let (v, c) := c.freshVar false
  (.var v, c)

/-- A fresh variable for each of `vars`, with the same flag. -/
def freshen (c : Context) : List Var → Subst → Subst × Context
  | [], s => (s, c)
  | v :: vs, s =>
    let (w, c) := c.freshVar v.addable
    freshen c vs (s.insert v (.var w))

/-- The scheme's type with fresh variables in place of the quantified ones. -/
def instantiate (scheme : Scheme) (c : Context) : Ty × Context :=
  if scheme.isMono then (scheme.ty, c)
  else
    let (s, c) := c.freshen scheme.vars .empty
    (s.apply scheme.ty, c)

def apply (c : Context) (t : Ty) : Ty := c.subst.apply t

/-- The type as far as it is known, with lists in list form. -/
def resolve (c : Context) (t : Ty) : Ty := (c.apply t).foldLists

/-- The variables that some binding of the environment mentions. -/
def visible (c : Context) : VarSet := c.env.freeVars c.subst

/-- Quantifies the variables that are not visible in the environment. -/
def generalize (c : Context) (t : Ty) : Scheme :=
  let ty := c.resolve t
  ⟨ty.freeVars.minus c.visible, ty⟩

/-! ## Unifying -/

/-- Makes `a` and `b` the same type from here on. -/
def unify (c : Context) (a b : Ty) : Except UnifyError Context := do
  let found ← Polytype.unify (c.apply a) (c.apply b)
  return { c with subst := c.subst.compose found }

/-- Makes `a` and `b` the same type, if that binds no variable visible in the environment. -/
def unifyUnseen? (c : Context) (a b : Ty) : Option Context :=
  match Polytype.unify (c.apply a) (c.apply b) with
  | .error _ => none
  | .ok found =>
    if found.domain.any (fun v => c.visible.has v) then none
    else some { c with subst := c.subst.compose found }

/-! ## Errors -/

def report (problem : Problem) (pos : Position) (c : Context) : Context :=
  { c with errors := c.errors ++ [⟨problem, pos⟩] }

def takeErrors (c : Context) : List TypeError × Context := (c.errors, { c with errors := [] })

end Context

end Polytype
