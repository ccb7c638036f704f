import Polytype.Ty

/-!
# Type schemes

A scheme is a type with some of its variables quantified. Without quantified variables it is
monomorphic, and every use of it has one and the same type.
-/

namespace Polytype

structure Scheme where
  vars : List Var
  ty : Ty
  deriving Inhabited

namespace Scheme

def mono (ty : Ty) : Scheme := ⟨[], ty⟩

def isMono (s : Scheme) : Bool := s.vars.isEmpty

/-- The variables of the type that are not quantified. -/
def freeVars (s : Scheme) : VarSet := s.ty.freeVars.minus s.vars

def shift (n : Nat) (s : Scheme) : Scheme := ⟨s.vars.map (·.shift n), s.ty.shift n⟩

end Scheme

end Polytype
