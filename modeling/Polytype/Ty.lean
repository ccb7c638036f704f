import Polytype.Var

/-!
# Types

A list of `t` is also a pair of a `t` and a list of `t`. Both forms may stand for one type, and
`foldLists` picks the list form wherever it fits.
-/

namespace Polytype

inductive Prim where
  | number
  | string
  | boolean
  | undefined
  deriving DecidableEq, Inhabited

namespace Prim

def name : Prim → String
  | .number => "number"
  | .string => "string"
  | .boolean => "boolean"
  | .undefined => "undefined"

/-- What an addable variable may become. -/
def isAddable : Prim → Bool
  | .number | .string => true
  | .boolean | .undefined => false

end Prim

inductive Ty where
  | var (v : Var)
  | prim (p : Prim)
  | func (params : List Ty) (result : Ty)
  | pair (head tail : Ty)
  | list (element : Ty)
  deriving Inhabited

namespace Ty

abbrev number : Ty := .prim .number
abbrev string : Ty := .prim .string
abbrev boolean : Ty := .prim .boolean
abbrev undefined : Ty := .prim .undefined

def isFunc : Ty → Bool
  | .func _ _ => true
  | _ => false

/-! ## Variables -/

mutual
/-- Every occurrence of a variable, from left to right. -/
def vars : Ty → List Var
  | .var v => [v]
  | .prim _ => []
  | .func ps r => varsAll ps ++ r.vars
  | .pair h t => h.vars ++ t.vars
  | .list e => e.vars

def varsAll : List Ty → List Var
  | [] => []
  | t :: ts => t.vars ++ varsAll ts
end

theorem varsAll_eq (ts : List Ty) : varsAll ts = ts.flatMap vars := by
  induction ts with
  | nil => rfl
  | cons t ts ih => rw [varsAll, ih, List.flatMap_cons]

def freeVars (t : Ty) : VarSet := VarSet.ofList t.vars

def mentions (t : Ty) (v : Var) : Bool := VarSet.has t.vars v

mutual
/-- Puts `f v` in the place of every variable `v`, once. -/
def bind (f : Var → Ty) : Ty → Ty
  | .var v => f v
  | .prim p => .prim p
  | .func ps r => .func (bindAll f ps) (r.bind f)
  | .pair h t => .pair (h.bind f) (t.bind f)
  | .list e => .list (e.bind f)

def bindAll (f : Var → Ty) : List Ty → List Ty
  | [] => []
  | t :: ts => t.bind f :: bindAll f ts
end

@[simp] theorem bindAll_eq (f : Var → Ty) (ts : List Ty) : bindAll f ts = ts.map (bind f) := by
  induction ts with
  | nil => rfl
  | cons t ts ih => rw [bindAll, ih, List.map_cons]

mutual
theorem bind_var : (t : Ty) → t.bind .var = t
  | .var _ | .prim _ => rfl
  | .func ps r => by rw [bind, bindAll_var ps, bind_var r]
  | .pair h t => by rw [bind, bind_var h, bind_var t]
  | .list e => by rw [bind, bind_var e]

theorem bindAll_var : (ts : List Ty) → bindAll .var ts = ts
  | [] => rfl
  | t :: ts => by rw [bindAll, bind_var t, bindAll_var ts]
end

mutual
theorem bind_bind (f g : Var → Ty) : (t : Ty) → (t.bind f).bind g = t.bind fun v => (f v).bind g
  | .var _ | .prim _ => rfl
  | .func ps r => by simp only [bind, bindAll_bindAll f g ps, bind_bind f g r]
  | .pair h t => by simp only [bind, bind_bind f g h, bind_bind f g t]
  | .list e => by simp only [bind, bind_bind f g e]

theorem bindAll_bindAll (f g : Var → Ty) :
    (ts : List Ty) → bindAll g (bindAll f ts) = bindAll (fun v => (f v).bind g) ts
  | [] => rfl
  | t :: ts => by simp only [bindAll, bind_bind f g t, bindAll_bindAll f g ts]
end

mutual
/-- Only the variables that occur matter. -/
theorem bind_congr {f g : Var → Ty} : (t : Ty) → (∀ v ∈ t.vars, f v = g v) → t.bind f = t.bind g
  | .var v, h => h v (List.mem_singleton.mpr rfl)
  | .prim _, _ => rfl
  | .func ps r, h => by
    simp only [vars, List.mem_append] at h
    rw [bind, bind, bindAll_congr ps fun v m => h v (.inl m), bind_congr r fun v m => h v (.inr m)]
  | .pair a t, h => by
    simp only [vars, List.mem_append] at h
    rw [bind, bind, bind_congr a fun v m => h v (.inl m), bind_congr t fun v m => h v (.inr m)]
  | .list e, h => by rw [bind, bind, bind_congr e h]

theorem bindAll_congr {f g : Var → Ty} :
    (ts : List Ty) → (∀ v ∈ varsAll ts, f v = g v) → bindAll f ts = bindAll g ts
  | [], _ => rfl
  | t :: ts, h => by
    simp only [varsAll, List.mem_append] at h
    rw [bindAll, bindAll, bind_congr t fun v m => h v (.inl m),
      bindAll_congr ts fun v m => h v (.inr m)]
end

mutual
theorem vars_bind (f : Var → Ty) : (t : Ty) → (t.bind f).vars = t.vars.flatMap fun v => (f v).vars
  | .var v => by simp [bind, vars]
  | .prim _ => rfl
  | .func ps r => by
    simp only [bind, vars, varsAll_bindAll f ps, vars_bind f r, List.flatMap_append]
  | .pair h t => by simp only [bind, vars, vars_bind f h, vars_bind f t, List.flatMap_append]
  | .list e => by simp only [bind, vars, vars_bind f e]

theorem varsAll_bindAll (f : Var → Ty) :
    (ts : List Ty) → varsAll (bindAll f ts) = (varsAll ts).flatMap fun v => (f v).vars
  | [] => rfl
  | t :: ts => by
    simp only [bindAll, varsAll, vars_bind f t, varsAll_bindAll f ts, List.flatMap_append]
end

/-- Every variable `n` numbers further on. -/
def shift (n : Nat) (t : Ty) : Ty := t.bind fun v => .var (v.shift n)

/-! ## Shape -/

mutual
/-- Equality that looks at the numbers of variables and not at their flags. -/
def same : Ty → Ty → Bool
  | .var v, .var w => v.same w
  | .prim p, .prim q => p == q
  | .func ps r, .func qs s => sameAll ps qs && r.same s
  | .pair h t, .pair i u => h.same i && t.same u
  | .list e, .list f => e.same f
  | _, _ => false

def sameAll : List Ty → List Ty → Bool
  | [], [] => true
  | t :: ts, u :: us => t.same u && sameAll ts us
  | _, _ => false
end

mutual
@[simp] theorem same_self : (t : Ty) → t.same t = true
  | .var _ => by simp [same]
  | .prim _ => by simp [same]
  | .func ps r => by simp [same, sameAll_self ps, same_self r]
  | .pair h t => by simp [same, same_self h, same_self t]
  | .list e => by simp [same, same_self e]

theorem sameAll_self : (ts : List Ty) → sameAll ts ts = true
  | [] => rfl
  | t :: ts => by simp [sameAll, same_self t, sameAll_self ts]
end

mutual
/-- The length of the longest branch. A variable and a primitive have depth 1. -/
def depth : Ty → Nat
  | .var _ => 1
  | .prim _ => 1
  | .func ps r => 1 + max (depthAll ps) r.depth
  | .pair h t => 1 + max h.depth t.depth
  | .list e => 1 + e.depth

def depthAll : List Ty → Nat
  | [] => 0
  | t :: ts => max t.depth (depthAll ts)
end

/-! ## Lists as pairs -/

/-- The pair of a head and a tail, read as a list when the tail is a list of the head's type. -/
def cons (head : Ty) : Ty → Ty
  | .list e => if e.same head then .list e else .pair head (.list e)
  | tail => .pair head tail

mutual
/-- Writes every pair of `t` and list of `t` as the list, innermost first. -/
def foldLists : Ty → Ty
  | .var v => .var v
  | .prim p => .prim p
  | .func ps r => .func (foldListsAll ps) r.foldLists
  | .pair h t => cons h.foldLists t.foldLists
  | .list e => .list e.foldLists

def foldListsAll : List Ty → List Ty
  | [] => []
  | t :: ts => t.foldLists :: foldListsAll ts
end

end Ty

end Polytype
