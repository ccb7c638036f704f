import Polytype.Subst

/-!
# Type environments

An environment is a stack of scopes over one outermost scope, which never goes away. Names are
looked up from the innermost scope outwards, and binding and removing act on the innermost scope
alone.
-/

namespace Polytype

/-- Names and their schemes, one entry per name. -/
abbrev Scope := List (String × Scheme)

namespace Scope

def erase (name : String) (scope : Scope) : Scope := scope.filter fun entry => entry.1 != name

def bind (name : String) (scheme : Scheme) (scope : Scope) : Scope :=
  (name, scheme) :: erase name scope

/-- Of several entries for a name, the last one counts. -/
def ofList (entries : List (String × Scheme)) : Scope :=
  entries.foldl (fun scope (name, scheme) => bind name scheme scope) []

@[simp] theorem lookup_erase (name other : String) (scope : Scope) :
    List.lookup other (erase name scope) =
      if other = name then none else List.lookup other scope := by
  induction scope with
  | nil => simp [erase]
  | cons entry rest ih =>
    obtain ⟨key, scheme⟩ := entry
    have step : erase name ((key, scheme) :: rest) =
        if key = name then erase name rest else (key, scheme) :: erase name rest := by
      by_cases h : key = name <;> simp [erase, h]
    rw [step]
    by_cases hk : key = name
    · rw [if_pos hk, ih]
      by_cases ho : other = name
      · rw [if_pos ho, if_pos ho]
      · simp [hk, ho, List.lookup_cons, beq_false_of_ne ho]
    · rw [if_neg hk]
      by_cases ho : other = key
      · simp [hk, ho]
      · simp [ih, List.lookup_cons, beq_false_of_ne ho]

@[simp] theorem lookup_bind (name other : String) (scheme : Scheme) (scope : Scope) :
    List.lookup other (bind name scheme scope) =
      if other = name then some scheme else List.lookup other scope := by
  by_cases h : other = name
  · simp [bind, h]
  · simp [bind, List.lookup_cons, h, beq_false_of_ne h]

end Scope

/-- An outermost scope and the scopes inside it, innermost first. -/
structure Env where
  outermost : Scope := []
  inner : List Scope := []
  deriving Inhabited

namespace Env

def scopes (env : Env) : List Scope := env.inner ++ [env.outermost]

def innermost (env : Env) : Scope := env.inner.headD env.outermost

/-- Changes the innermost scope. -/
def modify (f : Scope → Scope) (env : Env) : Env :=
  match env.inner with
  | [] => { env with outermost := f env.outermost }
  | scope :: rest => { env with inner := f scope :: rest }

def push (env : Env) : Env := { env with inner := [] :: env.inner }

/-- Drops the innermost scope, unless it is the outermost one. -/
def pop (env : Env) : Env := { env with inner := env.inner.tail }

def lookup (env : Env) (name : String) : Option Scheme :=
  env.scopes.findSome? (List.lookup name)

def lookupLocal (env : Env) (name : String) : Option Scheme := env.innermost.lookup name

def bind (name : String) (scheme : Scheme) (env : Env) : Env := env.modify (Scope.bind name scheme)

def erase (name : String) (env : Env) : Env := env.modify (Scope.erase name)

@[simp] theorem pop_push (env : Env) : env.push.pop = env := rfl

@[simp] theorem lookup_push (env : Env) (name : String) : env.push.lookup name = env.lookup name :=
  rfl

@[simp] theorem lookupLocal_push (env : Env) (name : String) : env.push.lookupLocal name = none :=
  rfl

theorem lookup_bind (env : Env) (name other : String) (scheme : Scheme) :
    (env.bind name scheme).lookup other =
      if other = name then some scheme else env.lookup other := by
  obtain ⟨outermost, inner⟩ := env
  cases inner <;> by_cases h : other = name <;>
    simp [lookup, bind, modify, scopes, List.findSome?_cons, h]

theorem lookupLocal_bind (env : Env) (name other : String) (scheme : Scheme) :
    (env.bind name scheme).lookupLocal other =
      if other = name then some scheme else env.lookupLocal other := by
  obtain ⟨outermost, inner⟩ := env
  cases inner <;> simp [lookupLocal, innermost, bind, modify]

/-- The free variables of all schemes under `s`, hidden bindings included. -/
def freeVars (s : Subst) (env : Env) : VarSet :=
  env.scopes.flatten.foldl
    (fun vars entry => vars.union (s.applyScheme entry.2).freeVars) []

end Env

end Polytype
