import Polytype.Proofs.Prelude
import Polytype.Proofs.Walk.Contexts

/-!
# Names and their scopes

An identifier, a `null` and the target of an assignment are uses of a name. `uses` lists them in the
order in which the walk meets them, each with the names in scope there: the parameters of every
function around it, all that the blocks around it declare, before the use or after it, and what was
in scope outside the program.

The names that an environment binds are a scope (`Env.Binds`). What a declaration does to a name
that is bound already does not change them.
-/

namespace Polytype

variable {α β : Type}

structure Use (α : Type) extends Tag α where
  name : String
  scope : List String

namespace Use

/-- The name is not in scope. -/
abbrev Unbound (u : Use α) : Prop := u.name ∉ u.scope

def mapNote (f : α → β) (u : Use α) : Use β := ⟨u.toTag.mapNote f, u.name, u.scope⟩

end Use

mutual
def Expr.uses (scope : List String) : Expr α → List (Use α)
  | .number _ _ | .text _ _ | .boolean _ _ => []
  | .null tag => [⟨tag, Prelude.null, scope⟩]
  | .name n => [⟨n.toTag, n.text, scope⟩]
  | .unary _ _ e => e.uses scope
  | .binary _ _ l r => l.uses scope ++ r.uses scope
  | .conditional _ t c a => t.uses scope ++ c.uses scope ++ a.uses scope
  | .call _ f args => f.uses scope ++ Expr.usesAll scope args
  | .arrow _ ps body => body.uses (ps.map (·.text) ++ scope)
  | .arrowBlock _ ps body => body.uses (ps.map (·.text) ++ scope)
  -- The target is looked up after the value.
  | .assign _ target e => e.uses scope ++ [⟨target.toTag, target.text, scope⟩]

def Expr.usesAll (scope : List String) : List (Expr α) → List (Use α)
  | [] => []
  | e :: es => e.uses scope ++ Expr.usesAll scope es

def Stmt.uses (scope : List String) : Stmt α → List (Use α)
  | .declare _ _ _ e => e.uses scope
  | .function _ _ ps body => body.uses (ps.map (·.text) ++ scope)
  | .ret _ none => []
  | .ret _ (some e) => e.uses scope
  | .ifElse b => b.uses scope
  | .block b => b.uses scope
  | .expr e => e.uses scope

def Stmt.usesAll (scope : List String) : List (Stmt α) → List (Use α)
  | [] => []
  | s :: ss => s.uses scope ++ Stmt.usesAll scope ss

def Block.uses (scope : List String) : Block α → List (Use α)
  | ⟨_, body⟩ => Stmt.usesAll (declaredNames body ++ scope) body

def If.uses (scope : List String) : If α → List (Use α)
  | ⟨_, test, consequent, alternate⟩ =>
    test.uses scope ++ consequent.uses scope ++ alternate.uses scope

def Alternate.uses (scope : List String) : Alternate α → List (Use α)
  | .absent => []
  | .block b => b.uses scope
  | .elseIf b => b.uses scope
end

def Program.uses (scope : List String) (p : Program α) : List (Use α) :=
  Stmt.usesAll (declaredNames p.body ++ scope) p.body

theorem Expr.usesAll_eq (scope : List String) (es : List (Expr α)) :
    usesAll scope es = es.flatMap (uses scope) := by
  induction es with
  | nil => rfl
  | cons e es ih => rw [usesAll, ih, List.flatMap_cons]

theorem Stmt.usesAll_eq (scope : List String) (ss : List (Stmt α)) :
    usesAll scope ss = ss.flatMap (uses scope) := by
  induction ss with
  | nil => rfl
  | cons s ss ih => rw [usesAll, ih, List.flatMap_cons]

theorem uses_mapNotes (f : α → β) : Hereditary
    (fun e => ∀ scope, (e.mapNotes f).uses scope = (e.uses scope).map (Use.mapNote f))
    (fun s => ∀ scope, (s.mapNotes f).uses scope = (s.uses scope).map (Use.mapNote f))
    (fun b => ∀ scope, (b.mapNotes f).uses scope = (b.uses scope).map (Use.mapNote f))
    (fun b => ∀ scope, (b.mapNotes f).uses scope = (b.uses scope).map (Use.mapNote f))
    (fun a => ∀ scope, (a.mapNotes f).uses scope = (a.uses scope).map (Use.mapNote f)) := by
  constructor
  case call =>
    intro tag callee args callee_ih args_ih scope
    simp only [Expr.mapNotes_call, Expr.uses, Expr.usesAll_eq, callee_ih, List.map_append,
      List.map_flatMap, flatMap_map_congr fun e he => args_ih e he scope]
  case body =>
    intro tag body ih scope
    simp only [Block.mapNotes_mk, Block.uses, Stmt.usesAll_eq, declaredNames_map, List.map_flatMap,
      flatMap_map_congr fun s hs => ih s hs _]
  all_goals
    intros
    simp_all [Expr.uses, Stmt.uses, If.uses, Alternate.uses, Use.mapNote, Name.mapNote,
      Name.annotate, Tag.mapNote, Tag.annotate, Function.comp_def]

theorem Program.uses_map (f : α → β) (scope : List String) (p : Program α) :
    (p.map f).uses scope = (p.uses scope).map (Use.mapNote f) := by
  rw [map_eq, uses, uses, declaredNames_map, Stmt.usesAll_eq, Stmt.usesAll_eq, List.map_flatMap]
  exact flatMap_map_congr fun s _ => (uses_mapNotes f).forStmt s _

/-! ## The names of an environment -/

/-- The names that a program of the chapter can use without declaring them. -/
def Prelude.names (chapter : Chapter) : List String := (entries chapter).map (·.1)

/-- The environment binds the names of the scope and no others, and all operators are among them. -/
structure Env.Binds (env : Env) (scope : List String) : Prop where
  lookup (x : String) : (env.lookup x).isSome ↔ x ∈ scope
  operators : Prelude.operators.map (·.1) ⊆ scope

namespace Env.Binds

variable {env : Env} {scope : List String}

theorem push (h : env.Binds scope) : env.push.Binds scope := ⟨h.lookup, h.operators⟩

theorem rebind (h : env.Binds scope) {x : String} (hx : x ∈ scope) (σ : Scheme) :
    (env.bind x σ).Binds scope := by
  refine ⟨fun y => ?_, h.operators⟩
  rw [lookup_bind]
  split
  next same => simp [same, hx]
  next => exact h.lookup y

theorem bindMonos (h : env.Binds scope) (xs : List String) {ts : List Ty}
    (length : ts.length = xs.length) : (env.bindMonos xs ts).Binds (xs ++ scope) := by
  refine ⟨fun y => ?_, List.Subset.trans h.operators (List.subset_append_right _ _)⟩
  induction xs generalizing env ts scope with
  | nil =>
    rw [List.length_eq_zero_iff.mp length]
    exact h.lookup y
  | cons x xs ih =>
    cases ts with
    | nil => cases length
    | cons t ts =>
      have one : (env.bind x (.mono t)).Binds (x :: scope) := by
        refine ⟨fun z => ?_, List.Subset.trans h.operators (List.subset_cons_self _ _)⟩
        rw [lookup_bind]
        split
        next same => simp [same]
        next other => simp [h.lookup, other]
      rw [Env.bindMonos, ih one (Nat.succ.inj length)]
      simp only [List.mem_append, List.mem_cons]
      tauto

theorem bindFresh {c : Context} (h : c.env.Binds scope) (xs : List String) :
    (c.bindFresh xs).env.Binds (xs ++ scope) := h.bindMonos xs (length_freshTys _ _)

end Env.Binds

theorem Scope.isSome_lookup_ofList (es : List (String × Scheme)) (x : String) :
    (List.lookup x (ofList es)).isSome ↔ x ∈ es.map (·.1) := by
  have fold (scope : Scope) :
      (List.lookup x (es.foldl (fun scope entry => bind entry.1 entry.2 scope) scope)).isSome ↔
        (List.lookup x scope).isSome ∨ x ∈ es.map (·.1) := by
    induction es generalizing scope with
    | nil => simp
    | cons e es ih =>
      rw [List.foldl_cons, ih, lookup_bind, List.map_cons, List.mem_cons]
      split
      next same => simp [same]
      next other => simp [other]
  exact (fold []).trans (or_iff_right (by simp))

theorem Prelude.map_fst_numbered (n : Nat) (es : List Entry) :
    (numbered n es).1.map (·.1) = es.map (·.1) := by
  induction es generalizing n with
  | nil => rfl
  | cons e es ih => exact congrArg (e.1 :: ·) (ih _)

theorem Env.Binds.new (chapter : Chapter) :
    (Context.new chapter).env.Binds (Prelude.names chapter) where
  lookup x := by
    have outermost : (Context.new chapter).env.lookup x =
        List.lookup x (Scope.ofList (Prelude.numbered 0 (Prelude.entries chapter)).1) := by
      simp [Env.lookup, Env.scopes, Context.new]
    rw [outermost, Scope.isSome_lookup_ofList, Prelude.map_fst_numbered, Prelude.names]
  operators := by
    unfold Prelude.names Prelude.entries
    simp only [List.map_append, List.append_assoc]
    exact List.subset_append_left _ _

end Polytype
