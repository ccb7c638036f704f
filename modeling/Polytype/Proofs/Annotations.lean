import Polytype.Proofs.Walk.Findings
import Polytype.Proofs.Walk.Upkeep

/-!
# Annotations and errors

After an analysis every node has a verdict, and the verdicts agree with the errors
(`analyse_explained`): a node is untypable exactly when an error was found at it or below it. Two
kinds of nodes are judged in another way. A declared name has the verdict of its declaration, and a
parameter is always typed.

A `Family` is a node with all nodes below it, so what is said of families relates a node to its
descendants, and a descendant to its ancestors.
-/

namespace Polytype

variable {α : Type} {kind : NodeKind} {scope : List String}

/-! ## Families -/

structure Family (α : Type) where
  root : Node α
  below : List (Node α)

mutual
def Expr.families : Expr α → List (Family α)
  | .number tag _ => [⟨tag.node .number, []⟩]
  | .text tag _ => [⟨tag.node .text, []⟩]
  | .boolean tag _ => [⟨tag.node .boolean, []⟩]
  | .null tag => [⟨tag.node .null, []⟩]
  | .name n => [⟨n.node .ident, []⟩]
  | .unary tag _ e => ⟨tag.node .unary, e.nodes⟩ :: e.families
  | .binary tag _ l r => ⟨tag.node .binary, l.nodes ++ r.nodes⟩ :: (l.families ++ r.families)
  | .conditional tag t c a =>
    ⟨tag.node .conditional, t.nodes ++ c.nodes ++ a.nodes⟩ ::
      (t.families ++ c.families ++ a.families)
  | .call tag f args =>
    ⟨tag.node .call, f.nodes ++ Expr.nodesAll args⟩ :: (f.families ++ Expr.familiesAll args)
  | .arrow tag ps body =>
    ⟨tag.node .lambda, ps.map (·.node .param) ++ body.nodes⟩ ::
      (ps.map (fun p => ⟨p.node .param, []⟩) ++ body.families)
  | .arrowBlock tag ps body =>
    ⟨tag.node .lambda, ps.map (·.node .param) ++ body.nodes⟩ ::
      (ps.map (fun p => ⟨p.node .param, []⟩) ++ body.families)
  | .assign tag target e =>
    ⟨tag.node .assign, target.node .name :: e.nodes⟩ :: ⟨target.node .name, []⟩ :: e.families

def Expr.familiesAll : List (Expr α) → List (Family α)
  | [] => []
  | e :: es => e.families ++ Expr.familiesAll es

def Stmt.families : Stmt α → List (Family α)
  | .declare tag keyword n e =>
    ⟨tag.node (.declaration keyword), n.node .name :: e.nodes⟩ :: ⟨n.node .name, []⟩ :: e.families
  | .function tag n ps body =>
    ⟨tag.node .function, n.node .name :: (ps.map (·.node .param) ++ body.nodes)⟩ ::
      ⟨n.node .name, []⟩ :: (ps.map (fun p => ⟨p.node .param, []⟩) ++ body.families)
  | .ret tag none => [⟨tag.node .ret, []⟩]
  | .ret tag (some e) => ⟨tag.node .ret, e.nodes⟩ :: e.families
  | .ifElse b => b.families
  | .block b => b.families
  | .expr e => e.families

def Stmt.familiesAll : List (Stmt α) → List (Family α)
  | [] => []
  | s :: ss => s.families ++ Stmt.familiesAll ss

def Block.families : Block α → List (Family α)
  | ⟨tag, body⟩ => ⟨tag.node .block, Stmt.nodesAll body⟩ :: Stmt.familiesAll body

def If.families : If α → List (Family α)
  | ⟨tag, test, consequent, alternate⟩ =>
    ⟨tag.node .branch, test.nodes ++ consequent.nodes ++ alternate.nodes⟩ ::
      (test.families ++ consequent.families ++ alternate.families)

def Alternate.families : Alternate α → List (Family α)
  | .absent => []
  | .block b => b.families
  | .elseIf b => b.families
end

def Program.families (p : Program α) : List (Family α) := Stmt.familiesAll p.body

/-- The nodes that declare a name, which is the first node below them. -/
def NodeKind.declares : NodeKind → Bool
  | .declaration _ | .function => true
  | _ => false

structure Family.Fits (f : Family Account) : Prop where
  decided : f.root.note.verdict = .untypable ∨ ∃ ty, f.root.note.verdict = .typed ty
  own : ∀ e ∈ f.root.note.own, e.At f.root.kind f.root.pos ∧ f.root.note.verdict = .untypable
  param : f.root.kind = .param → ∃ ty, f.root.note.verdict = .typed ty
  declares : f.root.kind.declares → ∃ name ∈ f.below.head?,
    name.kind = .name ∧ name.note.verdict = f.root.note.verdict
  ancestor : ∀ n ∈ f.below, n.note.verdict = .untypable → f.root.note.verdict = .untypable
  judged : f.root.kind ≠ .name →
    (f.root.note.verdict = .untypable ↔ ∃ n ∈ f.root :: f.below, n.note.own ≠ [])

theorem Tag.Settles.typed {tag : Tag Account} {errors : List TypeError} (h : tag.Settles kind errors)
    (none : errors = []) : tag.note.verdict ≠ .untypable := by
  obtain ⟨t, ht⟩ := Verdict.judges_nil.mp (none ▸ h.verdict)
  simp [ht]

theorem Tag.Names.typed {tag : Tag Account} {name : String} (h : tag.Names scope name)
    (none : tag.note.own = []) : tag.note.verdict ≠ .untypable := by
  obtain ⟨t, ht⟩ := Verdict.judges_nil.mp (none ▸ h.verdict)
  simp [ht]

theorem Tag.Names.settles {tag : Tag Account} {name : String} (h : tag.Names scope name)
    (use : kind.isUse = true) : tag.Settles kind tag.note.own := by
  refine ⟨h.verdict, fun e he => ?_⟩
  rw [h.own, missing] at he
  split at he
  · cases he
  · rw [List.mem_singleton.mp he]
    exact ⟨rfl, use⟩

theorem Tag.Settles.own_param {tag : Tag Account} {errors : List TypeError}
    (h : tag.Settles .param errors) : tag.note.own = [] := h.own_unchecked rfl rfl

namespace Family.Fits

theorem of_settles {tag : Tag Account} {errors : List TypeError} {below : List (Node Account)}
    (h : tag.Settles kind errors)
    (all : errors.Perm ((tag.node kind :: below).flatMap (·.note.own)))
    (typed : errors = [] → ∀ n ∈ tag.node kind :: below, n.note.verdict ≠ .untypable)
    (param : kind = .param → errors = [])
    (declares : kind.declares → ∃ name ∈ below.head?,
      name.kind = .name ∧ name.note.verdict = tag.note.verdict) :
    Fits ⟨tag.node kind, below⟩ := by
  have found : errors ≠ [] ↔ ∃ n ∈ tag.node kind :: below, n.note.own ≠ [] := by
    rw [ne_eq, ← List.isEmpty_iff, all.isEmpty_eq, List.isEmpty_iff, List.flatMap_eq_nil_iff]
    simp only [not_forall, exists_prop, ne_eq]
  have own : ∀ e ∈ tag.note.own, e ∈ errors := fun e he =>
    all.mem_iff.mpr (List.mem_flatMap.mpr ⟨_, List.mem_cons_self, he⟩)
  rcases h.verdict with ⟨none, t, ht⟩ | ⟨some, ht⟩
  · refine ⟨.inr ⟨t, ht⟩, fun e he => ?_, fun _ => ⟨t, ht⟩, declares, fun n hn bad => ?_, fun _ => ?_⟩
    · exact absurd (own e he) (by simp [none])
    · exact absurd bad (typed none n (List.mem_cons_of_mem _ hn))
    · rw [← found]
      exact iff_of_false (typed none _ List.mem_cons_self) (not_not.mpr none)
  · refine ⟨.inl ht, fun e he => ⟨h.own e he, ht⟩, fun is => absurd (param is) some, declares,
      fun _ _ _ => ht, fun _ => ?_⟩
    rw [← found]
    exact iff_of_true ht some

theorem inner {tag : Tag Account} {errors : List TypeError} {below : List (Node Account)}
    (h : tag.Settles kind errors)
    (all : errors.Perm ((tag.node kind :: below).flatMap (·.note.own)))
    (typed : errors = [] → ∀ n ∈ tag.node kind :: below, n.note.verdict ≠ .untypable)
    (param : kind ≠ .param) (declares : kind.declares = false) : Fits ⟨tag.node kind, below⟩ :=
  of_settles h all typed (fun is => absurd is param) (by simp [declares])

theorem leaf {tag : Tag Account} (h : tag.Settles kind tag.note.own) (declares : kind.declares = false)
    (param : kind = .param → tag.note.own = []) : Fits ⟨tag.node kind, []⟩ := by
  refine of_settles h (by simp [Tag.node]) (fun none => ?_) param (by simp [declares])
  exact List.forall_mem_singleton.mpr (h.typed none)

theorem params {ps : List (Name Account)} (h : ∀ p ∈ ps, p.Settles .param []) :
    ∀ f ∈ ps.map (fun p => (⟨p.node .param, []⟩ : Family Account)), f.Fits := by
  refine List.forall_mem_map.mpr fun p hp => ?_
  have none := (h p hp).own_param
  exact leaf (none ▸ h p hp) rfl fun _ => none

end Family.Fits

end Polytype
