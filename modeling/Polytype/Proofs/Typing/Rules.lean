import Polytype.Proofs.Notes
import Polytype.Proofs.Steps

/-!
# The type system

What it means for a program to be well typed, said without inference. Types count up to folding of
lists (`Ty.Equiv`). An environment gives schemes to names, and a scheme can be used at any of its
instances.

A block gives every name that it declares a type for the uses before the declaration. The
declaration is then checked with the name at one type `M`, its own, and for what comes after it the
name has `M` for all choices of the variables that the rest of the environment leaves open. With
`single`, the type before the declaration has to be `M` too. Without it, an instance will do.

Trees carry notes, and `noted` says which notes agree with a type. So a typed tree is one with notes
that are the types of its nodes. Notes inside a declaration go with the type that its name has
before it; the check at `M` puts nothing on them.
-/

namespace Polytype

/-! ## Schemes and environments -/

namespace Scheme

/-- Addable variables of the scheme are only replaced by what can be added. -/
def Admits (σ : Scheme) (ι : Var → Ty) : Prop := ∀ v ∈ σ.vars, v.addable = true → (ι v).IsAddable

/-- The scheme's type with `ι` for the quantified variables and `θ` for the free ones. -/
def fill (σ : Scheme) (ι θ : Var → Ty) : Ty := σ.ty.bind fun v => if v ∈ σ.vars then ι v else θ v

def Instance (σ : Scheme) (t : Ty) : Prop := ∃ ι, σ.Admits ι ∧ (σ.fill ι .var).Equiv t

theorem Instance.congr {σ : Scheme} {t u : Ty} (h : σ.Instance t) (same : t.Equiv u) :
    σ.Instance u := by
  obtain ⟨ι, admits, eqv⟩ := h
  exact ⟨ι, admits, eqv.trans same⟩

@[simp] theorem fill_mono (t : Ty) (ι θ : Var → Ty) : (mono t).fill ι θ = t.bind θ := by
  simp [fill, mono]

theorem instance_mono {t u : Ty} : (mono t).Instance u ↔ t.Equiv u := by
  constructor
  · rintro ⟨ι, _, eqv⟩
    rwa [fill_mono, Ty.bind_var] at eqv
  · intro eqv
    refine ⟨.var, fun v hv => (by cases hv), ?_⟩
    rwa [fill_mono, Ty.bind_var]

end Scheme

namespace Env

/-- The variable is free in some scheme of the environment, hidden ones included. -/
def FreeIn (Γ : Env) (v : Var) : Prop := ∃ entry ∈ Γ.entries, entry.2.Free v

/-- Binds names to types, one after another. -/
def bindMonos (Γ : Env) : List String → List Ty → Env
  | x :: xs, t :: ts => (Γ.bind x (.mono t)).bindMonos xs ts
  | _, _ => Γ

end Env

/-- The scheme quantifies all variables of the type that are not free in the environment. -/
structure Generalizes (Γ : Env) (t : Ty) (σ : Scheme) : Prop where
  ty : σ.ty = t
  vars (v : Var) : v ∈ σ.vars ↔ v ∈ t.vars ∧ ¬Γ.FreeIn v

/-- A declaration of `x` at the type `M` leaves it with the scheme `σ`, and before it `x` has the type
`P`. -/
structure Declares (single : Bool) (Γ : Env) (x : String) (P M : Ty) (σ : Scheme) : Prop where
  before : Γ.lookupLocal x = some (.mono P)
  generalizes : Generalizes (Γ.erase x) M σ
  covered : σ.Instance P
  one : single = true → M = P

/-! ## Rules -/

/-- The names that the statements declare, in their order. -/
def declaredNames {α : Type} (body : List (Stmt α)) : List String :=
  (body.filterMap Stmt.declared?).map (·.text)

/-- The outcome of an `if`. A branch that does not return counts as `undefined` if the other does. -/
inductive Joins : Option Ty → Option Ty → Option Ty → Prop
  | neither : Joins none none none
  | either {r₁ r₂ : Option Ty} {t : Ty} (returns : ¬(r₁ = none ∧ r₂ = none))
      (first : (r₁.getD .undefined).Equiv t) (second : (r₂.getD .undefined).Equiv t) :
      Joins r₁ r₂ (some t)

/-- Asks nothing of notes. -/
def anything {α : Type} : α → Ty → Prop := fun _ _ => True

section Rules

variable {α : Type} (prelude : Env) (single : Bool)

mutual
inductive ExprTyped : (α → Ty → Prop) → Env → Expr α → Ty → Prop
  | number {noted Γ tag x} (note : noted tag.note .number) :
      ExprTyped noted Γ (.number tag x) .number
  | text {noted Γ tag s} (note : noted tag.note .string) : ExprTyped noted Γ (.text tag s) .string
  | boolean {noted Γ tag b} (note : noted tag.note .boolean) :
      ExprTyped noted Γ (.boolean tag b) .boolean
  | null {noted Γ tag σ t} (found : Γ.lookup Prelude.null = some σ) (inst : σ.Instance t)
      (note : noted tag.note t) : ExprTyped noted Γ (.null tag) t
  | name {noted Γ n σ t} (found : Γ.lookup n.text = some σ) (inst : σ.Instance t)
      (note : noted n.note t) : ExprTyped noted Γ (.name n) t
  | unary {noted Γ tag op e σ a t} (found : prelude.lookup op.key = some σ)
      (operand : ExprTyped noted Γ e a) (inst : σ.Instance (.func [a] t))
      (note : noted tag.note t) : ExprTyped noted Γ (.unary tag op e) t
  | binary {noted Γ tag op l r σ a b t} (found : prelude.lookup op.key = some σ)
      (left : ExprTyped noted Γ l a) (right : ExprTyped noted Γ r b)
      (inst : σ.Instance (.func [a, b] t)) (note : noted tag.note t) :
      ExprTyped noted Γ (.binary tag op l r) t
  | conditional {noted Γ tag e₁ e₂ e₃ b t₁ t₂ t} (test : ExprTyped noted Γ e₁ b)
      (boolean : b.Equiv .boolean) (consequent : ExprTyped noted Γ e₂ t₁) (first : t₁.Equiv t)
      (alternate : ExprTyped noted Γ e₃ t₂) (second : t₂.Equiv t) (note : noted tag.note t) :
      ExprTyped noted Γ (.conditional tag e₁ e₂ e₃) t
  | call {noted Γ tag f args s ts t} (callee : ExprTyped noted Γ f s)
      (arguments : ExprsTyped noted Γ args ts) (function : s.Equiv (.func ts t))
      (note : noted tag.note t) : ExprTyped noted Γ (.call tag f args) t
  | arrow {noted Γ tag ps e ts t} (params : List.Forall₂ (fun p t => noted p.note t) ps ts)
      (body : ExprTyped noted (Γ.push.bindMonos (ps.map (·.text)) ts) e t)
      (note : noted tag.note (.func ts t)) : ExprTyped noted Γ (.arrow tag ps e) (.func ts t)
  | arrowBlock {noted Γ tag ps b t} (function : FunctionTyped noted Γ ps b t)
      (note : noted tag.note t) : ExprTyped noted Γ (.arrowBlock tag ps b) t
  | assign {noted Γ tag x e s σ t} (value : ExprTyped noted Γ e s)
      (found : Γ.lookup x.text = some σ) (inst : σ.Instance s) (target : noted x.note s)
      (same : s.Equiv t) (note : noted tag.note t) : ExprTyped noted Γ (.assign tag x e) t

inductive ExprsTyped : (α → Ty → Prop) → Env → List (Expr α) → List Ty → Prop
  | nil {noted Γ} : ExprsTyped noted Γ [] []
  | cons {noted Γ e es t ts} (first : ExprTyped noted Γ e t) (rest : ExprsTyped noted Γ es ts) :
      ExprsTyped noted Γ (e :: es) (t :: ts)

/-- A function with a block for its body. -/
inductive FunctionTyped : (α → Ty → Prop) → Env → List (Name α) → Block α → Ty → Prop
  | mk {noted Γ ps b ts r} (params : List.Forall₂ (fun p t => noted p.note t) ps ts)
      (body : BlockTyped noted (Γ.push.bindMonos (ps.map (·.text)) ts) b r) :
      FunctionTyped noted Γ ps b (.func ts (r.getD .undefined))

/-- A statement that returns with the given type, if it does, and the environment after it. -/
inductive StmtTyped : (α → Ty → Prop) → Env → Stmt α → Option Ty → Env → Prop
  | constant {noted Γ tag x e t P t' M σ} (init : ExprTyped noted Γ e t) (before : t.Equiv P)
      (own : ExprTyped anything (Γ.bind x.text (.mono M)) e t') (after : t'.Equiv M)
      (declares : Declares single Γ x.text P M σ) (note : noted tag.note P)
      (name : noted x.note P) :
      StmtTyped noted Γ (.declare tag .constant x e) none (Γ.bind x.text σ)
  | mutable {noted Γ tag x e t P} (init : ExprTyped noted Γ e t) (before : t.Equiv P)
      (placeholder : Γ.lookupLocal x.text = some (.mono P)) (note : noted tag.note P)
      (name : noted x.note P) :
      StmtTyped noted Γ (.declare tag .mutable x e) none (Γ.bind x.text (.mono P))
  | function {noted Γ tag x ps b t P t' M σ} (init : FunctionTyped noted Γ ps b t)
      (before : t.Equiv P) (own : FunctionTyped anything (Γ.bind x.text (.mono M)) ps b t')
      (after : t'.Equiv M) (declares : Declares single Γ x.text P M σ) (note : noted tag.note P)
      (name : noted x.note P) :
      StmtTyped noted Γ (.function tag x ps b) none (Γ.bind x.text σ)
  | retNothing {noted Γ tag} (note : noted tag.note .undefined) :
      StmtTyped noted Γ (.ret tag none) (some .undefined) Γ
  | ret {noted Γ tag e t} (value : ExprTyped noted Γ e t) (note : noted tag.note t) :
      StmtTyped noted Γ (.ret tag (some e)) (some t) Γ
  | ifElse {noted Γ b r} (branch : IfTyped noted Γ b r) : StmtTyped noted Γ (.ifElse b) r Γ
  | block {noted Γ b r} (body : BlockTyped noted Γ b r) : StmtTyped noted Γ (.block b) r Γ
  | expr {noted Γ e t} (value : ExprTyped noted Γ e t) : StmtTyped noted Γ (.expr e) none Γ

/-- Statements one after another. The first return counts. -/
inductive StmtsTyped : (α → Ty → Prop) → Env → List (Stmt α) → Option Ty → Prop
  | nil {noted Γ} : StmtsTyped noted Γ [] none
  | cons {noted Γ s ss r r' Γ'} (first : StmtTyped noted Γ s r Γ')
      (rest : StmtsTyped noted Γ' ss r') : StmtsTyped noted Γ (s :: ss) (r.or r')

inductive BlockTyped : (α → Ty → Prop) → Env → Block α → Option Ty → Prop
  | mk {noted Γ tag body ts r} (types : ts.length = (declaredNames body).length)
      (stmts : StmtsTyped noted (Γ.push.bindMonos (declaredNames body) ts) body r)
      (note : noted tag.note (r.getD .undefined)) : BlockTyped noted Γ ⟨tag, body⟩ r

inductive IfTyped : (α → Ty → Prop) → Env → If α → Option Ty → Prop
  | mk {noted Γ tag e b a s r₁ r₂ r} (test : ExprTyped noted Γ e s) (boolean : s.Equiv .boolean)
      (consequent : BlockTyped noted Γ b r₁) (alternate : AlternateTyped noted Γ a r₂)
      (joins : Joins r₁ r₂ r) (note : noted tag.note (r.getD .undefined)) :
      IfTyped noted Γ ⟨tag, e, b, a⟩ r

inductive AlternateTyped : (α → Ty → Prop) → Env → Alternate α → Option Ty → Prop
  | absent {noted Γ} : AlternateTyped noted Γ .absent none
  | block {noted Γ b r} (body : BlockTyped noted Γ b r) : AlternateTyped noted Γ (.block b) r
  | elseIf {noted Γ b r} (branch : IfTyped noted Γ b r) : AlternateTyped noted Γ (.elseIf b) r
end

/-- A program is a block of its own around which there is only the prelude. -/
def ProgramTyped (noted : α → Ty → Prop) (p : Program α) : Prop :=
  ∃ ts r, ts.length = (declaredNames p.body).length ∧
    StmtsTyped prelude single noted (prelude.push.bindMonos (declaredNames p.body) ts) p.body r

end Rules

/-! ## Changing notes -/

section Notes

variable {α β : Type} {prelude : Env} {single : Bool}

theorem declaredNames_map (f : α → β) (body : List (Stmt α)) :
    declaredNames (body.map (Stmt.mapNotes f)) = declaredNames body := by
  induction body with
  | nil => rfl
  | cons s ss ih =>
    unfold declaredNames at ih ⊢
    rw [List.map_cons, List.filterMap_cons, List.filterMap_cons, Stmt.declared?_mapNotes]
    cases s.declared? with
    | none => exact ih
    | some n =>
      simp only [Option.map_some, List.map_cons, ih]
      rfl

/-- The change of notes keeps agreement, at all of these nodes. -/
def Respects (f : α → β) (noted : α → Ty → Prop) (noted' : β → Ty → Prop) (nodes : List (Node α)) :
    Prop :=
  ∀ n ∈ nodes, ∀ t, noted n.note t → noted' (f n.note) t

variable {f : α → β} {noted : α → Ty → Prop} {noted' : β → Ty → Prop}

@[simp] theorem respects_cons {n : Node α} {nodes : List (Node α)} :
    Respects f noted noted' (n :: nodes) ↔
      (∀ t, noted n.note t → noted' (f n.note) t) ∧ Respects f noted noted' nodes :=
  List.forall_mem_cons

@[simp] theorem respects_append {nodes nodes' : List (Node α)} :
    Respects f noted noted' (nodes ++ nodes') ↔
      Respects f noted noted' nodes ∧ Respects f noted noted' nodes' :=
  List.forall_mem_append

theorem respects_anything (f : α → β) (nodes : List (Node α)) :
    Respects f anything anything nodes := fun _ _ _ _ => trivial

theorem Respects.params {ps : List (Name α)} {ts : List Ty}
    (h : Respects f noted noted' (ps.map (·.node .param)))
    (params : List.Forall₂ (fun p t => noted p.note t) ps ts) :
    List.Forall₂ (fun p t => noted' p.note t) (ps.map (Name.mapNote f)) ts := by
  induction params with
  | nil => exact .nil
  | cons note _ ih =>
    rw [List.map_cons, respects_cons] at h
    exact .cons (h.1 _ note) (ih h.2)

theorem texts_map (f : α → β) (ps : List (Name α)) :
    (ps.map (Name.mapNote f)).map (·.text) = ps.map (·.text) := by
  simp

theorem ExprsTyped.mapNotes {Γ : Env} {es : List (Expr α)} {ts : List Ty}
    (ih : ∀ e ∈ es, ∀ noted noted' Γ t, Respects f noted noted' e.nodes →
      ExprTyped prelude single noted Γ e t → ExprTyped prelude single noted' Γ (e.mapNotes f) t)
    (h : Respects f noted noted' (Expr.nodesAll es)) (typed : ExprsTyped prelude single noted Γ es ts) :
    ExprsTyped prelude single noted' Γ (es.map (Expr.mapNotes f)) ts := by
  induction es generalizing ts with
  | nil =>
    cases typed
    exact .nil
  | cons e es rest =>
    cases typed with
    | cons first others =>
      obtain ⟨ihe, ihes⟩ := List.forall_mem_cons.mp ih
      simp only [Expr.nodesAll, respects_append] at h
      exact .cons (ihe _ _ _ _ h.1 first) (rest ihes h.2 others)

theorem StmtsTyped.mapNotes {Γ : Env} {ss : List (Stmt α)} {r : Option Ty}
    (ih : ∀ s ∈ ss, ∀ noted noted' Γ r Γ', Respects f noted noted' s.nodes →
      StmtTyped prelude single noted Γ s r Γ' → StmtTyped prelude single noted' Γ (s.mapNotes f) r Γ')
    (h : Respects f noted noted' (Stmt.nodesAll ss)) (typed : StmtsTyped prelude single noted Γ ss r) :
    StmtsTyped prelude single noted' Γ (ss.map (Stmt.mapNotes f)) r := by
  induction ss generalizing Γ r with
  | nil =>
    cases typed
    exact .nil
  | cons s ss rest =>
    cases typed with
    | cons first others =>
      obtain ⟨ihs, ihss⟩ := List.forall_mem_cons.mp ih
      simp only [Stmt.nodesAll, respects_append] at h
      exact .cons (ihs _ _ _ _ _ h.1 first) (rest ihss h.2 others)

theorem FunctionTyped.mapNotes {Γ : Env} {ps : List (Name α)} {b : Block α} {t : Ty}
    (ih : ∀ noted noted' Γ r, Respects f noted noted' b.nodes → BlockTyped prelude single noted Γ b r →
      BlockTyped prelude single noted' Γ (b.mapNotes f) r)
    (hps : Respects f noted noted' (ps.map (·.node .param))) (hb : Respects f noted noted' b.nodes)
    (typed : FunctionTyped prelude single noted Γ ps b t) :
    FunctionTyped prelude single noted' Γ (ps.map (Name.mapNote f)) (b.mapNotes f) t := by
  cases typed with
  | mk params body =>
    refine .mk (hps.params params) ?_
    rw [texts_map]
    exact ih _ _ _ _ hb body

theorem typed_mapNotes (f : α → β) : Hereditary
    (fun e => ∀ noted noted' Γ t, Respects f noted noted' e.nodes →
      ExprTyped prelude single noted Γ e t → ExprTyped prelude single noted' Γ (e.mapNotes f) t)
    (fun s => ∀ noted noted' Γ r Γ', Respects f noted noted' s.nodes →
      StmtTyped prelude single noted Γ s r Γ' → StmtTyped prelude single noted' Γ (s.mapNotes f) r Γ')
    (fun b => ∀ noted noted' Γ r, Respects f noted noted' b.nodes →
      BlockTyped prelude single noted Γ b r → BlockTyped prelude single noted' Γ (b.mapNotes f) r)
    (fun b => ∀ noted noted' Γ r, Respects f noted noted' b.nodes →
      IfTyped prelude single noted Γ b r → IfTyped prelude single noted' Γ (b.mapNotes f) r)
    (fun a => ∀ noted noted' Γ r, Respects f noted noted' a.nodes →
      AlternateTyped prelude single noted Γ a r →
        AlternateTyped prelude single noted' Γ (a.mapNotes f) r) where
  number tag x noted noted' Γ t h typed := by
    simp only [Expr.nodes, respects_cons] at h
    cases typed with | number note => exact .number (h.1 _ note)
  text tag s noted noted' Γ t h typed := by
    simp only [Expr.nodes, respects_cons] at h
    cases typed with | text note => exact .text (h.1 _ note)
  boolean tag b noted noted' Γ t h typed := by
    simp only [Expr.nodes, respects_cons] at h
    cases typed with | boolean note => exact .boolean (h.1 _ note)
  null tag noted noted' Γ t h typed := by
    simp only [Expr.nodes, respects_cons] at h
    cases typed with | null found inst note => exact .null found inst (h.1 _ note)
  name n noted noted' Γ t h typed := by
    simp only [Expr.nodes, respects_cons] at h
    cases typed with | name found inst note => exact .name found inst (h.1 _ note)
  unary tag op e ih noted noted' Γ t h typed := by
    simp only [Expr.nodes, respects_cons] at h
    cases typed with
    | unary found operand inst note => exact .unary found (ih _ _ _ _ h.2 operand) inst (h.1 _ note)
  binary tag op l r ihl ihr noted noted' Γ t h typed := by
    simp only [Expr.nodes, respects_cons, respects_append] at h
    cases typed with
    | binary found left right inst note =>
      exact .binary found (ihl _ _ _ _ h.2.1 left) (ihr _ _ _ _ h.2.2 right) inst (h.1 _ note)
  conditional tag e₁ e₂ e₃ ih₁ ih₂ ih₃ noted noted' Γ t h typed := by
    simp only [Expr.nodes, respects_cons, respects_append] at h
    cases typed with
    | conditional test boolean consequent first alternate second note =>
      exact .conditional (ih₁ _ _ _ _ h.2.1.1 test) boolean (ih₂ _ _ _ _ h.2.1.2 consequent) first
        (ih₃ _ _ _ _ h.2.2 alternate) second (h.1 _ note)
  call tag e es ihe ihes noted noted' Γ t h typed := by
    simp only [Expr.nodes, respects_cons, respects_append] at h
    cases typed with
    | call callee arguments function note =>
      rw [Expr.mapNotes_call]
      exact .call (ihe _ _ _ _ h.2.1 callee) (arguments.mapNotes ihes h.2.2) function (h.1 _ note)
  arrow tag ps e ih noted noted' Γ t h typed := by
    simp only [Expr.nodes, respects_cons, respects_append] at h
    cases typed with
    | arrow params body note =>
      rw [Expr.mapNotes_arrow]
      refine .arrow (h.2.1.params params) ?_ (h.1 _ note)
      rw [texts_map]
      exact ih _ _ _ _ h.2.2 body
  arrowBlock tag ps b ih noted noted' Γ t h typed := by
    simp only [Expr.nodes, respects_cons, respects_append] at h
    cases typed with
    | arrowBlock function note =>
      rw [Expr.mapNotes_arrowBlock]
      exact .arrowBlock (function.mapNotes ih h.2.1 h.2.2) (h.1 _ note)
  assign tag x e ih noted noted' Γ t h typed := by
    simp only [Expr.nodes, respects_cons] at h
    cases typed with
    | assign value found inst target same note =>
      exact .assign (ih _ _ _ _ h.2.2 value) found inst (h.2.1 _ target) same (h.1 _ note)
  declare tag keyword x e ih noted noted' Γ r Γ' h typed := by
    simp only [Stmt.nodes, respects_cons] at h
    cases typed with
    | constant init before own after declares note name =>
      exact .constant (ih _ _ _ _ h.2.2 init) before (ih _ _ _ _ (respects_anything f _) own) after
        declares (h.1 _ note) (h.2.1 _ name)
    | mutable init before placeholder note name =>
      exact .mutable (ih _ _ _ _ h.2.2 init) before placeholder (h.1 _ note) (h.2.1 _ name)
  function tag x ps b ih noted noted' Γ r Γ' h typed := by
    simp only [Stmt.nodes, respects_cons, respects_append] at h
    cases typed with
    | function init before own after declares note name =>
      rw [Stmt.mapNotes_function]
      exact .function (init.mapNotes ih h.2.2.1 h.2.2.2) before
        (own.mapNotes ih (respects_anything f _) (respects_anything f _)) after declares (h.1 _ note)
        (h.2.1 _ name)
  retNothing tag noted noted' Γ r Γ' h typed := by
    simp only [Stmt.nodes, respects_cons] at h
    cases typed with | retNothing note => exact .retNothing (h.1 _ note)
  ret tag e ih noted noted' Γ r Γ' h typed := by
    simp only [Stmt.nodes, respects_cons] at h
    cases typed with | ret value note => exact .ret (ih _ _ _ _ h.2 value) (h.1 _ note)
  ifElse b ih noted noted' Γ r Γ' h typed := by
    cases typed with | ifElse branch => exact .ifElse (ih _ _ _ _ h branch)
  block b ih noted noted' Γ r Γ' h typed := by
    cases typed with | block body => exact .block (ih _ _ _ _ h body)
  expr e ih noted noted' Γ r Γ' h typed := by
    cases typed with | expr value => exact .expr (ih _ _ _ _ h value)
  body tag body ih noted noted' Γ r h typed := by
    simp only [Block.nodes, respects_cons] at h
    cases typed with
    | mk types stmts note =>
      rw [← declaredNames_map f] at types stmts
      rw [Block.mapNotes_mk]
      exact .mk types (stmts.mapNotes ih h.2) (h.1 _ note)
  branch tag e b a ihe ihb iha noted noted' Γ r h typed := by
    simp only [If.nodes, respects_cons, respects_append] at h
    cases typed with
    | mk test boolean consequent alternate joins note =>
      exact .mk (ihe _ _ _ _ h.2.1.1 test) boolean (ihb _ _ _ _ h.2.1.2 consequent)
        (iha _ _ _ _ h.2.2 alternate) joins (h.1 _ note)
  absent noted noted' Γ r h typed := by
    cases typed with | absent => exact .absent
  otherwise b ih noted noted' Γ r h typed := by
    cases typed with | block body => exact .block (ih _ _ _ _ h body)
  elseIf b ih noted noted' Γ r h typed := by
    cases typed with | elseIf branch => exact .elseIf (ih _ _ _ _ h branch)

theorem ProgramTyped.map {p : Program α} (h : Respects f noted noted' p.nodes)
    (typed : ProgramTyped prelude single noted p) :
    ProgramTyped prelude single noted' (p.map f) := by
  obtain ⟨ts, r, types, stmts⟩ := typed
  rw [Program.map_eq, ProgramTyped, declaredNames_map]
  exact ⟨ts, r, types, stmts.mapNotes (fun s _ => (typed_mapNotes f).forStmt s) h⟩

end Notes

end Polytype
