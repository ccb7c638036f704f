import Polytype.Proofs.Typing.Sound
import Polytype.Proofs.Typing.Tracks

/-!
# Typed trees have clean runs

In the first chapter a tree that has a typing is inferred without errors, and the typing is an
instance of what was inferred. The induction is over the typed tree, along with a solution that turns
what inference knows into the typing.
-/

namespace Polytype

variable {c c' : Context} {H : Set Var} {θ θ' : Var → Ty} {Γ : Env}

namespace Walk

/-- No verdict yet, whatever the type in the typing. -/
def blank : Ty → Verdict := fun _ => .pending

/-! ## Notes -/

/-- The verdicts on the nodes of a tree are the types of its typing under `θ`. -/
def Matches (θ : Var → Ty) (n : Nat) : List (Node Ty) → List (Node Verdict) → Prop :=
  List.Forall₂ fun node node' => ∃ t, node'.note = .typed t ∧ Has θ n t node.note

theorem Extends.matches {nodes : List (Node Ty)} {nodes' : List (Node Verdict)}
    (h : Extends θ c θ' c') (notes : Matches θ c.nextVar nodes nodes') :
    Matches θ' c'.nextVar nodes nodes' := by
  refine List.Forall₂.imp ?_ notes
  rintro _ _ ⟨t, note, has⟩
  exact ⟨t, note, h.has has⟩

theorem Matches.cons {n : Nat} {node : Node Ty} {node' : Node Verdict} {nodes : List (Node Ty)}
    {nodes' : List (Node Verdict)} {t T : Ty} (notes : Matches θ n nodes nodes') (has : Has θ n t T)
    (typed : node'.note = .typed t) (note : node.note.Equiv T) :
    Matches θ n (node :: nodes) (node' :: nodes') :=
  List.Forall₂.cons ⟨t, typed, has.congr note.symm⟩ notes

theorem Matches.append {n : Nat} {nodes more : List (Node Ty)} {nodes' more' : List (Node Verdict)}
    (h : Matches θ n nodes nodes') (h' : Matches θ n more more') :
    Matches θ n (nodes ++ more) (nodes' ++ more') := List.rel_append h h'

/-- A return of the typing is one of inference. -/
abbrev Returns (θ : Var → Ty) (n : Nat) : Option Ty → Option Ty → Prop := Option.Rel (Has θ n)

theorem Extends.returns {r R : Option Ty} (h : Extends θ c θ' c') (returns : Returns θ c.nextVar r R) :
    Returns θ' c'.nextVar r R := by
  cases returns with
  | some has => exact .some (h.has has)
  | none => exact .none

theorem Returns.has {n : Nat} {r R : Option Ty} (h : Returns θ n r R) :
    Has θ n (returnTy r) (R.getD .undefined) := by
  cases h with
  | some has => exact has
  | none => exact .prim _

theorem Returns.first {n : Nat} {r R r' R' : Option Ty} (h : Returns θ n r R)
    (h' : Returns θ n r' R') : Returns θ n (firstReturn r r') (R.or R') := by
  cases h with
  | some has => exact .some has
  | none => exact h'

/-! ## Parameters -/

theorem matches_params {n : Nat} {ps : List (Name Ty)} {ts Ts : List Ty}
    (has : List.Forall₂ (Has θ n) ts Ts) (notes : List.Forall₂ (fun p T => p.note.Equiv T) ps Ts) :
    Matches θ n (ps.map (·.node .param))
      ((List.zipWith (fun p t => p.annotate (Verdict.typed t)) (ps.map (Name.mapNote blank)) ts).map
        (·.node .param)) := by
  induction notes generalizing ts with
  | nil =>
    cases has
    exact .nil
  | cons note _ ih =>
    cases has with
    | cons first rest => exact (ih rest).cons first rfl note

theorem Tracks.params {ps : List (Name Ty)} {Ts : List Ty} (h : Tracks θ c H Γ)
    (names : NoOperator (ps.map (·.text)))
    (notes : List.Forall₂ (fun p T => p.note.Equiv T) ps Ts) :
    ∃ xs c₁ θ₁ H₁, Clean (bindParams (ps.map (Name.mapNote blank))) { c with env := c.env.push } xs c₁ ∧
      Tracks θ₁ c₁ H₁ (Γ.push.bindMonos (ps.map (·.text)) Ts) ∧ Extends θ c θ₁ c₁ ∧
      List.Forall₂ (Has θ₁ c₁.nextVar) xs.1 Ts ∧
      Matches θ₁ c₁.nextVar (ps.map (·.node .param)) (xs.2.map (·.node .param)) := by
  have length : Ts.length = (ps.map (·.text)).length := by rw [List.length_map, notes.length_eq]
  obtain ⟨θ₁, H₁, tracks, ext, has⟩ := h.enter names length
  have run : Clean (bindParams (ps.map (Name.mapNote blank))) { c with env := c.env.push } _ _ :=
    clean_bindParams.mpr ⟨rfl, rfl, h.clean⟩
  rw [texts_map, List.length_map] at run
  rw [List.length_map] at has
  exact ⟨_, _, θ₁, H₁, run, tracks, ext, has, matches_params has notes⟩

/-! ## The walk -/

/-- With a typing of an expression there is a clean run over it, in step with the typing. -/
def ExprComplete (e : Expr Ty) : Prop :=
  ∀ (place : Validation.Place) Γ T θ c H, place.chapter = .one → Validation.checkExpr place e = [] →
    NoOperator e.binders → ExprTyped (Context.new .one).env true Ty.Equiv Γ e T → Tracks θ c H Γ →
    ∃ r c' θ', Clean (inferExpr (e.mapNotes blank)) c r c' ∧ Extends θ c θ' c' ∧
      Has θ' c'.nextVar r.1 T ∧ Matches θ' c'.nextVar e.nodes r.2.nodes

/-- A statement leaves the environment in step with the one of the typing. -/
def StmtComplete (s : Stmt Ty) : Prop :=
  ∀ (place : Validation.Place) Γ R Γ' θ c H, place.chapter = .one →
    Validation.checkStmt place s = [] → NoOperator s.binders →
    StmtTyped (Context.new .one).env true Ty.Equiv Γ s R Γ' → Tracks θ c H Γ →
    Pending θ c.env Γ (declaredNames [s]) →
    ∃ r c' θ', Clean (inferStmt (s.mapNotes blank)) c r c' ∧ Extends θ c θ' c' ∧
      Returns θ' c'.nextVar r.1 R ∧ Matches θ' c'.nextVar s.nodes r.2.nodes ∧ c'.Flat ∧
      c'.env.Paired (Follows θ') Γ' ∧ ∀ xs, (∀ x ∈ declaredNames [s], x ∉ xs) →
        Pending θ c.env Γ xs → Pending θ' c'.env Γ' xs

def BlockComplete (b : Block Ty) : Prop :=
  ∀ (place : Validation.Place) Γ R θ c H, place.chapter = .one → Validation.checkBlock place b = [] →
    NoOperator b.binders → BlockTyped (Context.new .one).env true Ty.Equiv Γ b R → Tracks θ c H Γ →
    ∃ r c' θ', Clean (inferBlock (b.mapNotes blank)) c r c' ∧ Extends θ c θ' c' ∧
      Returns θ' c'.nextVar r.1 R ∧ Matches θ' c'.nextVar b.nodes r.2.nodes

def IfComplete (b : If Ty) : Prop :=
  ∀ (place : Validation.Place) Γ R θ c H, place.chapter = .one → Validation.checkIf place b = [] →
    NoOperator b.binders → IfTyped (Context.new .one).env true Ty.Equiv Γ b R → Tracks θ c H Γ →
    ∃ r c' θ', Clean (inferIf (b.mapNotes blank)) c r c' ∧ Extends θ c θ' c' ∧
      Returns θ' c'.nextVar r.1 R ∧ Matches θ' c'.nextVar b.nodes r.2.nodes

def AlternateComplete (a : Alternate Ty) : Prop :=
  ∀ (place : Validation.Place) Γ R θ c H, place.chapter = .one →
    Validation.checkAlternate place a = [] → NoOperator a.binders →
    AlternateTyped (Context.new .one).env true Ty.Equiv Γ a R → Tracks θ c H Γ →
    ∃ r c' θ', Clean (inferAlternate (a.mapNotes blank)) c r c' ∧ Extends θ c θ' c' ∧
      Returns θ' c'.nextVar r.1 R ∧ Matches θ' c'.nextVar a.nodes r.2.2.nodes

section Expressions

variable {place : Validation.Place}

theorem Tracks.literal {e : Expr Ty} {e' : Expr Verdict} {p : Prim} (tracks : Tracks θ c H Γ)
    (run : inferExpr (e.mapNotes blank) = pure (.prim p, e'))
    (notes : Matches θ c.nextVar e.nodes e'.nodes) :
    ∃ r c' θ', Clean (inferExpr (e.mapNotes blank)) c r c' ∧ Extends θ c θ' c' ∧
      Has θ' c'.nextVar r.1 (.prim p) ∧ Matches θ' c'.nextVar e.nodes r.2.nodes := by
  refine ⟨(.prim p, e'), c, θ, ?_, tracks.same, .prim p, notes⟩
  rw [run]
  exact clean_pure.mpr ⟨rfl, rfl, tracks.clean⟩

theorem unary_complete {tag : Tag Ty} {op : UnaryOp} {e : Expr Ty} (ih : ExprComplete e) :
    ExprComplete (.unary tag op e) := by
  intro place Γ T θ c H chapter valid names typed tracks
  cases typed with
  | unary found operand inst note =>
    obtain ⟨vars, a, u, known⟩ := Prelude.lookup_unary .one op
    cases known.symm.trans found
    obtain ⟨x, c₁, θ₁, run, ext, has, notes⟩ := ih _ _ _ _ _ _ chapter valid names operand tracks
    obtain ⟨H₁, goes, overH⟩ := run.expr tracks.good
    obtain ⟨t, c₂, θ₂, used, ext₂, has₂⟩ := (tracks.next goes ext run.2).operator
      (Prelude.mem_keys_unary op) known inst (.cons has .nil) (by simpa using overH)
    exact ⟨_, c₂, θ₂, clean_unary.mpr ⟨x, c₁, t, run, used, rfl⟩, ext.trans ext₂, has₂,
      (ext₂.matches notes).cons has₂ rfl note⟩

theorem binary_complete {tag : Tag Ty} {op : BinaryOp} {e₁ e₂ : Expr Ty} (ih₁ : ExprComplete e₁)
    (ih₂ : ExprComplete e₂) : ExprComplete (.binary tag op e₁ e₂) := by
  intro place Γ T θ c H chapter valid names typed tracks
  rw [Validation.checkExpr, List.append_eq_nil_iff] at valid
  rw [Expr.binders, noOperator_append] at names
  cases typed with
  | binary found left right inst note =>
    obtain ⟨vars, a, b, u, known⟩ := Prelude.lookup_binary .one op
    cases known.symm.trans found
    obtain ⟨x, c₁, θ₁, run₁, ext₁, has₁, notes₁⟩ :=
      ih₁ _ _ _ _ _ _ chapter valid.1 names.1 left tracks
    obtain ⟨H₁, goes₁, over₁⟩ := run₁.expr tracks.good
    have tracks₁ := tracks.next goes₁ ext₁ run₁.2
    obtain ⟨y, c₂, θ₂, run₂, ext₂, has₂, notes₂⟩ :=
      ih₂ _ _ _ _ _ _ chapter valid.2 names.2 right tracks₁
    obtain ⟨H₂, goes₂, over₂⟩ := run₂.expr tracks₁.good
    have overH : ∀ o ∈ [x.1, y.1], o.Over H₂ := by
      simpa using And.intro (over₁.mono goes₂.subset) over₂
    obtain ⟨t, c₃, θ₃, used, ext₃, has₃⟩ := (tracks₁.next goes₂ ext₂ run₂.2).operator
      (Prelude.mem_keys_binary op) known inst (.cons (ext₂.has has₁) (.cons has₂ .nil)) overH
    have notes := (ext₂.matches notes₁).append notes₂
    exact ⟨_, c₃, θ₃, clean_binary.mpr ⟨x, c₁, y, c₂, t, run₁, run₂, used, rfl⟩,
      (ext₁.trans ext₂).trans ext₃, has₃, (ext₃.matches notes).cons has₃ rfl note⟩

theorem conditional_complete {tag : Tag Ty} {e₁ e₂ e₃ : Expr Ty} (ih₁ : ExprComplete e₁)
    (ih₂ : ExprComplete e₂) (ih₃ : ExprComplete e₃) : ExprComplete (.conditional tag e₁ e₂ e₃) := by
  intro place Γ T θ c H chapter valid names typed tracks
  simp only [Validation.checkExpr, List.append_eq_nil_iff] at valid
  simp only [Expr.binders, noOperator_append] at names
  cases typed with
  | conditional test boolean consequent first alternate second note =>
    obtain ⟨x, c₁, θ₁, run₁, ext₁, has₁, notes₁⟩ :=
      ih₁ _ _ _ _ _ _ chapter valid.1.1 names.1.1 test tracks
    obtain ⟨H₁, goes₁, over₁⟩ := run₁.expr tracks.good
    have tracks₁ := tracks.next goes₁ ext₁ run₁.2
    obtain ⟨c₂, unified, goes₂, ext₂, tracks₂⟩ := tracks₁.unify over₁ (Ty.over_prim _) has₁.flat
      (Ty.isFlat_prim _) (has₁.equiv.trans boolean)
    obtain ⟨y, c₃, θ₃, run₃, ext₃, has₃, notes₃⟩ :=
      ih₂ _ _ _ _ _ _ chapter valid.1.2 names.1.2 consequent tracks₂
    obtain ⟨H₃, goes₃, over₃⟩ := run₃.expr tracks₂.good
    have tracks₃ := tracks₂.next goes₃ ext₃ run₃.2
    obtain ⟨z, c₄, θ₄, run₄, ext₄, has₄, notes₄⟩ :=
      ih₃ _ _ _ _ _ _ chapter valid.2 names.2 alternate tracks₃
    obtain ⟨H₄, goes₄, over₄⟩ := run₄.expr tracks₃.good
    have tracks₄ := tracks₃.next goes₄ ext₄ run₄.2
    have over₃' := over₃.mono goes₄.subset
    have has₃' := (ext₄.has has₃).congr first
    obtain ⟨c₅, same, _, ext₅, tracks₅⟩ := tracks₄.unify over₃' over₄ has₃'.flat has₄.flat
      (has₃'.equiv.trans (has₄.equiv.trans second).symm)
    have result := tracks₅.known over₃' (ext₅.has has₃')
    have notes := (((ext₂.trans (ext₃.trans ext₄)).matches notes₁).append
      (ext₄.matches notes₃)).append notes₄
    exact ⟨_, c₅, θ₄, clean_conditional.mpr ⟨x, c₁, c₂, y, c₃, z, c₄, run₁,
      clean_checkTest.mpr ⟨unified, run₁.2⟩, run₃, run₄, clean_checkBranches.mpr ⟨same, run₄.2⟩, rfl⟩,
      ext₁.trans (ext₂.trans (ext₃.trans (ext₄.trans ext₅))), result,
      (ext₅.matches notes).cons result rfl note⟩

theorem exprs_complete {es : List (Expr Ty)} (ih : ∀ e ∈ es, ExprComplete e) {Ts : List Ty}
    (chapter : place.chapter = .one) (valid : Validation.checkExprs place es = [])
    (names : NoOperator (Expr.bindersAll es))
    (typed : ExprsTyped (Context.new .one).env true Ty.Equiv Γ es Ts) (tracks : Tracks θ c H Γ) :
    ∃ r c' θ', Clean (inferExprs (es.map (Expr.mapNotes blank))) c r c' ∧ Extends θ c θ' c' ∧
      List.Forall₂ (Has θ' c'.nextVar) r.1 Ts ∧
      Matches θ' c'.nextVar (Expr.nodesAll es) (Expr.nodesAll r.2) := by
  induction es generalizing θ c H Ts with
  | nil =>
    cases typed
    exact ⟨_, c, θ, clean_exprs_nil.mpr ⟨rfl, rfl, tracks.clean⟩, tracks.same, .nil, .nil⟩
  | cons e es rest =>
    rw [Validation.checkExprs, List.append_eq_nil_iff] at valid
    rw [Expr.bindersAll, noOperator_append] at names
    obtain ⟨first, others⟩ := List.forall_mem_cons.mp ih
    cases typed with
    | cons typed₁ typed₂ =>
      obtain ⟨x, c₁, θ₁, run₁, ext₁, has₁, notes₁⟩ :=
        first _ _ _ _ _ _ chapter valid.1 names.1 typed₁ tracks
      obtain ⟨H₁, goes₁, _⟩ := run₁.expr tracks.good
      obtain ⟨xs, c₂, θ₂, run₂, ext₂, has₂, notes₂⟩ :=
        rest others valid.2 names.2 typed₂ (tracks.next goes₁ ext₁ run₁.2)
      exact ⟨_, c₂, θ₂, clean_exprs_cons.mpr ⟨x, c₁, xs, run₁, run₂, rfl⟩, ext₁.trans ext₂,
        .cons (ext₂.has has₁) has₂, (ext₂.matches notes₁).append notes₂⟩

theorem call_complete {tag : Tag Ty} {f : Expr Ty} {args : List (Expr Ty)} (ih : ExprComplete f)
    (ihs : ∀ e ∈ args, ExprComplete e) : ExprComplete (.call tag f args) := by
  intro place Γ T θ c H chapter valid names typed tracks
  rw [Validation.checkExpr, List.append_eq_nil_iff] at valid
  rw [Expr.binders, noOperator_append] at names
  cases typed with
  | call callee arguments function note =>
    obtain ⟨x, c₁, θ₁, run₁, ext₁, has₁, notes₁⟩ :=
      ih _ _ _ _ _ _ chapter valid.1 names.1 callee tracks
    obtain ⟨H₁, goes₁, over₁⟩ := run₁.expr tracks.good
    have tracks₁ := tracks.next goes₁ ext₁ run₁.2
    obtain ⟨xs, c₂, θ₂, run₂, ext₂, has₂, notes₂⟩ :=
      exprs_complete ihs chapter valid.2 names.2 arguments tracks₁
    obtain ⟨H₂, goes₂, over₂⟩ := run₂.exprs tracks₁.good
    obtain ⟨t, c₃, θ₃, used, ext₃, has₃⟩ := (tracks₁.next goes₂ ext₂ run₂.2).call
      (over₁.mono goes₂.subset) ((ext₂.has has₁).congr function) over₂ has₂
    have notes := (ext₂.matches notes₁).append notes₂
    rw [Expr.mapNotes_call]
    exact ⟨_, c₃, θ₃, clean_call.mpr ⟨x, c₁, xs, c₂, t, run₁, run₂, used, rfl⟩,
      (ext₁.trans ext₂).trans ext₃, has₃, (ext₃.matches notes).cons has₃ rfl note⟩

theorem arrow_complete {tag : Tag Ty} {ps : List (Name Ty)} {e : Expr Ty} (ih : ExprComplete e) :
    ExprComplete (.arrow tag ps e) := by
  intro place Γ T θ c H chapter valid names typed tracks
  rw [Expr.binders, noOperator_append] at names
  cases typed with
  | arrow params body note =>
    obtain ⟨xs, c₁, θ₁, H₁, bound, tracks₁, ext₁, has₁, notes₁⟩ := tracks.params names.1 params
    obtain ⟨y, c₂, θ₂, run, ext₂, has₂, notes₂⟩ :=
      ih (place.enter _) _ _ _ _ _ chapter valid names.2 body tracks₁
    have has := Has.func (has₁.imp fun _ _ has => ext₂.has has) has₂
    have notes := (ext₂.matches notes₁).append notes₂
    rw [Expr.mapNotes_arrow]
    exact ⟨_, _, θ₂, clean_arrow.mpr ⟨xs, c₁, y, c₂, bound, run, rfl, rfl⟩,
      (ext₁.trans ext₂).withEnv _, has, notes.cons has rfl note⟩

theorem function_complete {ps : List (Name Ty)} {b : Block Ty} (ih : BlockComplete b) {T : Ty}
    (chapter : place.chapter = .one)
    (valid : Validation.checkBlock (place.enterFunction (Validation.paramFrame ps)) b = [])
    (params : NoOperator (ps.map (·.text))) (names : NoOperator b.binders)
    (typed : FunctionTyped (Context.new .one).env true Ty.Equiv Γ ps b T) (tracks : Tracks θ c H Γ) :
    ∃ xs c₁ y c₂ θ₂,
      Clean (bindParams (ps.map (Name.mapNote blank))) { c with env := c.env.push } xs c₁ ∧
      Clean (inferBlock (b.mapNotes blank)) c₁ y c₂ ∧ Extends θ c θ₂ c₂ ∧
      Has θ₂ c₂.nextVar (.func xs.1 (returnTy y.1)) T ∧
      Matches θ₂ c₂.nextVar (ps.map (·.node .param) ++ b.nodes)
        (xs.2.map (·.node .param) ++ y.2.nodes) := by
  cases typed with
  | mk notes body =>
    obtain ⟨xs, c₁, θ₁, H₁, bound, tracks₁, ext₁, has₁, notes₁⟩ := tracks.params params notes
    obtain ⟨y, c₂, θ₂, run, ext₂, returns, notes₂⟩ :=
      ih (place.enterFunction _) _ _ _ _ _ chapter valid names body tracks₁
    exact ⟨xs, c₁, y, c₂, θ₂, bound, run, ext₁.trans ext₂,
      .func (has₁.imp fun _ _ has => ext₂.has has) returns.has, (ext₂.matches notes₁).append notes₂⟩

theorem arrowBlock_complete {tag : Tag Ty} {ps : List (Name Ty)} {b : Block Ty}
    (ih : BlockComplete b) : ExprComplete (.arrowBlock tag ps b) := by
  intro place Γ T θ c H chapter valid names typed tracks
  rw [Expr.binders, noOperator_append] at names
  cases typed with
  | arrowBlock function note =>
    obtain ⟨xs, c₁, y, c₂, θ₂, bound, run, ext, has, notes⟩ :=
      function_complete ih chapter valid names.1 names.2 function tracks
    rw [Expr.mapNotes_arrowBlock]
    exact ⟨_, _, θ₂, clean_arrowBlock.mpr ⟨xs, c₁, y, c₂, bound, run, rfl, rfl⟩, ext.withEnv _, has,
      notes.cons has rfl note⟩

theorem needsAssignment_ne_nil (chapter : place.chapter = .one) (construct : String)
    (pos : Position) : Validation.needsAssignment place construct pos ≠ [] := by
  rw [Validation.needsAssignment, chapter, if_neg (by decide)]
  exact List.cons_ne_nil _ _

end Expressions

section Statements

variable {place : Validation.Place}

theorem Tracks.declaration {x : String} {t T P M : Ty} {σ : Scheme} {c₁ : Context} {H₁ : Set Var}
    (tracks : Tracks θ c H Γ) (binding : Binding) (source : String) (pos : Position)
    (general : binding.isGeneral = true) (goes : Goes c H c₁ H₁) (ext : Extends θ c θ' c₁)
    (clean : c₁.errors = []) (overH : t.Over H₁) (has : Has θ' c₁.nextVar t T) (before : T.Equiv P)
    (declares : Declares true Γ x P M σ) (pending : Pending θ c.env Γ [x]) :
    ∃ u c', Clean (Walk.declare x binding source pos 0 t) c₁ (.typed u) c' ∧ Extends θ' c₁ θ' c' ∧
      Has θ' c'.nextVar u P ∧ c'.Flat ∧ c'.env.Paired (Follows θ') (Γ.bind x σ) ∧
      ∀ xs, (∀ y ∈ [x], y ∉ xs) → Pending θ c.env Γ xs → Pending θ' c'.env (Γ.bind x σ) xs := by
  have tracks₁ := tracks.next goes ext clean
  obtain ⟨p, P', found, found', placeholder⟩ :=
    tracks.pending_agree ext.agree pending x List.mem_cons_self
  cases found'.symm.trans declares.before
  rw [← goes.env] at found
  have generalizes := declares.generalizes
  rw [declares.one rfl] at generalizes
  obtain ⟨u, c', run, ext', has', flat, paired, σ', env⟩ :=
    tracks₁.declare general found placeholder overH (has.congr before) generalizes
  refine ⟨u, c', run, ext', has', flat, paired, fun xs fresh later => ?_⟩
  rw [env, goes.env]
  exact (tracks.pending_agree ext.agree later).bind (fresh x List.mem_cons_self) σ' σ

theorem declare_complete {tag : Tag Ty} {keyword : Keyword} {n : Name Ty} {e : Expr Ty}
    (ih : ExprComplete e) : StmtComplete (.declare tag keyword n e) := by
  intro place Γ R Γ' θ c H chapter valid names typed tracks pending
  rw [Stmt.binders, noOperator_cons] at names
  cases typed with
  | mutable =>
    rw [Validation.checkStmt, List.append_eq_nil_iff] at valid
    exact absurd valid.1 (needsAssignment_ne_nil chapter _ _)
  | constant init before own after declares note name =>
    obtain ⟨x, c₁, θ₁, run, ext₁, has, notes⟩ := ih _ _ _ _ _ _ chapter valid names.2 init tracks
    obtain ⟨H₁, goes₁, overH⟩ := run.expr tracks.good
    obtain ⟨u, c₂, bound, ext₂, has₂, flat, paired, later⟩ :=
      tracks.declaration (.value .constant)
        (Stmt.declareHeader .constant (n.mapNote blank) (e.mapNotes blank)) tag.pos rfl goes₁ ext₁ run.2
        overH has before declares pending
    refine ⟨_, c₂, θ₁, clean_declaration.mpr ⟨x, c₁, _, run, bound, rfl⟩, ext₁.trans ext₂, .none, ?_,
      flat, paired, later⟩
    exact ((ext₂.matches notes).cons has₂ rfl name).cons has₂ rfl note

theorem functionStmt_complete {tag : Tag Ty} {n : Name Ty} {ps : List (Name Ty)} {b : Block Ty}
    (ih : BlockComplete b) : StmtComplete (.function tag n ps b) := by
  intro place Γ R Γ' θ c H chapter valid names typed tracks pending
  simp only [Stmt.binders, noOperator_cons, noOperator_append] at names
  cases typed with
  | function init before own after declares note name =>
    obtain ⟨xs, c₁, y, c₂, θ₂, params, run, ext, has, notes⟩ :=
      function_complete ih chapter valid names.2.1 names.2.2 init tracks
    -- The function is inferred as an arrow function would be.
    have arrow : Clean (inferExpr (.arrowBlock (tag.mapNote blank) (ps.map (Name.mapNote blank))
        (b.mapNotes blank))) c _ _ := clean_arrowBlock.mpr ⟨xs, c₁, y, c₂, params, run, rfl, rfl⟩
    obtain ⟨H₂, goes, overH⟩ := arrow.expr tracks.good
    obtain ⟨u, c₃, bound, ext₃, has₃, flat, paired, later⟩ :=
      tracks.declaration .function
        (Stmt.functionHeader (n.mapNote blank) (ps.map (Name.mapNote blank))) tag.pos rfl goes
        (ext.withEnv _) arrow.2 overH has before declares pending
    rw [Stmt.mapNotes_function]
    refine ⟨_, c₃, θ₂, clean_function.mpr ⟨xs, c₁, y, c₂, _, params, run, bound, rfl⟩,
      (ext.withEnv _).trans ext₃, .none, ?_, flat, paired, later⟩
    exact ((ext₃.matches notes).cons has₃ rfl name).cons has₃ rfl note

theorem stmts_complete {ss : List (Stmt Ty)} (ih : ∀ s ∈ ss, StmtComplete s) {R : Option Ty}
    (chapter : place.chapter = .one) (valid : Validation.checkStmts place ss = [])
    (names : NoOperator (Stmt.bindersAll ss)) (nodup : (declaredNames ss).Nodup)
    (typed : StmtsTyped (Context.new .one).env true Ty.Equiv Γ ss R) (tracks : Tracks θ c H Γ)
    (pending : Pending θ c.env Γ (declaredNames ss)) :
    ∃ r c' θ', Clean (inferStmts (ss.map (Stmt.mapNotes blank))) c r c' ∧ Extends θ c θ' c' ∧
      Returns θ' c'.nextVar r.1 R ∧ Matches θ' c'.nextVar (Stmt.nodesAll ss) (Stmt.nodesAll r.2) := by
  induction ss generalizing θ c H Γ R with
  | nil =>
    cases typed
    refine ⟨(none, []), c, θ, ?_, tracks.same, .none, .nil⟩
    rw [List.map_nil, inferStmts]
    exact clean_pure.mpr ⟨rfl, rfl, tracks.clean⟩
  | cons s ss rest =>
    rw [Validation.checkStmts, List.append_eq_nil_iff] at valid
    rw [Stmt.bindersAll, noOperator_append] at names
    rw [declaredNames_cons] at nodup pending
    obtain ⟨_, nodup, apart⟩ := List.nodup_append.mp nodup
    obtain ⟨first, others⟩ := List.forall_mem_cons.mp ih
    cases typed with
    | cons typed₁ typed₂ =>
      obtain ⟨x, c₁, θ₁, run₁, ext₁, returns₁, notes₁, flat, paired, later⟩ :=
        first _ _ _ _ _ _ _ chapter valid.1 names.1 typed₁ tracks
          (pending.mono (List.subset_append_left _ _))
      have placed : Placed (Context.new .one).env c₁ ∅ := by
        refine tracks.placed.leaves ?_ (run₁.stmt tracks.good)
        rw [(binders_mapNotes blank).forStmt s]
        exact names.1
      have pending₁ := later (declaredNames ss) (fun x hx hx' => apart x hx x hx' rfl)
        (pending.mono (List.subset_append_right _ _))
      obtain ⟨xs, c₂, θ₂, run₂, ext₂, returns₂, notes₂⟩ := rest others valid.2 names.2 nodup typed₂
        ⟨placed, run₁.2, flat, ext₁.fits, ext₁.solved, paired⟩ pending₁
      exact ⟨_, c₂, θ₂, clean_stmts_cons.mpr ⟨x, c₁, xs, run₁, run₂, rfl⟩, ext₁.trans ext₂,
        .first (ext₂.returns returns₁) returns₂, (ext₂.matches notes₁).append notes₂⟩

theorem body_complete {body : List (Stmt Ty)} (ih : ∀ s ∈ body, StmtComplete s) {Ts : List Ty}
    {R : Option Ty} (chapter : place.chapter = .one) (repeats : Validation.repeats [] body = [])
    (valid : Validation.checkStmts place body = []) (names : NoOperator (Stmt.bindersAll body))
    (length : Ts.length = (declaredNames body).length)
    (typed : StmtsTyped (Context.new .one).env true Ty.Equiv
      (Γ.push.bindMonos (declaredNames body) Ts) body R) (tracks : Tracks θ c H Γ) :
    ∃ c₁ r c₂ θ₂, Clean (hoist (body.map (Stmt.mapNotes blank))) { c with env := c.env.push } () c₁ ∧
      Clean (inferStmts (body.map (Stmt.mapNotes blank))) c₁ r c₂ ∧ Extends θ c θ₂ c₂ ∧
      Returns θ₂ c₂.nextVar r.1 R ∧
      Matches θ₂ c₂.nextVar (Stmt.nodesAll body) (Stmt.nodesAll r.2) := by
  obtain ⟨θ₁, H₁, tracks₁, ext₁, has₁⟩ := tracks.enter (NoOperator.declaredNames names) length
  have pending : Pending θ₁ (Context.bindFresh { c with env := c.env.push } (declaredNames body)).env
      (Γ.push.bindMonos (declaredNames body) Ts) (declaredNames body) :=
    .bindMonos (length_freshTys _ _) (has₁.imp fun _ _ has => has.equiv)
  obtain ⟨r, c₂, θ₂, run, ext₂, returns, notes⟩ := stmts_complete ih chapter valid names
    (Validation.repeats_eq_nil.mp repeats).1 typed tracks₁ pending
  refine ⟨_, r, c₂, θ₂, clean_hoist.mpr ⟨?_, tracks.clean⟩, run, ext₁.trans ext₂, returns, notes⟩
  rw [declaredNames_map]

theorem block_complete {tag : Tag Ty} {body : List (Stmt Ty)} (ih : ∀ s ∈ body, StmtComplete s) :
    BlockComplete ⟨tag, body⟩ := by
  intro place Γ R θ c H chapter valid names typed tracks
  rw [Validation.checkBlock, List.append_eq_nil_iff] at valid
  cases typed with
  | mk types stmts note =>
    have inside : (place.enter (Validation.blockFrame body)).chapter = .one := chapter
    obtain ⟨c₁, r, c₂, θ₂, hoisted, run, ext, returns, notes⟩ :=
      body_complete ih inside valid.1 valid.2 names types stmts tracks
    rw [Block.mapNotes_mk]
    exact ⟨_, _, θ₂, clean_block.mpr ⟨c₁, r, c₂, hoisted, run, rfl, rfl⟩, ext.withEnv _, returns,
      notes.cons returns.has rfl note⟩

theorem Tracks.joinBranches {source : String} {pos : Position} {r₁ r₂ R₁ R₂ R : Option Ty}
    (h : Tracks θ c H Γ) (over₁ : (returnTy r₁).Over H) (over₂ : (returnTy r₂).Over H)
    (first : Returns θ c.nextVar r₁ R₁) (second : Returns θ c.nextVar r₂ R₂) (joins : Joins R₁ R₂ R) :
    ∃ r c', Clean (Walk.joinBranches source pos true r₁ r₂) c r c' ∧ Extends θ c θ c' ∧
      Returns θ c'.nextVar r R := by
  cases joins with
  | neither =>
    cases first
    cases second
    exact ⟨none, c, clean_joinBranches.mpr (.inl ⟨rfl, rfl, rfl, rfl, h.clean⟩), h.same, .none⟩
  | @either _ _ T returns left right =>
    have has₁ := first.has.congr left
    have has₂ := second.has.congr right
    obtain ⟨c', unified, _, ext, _⟩ :=
      h.unify over₁ over₂ has₁.flat has₂.flat (has₁.equiv.trans has₂.equiv.symm)
    have returns' : ¬(r₁ = none ∧ r₂ = none) := by
      rintro ⟨rfl, rfl⟩
      cases first
      cases second
      exact returns ⟨rfl, rfl⟩
    exact ⟨_, c', clean_joinBranches.mpr (.inr ⟨returns', rfl, unified, h.clean⟩), ext,
      .some (ext.has has₁)⟩

theorem if_complete {tag : Tag Ty} {e : Expr Ty} {b : Block Ty} {a : Alternate Ty}
    (ihe : ExprComplete e) (ihb : BlockComplete b) (iha : AlternateComplete a) :
    IfComplete ⟨tag, e, b, a⟩ := by
  intro place Γ R θ c H chapter valid names typed tracks
  simp only [Validation.checkIf, List.append_eq_nil_iff] at valid
  simp only [If.binders, noOperator_append] at names
  cases typed with
  | mk test boolean consequent alternate joins note =>
    obtain ⟨x, c₁, θ₁, run₁, ext₁, has₁, notes₁⟩ :=
      ihe _ _ _ _ _ _ chapter valid.1.1 names.1.1 test tracks
    obtain ⟨H₁, goes₁, over₁⟩ := run₁.expr tracks.good
    have tracks₁ := tracks.next goes₁ ext₁ run₁.2
    obtain ⟨c₂, unified, goes₂, ext₂, tracks₂⟩ := tracks₁.unify over₁ (Ty.over_prim _) has₁.flat
      (Ty.isFlat_prim _) (has₁.equiv.trans boolean)
    obtain ⟨y, c₃, θ₃, run₃, ext₃, returns₃, notes₃⟩ :=
      ihb _ _ _ _ _ _ chapter valid.1.2 names.1.2 consequent tracks₂
    obtain ⟨H₃, goes₃, over₃⟩ := run₃.block tracks₂.good
    have tracks₃ := tracks₂.next goes₃ ext₃ run₃.2
    obtain ⟨z, c₄, θ₄, run₄, ext₄, returns₄, notes₄⟩ :=
      iha _ _ _ _ _ _ chapter valid.2 names.2 alternate tracks₃
    obtain ⟨H₄, goes₄, over₄⟩ := run₄.alternate tracks₃.good
    obtain ⟨returned, c₅, joined, ext₅, returns₅⟩ := (tracks₃.next goes₄ ext₄ run₄.2).joinBranches
      (over₃.mono goes₄.subset) over₄ (ext₄.returns returns₃) returns₄ joins
    have notes := (((ext₂.trans (ext₃.trans ext₄)).matches notes₁).append
      (ext₄.matches notes₃)).append notes₄
    exact ⟨_, c₅, θ₄, clean_if.mpr ⟨x, c₁, c₂, y, c₃, z, c₄, returned, run₁,
      clean_checkTest.mpr ⟨unified, run₁.2⟩, run₃, run₄, joined, rfl⟩,
      ext₁.trans (ext₂.trans (ext₃.trans (ext₄.trans ext₅))), returns₅,
      (ext₅.matches notes).cons returns₅.has rfl note⟩

theorem Tracks.steady {s : Stmt Ty} {R : Option Ty} {r : Option Ty × Stmt Verdict} {H' : Set Var}
    (tracks : Tracks θ c H Γ) (goes : Goes c H c' H') (run : Clean (inferStmt (s.mapNotes blank)) c r c')
    (ext : Extends θ c θ' c') (returns : Returns θ' c'.nextVar r.1 R)
    (notes : Matches θ' c'.nextVar s.nodes r.2.nodes) :
    ∃ r c' θ', Clean (inferStmt (s.mapNotes blank)) c r c' ∧ Extends θ c θ' c' ∧
      Returns θ' c'.nextVar r.1 R ∧ Matches θ' c'.nextVar s.nodes r.2.nodes ∧ c'.Flat ∧
      c'.env.Paired (Follows θ') Γ ∧ ∀ xs, (∀ x ∈ declaredNames [s], x ∉ xs) →
        Pending θ c.env Γ xs → Pending θ' c'.env Γ xs := by
  have next := tracks.next goes ext run.2
  refine ⟨r, c', θ', run, ext, returns, notes, next.flat, next.paired, fun xs _ pending => ?_⟩
  rw [goes.env]
  exact tracks.pending_agree ext.agree pending

end Statements

theorem infer_complete :
    Hereditary ExprComplete StmtComplete BlockComplete IfComplete AlternateComplete where
  number tag x place Γ T θ c H chapter valid names typed tracks := by
    cases typed with
    | number note =>
      have run : inferExpr ((Expr.number tag x).mapNotes blank) =
          pure (.number, .number (tag.annotate (.typed .number)) x) := by
        rw [Expr.mapNotes_number, inferExpr]
        rfl
      exact tracks.literal run (Matches.cons .nil (.prim _) rfl note)
  text tag s place Γ T θ c H chapter valid names typed tracks := by
    cases typed with
    | text note =>
      have run : inferExpr ((Expr.text tag s).mapNotes blank) =
          pure (.string, .text (tag.annotate (.typed .string)) s) := by
        rw [Expr.mapNotes_text, inferExpr]
        rfl
      exact tracks.literal run (Matches.cons .nil (.prim _) rfl note)
  boolean tag b place Γ T θ c H chapter valid names typed tracks := by
    cases typed with
    | boolean note =>
      have run : inferExpr ((Expr.boolean tag b).mapNotes blank) =
          pure (.boolean, .boolean (tag.annotate (.typed .boolean)) b) := by
        rw [Expr.mapNotes_boolean, inferExpr]
        rfl
      exact tracks.literal run (Matches.cons .nil (.prim _) rfl note)
  null tag place Γ T θ c H chapter valid names typed tracks := by
    cases typed with
    | null found inst note =>
      obtain ⟨t, c', θ', used, ext, has⟩ := tracks.name tag.pos found inst
      exact ⟨_, c', θ', clean_null.mpr ⟨t, used, rfl⟩, ext, has, Matches.cons .nil has rfl note⟩
  name n place Γ T θ c H chapter valid names typed tracks := by
    cases typed with
    | name found inst note =>
      obtain ⟨t, c', θ', used, ext, has⟩ := tracks.name n.pos found inst
      exact ⟨_, c', θ', clean_name.mpr ⟨t, used, rfl⟩, ext, has, Matches.cons .nil has rfl note⟩
  unary _ _ _ := unary_complete
  binary _ _ _ _ := binary_complete
  conditional _ _ _ _ := conditional_complete
  call _ _ _ := call_complete
  arrow _ _ _ := arrow_complete
  arrowBlock _ _ _ := arrowBlock_complete
  assign tag x e _ place Γ T θ c H chapter valid := by
    simp only [Validation.checkExpr, List.append_eq_nil_iff] at valid
    exact absurd valid.1.1 (needsAssignment_ne_nil chapter _ _)
  declare _ _ _ _ := declare_complete
  function _ _ _ _ := functionStmt_complete
  retNothing tag place Γ R Γ' θ c H chapter valid names typed tracks pending := by
    cases typed with
    | retNothing note =>
      have run : Clean (inferStmt ((Stmt.ret tag none).mapNotes blank)) c
          (some .undefined, .ret (tag.annotate (.typed .undefined)) none) c := by
        rw [Stmt.mapNotes_ret, Option.map_none, inferStmt]
        exact clean_pure.mpr ⟨rfl, rfl, tracks.clean⟩
      exact tracks.steady (.refl tracks.good) run tracks.same (.some (.prim _))
        (Matches.cons .nil (.prim _) rfl note)
  ret tag e ih place Γ R Γ' θ c H chapter valid names typed tracks pending := by
    rw [Validation.checkStmt, List.append_eq_nil_iff] at valid
    cases typed with
    | ret value note =>
      obtain ⟨x, c', θ', run, ext, has, notes⟩ := ih _ _ _ _ _ _ chapter valid.2 names value tracks
      obtain ⟨_, goes, _⟩ := run.expr tracks.good
      exact tracks.steady goes (clean_return.mpr ⟨x, run, rfl⟩) ext (.some has)
        (notes.cons has rfl note)
  ifElse b ih place Γ R Γ' θ c H chapter valid names typed tracks pending := by
    cases typed with
    | ifElse branch =>
      obtain ⟨x, c', θ', run, ext, returns, notes⟩ :=
        ih _ _ _ _ _ _ chapter valid names branch tracks
      obtain ⟨_, goes, _⟩ := run.if tracks.good
      exact tracks.steady goes (clean_ifElse.mpr ⟨x, run, rfl⟩) ext returns notes
  block b ih place Γ R Γ' θ c H chapter valid names typed tracks pending := by
    cases typed with
    | block body =>
      obtain ⟨x, c', θ', run, ext, returns, notes⟩ :=
        ih _ _ _ _ _ _ chapter valid names body tracks
      obtain ⟨_, goes, _⟩ := run.block tracks.good
      exact tracks.steady goes (clean_blockStmt.mpr ⟨x, run, rfl⟩) ext returns notes
  expr e ih place Γ R Γ' θ c H chapter valid names typed tracks pending := by
    cases typed with
    | expr value =>
      obtain ⟨x, c', θ', run, ext, _, notes⟩ := ih _ _ _ _ _ _ chapter valid names value tracks
      obtain ⟨_, goes, _⟩ := run.expr tracks.good
      exact tracks.steady goes (clean_exprStmt.mpr ⟨x, run, rfl⟩) ext .none notes
  body _ _ := block_complete
  branch _ _ _ _ := if_complete
  absent place Γ R θ c H chapter valid names typed tracks := by
    cases typed with
    | absent =>
      exact ⟨_, c, θ, clean_absent.mpr ⟨rfl, rfl, tracks.clean⟩, tracks.same, .none, .nil⟩
  otherwise b ih place Γ R θ c H chapter valid names typed tracks := by
    cases typed with
    | block body =>
      obtain ⟨x, c', θ', run, ext, returns, notes⟩ :=
        ih _ _ _ _ _ _ chapter valid names body tracks
      exact ⟨_, c', θ', clean_elseBlock.mpr ⟨x, run, rfl⟩, ext, returns, notes⟩
  elseIf b ih place Γ R θ c H chapter valid names typed tracks := by
    cases typed with
    | elseIf branch =>
      obtain ⟨x, c', θ', run, ext, returns, notes⟩ :=
        ih _ _ _ _ _ _ chapter valid names branch tracks
      exact ⟨_, c', θ', clean_elseIf.mpr ⟨x, run, rfl⟩, ext, returns, notes⟩

end Walk

end Polytype
