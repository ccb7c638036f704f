import Polytype.Proofs.Typing.Complete

/-!
# Inference finds the principal typing

A typing of a program is the same program with types on its nodes. In the first chapter a program
that has one is inferred without errors. What is inferred is most general: every typing is an
instance of it, through one substitution for all nodes.
-/

namespace Polytype

open Walk

variable {α : Type} {c : Context} {θ : Var → Ty}

/-- The same program, with the types of its nodes in the first chapter for notes. -/
structure Typing (p : Program α) (q : Program Ty) : Prop where
  same : q.map bare = p.map bare
  typed : ProgramTyped (Context.new .one).env true Ty.Equiv q

/-- With `θ` for their variables the verdicts are the types in the typing, node by node. -/
def Instantiates (θ : Var → Ty) (a : Program Verdict) (q : Program Ty) : Prop :=
  List.Forall₂ (fun m n => ∃ t, m.note = .typed t ∧ (t.bind θ).Equiv n.note) a.nodes q.nodes

theorem tracks_new : Tracks .var (Context.new .one) ∅ (Context.new .one).env where
  placed := ⟨Prelude.new_good .one, fun _ _ => rfl⟩
  clean := rfl
  flat := Prelude.new_flat
  fits := fits_var
  solved := fun _ _ => .refl _
  paired := .refl fun _ he => .closed (Prelude.closed_new he)

theorem program_complete {q : Program Ty} (valid : Validation.errors .one q = [])
    (names : NoOperator q.binders)
    (typed : ProgramTyped (Context.new .one).env true Ty.Equiv q) :
    ∃ a c θ, Clean (inferProgram (q.map blank)) (Context.new .one) a c ∧ Fits θ ∧
      Instantiates θ (a.map (·.mapTy c.resolve)) q := by
  rw [Validation.errors, List.append_eq_nil_iff] at valid
  obtain ⟨ts, R, length, stmts⟩ := typed
  obtain ⟨c₁, r, c₂, θ, hoisted, run, ext, _, notes⟩ :=
    body_complete (fun s _ => infer_complete.forStmt s) rfl valid.1 valid.2 names length stmts
      tracks_new
  rw [Program.map_eq]
  refine ⟨_, _, θ, clean_program.mpr ⟨c₁, r, c₂, hoisted, run, rfl, rfl⟩, ext.fits, ?_⟩
  obtain ⟨rfl, _⟩ := clean_hoist.mp hoisted
  obtain ⟨H₁, placed⟩ := tracks_new.placed.enter (NoOperator.declaredNames names)
  rw [← declaredNames_map blank] at placed
  obtain ⟨H₂, reach, noted, _⟩ := run.stmts placed.good
  have sane := Reach.sane reach placed.good.sane
  rw [Instantiates, Program.nodes_map, List.forall₂_map_left_iff]
  refine forall₂_imp_mem notes.flip fun m hm n => ?_
  rintro ⟨t, note, has⟩
  have resolved := sane.equiv_resolve (noted m hm t note) ext.solved
  exact ⟨_, congrArg (Verdict.mapTy _) note, resolved.symm.trans has.equiv⟩

theorem Typing.exists_infer {p : Program α} {q : Program Ty} (h : Typing p q)
    (valid : Validation.errors .one p = []) (names : NoOperator p.binders) :
    ∃ a c θ, Clean (inferProgram (p.map fun _ => Verdict.pending)) (Context.new .one) a c ∧
      Fits θ ∧ Instantiates θ (a.map (·.mapTy c.resolve)) q := by
  have blanked : p.map (fun _ => Verdict.pending) = q.map blank := by
    have refill := congrArg (Program.map fun _ => Verdict.pending) h.same
    rw [Program.map_map, Program.map_map] at refill
    exact refill.symm
  rw [blanked]
  refine program_complete ?_ ?_ h.typed
  · rw [← Validation.errors_map bare, h.same, Validation.errors_map, valid]
  · rw [← Program.binders_map bare, h.same, Program.binders_map]
    exact names

/-- A program that has a typing is inferred without errors. What is inferred is well typed too, where a
name may have an instance of its type before its declaration, and all typings are instances of it. -/
theorem infer_principal {p : Program α} {p' : Program Verdict} (accepted : validate .one p = .ok p')
    (names : NoOperator p.binders) (typable : ∃ q, Typing p q) :
    ∃ a c, infer .one p = .ok (a, c) ∧ c.errors = [] ∧ a.map bare = p.map bare ∧
      ProgramTyped (Context.new .one).env false (fun note T => ∃ t, note = .typed t ∧ t.Equiv T) a ∧
      ∀ q, Typing p q → ∃ θ, Fits θ ∧ Instantiates θ a q := by
  have valid := Validation.errors_of_validate accepted
  obtain ⟨q, typing⟩ := typable
  obtain ⟨a, c, _, run, _, _⟩ := typing.exists_infer valid names
  obtain ⟨inferred, clean⟩ := infer_clean.mpr ⟨valid, a, run, rfl⟩
  obtain ⟨same, typed⟩ := program_typed valid names run
  refine ⟨_, c, inferred, clean, same, typed, fun q typing => ?_⟩
  -- Every typing comes with a run, and there is only one.
  obtain ⟨a', c', θ, run', fits, inst⟩ := typing.exists_infer valid names
  cases run.1.symm.trans run'.1
  exact ⟨θ, fits, inst⟩

/-! ## A typed program -/

namespace Doubling

def endo (t : Ty) : Ty := .func [t] t

def name (x : String) (t : Ty) : Name Ty := ⟨⟨{}, t⟩, x⟩

def arrow (x : String) (t : Ty) (body : Expr Ty) : Expr Ty := .arrow ⟨{}, endo t⟩ [name x t] body

def call (t : Ty) (f x : Expr Ty) : Expr Ty := .call ⟨{}, t⟩ f [x]

def var : Var := ⟨0, false⟩

/-- The type of `twice`, which applies a function two times. -/
def twice : Ty := endo (endo (.var var))

def function : Expr Ty :=
  let f : Expr Ty := .name (name "f" (endo (.var var)))
  arrow "f" (endo (.var var)) (arrow "x" (.var var)
    (call (.var var) f (call (.var var) f (.name (name "x" (.var var))))))

def apply (t : Ty) (f x : Expr Ty) : Expr Ty :=
  call t (call (endo t) (.name (name "twice" (endo (endo t)))) f) x

def negate : Expr Ty := arrow "b" .boolean (.unary ⟨{}, .boolean⟩ .not (.name (name "b" .boolean)))

def exclaim : Expr Ty :=
  arrow "s" .string (.binary ⟨{}, .string⟩ .add (.name (name "s" .string)) (.text ⟨{}, .string⟩ "!"))

/-- The function is used before its declaration, and after it at two types. -/
def program : Program Ty :=
  ⟨[.expr (.name (name "twice" twice)),
    .declare ⟨{}, twice⟩ .constant (name "twice" twice) function,
    .expr (.conditional ⟨{}, .string⟩
      (apply .boolean negate (.boolean ⟨{}, .boolean⟩ true))
      (apply .string exclaim (.text ⟨{}, .string⟩ "hello"))
      (.text ⟨{}, .string⟩ "bye"))]⟩

def before : Env := (Context.new .one).env.push.bind "twice" (.mono twice)

def scheme : Scheme := ⟨[var], twice⟩

def after : Env := before.bind "twice" scheme

theorem scheme_instance (t : Ty) : scheme.Instance (endo (endo t)) :=
  ⟨fun _ => t, by simp [Scheme.Admits, scheme, var], .refl _⟩

theorem generalizes : Generalizes (before.erase "twice") twice scheme := by
  have closed (v : Var) : ¬(before.erase "twice").FreeIn v := by
    rintro ⟨entry, he, free⟩
    have prelude : entry ∈ (Context.new .one).env.entries := he
    exact Prelude.closed_new prelude v free
  exact ⟨rfl, fun v => by simp [closed, scheme, twice, endo, Ty.vars, Ty.varsAll]⟩

section Derivation

variable {noted : Ty → Ty → Prop} (note : ∀ t, noted t t)
include note

theorem name_typed {Γ : Env} {x : String} {t : Ty} (found : Γ.lookup x = some (.mono t)) :
    ExprTyped (Context.new .one).env true noted Γ (.name (name x t)) t :=
  .name found (Scheme.instance_mono.mpr (.refl t)) (note t)

theorem arrow_typed {Γ : Env} {x : String} {t : Ty} {body : Expr Ty}
    (typed : ExprTyped (Context.new .one).env true noted (Γ.push.bind x (.mono t)) body t) :
    ExprTyped (Context.new .one).env true noted Γ (arrow x t body) (endo t) :=
  .arrow (.cons (note t) .nil) typed (note _)

theorem call_typed {Γ : Env} {t u : Ty} {f x : Expr Ty}
    (hf : ExprTyped (Context.new .one).env true noted Γ f (.func [u] t))
    (hx : ExprTyped (Context.new .one).env true noted Γ x u) :
    ExprTyped (Context.new .one).env true noted Γ (call t f x) t :=
  .call hf (.cons hx .nil) (.refl _) (note t)

theorem function_typed : ExprTyped (Context.new .one).env true noted before function twice :=
  arrow_typed note (arrow_typed note (call_typed note (name_typed note rfl)
    (call_typed note (name_typed note rfl) (name_typed note rfl))))

theorem apply_typed {t : Ty} {f x : Expr Ty}
    (hf : ExprTyped (Context.new .one).env true noted after f (endo t))
    (hx : ExprTyped (Context.new .one).env true noted after x t) :
    ExprTyped (Context.new .one).env true noted after (apply t f x) t :=
  call_typed note (call_typed note (.name rfl (scheme_instance t) (note _)) hf) hx

theorem negate_typed :
    ExprTyped (Context.new .one).env true noted after negate (endo .boolean) :=
  arrow_typed note (.unary rfl (name_typed note rfl)
    ⟨.var, fun _ hv => absurd hv List.not_mem_nil, .refl _⟩ (note _))

theorem exclaim_typed :
    ExprTyped (Context.new .one).env true noted after exclaim (endo .string) :=
  arrow_typed note (.binary rfl (name_typed note rfl) (.text (note _))
    ⟨fun _ => .string, fun _ _ _ => .inr (.inl rfl), .refl _⟩ (note _))

end Derivation

theorem typed : ProgramTyped (Context.new .one).env true Ty.Equiv program := by
  have first : StmtTyped (Context.new .one).env true Ty.Equiv before
      (.expr (.name (name "twice" twice))) none before := .expr (name_typed .refl rfl)
  have second : StmtTyped (Context.new .one).env true Ty.Equiv before
      (.declare ⟨{}, twice⟩ .constant (name "twice" twice) function) none after :=
    .constant (function_typed .refl) (.refl _) (function_typed fun _ => trivial) (.refl _)
      ⟨rfl, generalizes, scheme_instance _, fun _ => rfl⟩ (.refl _) (.refl _)
  refine ⟨[twice], _, rfl, .cons first (.cons second (.cons (.expr (t := .string) ?_) .nil))⟩
  exact .conditional (apply_typed .refl (negate_typed .refl) (.boolean (.refl _))) (.refl _)
    (apply_typed .refl (exclaim_typed .refl) (.text (.refl _))) (.refl _) (.text (.refl _)) (.refl _)
    (.refl _)

/-- The program as it is before inference. -/
def untyped : Program Unit := program.map bare

theorem typing : Typing untyped program := ⟨(Program.map_bare bare program).symm, typed⟩

end Doubling

theorem infer_principal_doubling :
    ∃ p', (validate .one Doubling.untyped = .ok p' ∧ NoOperator Doubling.untyped.binders ∧
        Typing Doubling.untyped Doubling.program) ∧
      ∃ a c, infer .one Doubling.untyped = .ok (a, c) ∧ c.errors = [] ∧
        a.map bare = Doubling.untyped.map bare ∧
        ProgramTyped (Context.new .one).env false (fun note T => ∃ t, note = .typed t ∧ t.Equiv T) a ∧
        ∀ q, Typing Doubling.untyped q → ∃ θ, Fits θ ∧ Instantiates θ a q := by
  have valid : Validation.errors .one Doubling.untyped = [] := by
    rw [Doubling.untyped, Validation.errors_map]
    decide +kernel
  have accepted := Validation.validate_of_errors valid
  have names : NoOperator Doubling.untyped.binders := by
    rw [Doubling.untyped, Program.binders_map]
    unfold NoOperator
    decide +kernel
  exact ⟨_, ⟨accepted, names, Doubling.typing⟩, infer_principal accepted names ⟨_, Doubling.typing⟩⟩

end Polytype
