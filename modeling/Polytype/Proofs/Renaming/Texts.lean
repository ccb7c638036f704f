import Polytype.Diagnostic
import Polytype.Proofs.Renaming.Unification
import Polytype.Verdict

/-!
# Texts under other numbers

Printed types name their variables in the order of appearance, so the numbers do not show
(`text_rename`). Nor do they show in the messages of errors and in verdicts.
-/

namespace Polytype

variable {g : Var → Var} {β γ : Type}

/-! ## Printing -/

/-- Both have given the same names so far. -/
structure Namer.Matches (g : Var → Var) (n n' : Namer) : Prop where
  names (v : Var) : n'.names.lookup (g v).id = n.names.lookup v.id
  plain : n'.plain = n.plain
  addable : n'.addable = n.addable

/-- Both print the same and give the same names. -/
def Prints (g : Var → Var) (m m' : StateM Namer β) : Prop :=
  ∀ n n', n.Matches g n' → (m'.run n').1 = (m.run n).1 ∧ (m.run n).2.Matches g (m'.run n').2

namespace Prints

variable {m m' : StateM Namer β} {k k' : β → StateM Namer γ}

theorem pure (b : β) : Prints g (pure b) (pure b) := fun _ _ h => ⟨rfl, h⟩

theorem bind (hm : Prints g m m') (hk : ∀ b, Prints g (k b) (k' b)) :
    Prints g (m >>= k) (m' >>= k') := by
  intro n n' h
  obtain ⟨same, h⟩ := hm n n' h
  show ((k' (m'.run n').1).run (m'.run n').2).1 = ((k (m.run n).1).run (m.run n).2).1 ∧
    ((k (m.run n).1).run (m.run n).2).2.Matches g ((k' (m'.run n').1).run (m'.run n').2).2
  rw [same]
  exact hk (m.run n).1 _ _ h

end Prints

theorem name_rename (faithful : Var.Faithful g) (addable : ∀ v, (g v).addable = v.addable) (v : Var) :
    Prints g (modifyGet (Namer.name v)) (modifyGet (Namer.name (g v))) := by
  intro n n' matched
  have names := matched.names v
  show (Namer.name (g v) n').1 = (Namer.name v n).1 ∧
    (Namer.name v n).2.Matches g (Namer.name (g v) n').2
  -- A new name is found under the new number from here on.
  have new (text : String) (w : Var) :
      List.lookup (g w).id (((g v).id, text) :: n'.names) =
        List.lookup w.id ((v.id, text) :: n.names) := by
    have same : ((g w).id == (g v).id) = (w.id == v.id) := faithful w v
    rw [List.lookup_cons, List.lookup_cons, same, matched.names w]
  unfold Namer.name
  rw [names, addable, matched.plain, matched.addable]
  cases n.names.lookup v.id with
  | some text => exact ⟨rfl, matched⟩
  | none =>
    dsimp only
    split
    · exact ⟨rfl, new _, rfl, rfl⟩
    · exact ⟨rfl, new _, rfl, rfl⟩

namespace Ty

@[simp] theorem isFunc_rename (t : Ty) : (t.rename g).isFunc = t.isFunc := by
  cases t with
  | func ps r => rw [rename_func, isFunc, isFunc]
  | _ => rfl

theorem printAll_rename (ts : List Ty) (h : ∀ t ∈ ts, Prints g t.print (t.rename g).print) :
    Prints g (printAll ts) (printAll (ts.map (rename g))) := by
  induction ts with
  | nil => exact .pure _
  | cons t ts ih =>
    obtain ⟨first, rest⟩ := List.forall_mem_cons.mp h
    rw [List.map_cons, printAll, printAll]
    exact .bind first fun _ => .bind (ih rest) fun _ => .pure _

theorem printParams_rename (ts : List Ty) (h : ∀ t ∈ ts, Prints g t.print (t.rename g).print) :
    Prints g (printParams ts) (printParams (ts.map (rename g))) := by
  cases ts with
  | nil => exact .pure _
  | cons p ts =>
    obtain ⟨first, others⟩ := List.forall_mem_cons.mp h
    cases ts with
    | nil =>
      rw [List.map_cons, List.map_nil, printParams, printParams, isFunc_rename]
      exact .bind first fun _ => .pure _
    | cons q ts =>
      obtain ⟨second, rest⟩ := List.forall_mem_cons.mp others
      rw [List.map_cons, List.map_cons, printParams, printParams]
      exact .bind first fun _ => .bind second fun _ => .bind (printAll_rename ts rest) fun _ => .pure _

theorem print_rename (faithful : Var.Faithful g) (addable : ∀ v, (g v).addable = v.addable) (t : Ty) :
    Prints g t.print (t.rename g).print := by
  induction t using Ty.ind with
  | var v => exact name_rename faithful addable v
  | prim p => exact .pure _
  | func ps r ihps ihr =>
    rw [rename_func, print, print]
    exact .bind (printParams_rename ps ihps) fun _ => .bind ihr fun _ => .pure _
  | pair i t ihi iht => exact .bind ihi fun _ => .bind iht fun _ => .pure _
  | list e ihe => exact .bind ihe fun _ => .pure _

theorem text_rename_of_faithful (faithful : Var.Faithful g) (addable : ∀ v, (g v).addable = v.addable)
    (t : Ty) : (t.rename g).text = t.text :=
  (print_rename faithful addable t {} {} ⟨fun _ => rfl, rfl, rfl⟩).1

theorem text_rename (h : Var.Renumbering g) (t : Ty) : (t.rename g).text = t.text :=
  text_rename_of_faithful h.faithful h.addable t

end Ty

/-! ## Verdicts -/

namespace Verdict

def rename (g : Var → Var) : Verdict → Verdict := mapTy (Ty.rename g)

@[simp] theorem isUntypable_rename (note : Verdict) :
    (note.rename g).isUntypable = note.isUntypable := by
  cases note <;> rfl

theorem text_rename (h : Var.Renumbering g) (note : Verdict) : (note.rename g).text = note.text := by
  cases note with
  | typed t => exact Ty.text_rename h t
  | _ => rfl

end Verdict

/-! ## Errors -/

namespace Problem

def rename (g : Var → Var) : Problem → Problem
  | .unboundName name => .unboundName name
  | .operands operator source expected found =>
    .operands operator source (expected.map (Ty.rename g)) (found.map (Ty.rename g))
  | .argumentCount source expected found =>
    .argumentCount source (expected.map (Ty.rename g)) (found.map (Ty.rename g))
  | .arguments source expected found =>
    .arguments source (expected.map (Ty.rename g)) (found.map (Ty.rename g))
  | .test construct source found => .test construct source (found.rename g)
  | .branches construct source consequent alternate =>
    .branches construct source (consequent.rename g) (alternate.rename g)
  | .infinite construct source v ty => .infinite construct source (g v) (ty.rename g)
  | .mismatch construct source expected found =>
    .mismatch construct source (expected.rename g) (found.rename g)

theorem typesText_rename (h : Var.Renumbering g) (separator : String) (ts : List Ty) :
    typesText separator (ts.map (Ty.rename g)) = typesText separator ts := by
  simp only [typesText, List.map_map, Function.comp_def, Ty.text_rename h]

theorem argumentsText_rename (h : Var.Renumbering g) (ts : List Ty) :
    argumentsText (ts.map (Ty.rename g)) = argumentsText ts := by
  cases ts with
  | nil => rfl
  | cons t ts =>
    cases ts with
    | nil => exact congrArg ("an argument of type:\n  " ++ ·) (Ty.text_rename h t)
    | cons u ts =>
      have length : ((t :: u :: ts).map (Ty.rename g)).length = (t :: u :: ts).length :=
        List.length_map _
      exact congrArg₂ (fun n text => toString n ++ " arguments of types:\n  " ++ text) length
        (typesText_rename h ", " (t :: u :: ts))

theorem binaryText_rename (h : Var.Renumbering g) (operator source : String)
    (expected found : List Ty) :
    binaryText operator source (expected.map (Ty.rename g)) (found.map (Ty.rename g)) =
      binaryText operator source expected found := by
  unfold binaryText
  dsimp only
  rw [typesText_rename h, typesText_rename h]

theorem unaryText_rename (h : Var.Renumbering g) (operator source : String) (expected found : Ty) :
    unaryText operator source (expected.rename g) (found.rename g) =
      unaryText operator source expected found := by
  unfold unaryText
  rw [Ty.text_rename h, Ty.text_rename h]

theorem operands_message_rename (h : Var.Renumbering g) (operator source : String)
    (expected found : List Ty) :
    (Problem.operands operator source (expected.map (Ty.rename g)) (found.map (Ty.rename g))).message =
      (Problem.operands operator source expected found).message := by
  have binary := binaryText_rename h operator source expected found
  rcases expected with _ | ⟨a, _ | ⟨b, as⟩⟩ <;> rcases found with _ | ⟨c, _ | ⟨d, cs⟩⟩
  case cons.nil.cons.nil => exact unaryText_rename h operator source a c
  all_goals exact binary

theorem callText_rename (h : Var.Renumbering g) (source : String) (expected found : List Ty) :
    callText source (expected.map (Ty.rename g)) (found.map (Ty.rename g)) =
      callText source expected found := by
  unfold callText
  rw [argumentsText_rename h, argumentsText_rename h]

theorem infiniteText_rename (h : Var.Renumbering g) (construct : Construct) (source : String)
    (v : Var) (t : Ty) :
    infiniteText construct source (g v) (t.rename g) = infiniteText construct source v t := by
  obtain ⟨first, matched⟩ := Ty.print_rename h.faithful h.addable (.var v) {} {} ⟨fun _ => rfl, rfl, rfl⟩
  obtain ⟨second, _⟩ := Ty.print_rename h.faithful h.addable t _ _ matched
  rw [Ty.rename_var] at first second
  unfold infiniteText
  -- Take the pairs of a text and a namer apart, first those of the variable.
  generalize (Ty.var v).print.run {} = var at first second ⊢
  generalize (Ty.var (g v)).print.run {} = var' at first second ⊢
  obtain ⟨_, n⟩ := var
  obtain ⟨_, n'⟩ := var'
  dsimp only at first second ⊢
  generalize t.print.run n = ty at second ⊢
  generalize (t.rename g).print.run n' = ty' at second ⊢
  obtain ⟨_, _⟩ := ty
  obtain ⟨_, _⟩ := ty'
  dsimp only at second ⊢
  rw [first, second]

theorem message_rename (h : Var.Renumbering g) (problem : Problem) :
    (problem.rename g).message = problem.message := by
  cases problem with
  | unboundName name => rfl
  | operands operator source expected found => exact operands_message_rename h _ _ _ _
  | argumentCount source expected found => exact callText_rename h _ _ _
  | arguments source expected found => exact callText_rename h _ _ _
  | infinite construct source v ty => exact infiniteText_rename h _ _ _ _
  | test construct source found =>
    unfold rename message
    dsimp only
    rw [Ty.text_rename h]
  | branches construct source consequent alternate =>
    unfold rename message
    dsimp only
    rw [Ty.text_rename h, Ty.text_rename h]
  | mismatch construct source expected found =>
    unfold rename message
    dsimp only
    rw [Ty.text_rename h, Ty.text_rename h]

end Problem

namespace TypeError

def rename (g : Var → Var) (e : TypeError) : TypeError := { e with problem := e.problem.rename g }

theorem report_rename (h : Var.Renumbering g) (errors : List TypeError) :
    report (errors.map (rename g)) = report errors := by
  have message (e : TypeError) : (e.rename g).message = e.message := by
    rw [TypeError.message, rename, Problem.message_rename h, TypeError.message]
  simp only [report, List.map_map, Function.comp_def, message]

end TypeError

end Polytype
