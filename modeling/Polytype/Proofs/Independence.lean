import Polytype.Proofs.Folding
import Polytype.Proofs.Hygiene
import Polytype.Proofs.Renaming.Walk
import Polytype.Proofs.Walk.Bare

/-!
# Runs do not interfere

A program that is analysed in a context used before comes out as in a context of its own: its errors
read the same, and so do its verdicts, whatever notes it carried (`analyse_independent`). What was
found for it stays as it is, whatever the context is used for later.

The two runs differ by the numbers of their variables. A used context has handed out more of them,
but it knows nothing about those of the prelude and nothing about those to come. So it mirrors a new
one (`Ready.mirror`), and the walk keeps to that.
-/

namespace Polytype

variable {α β : Type} {chapter : Chapter} {c c' : Context} {H : Set Var} {t : Ty}

/-! ## What is resolved stays so -/

/-- In list form, with nothing in it that is bound or still to be handed out. -/
structure Fixed (c : Context) (t : Ty) : Prop where
  folded : t.foldLists = t
  ids {n : Nat} (hn : n ∈ t.ids) : n < c.nextVar ∧ n ∉ c.subst.keys

theorem Fixed.resolve (h : Fixed c t) : c.resolve t = t := by
  have unbound : Disjoint t.ids c.subst.keys := Finset.disjoint_left.mpr fun n hn => (h.ids hn).2
  rw [Context.resolve, Context.apply, Subst.apply_disjoint unbound, h.folded]

theorem Sane.fixed_resolve (h : Sane c H) (ht : t.Over H) : Fixed c (c.resolve t) := by
  obtain ⟨k, regular⟩ := h
  refine ⟨Ty.foldLists_foldLists _, fun {n} hn => ?_⟩
  obtain ⟨v, hv, rfl⟩ := Ty.mem_ids.mp hn
  have known : v ∈ (c.apply t).vars := Ty.mem_vars_foldLists _ hv
  refine ⟨(regular.over_apply (regular.known ht) v known).2, ?_⟩
  exact Finset.disjoint_left.mp (regular.idempotent.disjoint_apply t) (Ty.mem_ids.mpr ⟨v, known, rfl⟩)

theorem Fixed.reach (h : Fixed c t) (ready : Ready chapter c) (run : Reach (c, ∅) (c', H)) :
    Fixed c' t := by
  obtain ⟨_, stays⟩ := run.closed ready.good.sane (ready.closed le_rfl)
  refine ⟨h.folded, fun hn => ⟨(h.ids hn).1.trans_le run.next_le, fun bound => ?_⟩⟩
  rcases stays.keys bound with old | new
  · exact (h.ids hn).2 old
  · exact Nat.not_le.mpr (h.ids hn).1 new

/-- A state of a context that is in use from `c` on: between two uses, or while a program is
analysed, before or after a piece of it. -/
inductive Later (c : Context) : Context → Prop
  | between {c' : Context} (turns : Relation.ReflTransGen Turn c c') : Later c c'
  | before {α : Type} {c₀ c' : Context} {p : Program α} {q : Piece α} {stack : Stack p q}
      (turns : Relation.ReflTransGen Turn c c₀) (visit : Visits p c₀ q c' stack) : Later c c'
  | after {α : Type} {c₀ c' : Context} {p : Program α} {q : Piece α} {stack : Stack p q}
      (turns : Relation.ReflTransGen Turn c c₀) (visit : Visits p c₀ q c' stack) :
      Later c (q.walk.run c').2

theorem Fixed.turns (h : Fixed c t) (ready : Ready chapter c)
    (turns : Relation.ReflTransGen Turn c c') : Ready chapter c' ∧ Fixed c' t := by
  induction turns with
  | refl => exact ⟨ready, h⟩
  | tail _ turn ih =>
    obtain ⟨ready, fixed⟩ := ih
    cases turn with
    | analyse p d =>
      obtain ⟨_, goes, _⟩ := (Walk.inferProgram_steady p).goes ready.good
      exact ⟨ready.analyse p, fixed.reach ready goes.reach⟩
    | takeErrors d => exact ⟨ready.takeErrors, ⟨fixed.folded, fixed.ids⟩⟩

theorem Fixed.later (h : Fixed c t) (ready : Ready chapter c) (later : Later c c') : Fixed c' t := by
  cases later with
  | between turns => exact (h.turns ready turns).2
  | before turns visit =>
    obtain ⟨ready, fixed⟩ := h.turns ready turns
    obtain ⟨_, H, reach, _⟩ := visit.safe ready.good
    exact fixed.reach ready reach
  | @after _ c₀ d p q stack turns visit =>
    obtain ⟨ready, fixed⟩ := h.turns ready turns
    obtain ⟨_, H, reach, _⟩ := visit.safe ready.good
    obtain ⟨H', rest, _⟩ := q.safe.traced d H (reach.sane ready.good.sane)
    exact fixed.reach ready (reach.trans rest)

theorem fixed_note (ready : Ready chapter c) (p : Program α) :
    ∀ node ∈ (analyse p c).1.nodes, ∀ t, node.note = .typed t → Fixed (analyse p c).2 t := by
  obtain ⟨H, reach, _, noted, _⟩ := Walk.inferProgram_steady p ready.good.sane
  intro node hnode t typed
  rw [analyse_eq, Program.nodes_map] at hnode
  obtain ⟨raw, hraw, rfl⟩ := List.mem_map.mp hnode
  have overH := noted raw hraw
  cases found : raw.note with
  | typed u =>
    obtain rfl : Context.resolve _ u = t := by
      rw [Node.mapNote, Tag.mapNote_note, found] at typed
      exact Verdict.typed.inj typed
    exact (reach.sane ready.good.sane).fixed_resolve (overH u found)
  | pending | untypable =>
    rw [Node.mapNote, Tag.mapNote_note, found] at typed
    cases typed

/-! ## The same run with other numbers -/

theorem Prelude.wider_new {T : Transfer} (base : T.base = (Context.new chapter).nextVar) :
    Scope.Wider T (Context.new chapter).env.outermost (Context.new chapter).env.outermost := by
  obtain ⟨k, regular⟩ := (Prelude.new_good chapter).sane
  refine .of_fixed fun entry he v hv => if_pos ?_
  obtain ⟨known, quantified⟩ := regular.env (Env.mem_entries.mpr (.inr he))
  rw [base]
  exact (known v (hv.elim (quantified v) id)).2

/-- How a run in a new context is seen in `c`. -/
def Context.transfer (chapter : Chapter) (c : Context) : Transfer where
  base := (Context.new chapter).nextVar
  offset := c.nextVar - (Context.new chapter).nextVar
  earlier := c.errors
  extra := []
  closed := by simp

/-- A context that has been used knows no more than a new one about the variables of the prelude and
about those to come. -/
theorem Ready.mirror (ready : Ready chapter c) :
    Mirror (c.transfer chapter) (Context.new chapter) c := by
  obtain ⟨k, regular⟩ := ready.good.sane
  have next : c.nextVar = (Context.new chapter).nextVar + (c.transfer chapter).offset :=
    (Nat.add_sub_cancel' ready.next).symm
  refine ⟨Unify.idempotent_empty, regular.idempotent, fun v => ?_, le_rfl, next, ?_, ?_, ?_⟩
  · refine Subst.find?_eq_none_iff.mpr fun bound => ?_
    have above := ready.keys bound
    have below := regular.keys bound
    rw [Transfer.var_id] at above below
    rw [next] at below
    by_cases low : v.id < (c.transfer chapter).base
    · rw [if_pos low] at above
      exact Nat.not_lt.mpr above low
    · rw [if_neg low] at below
      exact low (Nat.lt_of_add_lt_add_right below)
  · rw [ready.env]
    exact ⟨rfl, Prelude.wider_new rfl⟩
  · exact fun entry mem => by cases mem
  · exact (List.append_nil _).symm

/-- The verdict as it is shown at a node. -/
def Verdict.shown (note : Verdict) : Bool × String := (note.isUntypable, note.text)

theorem Verdict.shown_rename {g : Var → Var} (h : Var.Renumbering g) (note : Verdict) :
    (note.rename g).shown = note.shown :=
  congrArg₂ Prod.mk note.isUntypable_rename (note.text_rename h)

theorem declarationTypes_rename {g : Var → Var} (h : Var.Renumbering g) (p : Program Verdict) :
    (p.map (Verdict.rename g)).declarationTypes = p.declarationTypes := by
  have line (s : Stmt Verdict) :
      (s.mapNotes (Verdict.rename g)).declarationType? = s.declarationType? := by
    cases s with
    | declare tag keyword n e =>
      exact congrArg (fun text => some (n.text ++ ": " ++ text)) (tag.note.text_rename h)
    | function tag n ps body =>
      rw [Stmt.mapNotes_function]
      exact congrArg (fun text => some (n.text ++ ": " ++ text)) (tag.note.text_rename h)
    | ret tag e => rw [Stmt.mapNotes_ret]; rfl
    | _ => rfl
  rw [Program.map_eq, Program.declarationTypes, List.filterMap_map, Program.declarationTypes]
  simp only [Function.comp_def, line]

theorem Ready.analyse_mirror (ready : Ready chapter c) {p : Program α} {q : Program β}
    (same : p.map bare = q.map bare) :
    (Polytype.analyse p c).1 =
      (Polytype.analyse q (Context.new chapter)).1.map (c.transfer chapter).note ∧
    Mirror (c.transfer chapter) (Polytype.analyse q (Context.new chapter)).2
      (Polytype.analyse p c).2 := by
  have notes : Polytype.analyse p c = Polytype.analyse q c := by
    rw [analyse_eq, analyse_eq, Walk.inferProgram_congr same]
  rw [notes]
  exact ready.mirror.analyse q fun spare => absurd rfl spare

/-- A program analysed in a context that has been used before gives the same texts as the program
with any other notes in a context of its own, and its verdicts stay resolved. -/
theorem analyse_independent (used : Used chapter c) {p : Program α} {q : Program β}
    (same : p.map bare = q.map bare) :
    (∃ new, (analyse p c).2.errors = c.errors ++ new ∧
      TypeError.report new = TypeError.report (analyse q (Context.new chapter)).2.errors) ∧
    (analyse p c).1.declarationTypes = (analyse q (Context.new chapter)).1.declarationTypes ∧
    (analyse p c).1.map Verdict.shown = (analyse q (Context.new chapter)).1.map Verdict.shown ∧
    ∀ c', Later (analyse p c).2 c' → ∀ node ∈ (analyse p c).1.nodes, ∀ t, node.note = .typed t →
      c'.resolve t = t := by
  have renumbering := (c.transfer chapter).renumbering
  obtain ⟨program, mirror⟩ := used.ready.analyse_mirror same
  refine ⟨⟨_, mirror.errors, TypeError.report_rename renumbering _⟩, ?_, ?_, ?_⟩
  · rw [program]
    exact declarationTypes_rename renumbering _
  · rw [program, Program.map_map]
    exact congrArg (Program.map · _) (funext (Verdict.shown_rename renumbering))
  · intro c' later node hnode t typed
    exact ((fixed_note used.ready p node hnode t typed).later (used.ready.analyse p) later).resolve

/-- A function of general type, and a call of it that fails. -/
def twice : Program Unit :=
  let tag : Tag Unit := ⟨{}, ()⟩
  let name (x : String) : Expr Unit := .name ⟨tag, x⟩
  ⟨[.declare tag .constant ⟨tag, "twice"⟩ (.arrow tag [⟨tag, "f"⟩] (.arrow tag [⟨tag, "x"⟩]
      (.call tag (name "f") [.call tag (name "f") [name "x"]]))),
    .expr (.call tag (name "twice") [.number tag 1])]⟩

/-- With wrong verdicts on all nodes the program is analysed for the second time. Its error is
reported once more, with the text of the first time. -/
theorem analyse_independent_twice :
    let c := (analyse twice (Context.new .two)).2
    let p := twice.map fun _ => Verdict.typed .number
    (Used .two c ∧ p.map bare = twice.map bare) ∧
    (∃ new, (analyse p c).2.errors = c.errors ++ new ∧ c.errors.length = 1 ∧
      TypeError.report new = TypeError.report c.errors) ∧
    (analyse p c).1.declarationTypes = (analyse twice (Context.new .two)).1.declarationTypes ∧
    (analyse p c).1.map Verdict.shown = (analyse twice (Context.new .two)).1.map Verdict.shown ∧
    ∀ c', Later (analyse p c).2 c' → ∀ node ∈ (analyse p c).1.nodes, ∀ t, node.note = .typed t →
      c'.resolve t = t := by
  intro c p
  have used : Used .two c := .single (.analyse twice _)
  have same : p.map bare = twice.map bare := Program.map_bare _ twice
  obtain ⟨⟨new, errors, report⟩, rest⟩ := analyse_independent used same
  exact ⟨⟨used, same⟩, ⟨new, errors, by decide +kernel, report⟩, rest⟩

end Polytype
