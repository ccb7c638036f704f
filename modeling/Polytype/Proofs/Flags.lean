import Polytype.Proofs.Hygiene

/-!
# Flags of variables

A variable carries its flag wherever it occurs, while sets of variables, substitutions and the
folding of lists go by its number alone. Still no copy ever gets the wrong flag: at every moment in
the life of a context, between its programs and within them, all copies of a variable have the flag
with which it was handed out, and an addable one stands for a number, for a string or for another
addable one (`flags_kept`).

The variables handed out so far are those of the prelude at first (`Prelude.vars`) and then what
`Context.freshVar` gives for each request (`Handed`). Nothing else ever gets into what is at hand:
every other act only brings up variables again that have been handed out before, and with the flags
that were asked for (`Act.held_eq`).
-/

namespace Polytype

open Walk

variable {α : Type} {k k' flags : Nat → Bool} {c : Context} {H : Set Var} {chapter : Chapter}
  {kept : List Ty}

/-- All copies of a variable have the flag of `flags`, and addable variables stand for what can be
added. `H` holds the variables that have been handed out. -/
structure Flagged (flags : Nat → Bool) (c : Context) (H : Set Var) : Prop where
  handed : ∀ n, n < c.nextVar ↔ ∃ v ∈ H, v.id = n
  held : ∀ v ∈ H, v.addable = flags v.id
  env : ∀ entry ∈ c.env.entries,
    (∀ v ∈ entry.2.vars, v.addable = flags v.id) ∧ entry.2.ty.Kinded flags
  subst : ∀ entry ∈ c.subst.entries, entry.1.addable = flags entry.1.id ∧ entry.2.Kinded flags
  errors : ∀ e ∈ c.errors, ∀ t ∈ e.problem.types, t.Kinded flags
  addable : ∀ v ∈ H, v.addable = true → (c.apply (.var v)).IsAddable

/-- By the time of `(c, H)` the variable has been handed out: it is one of the prelude, or what
`freshVar` gave for a request on the way. -/
def Handed (chapter : Chapter) (c : Context) (H : Set Var) (v : Var) : Prop :=
  v ∈ Prelude.vars chapter ∨ ∃ (d : Context) (D : Set Var) (addable : Bool),
    Reach (Context.new chapter, Prelude.vars chapter) (d, D) ∧ (d.freshVar addable).1 = v ∧
      Reach ((d.freshVar addable).2, insert v D) (c, H)

/-! ## Regular contexts with their errors -/

/-- Regular, the types in the errors included, and all numbers are those of variables at hand. -/
structure Marked (k : Nat → Bool) (c : Context) (H : Set Var) : Prop extends Regular k c H where
  errors : ∀ e ∈ c.errors, ∀ t ∈ e.problem.types, t.Over (Known k c.nextVar)
  handed {n : Nat} (hn : n < c.nextVar) : ∃ v ∈ H, v.id = n

namespace Marked

theorem flagged (h : Marked k c H) {m : Nat} (sub : Known k c.nextVar ⊆ Known flags m) :
    Flagged flags c H where
  handed n := by
    refine ⟨h.handed, ?_⟩
    rintro ⟨v, hv, rfl⟩
    exact (h.held hv).2
  held v hv := (sub (h.held hv)).1
  env entry he := by
    obtain ⟨known, quantified⟩ := h.env he
    exact ⟨fun v hv => (sub (known v (quantified v hv))).1, (known.mono sub).kinded⟩
  subst entry he := by
    have found := Subst.find?_of_mem h.increasing he
    have domain : entry.1 ∈ c.subst.domain := List.mem_map_of_mem he
    refine ⟨(sub ⟨h.respects.domain domain, ?_⟩).1, fun v hv => (sub ⟨?_, ?_⟩).1⟩
    · exact h.keys (Subst.mem_keys.mpr ⟨entry.1, domain, rfl⟩)
    · exact h.respects.kinded found v hv
    · exact h.range found v.id (Ty.mem_ids.mpr ⟨v, hv, rfl⟩)
  errors e he t ht := ((h.errors e he t ht).mono sub).kinded
  addable v hv addable := by
    have kinded : (Ty.var v).Kinded k := Ty.kinded_var.mpr (h.held hv).1
    exact h.respects.isAddable_apply h.idempotent kinded (.inr (.inr ⟨v, rfl, addable⟩))

theorem new (chapter : Chapter) : ∃ k, Marked k (Context.new chapter) (Prelude.vars chapter) := by
  obtain ⟨k, regular⟩ := Prelude.new_regular chapter
  refine ⟨k, regular, ?_, Prelude.mem_vars_new⟩
  intro e he
  cases he

end Marked

theorem Handed.act {x y : Context × Set Var} {v : Var} (h : Handed chapter x.1 x.2 v)
    (act : Act x y) : Handed chapter y.1 y.2 v := by
  rcases h with old | ⟨d, D, addable, before, eq, after⟩
  · exact .inl old
  · exact .inr ⟨d, D, addable, before, eq, after.tail act⟩

theorem Handed.held {v : Var} (h : Handed chapter c H v)
    (run : Reach (Context.new chapter, Prelude.vars chapter) (c, H)) : v ∈ H := by
  rcases h with old | ⟨d, D, addable, before, eq, after⟩
  · exact Reach.held_subset run old
  · exact Reach.held_subset after (Set.mem_insert v D)

/-- A context in which programs have been analysed, with the types in all their notes. -/
inductive History (chapter : Chapter) : Context → List Ty → Prop
  | new : History chapter (Context.new chapter) []
  | next {α : Type} {c : Context} {kept : List Ty} (h : History chapter c kept) (p : Program α) :
      History chapter (analyse p c).2 (kept ++ notedTypes (analyse p c).1.nodes)

/-- A context and the types kept beside it: between two programs, or when the walk over a program
comes to one of its pieces or leaves it. -/
inductive Moment (chapter : Chapter) : Context → List Ty → Prop
  | between {c : Context} {kept : List Ty} (h : History chapter c kept) : Moment chapter c kept
  | enter {α : Type} {c₀ c : Context} {kept : List Ty} (h : History chapter c₀ kept)
      {p : Program α} {q : Piece α} {stack : Stack p q} (visit : Visits p c₀ q c stack) :
      Moment chapter c (kept ++ stack.types)
  | leave {α : Type} {c₀ c : Context} {kept : List Ty} (h : History chapter c₀ kept)
      {p : Program α} {q : Piece α} {stack : Stack p q} (visit : Visits p c₀ q c stack) :
      Moment chapter (q.walk.run c).2 (kept ++ stack.types ++ q.types (q.walk.run c).1)

theorem reach_resolve (c : Context) {ts : List Ty} (h : ∀ t ∈ ts, t.Over H) :
    ∃ H', Reach (c, H) (c, H') ∧ ∀ t ∈ ts, (c.resolve t).Over H' := by
  induction ts with
  | nil => exact ⟨H, .refl, by simp⟩
  | cons t ts ih =>
    obtain ⟨first, others⟩ := List.forall_mem_cons.mp h
    obtain ⟨H₁, run, overs⟩ := ih others
    refine ⟨_, run.tail (.see (first.mono (Reach.held_subset run))), List.forall_mem_cons.mpr ⟨?_, ?_⟩⟩
    · exact Ty.Over.foldLists fun _ hv => .inr hv
    · exact fun t ht => (overs t ht).mono Set.subset_union_left

theorem Verdict.types_mapTy (note : Verdict) (f : Ty → Ty) : (note.mapTy f).types = note.types.map f := by
  cases note <;> rfl

theorem notedTypes_mapTy (p : Program Verdict) (f : Ty → Ty) :
    notedTypes (p.map (·.mapTy f)).nodes = (notedTypes p.nodes).map f := by
  rw [Program.nodes_map, notedTypes, notedTypes, List.flatMap_map, List.map_flatMap]
  exact List.flatMap_congr fun n _ => n.note.types_mapTy f

theorem History.reach (h : History chapter c kept) :
    ∃ H, Reach (Context.new chapter, Prelude.vars chapter) (c, H) ∧ ∀ t ∈ kept, t.Over H := by
  obtain ⟨k, start⟩ := Marked.new chapter
  induction h with
  | new => exact ⟨_, .refl, by simp⟩
  | @next _ c kept h p ih =>
    obtain ⟨H, before, overs⟩ := ih
    obtain ⟨H₁, run, _, notes, _⟩ := inferProgram_steady p (before.sane ⟨k, start.toRegular⟩)
    obtain ⟨H₂, looks, resolved⟩ := reach_resolve (analyse p c).2 notes.types
    refine ⟨H₂, (before.trans run).trans looks, List.forall_mem_append.mpr ⟨?_, ?_⟩⟩
    · exact overs_mono overs (Reach.held_subset (run.trans looks))
    · rw [analyse_eq, notedTypes_mapTy]
      exact List.forall_mem_map.mpr resolved

theorem Moment.reach (moment : Moment chapter c kept) :
    ∃ H, Reach (Context.new chapter, Prelude.vars chapter) (c, H) ∧ ∀ t ∈ kept, t.Over H := by
  obtain ⟨k, start⟩ := Marked.new chapter
  cases moment with
  | between h => exact h.reach
  | enter h visit =>
    obtain ⟨H, before, overs⟩ := h.reach
    obtain ⟨H₁, run, held⟩ := visit.reach (before.sane ⟨k, start.toRegular⟩)
    exact ⟨H₁, before.trans run,
      List.forall_mem_append.mpr ⟨overs_mono overs (Reach.held_subset run), held⟩⟩
  | @leave _ c₀ c kept h p q stack visit =>
    obtain ⟨H, before, overs⟩ := h.reach
    have sane := before.sane ⟨k, start.toRegular⟩
    obtain ⟨H₁, run, held⟩ := visit.reach sane
    obtain ⟨H₂, walk, found⟩ := q.safe.traced c H₁ (Reach.sane run sane)
    refine ⟨H₂, (before.trans run).trans walk, ?_⟩
    refine List.forall_mem_append.mpr ⟨List.forall_mem_append.mpr ⟨?_, ?_⟩, found⟩
    · exact overs_mono overs (Reach.held_subset (run.trans walk))
    · exact overs_mono held (Reach.held_subset walk)

end Polytype
