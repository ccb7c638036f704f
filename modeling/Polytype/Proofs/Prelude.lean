import Polytype.Proofs.Steps

/-!
# The prelude

All schemes of the prelude are closed, and each has variables of its own. So a new context is good.
An operator is found as a function of as many operands as it takes.
-/

namespace Polytype

/-- The scheme has no free variables, and its quantified ones are numbered from 0 on. -/
def Scheme.Neat (σ : Scheme) : Prop :=
  (∀ v ∈ σ.ty.vars, v ∈ σ.vars) ∧ (∀ v ∈ σ.vars, v ∈ σ.ty.vars) ∧
    (∀ v ∈ σ.vars, v.id < σ.vars.length) ∧ ∀ v ∈ σ.vars, ∀ w ∈ σ.vars, v.id = w.id → v = w

instance (σ : Scheme) : Decidable σ.Neat := inferInstanceAs (Decidable (_ ∧ _ ∧ _ ∧ _))

namespace Prelude

theorem neat_operators : ∀ entry ∈ operators, entry.2.Neat := by decide

theorem neat_basics : ∀ entry ∈ basics, entry.2.Neat := by decide

theorem neat_lists : ∀ entry ∈ lists ++ listUpdates, entry.2.Neat := by decide

theorem neat_entries (chapter : Chapter) : ∀ entry ∈ entries chapter, entry.2.Neat := by
  intro entry he
  rw [entries, List.mem_append, List.mem_append, List.mem_append] at he
  rcases he with ((he | he) | he) | he
  · exact neat_operators entry he
  · exact neat_basics entry he
  · split at he
    · exact neat_lists entry (List.mem_append_left _ he)
    · cases he
  · split at he
    · exact neat_lists entry (List.mem_append_right _ he)
    · cases he

theorem mem_vars_shift {t : Ty} {n : Nat} {v : Var} :
    v ∈ (t.shift n).vars ↔ ∃ w ∈ t.vars, w.shift n = v := by
  rw [Ty.shift, Ty.vars_bind, List.mem_flatMap]
  simp only [Ty.vars, List.mem_singleton, eq_comm]

theorem numbered_closed (n : Nat) (es : List Entry) (neat : ∀ entry ∈ es, entry.2.Neat) :
    n ≤ (numbered n es).2 ∧ ∃ k : Nat → Bool, ∀ entry ∈ (numbered n es).1,
      (∀ v ∈ entry.2.ty.vars, v ∈ entry.2.vars ∧ v.addable = k v.id ∧ n ≤ v.id ∧
        v.id < (numbered n es).2) ∧ ∀ v ∈ entry.2.vars, v ∈ entry.2.ty.vars := by
  induction es generalizing n with
  | nil => exact ⟨le_rfl, fun _ => false, by simp [numbered]⟩
  | cons entry es ih =>
    obtain ⟨name, σ⟩ := entry
    obtain ⟨first, others⟩ := List.forall_mem_cons.mp neat
    obtain ⟨closed, used, below, distinct⟩ : σ.Neat := first
    obtain ⟨le, k, rest⟩ := ih (n + σ.vars.length) others
    refine ⟨Nat.le_of_add_right_le le,
      fun i => if i < n + σ.vars.length then ⟨i - n, true⟩ ∈ σ.vars else k i, ?_⟩
    rw [numbered, List.forall_mem_cons]
    refine ⟨⟨fun v hv => ?_, fun v hv => ?_⟩, fun entry he => ?_⟩
    · obtain ⟨w, hw, rfl⟩ := mem_vars_shift.mp hv
      have bound := closed w hw
      have small := below w bound
      refine ⟨List.mem_map_of_mem bound, ?_, Nat.le_add_left _ _, ?_⟩
      · have lt : (w.shift n).id < n + σ.vars.length := by
          show w.id + n < n + σ.vars.length
          omega
        dsimp only
        rw [if_pos lt]
        show w.addable = decide ((⟨w.id + n - n, true⟩ : Var) ∈ σ.vars)
        rw [Nat.add_sub_cancel]
        obtain ⟨i, addable⟩ := w
        cases addable with
        | true => simpa using bound
        | false =>
          -- With the other flag it would be another variable of the same number.
          have other : (⟨i, true⟩ : Var) ∉ σ.vars := fun mem => by
            cases distinct _ mem _ bound rfl
          simpa using other
      · show w.id + n < (numbered (n + σ.vars.length) es).2
        omega
    · obtain ⟨w, hw, rfl⟩ := List.mem_map.mp hv
      exact mem_vars_shift.mpr ⟨w, used w hw, rfl⟩
    · obtain ⟨vars, quantified⟩ := rest entry he
      refine ⟨fun v hv => ?_, quantified⟩
      obtain ⟨bound, flag, above, small⟩ := vars v hv
      refine ⟨bound, ?_, by omega, small⟩
      dsimp only
      rw [if_neg (by omega)]
      exact flag

theorem mem_of_mem_ofList {es : List Entry} {entry : Entry} (h : entry ∈ Scope.ofList es) :
    entry ∈ es := by
  have fold (es : List Entry) (scope : Scope) :
      entry ∈ es.foldl (fun scope (name, scheme) => scope.bind name scheme) scope →
        entry ∈ scope ∨ entry ∈ es := by
    induction es generalizing scope with
    | nil => exact .inl
    | cons e es ih =>
      intro h
      rcases ih _ h with h | h
      · rcases List.mem_cons.mp h with rfl | h
        · exact .inr List.mem_cons_self
        · exact .inl (List.mem_filter.mp h).1
      · exact .inr (List.mem_cons_of_mem _ h)
  exact (fold es [] h).resolve_left List.not_mem_nil

theorem nextVar_new (chapter : Chapter) :
    (Context.new chapter).nextVar = (numbered 0 (entries chapter)).2 := rfl

theorem outermost_new (chapter : Chapter) :
    (Context.new chapter).env.outermost = Scope.ofList (numbered 0 (entries chapter)).1 := rfl

theorem mem_entries_new {chapter : Chapter} {entry : Entry}
    (he : entry ∈ (Context.new chapter).env.entries) :
    entry ∈ (numbered 0 (entries chapter)).1 := by
  rcases Env.mem_entries.mp he with ⟨scope, hs, _⟩ | he
  · cases hs
  · exact mem_of_mem_ofList he

theorem closed_new {chapter : Chapter} {entry : Entry}
    (he : entry ∈ (Context.new chapter).env.entries) (v : Var) : ¬entry.2.Free v := by
  obtain ⟨_, k, closed⟩ := numbered_closed 0 (entries chapter) (neat_entries chapter)
  rintro ⟨hv, free⟩
  exact free ((closed entry (mem_entries_new he)).1 v hv).1

/-- The variables that go to the schemes of the prelude. -/
def vars (chapter : Chapter) : Set Var :=
  {v | ∃ entry ∈ (numbered 0 (entries chapter)).1, v ∈ entry.2.vars}

theorem new_regular (chapter : Chapter) : ∃ k, Regular k (Context.new chapter) (vars chapter) := by
  obtain ⟨_, k, closed⟩ := numbered_closed 0 (entries chapter) (neat_entries chapter)
  refine ⟨k, List.Pairwise.nil, Unify.idempotent_empty, .empty, ?_, ?_, ?_, ?_⟩
  · exact fun hn => absurd hn (Finset.notMem_empty _)
  · exact fun found => absurd found (Option.some_ne_none _).symm
  · intro entry he
    obtain ⟨vars, quantified⟩ := closed entry (mem_entries_new he)
    exact ⟨fun v hv => ⟨(vars v hv).2.1, (vars v hv).2.2.2⟩, quantified⟩
  · rintro v ⟨entry, he, hv⟩
    obtain ⟨vars, quantified⟩ := closed entry he
    exact ⟨(vars v (quantified v hv)).2.1, (vars v (quantified v hv)).2.2.2⟩

theorem new_good (chapter : Chapter) : Good (Context.new chapter) ∅ := by
  obtain ⟨k, regular⟩ := new_regular chapter
  refine ⟨⟨k, regular.mono (Set.empty_subset _)⟩, fun entry he q hq => ?_⟩
  refine ⟨Finset.notMem_empty _, ?_, fun hv => absurd hv (Set.notMem_empty _), fun he' v hv => ?_⟩
  · intro n hn eq
    have below := (regular.held ⟨entry, mem_entries_new he, hq⟩).2
    rw [← eq] at below
    exact Nat.lt_irrefl _ (below.trans_le hn)
  · exact absurd hv (closed_new he' v)

theorem full_all : ∀ entry ∈ operators ++ basics ++ lists ++ listUpdates,
    ∀ n < entry.2.vars.length, ∃ v ∈ entry.2.vars, v.id = n := by decide

theorem mem_all {chapter : Chapter} {entry : Entry} (he : entry ∈ entries chapter) :
    entry ∈ operators ++ basics ++ lists ++ listUpdates := by
  unfold entries at he
  grind

theorem numbered_full (n : Nat) (es : List Entry)
    (full : ∀ entry ∈ es, ∀ i < entry.2.vars.length, ∃ v ∈ entry.2.vars, v.id = i) {m : Nat}
    (above : n ≤ m) (below : m < (numbered n es).2) :
    ∃ entry ∈ (numbered n es).1, ∃ v ∈ entry.2.vars, v.id = m := by
  induction es generalizing n with
  | nil =>
    rw [numbered] at below
    omega
  | cons entry es ih =>
    obtain ⟨name, σ⟩ := entry
    obtain ⟨first, others⟩ := List.forall_mem_cons.mp full
    rw [numbered] at below ⊢
    by_cases inside : m < n + σ.vars.length
    · obtain ⟨v, hv, same⟩ := first (m - n) (by dsimp only; omega)
      refine ⟨_, List.mem_cons_self, v.shift n, List.mem_map_of_mem hv, ?_⟩
      show v.id + n = m
      omega
    · obtain ⟨entry, he, found⟩ := ih _ others (by omega) below
      exact ⟨entry, List.mem_cons_of_mem _ he, found⟩

theorem mem_vars_new {chapter : Chapter} {n : Nat} (hn : n < (Context.new chapter).nextVar) :
    ∃ v ∈ vars chapter, v.id = n := by
  obtain ⟨entry, he, v, hv, same⟩ :=
    numbered_full 0 (entries chapter) (fun entry he => full_all entry (mem_all he)) (Nat.zero_le n) hn
  exact ⟨v, ⟨entry, he, hv⟩, same⟩

/-! ## Operators -/

theorem lookup_unary (chapter : Chapter) (op : UnaryOp) :
    ∃ vars a t, (Context.new chapter).env.lookup op.key = some ⟨vars, .func [a] t⟩ := by
  cases op <;> cases chapter <;> exact ⟨_, _, _, rfl⟩

theorem lookup_binary (chapter : Chapter) (op : BinaryOp) :
    ∃ vars a b t, (Context.new chapter).env.lookup op.key = some ⟨vars, .func [a, b] t⟩ := by
  cases op <;> cases chapter <;> exact ⟨_, _, _, _, rfl⟩

theorem mem_keys_unary (op : UnaryOp) : op.key ∈ operators.map (·.1) := by
  cases op <;> decide

theorem mem_keys_binary (op : BinaryOp) : op.key ∈ operators.map (·.1) := by
  cases op <;> decide

end Prelude

end Polytype
