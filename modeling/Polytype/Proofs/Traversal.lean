import Polytype.Proofs.Slots

/-!
# The two walks over notes

A visitor is handed one note after the other, with a state that it may change. `Tour` says what a walk
with a visitor does, node by node: the children in turn, then the node itself, and nothing else changes.
Both walks are tours (`traverse_tours`, `mapAccum_tours`). A tour comes to the slots in the order in
which they are listed and keeps what is not a note, and this fixes its result (`Visited.unique`). So the
walks agree (`walks_agree`).
-/

namespace Polytype

variable {α β σ : Type}

/-! ## Tours -/

/-- `Tour f ts s us s'`: from the state `s` the visitor `f` turns the notes of `ts` into those of `us`
and ends in the state `s'`. -/
inductive Tour (f : α → StateM σ β) : List (Subtree α) → σ → List (Subtree β) → σ → Prop
  | nil (s : σ) : Tour f [] s [] s
  | cons {t : Subtree α} {u : Subtree β} {ts : List (Subtree α)} {us : List (Subtree β)}
      {s s₁ s₂ s₃ : σ} (inside : Tour f t.children s u.children s₁)
      (visit : (f t.note).run s₁ = (u.note, s₂)) (outline : (u.label, u.pos) = (t.label, t.pos))
      (others : Tour f ts s₂ us s₃) : Tour f (t :: ts) s (u :: us) s₃

namespace Tour

variable {f : α → StateM σ β} {ts ts' : List (Subtree α)} {us us' : List (Subtree β)} {s s' s'' : σ}

theorem append (first : Tour f ts s us s') (second : Tour f ts' s' us' s'') :
    Tour f (ts ++ ts') s (us ++ us') s'' := by
  induction first with
  | nil => exact second
  | cons inside visit outline _ _ ih => exact .cons inside visit outline (ih second)

theorem node {t : Subtree α} {u : Subtree β} (inside : Tour f t.children s u.children s')
    (outline : (u.label, u.pos) = (t.label, t.pos) := by rfl)
    (visit : (f t.note).run s' = (u.note, s'') := by rfl) : Tour f [t] s [u] s'' :=
  .cons inside visit outline (.nil s'')

end Tour

/-- From every state the walk over `x` is a tour of the subtrees that `view` finds in it. -/
def Tours {X : Type → Type} (f : α → StateM σ β) (view : ∀ {α : Type}, X α → List (Subtree α))
    (x : X α) (walk : σ → X β × σ) : Prop :=
  ∀ s, Tour f (view x) s (view (walk s).1) (walk s).2

theorem Tours.list {X : Type → Type} {f : α → StateM σ β} {view : ∀ {α : Type}, X α → Subtree α}
    (walk : X α → σ → X β × σ) (walkAll : List (X α) → σ → List (X β) × σ)
    (nil : ∀ s, walkAll [] s = ([], s))
    (cons : ∀ x xs s, walkAll (x :: xs) s =
      ((walk x s).1 :: (walkAll xs (walk x s).2).1, (walkAll xs (walk x s).2).2))
    (xs : List (X α)) (each : ∀ x ∈ xs, Tours f (fun x => [view x]) x (walk x)) :
    Tours f (List.map view) xs (walkAll xs) := by
  intro s
  induction xs generalizing s with
  | nil =>
    rw [nil]
    exact .nil s
  | cons x xs ih =>
    obtain ⟨first, others⟩ := List.forall_mem_cons.mp each
    rw [cons]
    exact (first s).append (ih others _)

/-! ## Walking in a monad -/

section Traverse

variable (f : α → StateM σ β)

theorem Name.traverse_tours (n : Name α) : Tours f (fun n => [.name n]) n (n.traverse f).run :=
  fun s => .node (.nil s)

theorem Name.traverseAll_tours (ns : List (Name α)) :
    Tours f (List.map .name) ns (traverseAll f ns).run :=
  .list (fun n => (n.traverse f).run) (fun ns => (traverseAll f ns).run) (fun _ => rfl)
    (fun _ _ _ => rfl) ns fun n _ => n.traverse_tours f

theorem Expr.traverseAll_tours (es : List (Expr α))
    (each : ∀ e ∈ es, Tours f (fun e => [.expr e]) e (e.traverse f).run) :
    Tours f (List.map .expr) es (traverseAll f es).run :=
  .list (fun e => (e.traverse f).run) (fun es => (traverseAll f es).run) (fun _ => rfl)
    (fun _ _ _ => rfl) es each

theorem Stmt.traverseAll_tours (ts : List (Stmt α))
    (each : ∀ t ∈ ts, Tours f (fun t => [t.subtree]) t (t.traverse f).run) :
    Tours f (List.map Stmt.subtree) ts (traverseAll f ts).run :=
  .list (fun t => (t.traverse f).run) (fun ts => (traverseAll f ts).run) (fun _ => rfl)
    (fun _ _ _ => rfl) ts each

theorem traverse_tours : Hereditary
    (fun e => Tours f (fun e => [.expr e]) e (e.traverse f).run)
    (fun t => Tours f (fun t => [t.subtree]) t (t.traverse f).run)
    (fun b => Tours f (fun b => [.block b]) b (b.traverse f).run)
    (fun b => Tours f (fun b => [.branch b]) b (b.traverse f).run)
    (fun a => Tours f Alternate.children a (a.traverse f).run) where
  -- What `node` asks for besides the children holds by computing the walk.
  number _ _ s := .node (.nil s)
  text _ _ s := .node (.nil s)
  boolean _ _ s := .node (.nil s)
  null _ s := .node (.nil s)
  name _ s := .node (.nil s)
  unary _ _ _ ih s := .node (ih s)
  binary _ _ _ _ ihl ihr s := .node ((ihl s).append (ihr _))
  conditional _ _ _ _ iht ihc iha s := .node (((iht s).append (ihc _)).append (iha _))
  call _ _ args ihf ihargs s := .node ((ihf s).append (Expr.traverseAll_tours f args ihargs _))
  arrow _ ps _ ih s := .node ((Name.traverseAll_tours f ps s).append (ih _))
  arrowBlock _ ps _ ih s := .node ((Name.traverseAll_tours f ps s).append (ih _))
  assign _ target _ ih s := .node ((Name.traverse_tours f target s).append (ih _))
  declare _ _ n _ ih s := .node ((Name.traverse_tours f n s).append (ih _))
  function _ n ps _ ih s :=
    .node (((Name.traverse_tours f n s).append (Name.traverseAll_tours f ps _)).append (ih _))
  retNothing _ s := .node (.nil s)
  ret _ _ ih s := .node (ih s)
  ifElse _ ih s := ih s
  block _ ih s := ih s
  expr _ ih s := ih s
  body _ body ih s := .node (Stmt.traverseAll_tours f body ih s)
  branch _ _ _ _ iht ihc iha s := .node (((iht s).append (ihc _)).append (iha _))
  absent s := .nil s
  otherwise _ ih s := ih s
  elseIf _ ih s := ih s

theorem Program.traverse_tours (p : Program α) : Tours f Program.children p (p.traverse f).run :=
  Stmt.traverseAll_tours f p.body fun t _ => (Polytype.traverse_tours f).forStmt t

end Traverse

/-! ## Walking with a state -/

/-- The visitor that updates a note and the state. -/
def updating (f : σ → α → σ × α) (note : α) : StateM σ α := modifyGet fun s => (f s note).swap

section MapAccum

variable (f : σ → α → σ × α)

theorem Name.mapAccum_tours (n : Name α) :
    Tours (updating f) (fun n => [.name n]) n fun s => (n.mapAccum f s).swap :=
  fun s => .node (.nil s)

theorem Name.mapAccumAll_tours (ns : List (Name α)) :
    Tours (updating f) (List.map .name) ns fun s => (mapAccumAll f s ns).swap :=
  .list (fun n s => (n.mapAccum f s).swap) (fun ns s => (mapAccumAll f s ns).swap) (fun _ => rfl)
    (fun _ _ _ => rfl) ns fun n _ => n.mapAccum_tours f

theorem Expr.mapAccumAll_tours (es : List (Expr α))
    (each : ∀ e ∈ es, Tours (updating f) (fun e => [.expr e]) e fun s => (e.mapAccum f s).swap) :
    Tours (updating f) (List.map .expr) es fun s => (mapAccumAll f s es).swap :=
  .list (fun e s => (e.mapAccum f s).swap) (fun es s => (mapAccumAll f s es).swap) (fun _ => rfl)
    (fun _ _ _ => rfl) es each

theorem Stmt.mapAccumAll_tours (ts : List (Stmt α))
    (each : ∀ t ∈ ts, Tours (updating f) (fun t => [t.subtree]) t fun s => (t.mapAccum f s).swap) :
    Tours (updating f) (List.map Stmt.subtree) ts fun s => (mapAccumAll f s ts).swap :=
  .list (fun t s => (t.mapAccum f s).swap) (fun ts s => (mapAccumAll f s ts).swap) (fun _ => rfl)
    (fun _ _ _ => rfl) ts each

theorem mapAccum_tours : Hereditary
    (fun e => Tours (updating f) (fun e => [.expr e]) e fun s => (e.mapAccum f s).swap)
    (fun t => Tours (updating f) (fun t => [t.subtree]) t fun s => (t.mapAccum f s).swap)
    (fun b => Tours (updating f) (fun b => [.block b]) b fun s => (b.mapAccum f s).swap)
    (fun b => Tours (updating f) (fun b => [.branch b]) b fun s => (b.mapAccum f s).swap)
    (fun a => Tours (updating f) Alternate.children a fun s => (a.mapAccum f s).swap) where
  number _ _ s := .node (.nil s)
  text _ _ s := .node (.nil s)
  boolean _ _ s := .node (.nil s)
  null _ s := .node (.nil s)
  name _ s := .node (.nil s)
  unary _ _ _ ih s := .node (ih s)
  binary _ _ _ _ ihl ihr s := .node ((ihl s).append (ihr _))
  conditional _ _ _ _ iht ihc iha s := .node (((iht s).append (ihc _)).append (iha _))
  call _ _ args ihf ihargs s := .node ((ihf s).append (Expr.mapAccumAll_tours f args ihargs _))
  arrow _ ps _ ih s := .node ((Name.mapAccumAll_tours f ps s).append (ih _))
  arrowBlock _ ps _ ih s := .node ((Name.mapAccumAll_tours f ps s).append (ih _))
  assign _ target _ ih s := .node ((Name.mapAccum_tours f target s).append (ih _))
  declare _ _ n _ ih s := .node ((Name.mapAccum_tours f n s).append (ih _))
  function _ n ps _ ih s :=
    .node (((Name.mapAccum_tours f n s).append (Name.mapAccumAll_tours f ps _)).append (ih _))
  retNothing _ s := .node (.nil s)
  ret _ _ ih s := .node (ih s)
  ifElse _ ih s := ih s
  block _ ih s := ih s
  expr _ ih s := ih s
  body _ body ih s := .node (Stmt.mapAccumAll_tours f body ih s)
  branch _ _ _ _ iht ihc iha s := .node (((iht s).append (ihc _)).append (iha _))
  absent s := .nil s
  otherwise _ ih s := ih s
  elseIf _ ih s := ih s

theorem Program.mapAccum_tours (p : Program α) :
    Tours (updating f) Program.children p fun s => (p.mapAccum f s).swap :=
  Stmt.mapAccumAll_tours f p.body fun t _ => (Polytype.mapAccum_tours f).forStmt t

end MapAccum

/-! ## What a tour does -/

/-- Hands the note in a slot to a visitor. -/
def Slot.traverse (f : α → StateM σ β) (slot : Slot α) : StateM σ (Slot β) := do
  return { slot with note := ← f slot.note }

theorem mapM_inside (f : α → StateM σ β) (i : Nat) (slots : List (Slot α)) :
    (slots.map (Slot.inside i)).mapM (Slot.traverse f) =
      List.map (Slot.inside i) <$> slots.mapM (Slot.traverse f) := by
  induction slots with
  | nil => simp
  | cons slot slots ih => simp [ih, Slot.traverse, Slot.inside]

theorem run_slotsFrom_cons (f : α → StateM σ β) (start : Nat) (t : Subtree α) (ts : List (Subtree α))
    (s : σ) :
    ((Subtree.slotsFrom start (t :: ts)).mapM (Slot.traverse f)).run s =
      let inside := ((Subtree.slotsFrom 0 t.children).mapM (Slot.traverse f)).run s
      let visit := (f t.note).run inside.2
      let later := ((Subtree.slotsFrom (start + 1) ts).mapM (Slot.traverse f)).run visit.2
      (inside.1.map (Slot.inside start) ++ ⟨[start], visit.1⟩ :: later.1, later.2) := by
  rw [Subtree.slotsFrom, List.mapM_append, List.mapM_cons, mapM_inside]
  rfl

namespace Tour

variable {f : α → StateM σ β} {ts : List (Subtree α)} {us : List (Subtree β)} {s s' : σ}

theorem slots (tour : Tour f ts s us s') (start : Nat) :
    ((Subtree.slotsFrom start ts).mapM (Slot.traverse f)).run s = (Subtree.slotsFrom start us, s') := by
  induction tour generalizing start with
  | nil s =>
    rw [Subtree.slotsFrom, Subtree.slotsFrom]
    rfl
  | cons _ visit _ _ ih_inside ih =>
    -- The slots of the children are listed from 0 again, those of the others from the next number on.
    simp only [run_slotsFrom_cons, ih_inside 0, visit, ih (start + 1)]
    rw [Subtree.slotsFrom]

theorem outlineAt?_eq (tour : Tour f ts s us s') (path : List Nat) :
    Subtree.outlineAt? us path = Subtree.outlineAt? ts path := by
  induction tour generalizing path with
  | nil s => cases path <;> rfl
  | cons _ _ outline _ ih_inside ih =>
    exact Subtree.forall_map_find?_cons.mpr ⟨outline, ih_inside, ih⟩ path

end Tour

namespace Program

/-- Handing the notes of `p` to the visitor slot by slot gives those of `q`, and apart from notes `q` is
the same. -/
structure Visited (f : α → StateM σ β) (p : Program α) (s : σ) (q : Program β) (s' : σ) : Prop where
  slots : (p.slots.mapM (Slot.traverse f)).run s = (q.slots, s')
  outlines (path : List Nat) : q.outlineAt? path = p.outlineAt? path

variable {f : α → StateM σ β} {p : Program α} {q q' : Program β} {s s' s'' : σ}

theorem noteAt?_eq_of_slots_eq (slots : q.slots = q'.slots) (path : List Nat) :
    q.noteAt? path = q'.noteAt? path := by
  ext note
  calc q.noteAt? path = some note
    _ ↔ ⟨path, note⟩ ∈ q.slots := (q.mem_slots ⟨path, note⟩).symm
    _ ↔ ⟨path, note⟩ ∈ q'.slots := by rw [slots]
    _ ↔ q'.noteAt? path = some note := q'.mem_slots ⟨path, note⟩

/-- There is one program that this can be said of. -/
theorem Visited.unique (h : p.Visited f s q s') (h' : p.Visited f s q' s'') : (q, s') = (q', s'') := by
  obtain ⟨slots, states⟩ := Prod.mk.inj (h.slots.symm.trans h'.slots)
  have same : q = q' := ext_at? (fun path => (h.outlines path).trans (h'.outlines path).symm)
    (noteAt?_eq_of_slots_eq slots)
  rw [same, states]

theorem eq_iff_visited {walk : σ → Program β × σ} (tours : Tours f children p walk) :
    walk s = (q, s') ↔ p.Visited f s q s' := by
  have visited : p.Visited f s (walk s).1 (walk s).2 := ⟨(tours s).slots 0, (tours s).outlineAt?_eq⟩
  constructor
  · intro result
    rwa [result] at visited
  · exact visited.unique

end Program

/-! ## Visitors without a state -/

section Pure

variable {m : Type → Type} [Monad m] [LawfulMonad m] (f : α → β)

theorem Name.traverseAll_pure (ns : List (Name α)) :
    traverseAll (m := m) (fun note => pure (f note)) ns = pure (ns.map (mapNote f)) := by
  induction ns with
  | nil => rfl
  | cons n ns ih => simp [traverseAll, traverse, mapNote, ih]

theorem Expr.traverseAll_pure (es : List (Expr α))
    (each : ∀ e ∈ es, e.traverse (m := m) (fun note => pure (f note)) = pure (e.mapNotes f)) :
    traverseAll (m := m) (fun note => pure (f note)) es = pure (es.map (mapNotes f)) := by
  induction es with
  | nil => rfl
  | cons e es ih => simp_all [traverseAll]

theorem Stmt.traverseAll_pure (ts : List (Stmt α))
    (each : ∀ t ∈ ts, t.traverse (m := m) (fun note => pure (f note)) = pure (t.mapNotes f)) :
    traverseAll (m := m) (fun note => pure (f note)) ts = pure (ts.map (mapNotes f)) := by
  induction ts with
  | nil => rfl
  | cons t ts ih => simp_all [traverseAll]

theorem traverse_pure : Hereditary
    (fun e => e.traverse (m := m) (fun note => pure (f note)) = pure (e.mapNotes f))
    (fun t => t.traverse (m := m) (fun note => pure (f note)) = pure (t.mapNotes f))
    (fun b => b.traverse (m := m) (fun note => pure (f note)) = pure (b.mapNotes f))
    (fun b => b.traverse (m := m) (fun note => pure (f note)) = pure (b.mapNotes f))
    (fun a => a.traverse (m := m) (fun note => pure (f note)) = pure (a.mapNotes f)) := by
  have tags (tag : Tag α) :
      tag.traverse (m := m) (fun note => pure (f note)) = pure (tag.mapNote f) := by
    simp [Tag.traverse, Tag.mapNote]
  have names (n : Name α) :
      n.traverse (m := m) (fun note => pure (f note)) = pure (n.mapNote f) := by
    simp [Name.traverse, Name.mapNote]
  constructor
  case call =>
    intro tag callee args ihf ihargs
    simp [Expr.traverse, ihf, Expr.traverseAll_pure f args ihargs, tags]
  case body =>
    intro tag body ih
    simp [Block.traverse, Stmt.traverseAll_pure f body ih, tags]
  all_goals
    intros
    simp_all [Expr.traverse, Stmt.traverse, If.traverse, Alternate.traverse, Name.traverseAll_pure]

theorem Program.traverse_pure (p : Program α) :
    p.traverse (m := m) (fun note => pure (f note)) = pure (p.map f) := by
  rw [map_eq, traverse, Stmt.traverseAll_pure f p.body fun t _ => (Polytype.traverse_pure f).forStmt t]
  simp

end Pure

/-! ## The walks agree -/

/-- Both walks hand the notes of a program to the visitor in one order, in which every slot stands once
and those inside a node stand before its own. What the visitor gives takes the place of the note, and
nothing else changes; this is all there is to say of either walk, so that they have the same result.
Visitors without a state can be put together into one. -/
theorem walks_agree (p : Program α) :
    (p.slots.map Slot.path).Nodup ∧
    (∀ slot, slot ∈ p.slots ↔ p.noteAt? slot.path = some slot.note) ∧
    (p.slots.Pairwise fun a b => Before a.path b.path) ∧
    (∀ (β σ : Type) (f : α → StateM σ β) (s s' : σ) (q : Program β),
      (p.traverse f).run s = (q, s') ↔ p.Visited f s q s') ∧
    (∀ (σ : Type) (f : σ → α → σ × α) (s s' : σ) (q : Program α),
      p.mapAccum f s = (s', q) ↔ p.Visited (updating f) s q s') ∧
    (∀ (σ : Type) (f : σ → α → σ × α) (s : σ),
      p.mapAccum f s = ((p.traverse (updating f)).run s).swap) ∧
    (∀ (β σ : Type) (f : α → β) (s : σ),
      (p.traverse (m := StateM σ) fun note => pure (f note)).run s = (p.map f, s)) ∧
    ∀ (β γ : Type) (f : α → β) (g : β → γ), (p.map f).map g = p.map (g ∘ f) := by
  have traverses {β σ : Type} (f : α → StateM σ β) (s s' : σ) (q : Program β) :
      (p.traverse f).run s = (q, s') ↔ p.Visited f s q s' :=
    Program.eq_iff_visited (p.traverse_tours f)
  have accumulates {σ : Type} (f : σ → α → σ × α) (s s' : σ) (q : Program α) :
      p.mapAccum f s = (s', q) ↔ p.Visited (updating f) s q s' := by
    rw [← Program.eq_iff_visited (p.mapAccum_tours f), ← Prod.swap_inj]
    rfl
  refine ⟨p.slots_nodup, p.mem_slots, p.slots_ordered, fun β σ => traverses,
    fun σ => accumulates, fun σ f s => ?_, fun β σ f s => ?_, fun β γ f g => p.map_map f g⟩
  · exact (accumulates f s _ _).mpr ((traverses (updating f) s _ _).mp rfl)
  · rw [p.traverse_pure f]
    rfl

end Polytype
