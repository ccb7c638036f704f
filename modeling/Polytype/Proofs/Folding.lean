import Polytype.Proofs.Renaming.Types

/-!
# Folded types

`Folded` types are those in which no pair is a list in disguise. Folding gives such a type
(`foldLists_folded`), leaves one that is such already as it is (`Folded.foldLists_eq`), and gives the
same one for all ways of writing a type. So two types are equivalent exactly if they are written the
same once their lists are folded (`foldLists_canonical`).
-/

namespace Polytype

namespace Ty

/-- No part is a pair of a head and a list of the head's type. -/
inductive Folded : Ty → Prop
  | var (v : Var) : Folded (.var v)
  | prim (p : Prim) : Folded (.prim p)
  | func {ps : List Ty} {r : Ty} (params : ∀ p ∈ ps, Folded p) (result : Folded r) :
      Folded (.func ps r)
  | pair {h t : Ty} (head : Folded h) (tail : Folded t)
      (proper : ∀ e, t = .list e → e.same h = false) : Folded (.pair h t)
  | list {e : Ty} (element : Folded e) : Folded (.list e)

theorem cons_folded {h t : Ty} (head : h.Folded) (tail : t.Folded) : (cons h t).Folded := by
  unfold cons
  split
  next e =>
    split
    next => exact tail
    next differ =>
      refine .pair head tail fun f eq => ?_
      cases eq
      exact Bool.eq_false_iff.mpr differ
  next not_list => exact .pair head tail fun e eq => absurd eq (not_list e)

theorem foldLists_folded (t : Ty) : t.foldLists.Folded := by
  induction t using Ty.ind with
  | var v => exact .var v
  | prim p => exact .prim p
  | func ps r ihps ihr =>
    rw [foldLists, foldListsAll_eq]
    exact .func (List.forall_mem_map.mpr ihps) ihr
  | pair h t ihh iht => exact cons_folded ihh iht
  | list e ihe => exact .list ihe

theorem cons_eq_pair {h t : Ty} (proper : ∀ e, t = .list e → e.same h = false) :
    cons h t = .pair h t := by
  unfold cons
  split
  next e => rw [if_neg (Bool.eq_false_iff.mp (proper e rfl))]
  next => rfl

theorem Folded.foldLists_eq {t : Ty} (h : t.Folded) : t.foldLists = t := by
  induction h with
  | var v => rfl
  | prim p => rfl
  | func _ _ ihps ihr =>
    rw [foldLists, foldListsAll_eq, ihr, List.map_congr_left ihps, List.map_id']
  | pair _ _ proper ihh iht => rw [foldLists, ihh, iht, cons_eq_pair proper]
  | list _ ihe => rw [foldLists, ihe]

theorem foldLists_foldLists (t : Ty) : t.foldLists.foldLists = t.foldLists :=
  (foldLists_folded t).foldLists_eq

theorem foldLists_eq_self_iff {t : Ty} : t.foldLists = t ↔ t.Folded :=
  ⟨fun eq => eq ▸ foldLists_folded t, Folded.foldLists_eq⟩

theorem EquivBy.of_same_foldLists {a b : Ty} (h : a.foldLists.same b.foldLists = true) :
    EquivBy Var.id a b := by
  have folded : EquivBy Var.id a.foldLists b.foldLists := .of_same _ _ h
  exact (foldLists_equiv a).trans (folded.trans (foldLists_equiv b).symm)

end Ty

/-- Folding computes a canonical form: the types with the same folded form are those that list
folding makes one type, the folded form is one of them, and the folded forms are the types in which
nothing is left to fold. -/
theorem foldLists_canonical (a b : Ty) :
    (a.foldLists.same b.foldLists = true ↔ Ty.EquivBy Var.id a b) ∧
      Ty.EquivBy Var.id a a.foldLists ∧
      a.foldLists.foldLists = a.foldLists ∧
      (a.foldLists = a ↔ a.Folded) :=
  ⟨⟨Ty.EquivBy.of_same_foldLists, Ty.EquivBy.same_foldLists⟩, Ty.foldLists_equiv a,
    Ty.foldLists_foldLists a, Ty.foldLists_eq_self_iff⟩

/-- The head has to be folded before it can be found to be the element. -/
example : (Ty.pair (.pair .number (.list .number)) (.list (.list .number))).foldLists =
    .list (.list .number) := rfl

end Polytype
