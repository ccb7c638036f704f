import Mathlib.Logic.Relation
import Polytype.Proofs.Composition

/-!
# Unification terminates

`Call` lists the calls that unification makes on its way, and `Calls` says which call makes which:
for the parts of two types, for the restart of the list fixpoint, and for applying and composing the
substitutions found so far, with every bound variable that is followed. No call of unification has an
endless chain of calls below it (`unify_terminates`).

This does not hold of every call. Following the bindings of a substitution that run in a circle has
no end. Below a call of unification there are only idempotent substitutions (`Call.Sound`). For these
`apply` ends after one binding, and `Unify.cost` falls from two types to all that is unified below
them.
-/

namespace Polytype

open Relation Unify

/-- A function of unification with its arguments. -/
inductive Call where
  | unify (a b : Ty)
  /-- Two rows, under what has been found before them. -/
  | rows (s : Subst) (ls rs : List Ty)
  | bindVar (v : Var) (t : Ty)
  | fixpoint (v : Var) (head tail : Ty)
  | compose (older newer : Subst)
  | apply (s : Subst) (t : Ty)

/-- The first call makes the second one. A call that waits for the outcome of another is made if that
outcome is a substitution. -/
inductive Calls : Call → Call → Prop
  | varLeft {v : Var} {t : Ty} (novar : ∀ w, t ≠ .var w) : Calls (.unify (.var v) t) (.bindVar v t)
  | varRight {v : Var} {t : Ty} (novar : ∀ w, t ≠ .var w) : Calls (.unify t (.var v)) (.bindVar v t)
  | func {ps qs : List Ty} {r s : Ty} (arity : ps.length = qs.length) :
      Calls (.unify (.func ps r) (.func qs s)) (.rows .empty (ps ++ [r]) (qs ++ [s]))
  | pair {h t i u : Ty} : Calls (.unify (.pair h t) (.pair i u)) (.rows .empty [h, t] [i, u])
  | list {e f : Ty} : Calls (.unify (.list e) (.list f)) (.unify e f)
  | listPair {e h t : Ty} :
      Calls (.unify (.list e) (.pair h t)) (.rows .empty [e, .list e] [h, t])
  | pairList {e h t : Ty} :
      Calls (.unify (.pair h t) (.list e)) (.rows .empty [e, .list e] [h, t])
  | left {s : Subst} {l r : Ty} {ls rs : List Ty} :
      Calls (.rows s (l :: ls) (r :: rs)) (.apply s l)
  | right {s : Subst} {l r : Ty} {ls rs : List Ty} :
      Calls (.rows s (l :: ls) (r :: rs)) (.apply s r)
  | part {s : Subst} {l r : Ty} {ls rs : List Ty} :
      Calls (.rows s (l :: ls) (r :: rs)) (.unify (s.apply l) (s.apply r))
  | join {s f : Subst} {l r : Ty} {ls rs : List Ty} (found : unify (s.apply l) (s.apply r) = .ok f) :
      Calls (.rows s (l :: ls) (r :: rs)) (.compose s f)
  | rest {s f : Subst} {l r : Ty} {ls rs : List Ty} (found : unify (s.apply l) (s.apply r) = .ok f) :
      Calls (.rows s (l :: ls) (r :: rs)) (.rows (s.compose f) ls rs)
  | fixpoint {v : Var} {h t : Ty} (plain : v.addable = false)
      (inside : (Ty.pair h t).mentions v = true) (free : h.mentions v = false) :
      Calls (.bindVar v (.pair h t)) (.fixpoint v h t)
  | fill {v : Var} {h t : Ty} :
      Calls (.fixpoint v h t) (.apply (.single v (.list h)) (.pair h t))
  | restart {v : Var} {h t : Ty} :
      Calls (.fixpoint v h t) (.unify (.list h) ((Subst.single v (.list h)).apply (.pair h t)))
  | extend {v : Var} {h t : Ty} {f : Subst}
      (found : unify (.list h) ((Subst.single v (.list h)).apply (.pair h t)) = .ok f) :
      Calls (.fixpoint v h t) (.compose (.single v (.list h)) f)
  | older {older newer : Subst} {entry : Var × Ty} (mem : entry ∈ older.entries) :
      Calls (.compose older newer) (.apply newer entry.2)
  | newer {older newer : Subst} {entry : Var × Ty} (mem : entry ∈ newer.entries)
      (unbound : older.find? entry.1 = none) : Calls (.compose older newer) (.apply older entry.2)
  | bound {s : Subst} {v : Var} {t : Ty} (found : s.find? v = some t) :
      Calls (.apply s (.var v)) (.apply s t)
  | param {s : Subst} {ps : List Ty} {p r : Ty} (mem : p ∈ ps) :
      Calls (.apply s (.func ps r)) (.apply s p)
  | result {s : Subst} {ps : List Ty} {r : Ty} : Calls (.apply s (.func ps r)) (.apply s r)
  | head {s : Subst} {h t : Ty} : Calls (.apply s (.pair h t)) (.apply s h)
  | tail {s : Subst} {h t : Ty} : Calls (.apply s (.pair h t)) (.apply s t)
  | element {s : Subst} {e : Ty} : Calls (.apply s (.list e)) (.apply s e)

namespace Call

/-- No endless chain of calls starts here. -/
abbrev Terminates (call : Call) : Prop := Acc (fun callee caller => Calls caller callee) call

/-! ## Calls below unification -/

/-- The substitutions of a call are idempotent, and the list of a fixpoint is free of its variable. -/
def Sound : Call → Prop
  | .rows s _ _ | .apply s _ => s.Idempotent
  | .fixpoint v head _ => v.id ∉ head.ids
  | .compose older newer => older.Idempotent ∧ newer.Idempotent
  | .unify _ _ | .bindVar _ _ => True

variable {call callee : Call}

theorem Sound.step (sound : call.Sound) (calls : Calls call callee) : callee.Sound := by
  cases calls with
  | varLeft | varRight | list | part | restart => trivial
  | func | pair | listPair | pairList => exact idempotent_empty
  | left | right => exact sound
  | join found => exact ⟨sound, (unify_bounded found).idempotent⟩
  | rest found => exact idempotent_compose_found unify_bounded sound found
  | fixpoint _ _ free => rwa [Sound, ← Ty.mentions_iff, Bool.not_eq_true]
  | fill => exact idempotent_single sound
  | extend found => exact ⟨idempotent_single sound, (unify_bounded found).idempotent⟩
  | older => exact sound.2
  | newer => exact sound.1
  | bound | param | result | head | tail | element => exact sound

theorem Sound.run (sound : call.Sound) (calls : ReflTransGen Calls call callee) : callee.Sound := by
  induction calls with
  | refl => exact sound
  | tail _ last ih => exact ih.step last

/-! ## Substitutions -/

variable {s older newer : Subst} {t : Ty}

theorem apply_terminates_of_disjoint (h : Disjoint t.ids s.keys) : (apply s t).Terminates := by
  induction t using Ty.ind with
  | var v =>
    refine ⟨_, fun callee calls => ?_⟩
    cases calls with
    | bound found =>
      rw [Ty.ids_var, Finset.disjoint_singleton_left, ← Subst.find?_eq_none_iff, found] at h
      cases h
  | prim p => exact ⟨_, fun callee calls => by cases calls⟩
  | func ps r ihps ihr =>
    have part {x : Ty} (hx : x ∈ ps ++ [r]) : Disjoint x.ids s.keys :=
      Finset.disjoint_of_subset_left (Ty.ids_subset_func hx) h
    refine ⟨_, fun callee calls => ?_⟩
    cases calls with
    | param mem => exact ihps _ mem (part (by simp [mem]))
    | result => exact ihr (part (by simp))
  | pair i t ihi iht =>
    rw [Ty.ids_pair, Finset.disjoint_union_left] at h
    refine ⟨_, fun callee calls => ?_⟩
    cases calls with
    | head => exact ihi h.1
    | tail => exact iht h.2
  | list e ihe =>
    refine ⟨_, fun callee calls => ?_⟩
    cases calls with
    | element => exact ihe h

theorem apply_terminates (idem : s.Idempotent) (t : Ty) : (apply s t).Terminates := by
  induction t using Ty.ind with
  | var v =>
    refine ⟨_, fun callee calls => ?_⟩
    cases calls with
    | bound found => exact apply_terminates_of_disjoint (idem v _ found)
  | prim p => exact ⟨_, fun callee calls => by cases calls⟩
  | func ps r ihps ihr =>
    refine ⟨_, fun callee calls => ?_⟩
    cases calls with
    | param mem => exact ihps _ mem
    | result => exact ihr
  | pair i t ihi iht =>
    refine ⟨_, fun callee calls => ?_⟩
    cases calls with
    | head => exact ihi
    | tail => exact iht
  | list e ihe =>
    refine ⟨_, fun callee calls => ?_⟩
    cases calls with
    | element => exact ihe

theorem compose_terminates (ho : older.Idempotent) (hn : newer.Idempotent) :
    (compose older newer).Terminates := by
  refine ⟨_, fun callee calls => ?_⟩
  cases calls with
  | older => exact apply_terminates hn _
  | newer => exact apply_terminates ho _

/-! ## One level -/

theorem rows_terminates {a b : Ty} (ih : ∀ c e, cost c e < cost a b → (unify c e).Terminates)
    {ls rs : List Ty} (parts : ∀ p ∈ ls.zip rs, Part a b p.1 p.2)
    (h : Solved (a.ids ∪ b.ids) (max a.depth b.depth) s) : (rows s ls rs).Terminates := by
  -- The induction is on the rows, for all substitutions that can have been found before.
  induction ls generalizing rs s with
  | nil => exact ⟨_, fun callee calls => by cases calls⟩
  | cons l ls ihls =>
    cases rs with
    | nil => exact ⟨_, fun callee calls => by cases calls⟩
    | cons r rs =>
      have part : Part a b l r := parts (l, r) List.mem_cons_self
      refine ⟨_, fun callee calls => ?_⟩
      cases calls with
      | left => exact apply_terminates h.idempotent l
      | right => exact apply_terminates h.idempotent r
      | part => exact ih _ _ (part.cost_lt h)
      | join found => exact compose_terminates h.idempotent (unify_bounded found).idempotent
      | rest found =>
        exact ihls (fun p mem => parts p (List.mem_cons_of_mem _ mem))
          (part.solved unify_bounded h found)

theorem fixpoint_terminates {v : Var} {h : Ty} (free : v.id ∉ h.ids)
    (ih : ∀ c e, cost c e < cost (.var v) (.pair h t) → (unify c e).Terminates) :
    (fixpoint v h t).Terminates := by
  have first : (Subst.single v (.list h)).Idempotent := idempotent_single free
  refine ⟨_, fun callee calls => ?_⟩
  cases calls with
  | fill => exact apply_terminates first _
  | restart => exact ih _ _ (fixpoint_cost free)
  | extend found => exact compose_terminates first (unify_bounded found).idempotent

theorem bindVar_terminates {v : Var}
    (ih : ∀ c e, cost c e < cost (.var v) t → (unify c e).Terminates) :
    (bindVar v t).Terminates := by
  refine ⟨_, fun callee calls => ?_⟩
  cases calls with
  | fixpoint _ _ free => exact fixpoint_terminates (by rwa [← Ty.mentions_iff, Bool.not_eq_true]) ih

theorem unify_terminates_of_less {a b : Ty}
    (ih : ∀ c e, cost c e < cost a b → (unify c e).Terminates) : (unify a b).Terminates := by
  refine ⟨_, fun callee calls => ?_⟩
  cases calls with
  | varLeft => exact bindVar_terminates ih
  | varRight => exact bindVar_terminates fun c e less => ih c e (less.trans_eq (cost_comm _ _))
  | func => exact rows_terminates ih (fun _ => part_func) .empty
  | pair => exact rows_terminates ih (fun _ => part_pair) .empty
  | list => exact ih _ _ (by simpa using part_list.cost_lt .empty)
  | listPair => exact rows_terminates ih (fun _ => part_list_pair) .empty
  | pairList => exact rows_terminates ih (fun _ mem => (part_list_pair mem).swap) .empty

theorem unify_accessible (a b : Ty) : (unify a b).Terminates := by
  induction less : cost a b using Nat.strong_induction_on generalizing a b with
  | _ n ih =>
    subst less
    exact unify_terminates_of_less fun c e less => ih _ less c e rfl

/-! ## All calls are listed

One level reads `unify` only where `Calls` says so. -/

variable {other : Ty → Ty → Outcome}

theorem rows_reads {ls rs : List Ty}
    (agree : ∀ c e, ReflTransGen Calls (rows s ls rs) (unify c e) → other c e = Polytype.unify c e) :
    Unify.rows other s ls rs = Unify.rows Polytype.unify s ls rs := by
  induction ls generalizing rs s with
  | nil => simp only [Unify.rows]
  | cons l ls ih =>
    cases rs with
    | nil => simp only [Unify.rows]
    | cons r rs =>
      rw [Unify.rows, Unify.rows, agree _ _ (.single .part)]
      cases found : Polytype.unify (s.apply l) (s.apply r) with
      | error e => rfl
      | ok f => exact ih fun c e calls => agree c e (.head (.rest found) calls)

theorem bindVar_reads {v : Var}
    (agree : ∀ c e, ReflTransGen Calls (bindVar v t) (unify c e) → other c e = Polytype.unify c e) :
    Unify.bindVar other v t = Unify.bindVar Polytype.unify v t := by
  unfold Unify.bindVar
  split
  · rfl
  next plain =>
    split
    · rfl
    next inside =>
      split
      next h u =>
        split
        · rfl
        next free =>
          have calls : Calls (bindVar v (.pair h u)) (fixpoint v h u) :=
            .fixpoint (by simpa using plain) (by simpa using inside) (by simpa using free)
          rw [Unify.fixpoint, Unify.fixpoint, agree _ _ (.head calls (.single .restart))]
      · rfl

theorem step_reads {a b : Ty}
    (agree : ∀ c e, TransGen Calls (unify a b) (unify c e) → other c e = Polytype.unify c e) :
    Unify.step other a b = Polytype.unify a b := by
  rw [unify_eq_step]
  have below {callee : Call} (first : Calls (unify a b) callee) (c e : Ty)
      (calls : ReflTransGen Calls callee (unify c e)) : other c e = Polytype.unify c e :=
    agree c e (.head' first calls)
  unfold Unify.step
  split
  · rfl
  next v t novar => exact bindVar_reads (below (.varLeft novar))
  next t v novar => exact bindVar_reads (below (.varRight novar))
  · rfl
  · split
    next arity => exact rows_reads (below (.func (by simpa using arity)))
    · rfl
  · exact rows_reads (below .pair)
  · exact below .list _ _ .refl
  · exact rows_reads (below .listPair)
  · exact rows_reads (below .pairList)
  · rfl

theorem eq_unify {a b : Ty} (terminates : (unify a b).Terminates)
    (level : ∀ c e, other c e = Unify.step other c e) : other a b = Polytype.unify a b := by
  have far : Acc (TransGen fun callee caller => Calls caller callee) (unify a b) :=
    terminates.transGen
  clear terminates
  generalize start : unify a b = call at far
  induction far generalizing a b with
  | intro call _ ih =>
    subst start
    rw [level]
    refine step_reads fun c e calls => ?_
    exact ih _ (transGen_swap.mpr calls) rfl

end Call

/-- Unifying two types terminates. Every substitution that is applied on the way is followed to its
end. The calls that count as being on the way are all that one level of unification reads, and
therefore unification is the only function that works level by level. -/
theorem unify_terminates (a b : Ty) :
    (Call.unify a b).Terminates ∧
      (∀ s t, ReflTransGen Calls (.unify a b) (.apply s t) → s.Ends t (s.apply t)) ∧
      (∀ other : Ty → Ty → Outcome,
        (∀ c e, TransGen Calls (.unify a b) (.unify c e) → other c e = unify c e) →
          step other a b = unify a b) ∧
      ∀ other : Ty → Ty → Outcome, (∀ c e, other c e = step other c e) → other a b = unify a b := by
  have terminates := Call.unify_accessible a b
  refine ⟨terminates, fun s t calls => ?_, fun other agree => Call.step_reads agree,
    fun other level => Call.eq_unify terminates level⟩
  have sound : (Call.unify a b).Sound := trivial
  have idem : s.Idempotent := sound.run calls
  exact idem.ends t

/-- A variable against a pair that ends in it: the fixpoint restarts on two larger types. -/
theorem unify_terminates_restart :
    TransGen Calls (.unify (.var (.plain 0)) (.pair .number (.var (.plain 0))))
        (.unify (.list .number) (.pair .number (.list .number))) ∧
      (Call.unify (.var (.plain 0)) (.pair .number (.var (.plain 0)))).Terminates := by
  refine ⟨?_, (unify_terminates _ _).1⟩
  have bind : Calls (.unify (.var (.plain 0)) (.pair .number (.var (.plain 0))))
      (.bindVar (.plain 0) (.pair .number (.var (.plain 0)))) := .varLeft nofun
  have solve : Calls (.bindVar (.plain 0) (.pair .number (.var (.plain 0))))
      (.fixpoint (.plain 0) .number (.var (.plain 0))) := .fixpoint rfl rfl rfl
  exact .tail (.tail (.single bind) solve) .restart

end Polytype
