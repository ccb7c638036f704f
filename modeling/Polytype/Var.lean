/-!
# Type variables

A variable is known by its number. The addable flag travels with each copy of it: an addable
variable may only become `number` or `string`. Sets of variables are lists in increasing order of
number, one copy per number.
-/

namespace Polytype

/-- A type variable. Two copies with one number are the same variable, whatever their flags. -/
structure Var where
  id : Nat
  addable : Bool
  deriving DecidableEq, Inhabited

namespace Var

def plain (id : Nat) : Var := ⟨id, false⟩

def same (v w : Var) : Bool := v.id == w.id

theorem same_iff {v w : Var} : v.same w = true ↔ v.id = w.id := by simp [same]

@[simp] theorem same_self (v : Var) : v.same v = true := by simp [same]

/-- The variable numbered `n` further on, with the same flag. -/
def shift (n : Nat) (v : Var) : Var := { v with id := v.id + n }

end Var

/-- Variables in increasing order of number. -/
abbrev VarSet := List Var

namespace VarSet

def has (vs : VarSet) (v : Var) : Bool := vs.any (·.same v)

/-- Adds a variable at its place. A copy that is already there stays. -/
def add (v : Var) : VarSet → VarSet
  | [] => [v]
  | w :: rest =>
    if v.id < w.id then v :: w :: rest
    else if v.same w then w :: rest
    else w :: add v rest

/-- Of several copies of a variable, the first one counts. -/
def ofList (vs : List Var) : VarSet := vs.foldl (fun set v => add v set) []

def union (vs ws : VarSet) : VarSet := ws.foldl (fun set v => add v set) vs

/-- The members of `vs` that are not among `ws`. -/
def minus (vs : VarSet) (ws : List Var) : VarSet := vs.filter fun v => !has ws v

/-! ## Membership -/

theorem has_iff {vs : VarSet} {v : Var} : vs.has v = true ↔ ∃ w ∈ vs, w.id = v.id := by
  simp [has, Var.same_iff]

@[simp] theorem has_nil (v : Var) : has [] v = false := rfl

@[simp] theorem has_cons (v w : Var) (vs : VarSet) :
    has (v :: vs) w = (v.same w || has vs w) := rfl

@[simp] theorem has_add (v w : Var) (vs : VarSet) : (add v vs).has w = (v.same w || vs.has w) := by
  induction vs with
  | nil => rfl
  | cons u rest ih =>
    simp only [add]
    split
    · rfl
    · split
      next h =>
        have : v.same w = u.same w := by rw [Var.same, Var.same, Var.same_iff.mp h]
        simp [this]
      next => simp only [has_cons, ih, Bool.or_left_comm]

@[simp] theorem has_union (vs ws : VarSet) (v : Var) :
    (vs.union ws).has v = (vs.has v || has ws v) := by
  unfold union
  induction ws generalizing vs with
  | nil => simp
  | cons w rest ih => simp [ih, Bool.or_assoc, Bool.or_left_comm]

@[simp] theorem has_ofList (vs : List Var) (v : Var) : (ofList vs).has v = has vs v :=
  (has_union [] vs v).trans (Bool.false_or _)

@[simp] theorem has_minus (vs : VarSet) (ws : List Var) (v : Var) :
    (vs.minus ws).has v = (vs.has v && !has ws v) := by
  induction vs with
  | nil => rfl
  | cons u rest ih =>
    by_cases h : u.same v = true
    · have eq : has ws u = has ws v := by simp only [has, Var.same, Var.same_iff.mp h]
      cases hw : has ws v <;> simp_all [minus]
    · cases hw : has ws u <;> simp_all [minus]

/-! ## Order -/

/-- Increasing order of number, so one copy per number. -/
def Increasing (vs : VarSet) : Prop := vs.Pairwise fun v w => v.id < w.id

theorem increasing_add {vs : VarSet} (v : Var) (h : vs.Increasing) : (add v vs).Increasing := by
  induction vs with
  | nil => exact List.pairwise_singleton _ _
  | cons u rest ih =>
    obtain ⟨first, rest_ok⟩ := List.pairwise_cons.mp h
    simp only [add]
    split
    next lt =>
      refine List.pairwise_cons.mpr ⟨fun w mem => ?_, h⟩
      rcases List.mem_cons.mp mem with rfl | mem
      · exact lt
      · exact Nat.lt_trans lt (first w mem)
    next ge =>
      split
      next => exact h
      next differs =>
        refine List.pairwise_cons.mpr ⟨fun w mem => ?_, ih rest_ok⟩
        have : (add v rest).has w = true := has_iff.mpr ⟨w, mem, rfl⟩
        rw [has_add, Bool.or_eq_true, Var.same_iff, has_iff] at this
        rw [Var.same_iff] at differs
        rcases this with eq | ⟨x, memx, eq⟩
        · omega
        · exact eq ▸ first x memx

theorem increasing_union {vs : VarSet} (ws : VarSet) (h : vs.Increasing) :
    (vs.union ws).Increasing := by
  unfold union
  induction ws generalizing vs with
  | nil => exact h
  | cons w rest ih => exact ih (increasing_add w h)

theorem increasing_ofList (vs : List Var) : (ofList vs).Increasing :=
  increasing_union vs List.Pairwise.nil

theorem increasing_minus {vs : VarSet} (ws : List Var) (h : vs.Increasing) :
    (vs.minus ws).Increasing := List.Pairwise.filter _ h

end VarSet

end Polytype
