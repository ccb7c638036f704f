import Polytype.Scheme

/-!
# Substitutions

A substitution binds variables to types, in increasing order of variable number, each number at most
once. Applying one follows bound variables until none is left. Along a chain every step uses another
binding, so as many steps as there are bindings are enough, unless the bindings run in a circle.
-/

namespace Polytype

structure Subst where
  entries : List (Var × Ty) := []
  deriving Inhabited

namespace Subst

def empty : Subst := {}

def single (v : Var) (t : Ty) : Subst := ⟨[(v, t)]⟩

def size (s : Subst) : Nat := s.entries.length

def domain (s : Subst) : VarSet := s.entries.map (·.1)

def find? (s : Subst) (v : Var) : Option Ty := (s.entries.find? (·.1.same v)).map (·.2)

def binds (s : Subst) (v : Var) : Bool := s.domain.has v

/-- Binds `v` at its place among the entries. A bound variable gets the new type and keeps the copy
of the variable that stands there. -/
def insertEntry (v : Var) (t : Ty) : List (Var × Ty) → List (Var × Ty)
  | [] => [(v, t)]
  | (w, u) :: rest =>
    if v.id < w.id then (v, t) :: (w, u) :: rest
    else if v.same w then (w, t) :: rest
    else (w, u) :: insertEntry v t rest

def insert (s : Subst) (v : Var) (t : Ty) : Subst := ⟨insertEntry v t s.entries⟩

def ofList (entries : List (Var × Ty)) : Subst :=
  entries.foldl (fun s (v, t) => s.insert v t) empty

@[simp] theorem find?_empty (v : Var) : empty.find? v = none := rfl

theorem find?_congr (s : Subst) {v w : Var} (h : v.same w = true) : s.find? v = s.find? w := by
  simp only [find?, Var.same, Var.same_iff.mp h]

theorem find?_single (v w : Var) (t : Ty) :
    (single v t).find? w = if v.same w then some t else none := by
  cases h : v.same w <;> simp [find?, single, h]

theorem find?_insert (s : Subst) (v w : Var) (t : Ty) :
    (s.insert v t).find? w = if v.same w then some t else s.find? w := by
  obtain ⟨entries⟩ := s
  simp only [find?, insert]
  induction entries with
  | nil => cases h : v.same w <;> simp [insertEntry, h]
  | cons entry rest ih =>
    obtain ⟨u, r⟩ := entry
    simp only [insertEntry]
    split
    · cases h : v.same w <;> simp [h]
    · split
      next same =>
        have : v.same w = u.same w := by rw [Var.same, Var.same, Var.same_iff.mp same]
        cases h : u.same w <;> simp [this, h]
      next differs =>
        cases hu : u.same w with
        | false => simpa [List.find?_cons, hu] using ih
        | true =>
          have : v.same w = false := by
            rw [Bool.eq_false_iff]
            exact fun hv =>
              differs (Var.same_iff.mpr ((Var.same_iff.mp hv).trans (Var.same_iff.mp hu).symm))
          simp [hu, this]

theorem binds_eq (s : Subst) (v : Var) : s.binds v = (s.find? v).isSome := by
  obtain ⟨entries⟩ := s
  simp only [binds, find?, domain, Option.isSome_map]
  induction entries with
  | nil => rfl
  | cons entry rest ih => cases h : entry.1.same v <;> simp [h, ih]

/-! ## Applying -/

/-- What a variable stands for after at most `n` steps. -/
def chase (s : Subst) : Nat → Var → Ty
  | 0, v => .var v
  | n + 1, v =>
    match s.find? v with
    | some t => t.bind (s.chase n)
    | none => .var v

def apply (s : Subst) (t : Ty) : Ty := t.bind (s.chase s.size)

@[simp] theorem apply_prim (s : Subst) (p : Prim) : s.apply (.prim p) = .prim p := rfl

@[simp] theorem apply_func (s : Subst) (ps : List Ty) (r : Ty) :
    s.apply (.func ps r) = .func (ps.map s.apply) (s.apply r) := by
  rw [apply, Ty.bind, Ty.bindAll_eq]; rfl

@[simp] theorem apply_pair (s : Subst) (h t : Ty) :
    s.apply (.pair h t) = .pair (s.apply h) (s.apply t) := rfl

@[simp] theorem apply_list (s : Subst) (e : Ty) : s.apply (.list e) = .list (s.apply e) := rfl

@[simp] theorem apply_empty (t : Ty) : empty.apply t = t := Ty.bind_var t

theorem apply_unbound {s : Subst} {v : Var} (h : s.find? v = none) :
    s.apply (.var v) = .var v := by
  rw [apply, Ty.bind]
  cases s.size <;> simp [chase, h]

/-- Quantified variables are not protected: a bound one is replaced in the type and stays
quantified. -/
def applyScheme (s : Subst) (scheme : Scheme) : Scheme := { scheme with ty := s.apply scheme.ty }

/-! ## Composing -/

def mapTypes (f : Ty → Ty) (s : Subst) : Subst := ⟨s.entries.map fun (v, t) => (v, f t)⟩

/-- First `older`, then `newer`. Each side is applied to the other's types, and where both bind a
variable the older binding stays. -/
def compose (older newer : Subst) : Subst :=
  newer.entries.foldl
    (fun s (v, t) => if s.binds v then s else s.insert v (older.apply t))
    (older.mapTypes newer.apply)

theorem find?_mapTypes (f : Ty → Ty) (s : Subst) (v : Var) :
    (s.mapTypes f).find? v = (s.find? v).map f := by
  simp [find?, mapTypes, List.find?_map, Function.comp_def]

theorem find?_compose (older newer : Subst) (v : Var) :
    (older.compose newer).find? v =
      ((older.find? v).map newer.apply).or ((newer.find? v).map older.apply) := by
  suffices go : ∀ (entries : List (Var × Ty)) (s : Subst),
      (entries.foldl
        (fun s (v, t) => if s.binds v then s else s.insert v (older.apply t)) s).find? v =
      (s.find? v).or ((find? ⟨entries⟩ v).map older.apply) by
    rw [compose, go, find?_mapTypes]
  intro entries
  induction entries with
  | nil => intro s; simp [find?]
  | cons entry rest ih =>
    obtain ⟨w, t⟩ := entry
    intro s
    rw [List.foldl_cons, ih]
    simp only [binds_eq]
    cases same : w.same v with
    | false =>
      have : find? ⟨(w, t) :: rest⟩ v = find? ⟨rest⟩ v := by simp [find?, same]
      rw [this]
      split
      · rfl
      · rw [find?_insert, same]; rfl
    | true =>
      have : find? ⟨(w, t) :: rest⟩ v = some t := by simp [find?, same]
      rw [this, s.find?_congr same]
      cases bound : s.find? v with
      | none => simp [find?_insert, same]
      | some u => simp [bound]

/-! ## Order -/

theorem domain_insert (s : Subst) (v : Var) (t : Ty) :
    (s.insert v t).domain = VarSet.add v s.domain := by
  obtain ⟨entries⟩ := s
  simp only [domain, insert]
  induction entries with
  | nil => rfl
  | cons entry rest ih =>
    rw [insertEntry, List.map_cons, VarSet.add]
    split
    · rfl
    · split
      · rfl
      · rw [List.map_cons, ih]

theorem increasing_compose {older newer : Subst} (h : older.domain.Increasing) :
    (older.compose newer).domain.Increasing := by
  have go (entries : List (Var × Ty)) (s : Subst) (h : s.domain.Increasing) :
      (entries.foldl (fun s entry => if s.binds entry.1 then s else
        s.insert entry.1 (older.apply entry.2)) s).domain.Increasing := by
    induction entries generalizing s with
    | nil => exact h
    | cons entry rest ih =>
      rw [List.foldl_cons]
      split
      · exact ih s h
      · refine ih _ ?_
        rw [domain_insert]
        exact VarSet.increasing_add _ h
  refine go newer.entries (older.mapTypes newer.apply) ?_
  rw [domain, mapTypes, List.map_map]
  exact h

/-- With one entry for each number, every entry is found. -/
theorem find?_of_mem {s : Subst} (h : s.domain.Increasing) {entry : Var × Ty}
    (mem : entry ∈ s.entries) : s.find? entry.1 = some entry.2 := by
  obtain ⟨entries⟩ := s
  rw [find?]
  induction entries with
  | nil => cases mem
  | cons first rest ih =>
    obtain ⟨lt, others⟩ := List.pairwise_cons.mp h
    rcases List.mem_cons.mp mem with rfl | mem
    · rw [List.find?_cons, Var.same_self]
      rfl
    · have below := lt entry.1 (List.mem_map_of_mem mem)
      have differ : first.1.same entry.1 = false := by
        rw [Var.same, beq_eq_false_iff_ne]
        exact Nat.ne_of_lt below
      rw [List.find?_cons, differ]
      exact ih others mem

/-! ## Comparing -/

/-- The same variables bound to the same types, flags aside. -/
def same (s r : Subst) : Bool :=
  s.size == r.size &&
    (s.entries.zip r.entries).all fun ((v, t), (w, u)) => v.same w && t.same u

end Subst

end Polytype
