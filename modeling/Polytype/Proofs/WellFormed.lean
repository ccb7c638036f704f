import Mathlib.Data.List.Dedup
import Polytype.Proofs.Sites
import Polytype.Proofs.Typing.Models

/-!
# Well-formed programs

Validation accepts exactly the well-formed programs, and of all others it lists every fault
(`validate_wellFormed`). The conditions are about single sites: a `return`, a `let`, an assignment, a
list of statements. So are the faults, and what validation lists is what is found at one site after
the other, in the order of `Program.sites` (`Validation.errors_eq`).
-/

namespace Polytype

variable {α β : Type} {chapter : Chapter}

/-! ## What the conditions are about -/

structure Assignment (α : Type) where
  pos : Position
  target : Name α
  meaning? : Option Meaning

namespace Site

def ret? (s : Site α) : Option Position :=
  match s.item with
  | .stmt (.ret tag _) => some tag.pos
  | _ => none

def mutable? (s : Site α) : Option Position :=
  match s.item with
  | .stmt (.declare tag .mutable _ _) => some tag.pos
  | _ => none

def assignment? (s : Site α) : Option (Assignment α) :=
  match s.item with
  | .expr (.assign tag target _) => some ⟨tag.pos, target, s.meaning? target.text⟩
  | _ => none

def list? (s : Site α) : Option (List (Stmt α)) :=
  match s.item with
  | .list body => some body
  | _ => none

end Site

/-- The target is a constant or a function of the program. -/
def Assignment.IsFixed (a : Assignment α) : Prop :=
  a.meaning? = some (.value .constant) ∨ a.meaning? = some .function

instance (a : Assignment α) : Decidable a.IsFixed := inferInstanceAs (Decidable (_ ∨ _))

structure Program.WellFormed (chapter : Chapter) (p : Program α) : Prop where
  returns : ∀ s ∈ p.sites, s.ret?.isSome → s.InFunction
  mutation : chapter.offers .three ∨ ∀ s ∈ p.sites, s.mutable? = none ∧ s.assignment? = none
  names : ∀ s ∈ p.sites, ∀ body ∈ s.list?, (declaredNames body).Nodup
  targets : ∀ s ∈ p.sites, ∀ a ∈ s.assignment?, ¬ a.IsFixed

/-! ## Faults of a site -/

def Stmt.Declares (s : Stmt α) (x : String) : Prop := s.declared?.map (·.text) = some x

instance (s : Stmt α) (x : String) : Decidable (s.Declares x) := inferInstanceAs (Decidable (_ = _))

/-- For each name that the list declares, all of its declarations but the first. -/
def redeclarations (body : List (Stmt α)) : List ValidationError :=
  (declaredNames body).dedup.flatMap fun x =>
    (body.filter (·.Declares x)).tail.map fun s => ⟨.declaredTwice x, s.pos⟩

namespace Site

def strayReturns (s : Site α) : List ValidationError :=
  if s.InFunction then [] else s.ret?.toList.map (⟨.returnOutside, ·⟩)

def mutations (chapter : Chapter) (s : Site α) : List ValidationError :=
  if chapter.offers .three then []
  else
    s.mutable?.toList.map (⟨.notOffered "variable declaration" chapter, ·⟩) ++
      s.assignment?.toList.map fun a => ⟨.notOffered "assignment" chapter, a.pos⟩

def duplicates (s : Site α) : List ValidationError := s.list?.toList.flatMap redeclarations

def fixedTargets (s : Site α) : List ValidationError :=
  (s.assignment?.toList.filter (·.IsFixed)).map fun a => ⟨.assignedConstant a.target.text, a.pos⟩

/-- The faults of a site in the order in which they are found. -/
def faults (chapter : Chapter) (s : Site α) : List ValidationError :=
  s.strayReturns ++ s.mutations chapter ++ s.list?.toList.flatMap (Validation.repeats []) ++
    s.fixedTargets

end Site

def faultsOf (chapter : Chapter) (sites : List (Site α)) : List ValidationError :=
  sites.flatMap (·.faults chapter)

/-! ## Validation goes from site to site -/

namespace Validation

def frame? : Enclosure α → Option Frame
  | .list body => some (blockFrame body)
  | .stmt _ => none
  | .function ps | .arrow ps => some (paramFrame ps)

/-- The surroundings as validation sees them. -/
def placeIn (chapter : Chapter) (around : List (Enclosure α)) : Place :=
  ⟨chapter, around.filterMap frame?, around.any (·.isFunction)⟩

end Validation

def Meaning.standing : Meaning → Validation.Standing
  | .value .constant | .function => .fixed
  | .value .mutable | .parameter => .assignable

namespace Validation

theorem lookup_declarations (x : String) (ss : List (Stmt α)) :
    List.lookup x (ss.filterMap declaration?) =
      (ss.findSome? (Stmt.meaning? x)).map Meaning.standing := by
  induction ss with
  | nil => rfl
  | cons s ss ih =>
    have entry (n : String) (standing : Standing) (rest : Frame) :
        List.lookup x ((n, standing) :: rest) =
          if n = x then some standing else List.lookup x rest := by
      rw [List.lookup_cons]
      by_cases same : n = x
      · simp [same]
      · simp [same, beq_false_of_ne (Ne.symm same)]
    cases s with
    | declare tag keyword n e =>
      cases keyword <;>
        simp only [List.filterMap_cons, declaration?, entry, ih, List.findSome?_cons, Stmt.meaning?] <;>
        split <;> rfl
    | function tag n ps body =>
      simp only [List.filterMap_cons, declaration?, entry, ih, List.findSome?_cons, Stmt.meaning?]
      split <;> rfl
    | _ => exact ih

theorem lookup_params (x : String) (ps : List (Name α)) :
    List.lookup x (paramFrame ps) =
      (if x ∈ ps.map (·.text) then some Meaning.parameter else none).map Meaning.standing := by
  induction ps with
  | nil => rfl
  | cons p ps ih =>
    unfold paramFrame at ih ⊢
    rw [List.map_cons, List.lookup_cons, ih]
    by_cases same : x = p.text
    · simp [same, Meaning.standing]
    · simp [same, beq_false_of_ne same]

theorem lookup_frame? (x : String) (enclosure : Enclosure α) :
    (frame? enclosure).bind (List.lookup x) = (enclosure.meaning? x).map Meaning.standing := by
  cases enclosure with
  | list body =>
    have := lookup_declarations x body.reverse
    rwa [List.filterMap_reverse] at this
  | stmt s => rfl
  | function ps => exact lookup_params x ps
  | arrow ps => exact lookup_params x ps

theorem resolve_placeIn (chapter : Chapter) (around : List (Enclosure α)) (x : String) :
    (placeIn chapter around).resolve x =
      (around.findSome? (·.meaning? x)).map Meaning.standing := by
  unfold Place.resolve placeIn
  induction around with
  | nil => rfl
  | cons enclosure around ih =>
    have here := lookup_frame? x enclosure
    rw [List.filterMap_cons, List.findSome?_cons]
    cases frame : frame? enclosure with
    | none =>
      rw [frame, Option.bind_none, eq_comm, Option.map_eq_none_iff] at here
      rw [here]
      exact ih
    | some names =>
      rw [frame, Option.bind_some] at here
      rw [List.findSome?_cons, here]
      cases enclosure.meaning? x with
      | none => exact ih
      | some meaning => rfl

theorem resolve_placeIn_fixed (chapter : Chapter) (around : List (Enclosure α)) (x : String) :
    (placeIn chapter around).resolve x = some .fixed ↔
      around.findSome? (·.meaning? x) = some (.value .constant) ∨
        around.findSome? (·.meaning? x) = some .function := by
  rw [resolve_placeIn]
  generalize around.findSome? (·.meaning? x) = found
  rcases found with _ | ⟨_ | _⟩ | _ | _ <;> simp [Meaning.standing]

end Validation

/-! ## Faults by kind of site -/

namespace Site

@[simp] theorem faults_list (body : List (Stmt α)) (around : List (Enclosure α)) :
    faults chapter ⟨.list body, around⟩ = Validation.repeats [] body := by
  simp [faults, strayReturns, mutations, fixedTargets, ret?, mutable?, assignment?, list?]

@[simp] theorem faults_ret (tag : Tag α) (e : Option (Expr α)) (around : List (Enclosure α)) :
    faults chapter ⟨.stmt (.ret tag e), around⟩ =
      if (Validation.placeIn chapter around).inFunction then [] else [⟨.returnOutside, tag.pos⟩] := by
  simp [faults, strayReturns, mutations, fixedTargets, ret?, mutable?, assignment?, list?,
    Site.inFunction_iff, Validation.placeIn]

@[simp] theorem faults_mutable (tag : Tag α) (n : Name α) (e : Expr α)
    (around : List (Enclosure α)) :
    faults chapter ⟨.stmt (.declare tag .mutable n e), around⟩ =
      Validation.needsAssignment (Validation.placeIn chapter around) "variable declaration" tag.pos := by
  simp [faults, strayReturns, mutations, fixedTargets, ret?, mutable?, assignment?, list?]
  rfl

@[simp] theorem faults_assign (tag : Tag α) (target : Name α) (e : Expr α)
    (around : List (Enclosure α)) :
    faults chapter ⟨.expr (.assign tag target e), around⟩ =
      Validation.needsAssignment (Validation.placeIn chapter around) "assignment" tag.pos ++
        if (Validation.placeIn chapter around).resolve target.text = some .fixed then
          [⟨.assignedConstant target.text, tag.pos⟩]
        else [] := by
  have found : assignment? ⟨.expr (.assign tag target e), around⟩ =
      some ⟨tag.pos, target, around.findSome? (·.meaning? target.text)⟩ := rfl
  have fixed : (Validation.placeIn chapter around).resolve target.text = some .fixed ↔
      (⟨tag.pos, target, around.findSome? (·.meaning? target.text)⟩ : Assignment α).IsFixed :=
    Validation.resolve_placeIn_fixed chapter around target.text
  have mutation : mutations chapter ⟨.expr (.assign tag target e), around⟩ =
      Validation.needsAssignment (Validation.placeIn chapter around) "assignment" tag.pos := rfl
  simp only [faults, mutation, strayReturns, fixedTargets, ret?, list?, found, fixed]
  generalize around.findSome? (·.meaning? target.text) = meaning
  by_cases h : (⟨tag.pos, target, meaning⟩ : Assignment α).IsFixed <;> simp [h]

/-- A site that no condition is about. -/
structure Plain (s : Site α) : Prop where
  ret : s.ret? = none
  mutable : s.mutable? = none
  assignment : s.assignment? = none
  list : s.list? = none

theorem Plain.faults {s : Site α} (h : s.Plain) : s.faults chapter = [] := by
  simp [Site.faults, strayReturns, mutations, fixedTargets, h.ret, h.mutable, h.assignment, h.list]

end Site

section FaultsOf

variable (sites rest : List (Site α))

@[simp] theorem faultsOf_nil : faultsOf chapter ([] : List (Site α)) = [] := rfl

@[simp] theorem faultsOf_cons (s : Site α) :
    faultsOf chapter (s :: rest) = s.faults chapter ++ faultsOf chapter rest := List.flatMap_cons

@[simp] theorem faultsOf_append :
    faultsOf chapter (sites ++ rest) = faultsOf chapter sites ++ faultsOf chapter rest :=
  List.flatMap_append

theorem faultsOf_plain {s : Site α} (h : s.Plain) :
    faultsOf chapter (s :: rest) = faultsOf chapter rest := by
  rw [faultsOf_cons, h.faults, List.nil_append]

theorem faultsOf_flatMap {γ : Type} (xs : List γ) (f : γ → List (Site α)) :
    faultsOf chapter (xs.flatMap f) = xs.flatMap fun x => faultsOf chapter (f x) :=
  List.flatMap_assoc

end FaultsOf

namespace Validation

theorem check_eq (chapter : Chapter) : Hereditary (α := α)
    (fun e => ∀ around, checkExpr (placeIn chapter around) e = faultsOf chapter (e.sites around))
    (fun s => ∀ around, checkStmt (placeIn chapter around) s = faultsOf chapter (s.sites around))
    (fun b => ∀ around, checkBlock (placeIn chapter around) b = faultsOf chapter (b.sites around))
    (fun b => ∀ around, checkIf (placeIn chapter around) b = faultsOf chapter (b.inner around))
    (fun a => ∀ around, checkAlternate (placeIn chapter around) a =
      faultsOf chapter (a.sites around)) where
  number tag x around := (faultsOf_plain [] ⟨rfl, rfl, rfl, rfl⟩).symm
  text tag s around := (faultsOf_plain [] ⟨rfl, rfl, rfl, rfl⟩).symm
  boolean tag b around := (faultsOf_plain [] ⟨rfl, rfl, rfl, rfl⟩).symm
  null tag around := (faultsOf_plain [] ⟨rfl, rfl, rfl, rfl⟩).symm
  name n around := (faultsOf_plain [] ⟨rfl, rfl, rfl, rfl⟩).symm
  unary tag op e ih around := by
    rw [checkExpr, Expr.sites, faultsOf_plain _ ⟨rfl, rfl, rfl, rfl⟩, ih]
  binary tag op l r ihl ihr around := by
    rw [checkExpr, Expr.sites, faultsOf_plain _ ⟨rfl, rfl, rfl, rfl⟩, faultsOf_append, ihl, ihr]
  conditional tag t c a iht ihc iha around := by
    rw [checkExpr, Expr.sites, faultsOf_plain _ ⟨rfl, rfl, rfl, rfl⟩, faultsOf_append,
      faultsOf_append, iht, ihc, iha]
  call tag f args ihf ihargs around := by
    rw [checkExpr, Expr.sites, faultsOf_plain _ ⟨rfl, rfl, rfl, rfl⟩, faultsOf_append, ihf,
      checkExprs_eq, Expr.sitesAll_eq, faultsOf_flatMap]
    exact congrArg _ (List.flatMap_congr fun e he => ihargs e he around)
  arrow tag ps body ih around := by
    rw [checkExpr, Expr.sites, faultsOf_plain _ ⟨rfl, rfl, rfl, rfl⟩]
    exact ih (.arrow ps :: around)
  arrowBlock tag ps body ih around := by
    rw [checkExpr, Expr.sites, faultsOf_plain _ ⟨rfl, rfl, rfl, rfl⟩]
    exact ih (.function ps :: around)
  assign tag target e ih around := by
    rw [checkExpr, Expr.sites, faultsOf_cons, Site.faults_assign, ih]
  declare tag keyword n e ih around := by
    have init := ih (.stmt (.declare tag keyword n e) :: around)
    cases keyword with
    | constant =>
      rw [checkStmt, Stmt.sites, faultsOf_plain _ ⟨rfl, rfl, rfl, rfl⟩]
      exact init
    | mutable =>
      rw [checkStmt, Stmt.sites, faultsOf_cons, Site.faults_mutable]
      exact congrArg _ init
  function tag n ps body ih around := by
    rw [checkStmt, Stmt.sites, faultsOf_plain _ ⟨rfl, rfl, rfl, rfl⟩]
    exact ih (.function ps :: .stmt (.function tag n ps body) :: around)
  retNothing tag around := by
    rw [checkStmt, Stmt.sites, faultsOf_cons, Site.faults_ret, Stmt.inner, faultsOf_nil,
      List.append_nil]
  ret tag e ih around := by
    rw [checkStmt, Stmt.sites, faultsOf_cons, Site.faults_ret]
    exact congrArg _ (ih (.stmt (.ret tag (some e)) :: around))
  ifElse b ih around := by
    rw [checkStmt, Stmt.sites, faultsOf_plain _ ⟨rfl, rfl, rfl, rfl⟩, ih, Stmt.inner]
  block b ih around := by
    rw [checkStmt, Stmt.sites, faultsOf_plain _ ⟨rfl, rfl, rfl, rfl⟩]
    exact ih (.stmt (.block b) :: around)
  expr e ih around := by
    rw [checkStmt, Stmt.sites, faultsOf_plain _ ⟨rfl, rfl, rfl, rfl⟩]
    exact ih (.stmt (.expr e) :: around)
  body tag body ih around := by
    rw [checkBlock, Block.sites, faultsOf_cons, Site.faults_list, checkStmts_eq, Stmt.sitesAll_eq,
      faultsOf_flatMap]
    exact congrArg _ (List.flatMap_congr fun s hs => ih s hs (.list body :: around))
  branch tag test consequent alternate iht ihc iha around := by
    rw [checkIf, If.inner, faultsOf_append, faultsOf_append, ← iht, ← ihc, ← iha]
    rfl
  absent around := rfl
  otherwise b ih around := ih around
  elseIf b ih around := by
    rw [checkAlternate, Alternate.sites, faultsOf_plain _ ⟨rfl, rfl, rfl, rfl⟩, ih]

theorem errors_eq (chapter : Chapter) (p : Program α) :
    errors chapter p = faultsOf chapter p.sites := by
  rw [errors, Program.sites, faultsOf_cons, Site.faults_list, checkStmts_eq, Stmt.sitesAll_eq,
    faultsOf_flatMap]
  exact congrArg _ (List.flatMap_congr fun s _ => (check_eq chapter).forStmt s [.list p.body])

end Validation

/-! ## Repeated declarations -/

theorem mem_declaredNames {x : String} {body : List (Stmt α)} :
    x ∈ declaredNames body ↔ ∃ s ∈ body, s.Declares x := by
  simp only [declaredNames, List.mem_map, List.mem_filterMap, Stmt.Declares, Option.map_eq_some_iff]
  grind

theorem flatMap_dedup_perm {γ : Type} (names : List String) (y : String) (f : String → List γ)
    (absent : y ∉ names → f y = []) :
    (names.dedup.flatMap f).Perm (f y ++ (names.dedup.erase y).flatMap f) := by
  by_cases mem : y ∈ names
  · exact (List.perm_cons_erase (List.mem_dedup.mpr mem)).flatMap_right f
  · rw [absent mem, List.erase_of_not_mem (mt List.mem_dedup.mp mem), List.nil_append]

theorem erase_dedup_cons (names : List String) (y : String) :
    (y :: names).dedup.erase y = names.dedup.erase y := by
  by_cases mem : y ∈ names
  · rw [List.dedup_cons_of_mem mem]
  · rw [List.dedup_cons_of_notMem mem, List.erase_cons_head,
      List.erase_of_not_mem (mt List.mem_dedup.mp mem)]

namespace Validation

/-- The declarations of `x` that are repeated if the names in `seen` have been declared before. -/
def repeatsOf (seen : List String) (body : List (Stmt α)) (x : String) : List ValidationError :=
  (if x ∈ seen then body.filter (·.Declares x) else (body.filter (·.Declares x)).tail).map
    fun s => ⟨.declaredTwice x, s.pos⟩

section RepeatsOf

variable {s : Stmt α} {rest : List (Stmt α)} {seen : List String} {x : String}

theorem repeatsOf_cons_other (h : ¬ s.Declares x) :
    repeatsOf seen (s :: rest) x = repeatsOf seen rest x := by
  simp [repeatsOf, h]

theorem repeatsOf_cons_again (h : s.Declares x) (again : x ∈ seen) :
    repeatsOf seen (s :: rest) x = ⟨.declaredTwice x, s.pos⟩ :: repeatsOf seen rest x := by
  simp [repeatsOf, h, again]

theorem repeatsOf_cons_first (h : s.Declares x) (first : x ∉ seen) :
    repeatsOf seen (s :: rest) x = repeatsOf (x :: seen) rest x := by
  simp [repeatsOf, h, first]

theorem repeatsOf_seen {y : String} (other : x ≠ y) :
    repeatsOf (y :: seen) rest x = repeatsOf seen rest x := by
  simp [repeatsOf, other]

theorem repeatsOf_absent (h : x ∉ declaredNames rest) : repeatsOf seen rest x = [] := by
  have none : rest.filter (·.Declares x) = [] :=
    List.filter_eq_nil_iff.mpr fun s mem declares =>
      h (mem_declaredNames.mpr ⟨s, mem, of_decide_eq_true declares⟩)
  simp [repeatsOf, none]

theorem repeats_perm (seen : List String) (body : List (Stmt α)) :
    (repeats seen body).Perm ((declaredNames body).dedup.flatMap (repeatsOf seen body)) := by
  -- Each step of the scan takes up the name that the statement declares.
  induction body generalizing seen with
  | nil => exact .refl _
  | cons s rest ih =>
    unfold repeats
    cases declared : s.declared? with
    | none =>
      have same (x : String) : repeatsOf seen (s :: rest) x = repeatsOf seen rest x :=
        repeatsOf_cons_other (by simp [Stmt.Declares, declared])
      rw [declaredNames_none declared, funext same]
      exact ih seen
    | some n =>
      have declares : s.Declares n.text := by simp [Stmt.Declares, declared]
      have others (x : String) (mem : x ∈ (declaredNames rest).dedup.erase n.text) :
          x ≠ n.text ∧ ¬ s.Declares x := by
        have other := ((List.nodup_dedup _).mem_erase_iff.mp mem).1
        exact ⟨other, by simpa [Stmt.Declares, declared] using other.symm⟩
      have whole := flatMap_dedup_perm (n.text :: declaredNames rest) n.text
        (repeatsOf seen (s :: rest)) (fun absent => absurd List.mem_cons_self absent)
      have below (seen : List String) := flatMap_dedup_perm (declaredNames rest) n.text
        (repeatsOf seen rest) repeatsOf_absent
      rw [erase_dedup_cons, List.flatMap_congr fun x mem =>
        repeatsOf_cons_other (others x mem).2] at whole
      rw [declaredNames_some declared]
      dsimp only
      by_cases again : n.text ∈ seen
      · rw [if_pos (List.contains_iff_mem.mpr again)]
        rw [repeatsOf_cons_again declares again] at whole
        exact ((ih seen).trans (below seen)).cons _ |>.trans whole.symm
      · rw [if_neg (mt List.contains_iff_mem.mp again)]
        rw [repeatsOf_cons_first declares again, ← List.flatMap_congr fun x mem =>
          repeatsOf_seen (others x mem).1] at whole
        exact (ih _).trans ((below _).trans whole.symm)

end RepeatsOf

theorem repeats_redeclarations (body : List (Stmt α)) :
    (repeats [] body).Perm (redeclarations body) := repeats_perm [] body

end Validation

/-! ## Accepted programs -/

theorem Validation.validate_of_faults {p : Program α} (h : Validation.errors chapter p ≠ []) :
    validate chapter p = .error (Validation.errors chapter p) := by
  unfold validate
  split
  next sound => exact absurd sound h
  next => rfl

theorem Validation.errors_of_rejected {p : Program α} {errors : List ValidationError}
    (h : validate chapter p = .error errors) : errors = Validation.errors chapter p := by
  unfold validate at h
  split at h
  next => cases h
  next => exact (Except.error.inj h).symm

theorem Site.faults_eq_nil {s : Site α} :
    s.faults chapter = [] ↔
      (s.ret?.isSome → s.InFunction) ∧
      (chapter.offers .three ∨ s.mutable? = none ∧ s.assignment? = none) ∧
      (∀ body ∈ s.list?, (declaredNames body).Nodup) ∧
      ∀ a ∈ s.assignment?, ¬ a.IsFixed := by
  have returns : s.strayReturns = [] ↔ (s.ret?.isSome → s.InFunction) := by
    unfold strayReturns
    by_cases inside : s.InFunction <;> cases s.ret? <;> simp [inside]
  have mutation : s.mutations chapter = [] ↔
      (chapter.offers .three ∨ s.mutable? = none ∧ s.assignment? = none) := by
    unfold mutations
    by_cases offered : chapter.offers .three <;> simp [offered]
  have names : s.list?.toList.flatMap (Validation.repeats []) = [] ↔
      ∀ body ∈ s.list?, (declaredNames body).Nodup := by
    simp [Validation.repeats_eq_nil]
  have targets : s.fixedTargets = [] ↔ ∀ a ∈ s.assignment?, ¬ a.IsFixed := by
    simp [fixedTargets]
  rw [faults, List.append_eq_nil_iff, List.append_eq_nil_iff, List.append_eq_nil_iff, returns,
    mutation, names, targets, and_assoc, and_assoc]

theorem Program.wellFormed_iff {p : Program α} :
    p.WellFormed chapter ↔ Validation.errors chapter p = [] := by
  rw [Validation.errors_eq, faultsOf, List.flatMap_eq_nil_iff]
  simp only [Site.faults_eq_nil]
  constructor
  · intro h s mem
    exact ⟨h.returns s mem, h.mutation.imp_right fun none => none s mem, h.names s mem,
      h.targets s mem⟩
  · intro h
    exact
      { returns := fun s mem => (h s mem).1
        mutation := by
          by_cases offered : chapter.offers .three
          · exact .inl offered
          · exact .inr fun s mem => (h s mem).2.1.resolve_left offered
        names := fun s mem => (h s mem).2.2.1
        targets := fun s mem => (h s mem).2.2.2 }

theorem faultsOf_perm (sites : List (Site α)) :
    (faultsOf chapter sites).Perm
      (sites.flatMap (·.strayReturns) ++ sites.flatMap (·.mutations chapter) ++
        sites.flatMap (·.duplicates) ++ sites.flatMap (·.fixedTargets)) := by
  have duplicates (s : Site α) :
      (s.list?.toList.flatMap (Validation.repeats [])).Perm s.duplicates :=
    List.Perm.flatMap_left _ fun body _ => Validation.repeats_redeclarations body
  have sorted (s : Site α) : (s.faults chapter).Perm
      (s.strayReturns ++ s.mutations chapter ++ s.duplicates ++ s.fixedTargets) :=
    ((duplicates s).append_left _).append_right _
  have split (f g : Site α → List ValidationError) :
      (sites.flatMap fun s => f s ++ g s).Perm (sites.flatMap f ++ sites.flatMap g) :=
    (List.flatMap_append_perm sites f g).symm
  refine (List.Perm.flatMap_left _ fun s _ => sorted s).trans ((split _ _).trans ?_)
  exact ((split _ _).trans ((split _ _).append_right _)).append_right _

/-! ## The tree that validation gives -/

section Noted

variable (note : β)

mutual
/-- The same expression with the one note on every node. -/
def Expr.noted : Expr α → Expr β
  | .number tag x => .number (tag.annotate note) x
  | .text tag s => .text (tag.annotate note) s
  | .boolean tag b => .boolean (tag.annotate note) b
  | .null tag => .null (tag.annotate note)
  | .name n => .name (n.annotate note)
  | .unary tag op e => .unary (tag.annotate note) op e.noted
  | .binary tag op l r => .binary (tag.annotate note) op l.noted r.noted
  | .conditional tag t c a => .conditional (tag.annotate note) t.noted c.noted a.noted
  | .call tag f args => .call (tag.annotate note) f.noted (Expr.notedAll args)
  | .arrow tag ps body => .arrow (tag.annotate note) (ps.map (·.annotate note)) body.noted
  | .arrowBlock tag ps body => .arrowBlock (tag.annotate note) (ps.map (·.annotate note)) body.noted
  | .assign tag target e => .assign (tag.annotate note) (target.annotate note) e.noted

def Expr.notedAll : List (Expr α) → List (Expr β)
  | [] => []
  | e :: es => e.noted :: Expr.notedAll es

def Stmt.noted : Stmt α → Stmt β
  | .declare tag keyword n e => .declare (tag.annotate note) keyword (n.annotate note) e.noted
  | .function tag n ps body =>
    .function (tag.annotate note) (n.annotate note) (ps.map (·.annotate note)) body.noted
  | .ret tag none => .ret (tag.annotate note) none
  | .ret tag (some e) => .ret (tag.annotate note) (some e.noted)
  | .ifElse b => .ifElse b.noted
  | .block b => .block b.noted
  | .expr e => .expr e.noted

def Stmt.notedAll : List (Stmt α) → List (Stmt β)
  | [] => []
  | s :: ss => s.noted :: Stmt.notedAll ss

def Block.noted : Block α → Block β
  | ⟨tag, body⟩ => ⟨tag.annotate note, Stmt.notedAll body⟩

def If.noted : If α → If β
  | ⟨tag, test, consequent, alternate⟩ =>
    ⟨tag.annotate note, test.noted, consequent.noted, alternate.noted⟩

def Alternate.noted : Alternate α → Alternate β
  | .absent => .absent
  | .block b => .block b.noted
  | .elseIf b => .elseIf b.noted
end

def Program.noted (p : Program α) : Program β := ⟨Stmt.notedAll note p.body⟩

theorem Expr.notedAll_eq (es : List (Expr α)) : notedAll note es = es.map (noted note) := by
  induction es with
  | nil => rfl
  | cons e es ih => rw [notedAll, ih, List.map_cons]

theorem Stmt.notedAll_eq (ss : List (Stmt α)) : notedAll note ss = ss.map (noted note) := by
  induction ss with
  | nil => rfl
  | cons s ss ih => rw [notedAll, ih, List.map_cons]

theorem mapNotes_noted : Hereditary (α := α)
    (fun e => e.mapNotes (fun _ => note) = e.noted note)
    (fun s => s.mapNotes (fun _ => note) = s.noted note)
    (fun b => b.mapNotes (fun _ => note) = b.noted note)
    (fun b => b.mapNotes (fun _ => note) = b.noted note)
    (fun a => a.mapNotes (fun _ => note) = a.noted note) := by
  have tags (tag : Tag α) : tag.mapNote (fun _ => note) = tag.annotate note := rfl
  have names (n : Name α) : n.mapNote (fun _ => note) = n.annotate note := rfl
  constructor <;> intros <;>
    simp_all [Expr.noted, Stmt.noted, Block.noted, If.noted, Alternate.noted, Expr.notedAll_eq,
      Stmt.notedAll_eq]

theorem Program.map_noted (p : Program α) : p.map (fun _ => note) = p.noted note := by
  rw [Program.map_eq, noted, Stmt.notedAll_eq]
  exact congrArg Program.mk (List.map_congr_left fun s _ => (mapNotes_noted note).forStmt s)

end Noted

/-- Validation accepts the well-formed programs and gives them back with no verdicts. Of any other
program it gives all faults: each stray `return`, each `let` and assignment that the chapter does not
offer, each declaration of a name but the first in its list, each assignment to something fixed. -/
theorem validate_wellFormed (chapter : Chapter) (p : Program α) :
    ((∃ q, validate chapter p = .ok q) ↔ p.WellFormed chapter) ∧
    (∀ q, validate chapter p = .ok q → q = p.noted .pending) ∧
    ∀ errors, validate chapter p = .error errors →
      errors.Perm (p.sites.flatMap (·.strayReturns) ++ p.sites.flatMap (·.mutations chapter) ++
        p.sites.flatMap (·.duplicates) ++ p.sites.flatMap (·.fixedTargets)) := by
  rw [Program.wellFormed_iff]
  refine ⟨⟨fun accepted => Validation.errors_of_validate accepted.choose_spec,
    fun sound => ⟨_, Validation.validate_of_errors sound⟩⟩, ?_, ?_⟩
  · intro q accepted
    rw [Validation.validate_of_errors (Validation.errors_of_validate accepted)] at accepted
    rw [← Except.ok.inj accepted, Program.map_noted]
  · intro errors rejected
    rw [Validation.errors_of_rejected rejected, Validation.errors_eq]
    exact faultsOf_perm p.sites

end Polytype
