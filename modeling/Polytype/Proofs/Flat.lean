import Polytype.Proofs.Prelude
import Polytype.Proofs.Schemes

/-!
# Types without pairs and lists

The prelude of the first chapter has no pair and no list in it, and neither unifying nor
instantiating nor generalizing makes one. So inference in that chapter never meets any.
-/

namespace Polytype

namespace Ty

mutual
/-- Has no pair and no list in it. -/
def isFlat : Ty → Bool
  | .var _ | .prim _ => true
  | .func ps r => isFlatAll ps && r.isFlat
  | .pair _ _ | .list _ => false

def isFlatAll : List Ty → Bool
  | [] => true
  | t :: ts => t.isFlat && isFlatAll ts
end

theorem isFlatAll_iff {ts : List Ty} : isFlatAll ts = true ↔ ∀ t ∈ ts, t.isFlat = true := by
  induction ts with
  | nil => simp [isFlatAll]
  | cons t ts ih => rw [isFlatAll, Bool.and_eq_true, ih, List.forall_mem_cons]

@[simp] theorem isFlat_var (v : Var) : (Ty.var v).isFlat = true := by rw [isFlat]

@[simp] theorem isFlat_prim (p : Prim) : (Ty.prim p).isFlat = true := by rw [isFlat]

@[simp] theorem isFlat_func {ps : List Ty} {r : Ty} :
    (Ty.func ps r).isFlat = true ↔ (∀ p ∈ ps, p.isFlat = true) ∧ r.isFlat = true := by
  rw [isFlat, Bool.and_eq_true, isFlatAll_iff]

theorem isFlat_bind {f : Var → Ty} {t : Ty} (ht : t.isFlat = true)
    (hf : ∀ v ∈ t.vars, (f v).isFlat = true) : (t.bind f).isFlat = true := by
  induction t using Ty.ind with
  | var v => exact hf v (List.mem_singleton.mpr rfl)
  | prim p => exact ht
  | func ps r ihps ihr =>
    simp only [mem_vars_func] at hf
    rw [isFlat_func] at ht
    rw [bind, bindAll_eq, isFlat_func]
    refine ⟨fun p hp => ?_, ihr ht.2 fun v hv => hf v (.inr hv)⟩
    obtain ⟨q, hq, rfl⟩ := List.mem_map.mp hp
    exact ihps q hq (ht.1 q hq) fun v hv => hf v (.inl ⟨q, hq, hv⟩)
  | pair h t => cases ht
  | list e => cases ht

theorem foldLists_of_isFlat {t : Ty} (ht : t.isFlat = true) : t.foldLists = t := by
  induction t using Ty.ind with
  | var v => rfl
  | prim p => rfl
  | func ps r ihps ihr =>
    rw [isFlat_func] at ht
    rw [foldLists, foldListsAll_eq, ihr ht.2]
    have same : ps.map foldLists = ps := by
      rw [List.map_congr_left fun p hp => ihps p hp (ht.1 p hp), List.map_id'']
      exact fun _ => rfl
    rw [same]
  | pair h t => cases ht
  | list e => cases ht

end Ty

/-! ## Substitutions -/

namespace Subst

def IsFlat (s : Subst) : Prop := ∀ v t, s.find? v = some t → t.isFlat = true

namespace IsFlat

variable {s f : Subst}

theorem empty : IsFlat .empty := by rintro v t ⟨⟩

theorem single {v : Var} {t : Ty} (ht : t.isFlat = true) : IsFlat (.single v t) := by
  intro w u found
  rw [find?_single] at found
  split at found
  · cases found
    exact ht
  · cases found

theorem apply (h : s.IsFlat) (idem : s.Idempotent) {t : Ty} (ht : t.isFlat = true) :
    (s.apply t).isFlat = true := by
  rw [idem.apply_eq]
  refine Ty.isFlat_bind ht fun v _ => ?_
  cases found : s.find? v with
  | none => simp [image, found]
  | some u => simpa [image, found] using h v u found

theorem compose (h : s.IsFlat) (hf : f.IsFlat) (idem : f.Idempotent) (apart : s.Apart f) :
    (s.compose f).IsFlat := by
  intro v t found
  rw [find?_compose_of_apart apart] at found
  cases old : s.find? v with
  | none =>
    rw [old] at found
    exact hf v t found
  | some u =>
    rw [old] at found
    cases found
    exact hf.apply idem (h v u old)

end IsFlat

end Subst

namespace Unify

variable {unify : Ty → Ty → Outcome} {a b : Ty} {s : Subst}

theorem level_isFlat (hb : Bounded unify) (hu : ∀ {a b : Ty} {s : Subst}, unify a b = .ok s →
      a.isFlat = true → b.isFlat = true → s.IsFlat) (h : Level unify a b s)
    (flatA : a.isFlat = true) (flatB : b.isFlat = true) : s.IsFlat := by
  induction h with
  | same _ => exact .empty
  | prim _ => exact .empty
  | bind _ _ => exact .single flatB
  | func _ found =>
    rw [Ty.isFlat_func] at flatA flatB
    refine rows_invariant hb hu (fun hs h ht => h.apply hs ht)
      (fun h hf idem apart => h.compose hf idem apart) idempotent_empty .empty ?_ ?_ found
    · simpa [or_imp, forall_and] using flatA
    · simpa [or_imp, forall_and] using flatB
  | fixpoint => cases flatB
  | pair => cases flatA
  | list => cases flatA
  | listPair => cases flatA
  | swap _ ih => exact ih flatB flatA

end Unify

theorem unify_isFlat {a b : Ty} {s : Subst} (found : unify a b = .ok s) (ha : a.isFlat = true)
    (hb : b.isFlat = true) : s.IsFlat := by
  refine Unify.unify_induction (P := fun a b s => a.isFlat = true → b.isFlat = true → s.IsFlat) ?_ found
    ha hb
  exact fun _ _ _ _ => Unify.level_isFlat

/-! ## Contexts -/

/-- No pair or list is known of a variable or stands in the environment. -/
structure Context.Flat (c : Context) : Prop where
  subst : c.subst.IsFlat
  env {entry : String × Scheme} (he : entry ∈ c.env.entries) : entry.2.ty.isFlat = true

namespace Prelude

theorem flat_one : ∀ entry ∈ (numbered 0 (entries .one)).1, entry.2.ty.isFlat = true := by decide

theorem new_flat : (Context.new .one).Flat :=
  ⟨.empty, fun he => flat_one _ (mem_entries_new he)⟩

end Prelude

variable {k : Nat → Bool} {c c' : Context} {H : Set Var}

namespace Context.Flat

theorem apply (h : c.Flat) (regular : Regular k c H) {t : Ty} (ht : t.isFlat = true) :
    (c.apply t).isFlat = true := h.subst.apply regular.idempotent ht

theorem instantiate (h : c.Flat) {entry : String × Scheme} (he : entry ∈ c.env.entries)
    {ren : Var → Var} {t : Ty} (inst : Instantiated c entry.2 ren t c') : t.isFlat = true := by
  rw [inst.ty]
  exact Ty.isFlat_bind (h.env he) fun _ _ => Ty.isFlat_var _

theorem generalize (h : c.Flat) (regular : Regular k c H) {t : Ty} (ht : t.isFlat = true) :
    (c.generalize t).ty = c.apply t ∧ (c.generalize t).ty.isFlat = true := by
  have flat := h.apply regular ht
  have eq : (c.generalize t).ty = c.apply t := Ty.foldLists_of_isFlat flat
  exact ⟨eq, eq ▸ flat⟩

end Context.Flat

end Polytype
