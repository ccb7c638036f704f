import Polytype.Proofs.Failures
import Polytype.Proofs.Notes
import Polytype.Proofs.Schemes
import Polytype.Proofs.Walk.Equations

/-!
# The walk takes acts only

Every function of the walk, run from a sane context, gets to its last context by acts
(`Traced`), whether it reports errors or not. So what `Reach` says holds of every run of inference.
Along the way this also tells what a run leaves behind: expressions leave the environment as it was,
statements change its innermost scope alone, the types in the outcome and in the notes are over the
variables at hand, and the tree is the given one but for its notes.
-/

namespace Polytype

variable {α β γ : Type}

namespace Walk

/-- Run from `c`, with the variables of `H` at hand, `m` takes acts only, and `post` holds of the
result, the last context and the variables at hand then. -/
def Traced (m : Walk β) (c : Context) (H : Set Var) (post : β → Context → Set Var → Prop) : Prop :=
  Sane c H → ∃ H', Reach (c, H) ((m.run c).2, H') ∧ post (m.run c).1 (m.run c).2 H'

/-- The same for a walk that leaves the environment as it was. -/
def Steady (m : Walk β) (c : Context) (H : Set Var) (post : β → Set Var → Prop) : Prop :=
  Traced m c H fun b c' H' => c'.env = c.env ∧ post b H'

variable {c : Context} {H : Set Var} {m : Walk β} {f : β → Walk γ}

namespace Traced

variable {mid post : β → Context → Set Var → Prop} {post' : γ → Context → Set Var → Prop}

theorem pure {b : β} (h : post b c H) : Traced (pure b) c H post :=
  fun _ => ⟨H, .refl, h⟩

theorem bind (hm : Traced m c H mid)
    (hf : ∀ b c₁ H₁, H ⊆ H₁ → mid b c₁ H₁ → Traced (f b) c₁ H₁ post') :
    Traced (m >>= f) c H post' := by
  intro sane
  obtain ⟨H₁, run₁, h₁⟩ := hm sane
  obtain ⟨H₂, run₂, h₂⟩ := hf _ _ _ (Reach.held_subset run₁) h₁ (Reach.sane run₁ sane)
  exact ⟨H₂, run₁.trans run₂, h₂⟩

theorem mono (hm : Traced m c H mid) (h : ∀ b c' H', H ⊆ H' → mid b c' H' → post b c' H') :
    Traced m c H post := by
  intro sane
  obtain ⟨H', run, hmid⟩ := hm sane
  exact ⟨H', run, h _ _ _ (Reach.held_subset run) hmid⟩

theorem of_reach {c' : Context} {H' : Set Var} {b : β} (reach : Reach (c, H) (c', H'))
    (run : m.run c = (b, c')) (h : post b c' H') : Traced m c H post := by
  intro _
  refine ⟨H', ?_, ?_⟩ <;> rw [run]
  · exact reach
  · exact h

end Traced

namespace Steady

variable {mid post : β → Set Var → Prop} {post' : γ → Set Var → Prop}

theorem pure {b : β} (h : post b H) : Steady (pure b) c H post := Traced.pure ⟨rfl, h⟩

theorem bind (hm : Steady m c H mid)
    (hf : ∀ b c₁ H₁, c₁.env = c.env → H ⊆ H₁ → mid b H₁ → Steady (f b) c₁ H₁ post') :
    Steady (m >>= f) c H post' := by
  refine Traced.bind hm fun b c₁ H₁ sub h => ?_
  refine (hf b c₁ H₁ h.1 sub h.2).mono fun b' c' H' _ h' => ?_
  exact ⟨h'.1.trans h.1, h'.2⟩

theorem of_run {b : β} (run : m.run c = (b, c)) (h : post b H) : Steady m c H post :=
  Traced.of_reach .refl run ⟨rfl, h⟩

theorem assume (h : Sane c H → Steady m c H post) : Steady m c H post := fun sane => h sane sane

theorem next {c' : Context} {H' : Set Var} {b : β} (reach : Reach (c, H) (c', H'))
    (run : m.run c = (b, c')) (env : c'.env = c.env) (h : Steady (f b) c' H' post') :
    Steady (m >>= f) c H post' := by
  intro sane
  obtain ⟨H₁, rest, env', found⟩ := h (Reach.sane reach sane)
  refine ⟨H₁, ?_, ?_⟩ <;> rw [run_bind, run]
  · exact reach.trans rest
  · exact ⟨env'.trans env, found⟩

theorem look {b : β} (run : m.run c = (b, c)) (h : Steady (f b) c H post') :
    Steady (m >>= f) c H post' := .next .refl run rfl h

theorem ite {p : Prop} [Decidable p] {m' : Walk β} (hm : p → Steady m c H post)
    (hm' : ¬p → Steady m' c H post) : Steady (if p then m else m') c H post := by
  split
  next h => exact hm h
  next h => exact hm' h

end Steady

/-! ## Steps -/

theorem freshTy_steady (c : Context) (H : Set Var) :
    Steady freshTy c H fun t H' => t.Over H' :=
  Traced.of_reach (.single (.fresh c H false)) rfl ⟨rfl, Ty.over_var.mpr (Set.mem_insert _ _)⟩

theorem apply_steady {t : Ty} (ht : t.Over H) : Steady (apply t) c H fun t' H' => t'.Over H' :=
  Traced.of_reach (.single (.see ht)) rfl ⟨rfl, fun _ hv => .inr hv⟩

theorem lookup_steady (name : String) :
    Steady (lookup name) c H fun found _ => found = c.env.lookup name := .of_run rfl rfl

theorem lookupLocal_steady (name : String) :
    Steady (lookupLocal name) c H fun found _ => found = c.env.lookupLocal name := .of_run rfl rfl

theorem errorCount_steady : Steady errorCount c H fun _ _ => True := .of_run rfl trivial

theorem report_steady {problem : Problem} (pos : Position) (h : problem.Conflicts)
    (known : ∀ t ∈ problem.types, t.Over (c.seen H)) :
    Steady (report problem pos) c H fun _ _ => True :=
  Traced.of_reach (.single (.report c H pos h known)) rfl ⟨rfl, trivial⟩

theorem unbound_steady (name : String) (pos : Position) :
    Steady (report (.unboundName name) pos) c H fun _ _ => True :=
  report_steady pos trivial (by simp [Problem.types])

theorem equate_bind {a b : Ty} (ha : a.Over H) (hb : b.Over H) {f : Option UnifyError → Walk β}
    {post : β → Set Var → Prop} (unified : ∀ c', c'.env = c.env → Steady (f none) c' H post)
    (failed : ∀ e, Sane c H → Polytype.unify (c.apply a) (c.apply b) = .error e →
      Steady (f (some e)) c H post) : Steady (equate a b >>= f) c H post := by
  have run := equate_run a b c
  cases found : Polytype.unify (c.apply a) (c.apply b) with
  | ok s =>
    rw [found] at run
    exact .next (.single (.commit ha hb found)) run rfl (unified _ rfl)
  | error e =>
    rw [found] at run
    exact fun sane => Steady.look run (failed e sane found) sane

theorem over_resolve {as bs : List Ty} (ha : ∀ t ∈ as, t.Over H) (hb : ∀ t ∈ bs, t.Over H) :
    ∀ t ∈ as.map c.resolve ++ bs.map c.resolve, t.Over (c.seen H) :=
  List.forall_mem_append.mpr ⟨List.forall_mem_map.mpr fun t ht => (ha t ht).resolve,
    List.forall_mem_map.mpr fun t ht => (hb t ht).resolve⟩

theorem over_pair {a b : Ty} (ha : a.Over H) (hb : b.Over H) :
    ∀ t ∈ [c.resolve a, c.resolve b], t.Over (c.seen H) := by
  simp [ha.resolve, hb.resolve]

theorem blame_steady {a b : Ty} (ha : a.Over H) (hb : b.Over H) (sane : Sane c H) {e : UnifyError}
    (failed : Polytype.unify (c.apply a) (c.apply b) = .error e) (construct : Construct)
    (source : String) {problem : Problem} (h : problem.Conflicts)
    (known : ∀ t ∈ problem.types, t.Over (c.seen H)) (pos : Position) :
    Steady (do report (← blame construct source problem e) pos) c H fun _ _ => True := by
  cases e with
  | occurs v t =>
    refine .look rfl (report_steady pos (sane.not_unifiable_of_occurs ha hb failed) ?_)
    simpa [Problem.types] using sane.seen_of_occurs ha hb failed
  | mismatch _ _ | arity _ _ => exact .look rfl (report_steady pos h known)

theorem instantiate_steady {entry : String × Scheme} (he : entry ∈ c.env.entries) :
    Steady (instantiate entry.2) c H fun t H' => t.Over H' := by
  rintro ⟨k, regular⟩
  obtain ⟨ren, H', run, overH, inst⟩ := regular.instantiate he
  refine ⟨H', run, ?_, overH⟩
  show (c.instantiate entry.2).2.env = c.env
  rw [inst.context]

/-! ## Names -/

theorem useName_steady (name : String) (pos : Position) :
    Steady (useName name pos) c H fun t H' => t.Over H' := by
  unfold useName
  refine .bind (lookup_steady name) fun found c₁ H₁ env _ h => ?_
  cases found with
  | none => exact .bind (unbound_steady name pos) fun _ _ _ _ _ _ => freshTy_steady _ _
  | some scheme =>
    have he : (name, scheme) ∈ c₁.env.entries := Env.mem_entries_lookup (env ▸ h.symm)
    exact instantiate_steady he

/-! ## Checks -/

theorem checkOperands_steady (params operands : List Ty) (construct : Construct)
    (operator source : String) (pos : Position) (pairs : List (Ty × Ty))
    (among : ∀ pair ∈ pairs, pair ∈ params.zip operands) (hp : ∀ t ∈ params, t.Over H)
    (ho : ∀ t ∈ operands, t.Over H) :
    Steady (checkOperands params operands construct operator source pos pairs) c H
      fun _ _ => True := by
  induction pairs generalizing c with
  | nil => exact .pure trivial
  | cons pair rest ih =>
    obtain ⟨param, operand⟩ := pair
    obtain ⟨mem, among⟩ := List.forall_mem_cons.mp among
    obtain ⟨left, right⟩ := List.of_mem_zip mem
    have overp := hp param left
    have overo := ho operand right
    unfold checkOperands
    refine equate_bind overp overo (fun _ _ => ih among) fun e sane failed => ?_
    refine .look rfl (.look rfl (blame_steady overp overo sane failed _ _ ?_ ?_ pos))
    · refine ⟨(c.resolve param, c.resolve operand), ?_, sane.not_unifiable overp overo failed⟩
      rw [List.zip_map]
      exact List.mem_map_of_mem mem
    · exact over_resolve hp ho

theorem useOperator_steady (key operator source : String) (construct : Construct)
    {operands : List Ty} (pos : Position) (h : ∀ t ∈ operands, t.Over H) :
    Steady (useOperator key operator source construct operands pos) c H
      fun t H' => t.Over H' := by
  unfold useOperator
  refine .bind (useName_steady key pos) fun t c₁ H₁ _ sub ht => ?_
  split
  next params result =>
    obtain ⟨hp, hr⟩ := Ty.over_func.mp ht
    exact .bind (checkOperands_steady _ _ _ _ _ _ _ (fun _ => id) hp fun t ht => (h t ht).mono sub)
      fun _ _ _ _ sub' _ => apply_steady (hr.mono sub')
  next => exact freshTy_steady _ _

theorem check_steady {a b : Ty} (ha : a.Over H) (hb : b.Over H) {failed : UnifyError → Walk Unit}
    (h : ∀ e, Sane c H → Polytype.unify (c.apply a) (c.apply b) = .error e →
      Steady (failed e) c H fun _ _ => True) :
    Steady (do
      match ← equate a b with
      | none => return
      | some e => failed e) c H fun _ _ => True :=
  equate_bind ha hb (fun _ _ => .pure trivial) h

theorem checkTest_steady (construct : Construct) (source : String) (pos : Position) {test : Ty}
    (h : test.Over H) : Steady (checkTest construct source pos test) c H fun _ _ => True :=
  check_steady h (Ty.over_prim _) fun _ sane failed =>
    .look rfl (report_steady pos (sane.not_unifiable h (Ty.over_prim _) failed)
      (List.forall_mem_singleton.mpr h.resolve))

theorem checkBranches_steady (construct : Construct) (source : String) (pos : Position)
    {consequent alternate : Ty} (hc : consequent.Over H) (ha : alternate.Over H) :
    Steady (checkBranches construct source pos consequent alternate) c H fun _ _ => True := by
  refine check_steady hc ha fun e sane failed => .look rfl (.look rfl ?_)
  refine blame_steady hc ha sane failed _ _ ?_ ?_ pos
  · exact sane.not_unifiable hc ha failed
  · exact over_pair hc ha

theorem checkSame_steady (construct : Construct) (source : String) (pos : Position)
    {expected found : Ty} (he : expected.Over H) (hf : found.Over H) :
    Steady (checkSame construct source pos expected found) c H fun _ _ => True := by
  refine check_steady he hf fun e sane failed => .look rfl (.look rfl ?_)
  refine blame_steady he hf sane failed _ _ ?_ ?_ pos
  · exact sane.not_unifiable he hf failed
  · exact over_pair he hf

theorem collapseList_steady {t : Ty} (ht : t.Over H) :
    Steady (collapseList t) c H fun t' H' => t'.Over H' := by
  unfold collapseList
  split
  next head element =>
    have parts : head.Over H ∧ element.Over H := by simpa using ht
    have run := collapseList_run head element c
    cases unseen : c.unifyUnseen? element head with
    | none =>
      rw [unseen] at run
      exact .of_run run ht
    | some c' =>
      rw [unseen] at run
      obtain ⟨f, found, rfl⟩ := commit_of_unifyUnseen? unseen
      refine Traced.of_reach (.tail (.single (.commit parts.2 parts.1 found)) (.see ?_)) run
        ⟨rfl, fun _ hv => .inr hv⟩
      exact Ty.over_list.mpr parts.2
  next => exact .pure ht

theorem applyCallee_steady {callee : Ty} {args : List Ty} (source : String) (pos : Position)
    (hc : callee.Over H) (ha : ∀ t ∈ args, t.Over H)
    (arity : ∀ params r, callee = .func params r → params.length = args.length) :
    Steady (applyCallee callee args source pos) c H fun t H' => t.Over H' := by
  refine .assume fun before => ?_
  unfold applyCallee
  refine .next (.single (.fresh c H false)) rfl rfl ?_
  have held : callee.Over (insert (c.freshVar false).1 H) := hc.mono (Set.subset_insert _ _)
  have result : (Ty.var (c.freshVar false).1).Over (insert (c.freshVar false).1 H) :=
    Ty.over_var.mpr (Set.mem_insert _ _)
  have expected : (Ty.func args (.var (c.freshVar false).1)).Over (insert (c.freshVar false).1 H) :=
    Ty.over_func.mpr ⟨fun t ht => (ha t ht).mono (Set.subset_insert _ _), result⟩
  refine equate_bind held expected (fun _ _ => ?_) fun e sane failed => ?_
  · exact .bind (apply_steady result) fun _ _ _ _ _ ht => collapseList_steady ht
  · dsimp only
    split
    next params r =>
      obtain ⟨hp, hr⟩ := Ty.over_func.mp hc
      refine .look rfl (.look rfl ?_)
      refine .bind (report_steady pos ⟨?_, ?_⟩ ?_) fun _ _ _ _ _ _ => freshTy_steady _ _
      · rw [List.length_map, List.length_map]
        exact arity params r rfl
      · exact before.not_unifiable_of_call hp ha hr failed
      · exact over_resolve (Ty.over_func.mp held).1 (Ty.over_func.mp expected).1
    next =>
      refine .look rfl (.look rfl ?_)
      rw [← bind_assoc]
      refine .bind (blame_steady held expected sane failed _ _ ?_ ?_ pos) fun _ _ _ _ _ _ =>
        freshTy_steady _ _
      · exact fun unifiable => sane.not_unifiable held expected failed unifiable.symm
      · exact over_pair expected held

theorem useCallee_steady {callee : Ty} {args : List Ty} (source : String) (pos : Position)
    (hc : callee.Over H) (ha : ∀ t ∈ args, t.Over H) :
    Steady (useCallee callee args source pos) c H fun t H' => t.Over H' := by
  unfold useCallee
  refine .bind (apply_steady hc) fun t c₁ H₁ _ sub ht => ?_
  have ha' : ∀ t ∈ args, t.Over H₁ := fun t mem => (ha t mem).mono sub
  split
  next params result =>
    refine .ite (fun arity => applyCallee_steady source pos ht ha' ?_) fun differ => ?_
    · rintro _ _ ⟨⟩
      exact arity
    · refine .look rfl (.look rfl ?_)
      refine .bind (report_steady pos ?_ (over_resolve (Ty.over_func.mp ht).1 ha'))
        fun _ _ _ _ _ _ => freshTy_steady _ _
      show _ ≠ _
      rwa [List.length_map, List.length_map]
  next novar => exact applyCallee_steady source pos ht ha' fun params r eq => (novar params r eq).elim

end Walk

/-- The type of the verdict, if it has one, is over `H`. -/
def Verdict.Over (H : Set Var) (note : Verdict) : Prop := ∀ t, note = .typed t → t.Over H

theorem Verdict.Over.typed {H : Set Var} {t : Ty} (h : t.Over H) : (Verdict.typed t).Over H := by
  rintro _ ⟨rfl⟩
  exact h

theorem Verdict.Over.untypable (H : Set Var) : Verdict.untypable.Over H := by
  rintro _ ⟨⟩

theorem Verdict.Over.mono {H H' : Set Var} {note : Verdict} (h : note.Over H) (sub : H ⊆ H') :
    note.Over H' := fun t eq => (h t eq).mono sub

namespace Walk

theorem settle_steady (before : Nat) {t : Ty} (ht : t.Over H) :
    Steady (settle before t) c H fun r H' => r.1.Over H' ∧ r.2.Over H' := by
  unfold settle
  refine .bind errorCount_steady fun _ c₁ H₁ _ sub _ => .ite (fun _ => ?_) fun _ => ?_
  · exact .bind (freshTy_steady c₁ H₁) fun _ _ _ _ _ ht => .pure ⟨.untypable _, ht⟩
  · exact .pure ⟨.typed (ht.mono sub), ht.mono sub⟩

/-! ## Scopes -/

theorem modifyEnv_traced {f : Env → Env}
    (h : ∀ entry ∈ (f c.env).entries, entry ∈ c.env.entries) :
    Traced (modifyEnv f) c H fun _ c' H' => c'.env = f c.env ∧ H' = H :=
  Traced.of_reach (.single (.scope fun entry he => .inl (h entry he))) rfl ⟨rfl, rfl⟩

theorem bind_traced (name : String) {scheme : Scheme} (ty : scheme.ty.Over H)
    (vars : ∀ v ∈ scheme.vars, v ∈ scheme.ty.vars) :
    Traced (bind name scheme) c H fun _ c' H' => c'.env = c.env.bind name scheme ∧ H' = H := by
  refine Traced.of_reach (.single (.scope fun entry he => ?_)) rfl ⟨rfl, rfl⟩
  rcases Env.mem_entries_bind he with he | rfl
  · exact .inl he
  · exact .inr ⟨ty, vars⟩

theorem bindMono_traced (name : String) {t : Ty} (ht : t.Over H) :
    Traced (bind name (.mono t)) c H fun _ c' H' => c'.env = c.env.bind name (.mono t) ∧ H' = H :=
  bind_traced name ht fun _ hv => by cases hv

theorem hoist_traced (body : List (Stmt α)) :
    Traced (hoist body) c H fun _ c' _ => c.env.Local c'.env := by
  induction body generalizing c H with
  | nil => exact .pure (.refl _)
  | cons s rest ih =>
    unfold hoist
    split
    next name _ =>
      refine Traced.bind (freshTy_steady c H) fun t c₁ H₁ _ ht => ?_
      refine Traced.bind (bindMono_traced name.text ht.2) fun _ c₂ H₂ _ h => ?_
      refine ih.mono fun _ c' H' _ rest => ?_
      rw [h.1, ht.1] at rest
      exact (Env.Local.modify _ _).trans rest
    next => exact ih

theorem bindParams_traced (ps : List (Name α)) :
    Traced (bindParams ps) c H fun r c' H' => c.env.Local c'.env ∧ (∀ t ∈ r.1, t.Over H') ∧
      (∀ p ∈ r.2, p.note.Over H') ∧
      r.2.map (Name.mapNote bare) = ps.map (Name.mapNote bare) := by
  induction ps generalizing c H with
  | nil => exact .pure ⟨.refl _, by simp, by simp, rfl⟩
  | cons p ps ih =>
    unfold bindParams
    refine Traced.bind (freshTy_steady c H) fun t c₁ H₁ _ ht => ?_
    refine Traced.bind (bindMono_traced p.text ht.2) fun _ c₂ H₂ sub₂ h => ?_
    refine Traced.bind ih fun r c₃ H₃ sub₃ rest => ?_
    obtain ⟨ts, ps'⟩ := r
    obtain ⟨env, types, notes, names⟩ := rest
    rw [h.1, ht.1] at env
    have overH : t.Over H₃ := ht.2.mono (sub₂.trans sub₃)
    refine .pure ⟨(Env.Local.modify _ _).trans env, ?_, ?_, ?_⟩
    · exact List.forall_mem_cons.mpr ⟨overH, types⟩
    · exact List.forall_mem_cons.mpr ⟨.typed overH, notes⟩
    · rw [List.map_cons, List.map_cons, names]
      rfl

/-! ## Declarations -/

theorem checkPlaceholder_steady (name : String) (binding : Binding) (source : String)
    (pos : Position) {t : Ty} (ht : t.Over H) :
    Steady (checkPlaceholder name binding source pos t) c H fun _ _ => True := by
  unfold checkPlaceholder
  refine .bind (lookupLocal_steady name) fun found c₁ H₁ env sub h => ?_
  cases found with
  | none => exact .pure trivial
  | some placeholder =>
    have he : (name, placeholder) ∈ c₁.env.entries :=
      Env.mem_entries_lookupLocal (env ▸ h.symm)
    exact .bind (instantiate_steady he) fun _ _ _ _ sub' hp =>
      checkSame_steady _ _ _ hp ((ht.mono sub).mono sub')

theorem declared_over {k : Nat → Bool} (h : Regular k c H) (binding : Binding) {t : Ty}
    (ht : t.Over H) : (declared binding c t).ty.Over {v | v ∈ (c.apply t).vars} ∧
      ∀ v ∈ (declared binding c t).vars, v ∈ (declared binding c t).ty.vars := by
  unfold declared
  split
  · refine ⟨Ty.Over.foldLists fun _ hv => hv, fun v hv => ?_⟩
    exact ((h.mem_generalize ht).mp hv).1
  · exact ⟨fun _ hv => hv, fun v hv => by cases hv⟩

theorem rebind_traced (name : String) (binding : Binding) {t : Ty} (ht : t.Over H) :
    Traced (do
      let c ← get
      bind name (declared binding c t)
      return Verdict.typed (declared binding c t).ty) c H
      fun note c' H' => c.env.Local c'.env ∧ note.Over H' := by
  intro sane
  obtain ⟨k, regular⟩ := sane
  obtain ⟨overH, quantified⟩ := declared_over regular binding ht
  have over' := overH.mono (Set.subset_union_right (s := H))
  refine ⟨_, .tail (.single (.see ht)) (.scope fun entry he => ?_), .modify _ _, .typed over'⟩
  rcases Env.mem_entries_bind he with he | rfl
  · exact .inl he
  · exact .inr ⟨over', quantified⟩

theorem declare_traced (name : String) (binding : Binding) (source : String) (pos : Position)
    (before : Nat) {t : Ty} (ht : t.Over H) :
    Traced (declare name binding source pos before t) c H
      fun note c' H' => c.env.Local c'.env ∧ note.Over H' := by
  rw [declare_eq]
  refine Traced.bind errorCount_steady fun count c₁ H₁ sub₁ h₁ => ?_
  have checked : Steady (if count = before then checkPlaceholder name binding source pos t
      else pure ()) c₁ H₁ fun _ _ => True :=
    .ite (fun _ => checkPlaceholder_steady _ _ _ _ (ht.mono sub₁)) fun _ => .pure trivial
  refine Traced.bind checked fun _ c₂ H₂ sub₂ h₂ => ?_
  refine Traced.bind (modifyEnv_traced fun _ => Env.mem_entries_erase) fun _ c₃ H₃ sub₃ h₃ => ?_
  obtain ⟨h₃, rfl⟩ := h₃
  have erased : c.env.Local c₃.env := by
    rw [h₃, h₂.1, h₁.1]
    exact .modify _ _
  have ht₃ : t.Over H₃ := (ht.mono sub₁).mono sub₂
  refine Traced.bind errorCount_steady fun after c₄ H₄ sub₄ h₄ => ?_
  rw [← h₄.1] at erased
  split
  · have fresh : Traced (modifyGet (·.freshVar false)) c₄ H₄ fun v c' H' =>
        c'.env = c₄.env ∧ v ∈ H' :=
      Traced.of_reach (.single (.fresh c₄ H₄ false)) rfl ⟨rfl, Set.mem_insert _ _⟩
    refine Traced.bind fresh fun v c₅ H₅ _ h₅ => ?_
    have overH : (Scheme.mk [v] (.var v)).ty.Over H₅ := Ty.over_var.mpr h₅.2
    refine Traced.bind (bind_traced name overH (by simp [Ty.vars])) fun _ c₆ H₆ _ h₆ => ?_
    refine .pure ⟨?_, .untypable _⟩
    rw [h₆.1, h₅.1]
    exact erased.trans (.modify _ _)
  · refine (rebind_traced name binding (ht₃.mono sub₄)).mono fun _ _ _ _ h => ?_
    exact ⟨erased.trans h.1, h.2⟩

/-! ## Expressions and statements -/

theorem returnTy_over {r : Option Ty} (h : ∀ t ∈ r, t.Over H) : (returnTy r).Over H := by
  cases r with
  | none => exact Ty.over_prim _
  | some t => exact h t rfl

theorem joinBranches_steady (source : String) (pos : Position) (checked : Bool)
    {consequent alternate : Option Ty} (hc : ∀ t ∈ consequent, t.Over H)
    (ha : ∀ t ∈ alternate, t.Over H) :
    Steady (joinBranches source pos checked consequent alternate) c H
      fun r H' => ∀ t ∈ r, t.Over H' := by
  rw [joinBranches_eq]
  refine .ite (fun _ => .pure (by simp)) fun _ => ?_
  have check := checkBranches_steady (c := c) .ifStatement source pos (returnTy_over hc)
    (returnTy_over ha)
  refine .bind (.ite (fun _ => check) fun _ => .pure trivial) fun _ _ _ _ sub _ => .pure ?_
  rintro _ ⟨⟩
  exact (returnTy_over hc).mono sub

theorem push_traced : Traced (modifyEnv Env.push) c H fun _ c' H' => c'.env = c.env.push ∧ H' = H :=
  modifyEnv_traced fun _ he => he

theorem pop_traced {env : Env} (h : env.push.Local c.env) :
    Traced (modifyEnv Env.pop) c H fun _ c' H' => c'.env = env ∧ H' = H := by
  refine (modifyEnv_traced fun _ => Env.mem_entries_pop).mono fun _ c' _ _ popped => ?_
  rw [popped.1, (h (List.cons_ne_nil _ _)).2]
  exact ⟨rfl, popped.2⟩

/-- All verdicts in the nodes are over `H`. -/
def Noted (H : Set Var) (nodes : List (Node Verdict)) : Prop := ∀ n ∈ nodes, n.note.Over H

@[simp] theorem noted_nil : Noted H [] := by simp [Noted]

@[simp] theorem noted_cons {n : Node Verdict} {nodes : List (Node Verdict)} :
    Noted H (n :: nodes) ↔ n.note.Over H ∧ Noted H nodes := List.forall_mem_cons

@[simp] theorem noted_append {nodes nodes' : List (Node Verdict)} :
    Noted H (nodes ++ nodes') ↔ Noted H nodes ∧ Noted H nodes' := List.forall_mem_append

theorem noted_params {ps : List (Name Verdict)} (h : ∀ p ∈ ps, p.note.Over H) :
    Noted H (ps.map (·.node .param)) := by
  intro n hn
  obtain ⟨p, hp, rfl⟩ := List.mem_map.mp hn
  exact h p hp

theorem Noted.mono {H' : Set Var} {nodes : List (Node Verdict)} (h : Noted H nodes) (sub : H ⊆ H') :
    Noted H' nodes := fun n hn => (h n hn).mono sub

theorem enclosed_traced {δ : Type} {enter : Walk δ} {walk : δ → Walk β} {f : δ → β → Walk γ}
    {early : δ → Set Var → Prop} {mid : δ → β → Set Var → Prop}
    {post : γ → Context → Set Var → Prop}
    (entered : ∀ c, Traced enter c H fun d c' H' => c.env.Local c'.env ∧ early d H')
    (walked : ∀ d c' H', early d H' →
      Traced (walk d) c' H' fun r c'' H'' => c'.env.Local c''.env ∧ mid d r H'')
    (rest : ∀ d r c' H', c'.env = c.env → mid d r H' → Traced (f d r) c' H' post) :
    Traced (do
      modifyEnv Env.push
      let d ← enter
      let r ← walk d
      modifyEnv Env.pop
      f d r) c H post := by
  refine .bind push_traced fun _ c₁ H₁ _ h₁ => ?_
  obtain ⟨env₁, rfl⟩ := h₁
  refine .bind (entered c₁) fun d c₂ H₂ _ h₂ => ?_
  refine .bind (walked d c₂ H₂ h₂.2) fun r c₃ H₃ _ h₃ => ?_
  have inside : c.env.push.Local c₃.env := env₁ ▸ h₂.1.trans h₃.1
  refine .bind (pop_traced inside) fun _ c₄ H₄ _ h₄ => ?_
  obtain ⟨env₄, rfl⟩ := h₄
  exact rest d r c₄ H₄ env₄ h₃.2

theorem lambda_traced (ps : List (Name α)) {walk : Walk β}
    {f : List Ty × List (Name Verdict) → β → Walk γ} {mid : β → Set Var → Prop}
    {post : γ → Context → Set Var → Prop} (body : ∀ c H, Steady walk c H mid)
    (rest : ∀ ts ps' r c' H', c'.env = c.env → (∀ t ∈ ts, t.Over H') →
      Noted H' (ps'.map (·.node .param)) →
      ps'.map (Name.mapNote bare) = ps.map (Name.mapNote bare) → mid r H' →
      Traced (f (ts, ps') r) c' H' post) :
    Traced (do
      modifyEnv Env.push
      let params ← bindParams ps
      let r ← walk
      modifyEnv Env.pop
      f params r) c H post := by
  have walked (d : List Ty × List (Name Verdict)) (c' : Context) (H' : Set Var)
      (bound : (∀ t ∈ d.1, t.Over H') ∧ (∀ p ∈ d.2, p.note.Over H') ∧
        d.2.map (Name.mapNote bare) = ps.map (Name.mapNote bare)) :
      Traced walk c' H' fun r c'' H'' => c'.env.Local c''.env ∧ (∀ t ∈ d.1, t.Over H'') ∧
        Noted H'' (d.2.map (·.node .param)) ∧
        d.2.map (Name.mapNote bare) = ps.map (Name.mapNote bare) ∧ mid r H'' := by
    refine (body c' H').mono fun r c'' H'' sub h => ⟨h.1 ▸ .refl _, ?_, ?_, bound.2.2, h.2⟩
    · exact fun t ht => (bound.1 t ht).mono sub
    · exact (noted_params bound.2.1).mono sub
  refine enclosed_traced (fun c => bindParams_traced ps) walked fun d r c' H' env h => ?_
  obtain ⟨overs, notes, names, h⟩ := h
  exact rest d.1 d.2 r c' H' env overs notes names h

/-- An outcome with a type and a tree of which all verdicts are at hand. -/
def Annotates (e : Expr α) (r : Ty × Expr Verdict) (H : Set Var) : Prop :=
  r.1.Over H ∧ Noted H r.2.nodes ∧ r.2.mapNotes bare = e.mapNotes bare

theorem inferExprs_steady (es : List (Expr α))
    (ih : ∀ e ∈ es, ∀ c H, Steady (inferExpr e) c H (Annotates e)) :
    Steady (inferExprs es) c H fun r H' => (∀ t ∈ r.1, t.Over H') ∧ Noted H' (Expr.nodesAll r.2) ∧
      r.2.map (Expr.mapNotes bare) = es.map (Expr.mapNotes bare) := by
  induction es generalizing c H with
  | nil => exact .pure ⟨by simp, by simp [Expr.nodesAll], rfl⟩
  | cons e es rest =>
    obtain ⟨first, others⟩ := List.forall_mem_cons.mp ih
    unfold inferExprs
    refine .bind (first c H) fun r c₁ H₁ _ sub₁ h => ?_
    obtain ⟨t, e'⟩ := r
    obtain ⟨overH, notes, same⟩ := h
    refine .bind (rest others) fun r c₂ H₂ _ sub₂ h => ?_
    obtain ⟨ts, es'⟩ := r
    obtain ⟨overs, notes', sames⟩ := h
    refine .pure ⟨List.forall_mem_cons.mpr ⟨overH.mono sub₂, overs⟩, ?_, ?_⟩
    · simp only [Expr.nodesAll, noted_append]
      exact ⟨notes.mono sub₂, notes'⟩
    · simp only [List.map_cons, same, sames]

theorem inferStmts_traced (ss : List (Stmt α))
    (ih : ∀ s ∈ ss, ∀ c H, Traced (inferStmt s) c H fun r c' H' => c.env.Local c'.env ∧
      (∀ t ∈ r.1, t.Over H') ∧ Noted H' r.2.nodes ∧ r.2.mapNotes bare = s.mapNotes bare) :
    Traced (inferStmts ss) c H fun r c' H' => c.env.Local c'.env ∧ (∀ t ∈ r.1, t.Over H') ∧
      Noted H' (Stmt.nodesAll r.2) ∧
      r.2.map (Stmt.mapNotes bare) = ss.map (Stmt.mapNotes bare) := by
  induction ss generalizing c H with
  | nil => exact .pure ⟨.refl _, by simp, by simp [Stmt.nodesAll], rfl⟩
  | cons s ss rest =>
    obtain ⟨first, others⟩ := List.forall_mem_cons.mp ih
    unfold inferStmts
    refine .bind (first c H) fun r c₁ H₁ sub₁ h => ?_
    obtain ⟨t, s'⟩ := r
    obtain ⟨env, overH, notes, same⟩ := h
    refine .bind (rest others) fun r c₂ H₂ sub₂ h => ?_
    obtain ⟨t', ss'⟩ := r
    obtain ⟨env', over', notes', sames⟩ := h
    refine .pure ⟨env.trans env', ?_, ?_, ?_⟩
    · cases t with
      | none => exact over'
      | some t =>
        rintro _ ⟨⟩
        exact (overH t rfl).mono sub₂
    · simp only [Stmt.nodesAll, noted_append]
      exact ⟨notes.mono sub₂, notes'⟩
    · simp only [List.map_cons, same, sames]

theorem hoisted_traced (ss : List (Stmt α)) {f : Option Ty × List (Stmt Verdict) → Walk γ}
    {post : γ → Context → Set Var → Prop}
    (ih : ∀ s ∈ ss, ∀ c H, Traced (inferStmt s) c H fun r c' H' => c.env.Local c'.env ∧
      (∀ t ∈ r.1, t.Over H') ∧ Noted H' r.2.nodes ∧ r.2.mapNotes bare = s.mapNotes bare)
    (rest : ∀ r c' H', c'.env = c.env → (∀ t ∈ r.1, t.Over H') → Noted H' (Stmt.nodesAll r.2) →
      r.2.map (Stmt.mapNotes bare) = ss.map (Stmt.mapNotes bare) → Traced (f r) c' H' post) :
    Traced (do
      modifyEnv Env.push
      hoist ss
      let r ← inferStmts ss
      modifyEnv Env.pop
      f r) c H post :=
  enclosed_traced (fun _ => (hoist_traced ss).mono fun _ _ _ _ inside => ⟨inside, trivial⟩)
    (fun _ _ _ _ => inferStmts_traced ss ih)
    fun _ r c' H' env h => rest r c' H' env h.1 h.2.1 h.2.2

/-- Inference takes acts only, for every tree and from every context. -/
theorem infer_traced : Hereditary (α := α)
    (fun e => ∀ c H, Steady (inferExpr e) c H (Annotates e))
    (fun s => ∀ c H, Traced (inferStmt s) c H fun r c' H' => c.env.Local c'.env ∧
      (∀ t ∈ r.1, t.Over H') ∧ Noted H' r.2.nodes ∧ r.2.mapNotes bare = s.mapNotes bare)
    (fun b => ∀ c H, Steady (inferBlock b) c H fun r H' => (∀ t ∈ r.1, t.Over H') ∧
      Noted H' r.2.nodes ∧ r.2.mapNotes bare = b.mapNotes bare)
    (fun b => ∀ c H, Steady (inferIf b) c H fun r H' => (∀ t ∈ r.1, t.Over H') ∧
      Noted H' r.2.nodes ∧ r.2.mapNotes bare = b.mapNotes bare)
    (fun a => ∀ c H, Steady (inferAlternate a) c H fun r H' => (∀ t ∈ r.1, t.Over H') ∧
      Noted H' r.2.2.nodes ∧ r.2.2.mapNotes bare = a.mapNotes bare) where
  number tag x c H := by
    refine .pure ⟨Ty.over_prim _, ?_, rfl⟩
    simp only [Expr.nodes, noted_cons, noted_nil, and_true]
    exact .typed (Ty.over_prim _)
  text tag s c H := by
    refine .pure ⟨Ty.over_prim _, ?_, rfl⟩
    simp only [Expr.nodes, noted_cons, noted_nil, and_true]
    exact .typed (Ty.over_prim _)
  boolean tag b c H := by
    refine .pure ⟨Ty.over_prim _, ?_, rfl⟩
    simp only [Expr.nodes, noted_cons, noted_nil, and_true]
    exact .typed (Ty.over_prim _)
  null tag c H := by
    unfold inferExpr
    refine .bind errorCount_steady fun before c₁ H₁ _ _ _ => ?_
    refine .bind (useName_steady _ _) fun t c₂ H₂ _ _ ht => ?_
    refine .bind (settle_steady before ht) fun r c₃ H₃ _ _ h => .pure ⟨h.2, ?_, rfl⟩
    simp only [Expr.nodes, noted_cons, noted_nil, and_true]
    exact h.1
  name n c H := by
    unfold inferExpr
    refine .bind errorCount_steady fun before c₁ H₁ _ _ _ => ?_
    refine .bind (useName_steady _ _) fun t c₂ H₂ _ _ ht => ?_
    refine .bind (settle_steady before ht) fun r c₃ H₃ _ _ h => .pure ⟨h.2, ?_, rfl⟩
    simp only [Expr.nodes, noted_cons, noted_nil, and_true]
    exact h.1
  unary tag op e ih c H := by
    rw [inferExpr_unary]
    refine .bind errorCount_steady fun before c₁ H₁ _ _ _ => ?_
    refine .bind (ih _ _) fun r c₂ H₂ _ _ h => ?_
    obtain ⟨operand, e'⟩ := r
    obtain ⟨overH, notes, same⟩ := h
    refine .bind (.ite (fun _ => freshTy_steady _ _) fun _ =>
      useOperator_steady _ _ _ _ _ (by simpa using overH)) fun t c₃ H₃ _ sub₃ ht => ?_
    refine .bind (settle_steady before ht) fun r c₄ H₄ _ sub₄ h => .pure ⟨h.2, ?_, ?_⟩
    · simp only [Expr.nodes, noted_cons]
      exact ⟨h.1, notes.mono (sub₃.trans sub₄)⟩
    · simp [same]
  binary tag op l r ihl ihr c H := by
    rw [inferExpr_binary]
    refine .bind errorCount_steady fun before c₁ H₁ _ _ _ => ?_
    refine .bind (ihl _ _) fun r c₂ H₂ _ _ h => ?_
    obtain ⟨left, l'⟩ := r
    obtain ⟨overl, notesl, samel⟩ := h
    refine .bind (ihr _ _) fun r c₃ H₃ _ sub₃ h => ?_
    obtain ⟨right, r'⟩ := r
    obtain ⟨overr, notesr, samer⟩ := h
    refine .bind (.ite (fun _ => freshTy_steady _ _) fun _ =>
      useOperator_steady _ _ _ _ _ (by simpa using ⟨overl.mono sub₃, overr⟩))
      fun t c₄ H₄ _ sub₄ ht => ?_
    refine .bind (settle_steady before ht) fun r c₅ H₅ _ sub₅ h => .pure ⟨h.2, ?_, ?_⟩
    · simp only [Expr.nodes, noted_cons, noted_append]
      exact ⟨h.1, (notesl.mono sub₃).mono (sub₄.trans sub₅), notesr.mono (sub₄.trans sub₅)⟩
    · simp [samel, samer]
  conditional tag t d a iht ihd iha c H := by
    rw [inferExpr_conditional]
    refine .bind errorCount_steady fun before c₁ H₁ _ _ _ => ?_
    refine .bind (iht _ _) fun r c₂ H₂ _ _ h => ?_
    obtain ⟨test, t'⟩ := r
    obtain ⟨overt, notest, samet⟩ := h
    refine .bind (.ite (fun _ => .pure trivial) fun _ => checkTest_steady _ _ _ overt)
      fun _ c₃ H₃ _ sub₃ _ => ?_
    refine .bind (ihd _ _) fun r c₄ H₄ _ sub₄ h => ?_
    obtain ⟨consequent, d'⟩ := r
    obtain ⟨overd, notesd, samed⟩ := h
    refine .bind (iha _ _) fun r c₅ H₅ _ sub₅ h => ?_
    obtain ⟨alternate, a'⟩ := r
    obtain ⟨overa, notesa, samea⟩ := h
    have joined : Steady (do
        checkBranches .conditionalExpression (Expr.conditionalHeader t) tag.pos consequent alternate
        apply consequent) c₅ H₅ fun t H' => t.Over H' :=
      .bind (checkBranches_steady _ _ _ (overd.mono sub₅) overa) fun _ _ _ _ sub _ =>
        apply_steady ((overd.mono sub₅).mono sub)
    refine .bind (.ite (fun _ => freshTy_steady _ _) fun _ => joined) fun r c₆ H₆ _ sub₆ hr => ?_
    refine .bind (settle_steady before hr) fun r c₇ H₇ _ sub₇ h => .pure ⟨h.2, ?_, ?_⟩
    · simp only [Expr.nodes, noted_cons, noted_append]
      have sub := sub₆.trans sub₇
      exact ⟨h.1, ⟨notest.mono (sub₃.trans (sub₄.trans (sub₅.trans sub))),
        notesd.mono (sub₅.trans sub)⟩, notesa.mono sub⟩
    · simp [samet, samed, samea]
  call tag f args ihf ihargs c H := by
    rw [inferExpr_call]
    refine .bind errorCount_steady fun before c₁ H₁ _ _ _ => ?_
    refine .bind (ihf _ _) fun r c₂ H₂ _ _ h => ?_
    obtain ⟨callee, f'⟩ := r
    obtain ⟨overf, notesf, samef⟩ := h
    refine .bind (inferExprs_steady args ihargs) fun r c₃ H₃ _ sub₃ h => ?_
    obtain ⟨ts, args'⟩ := r
    obtain ⟨overs, notes, sames⟩ := h
    refine .bind (.ite (fun _ => freshTy_steady _ _) fun _ =>
      useCallee_steady _ _ (overf.mono sub₃) overs) fun t c₄ H₄ _ sub₄ ht => ?_
    refine .bind (settle_steady before ht) fun r c₅ H₅ _ sub₅ h => .pure ⟨h.2, ?_, ?_⟩
    · simp only [Expr.nodes, noted_cons, noted_append]
      have sub := sub₄.trans sub₅
      exact ⟨h.1, notesf.mono (sub₃.trans sub), notes.mono sub⟩
    · simp [samef, sames]
  arrow tag ps body ih c H := by
    unfold inferExpr
    refine .bind errorCount_steady fun before c₁ H₁ _ _ _ => ?_
    refine lambda_traced ps ih fun ts ps' r c₂ H₂ env₂ overs notesp names h => ?_
    obtain ⟨t, body'⟩ := r
    obtain ⟨overH, notes, same⟩ := h
    have lambda : (Ty.func ts t).Over H₂ := Ty.over_func.mpr ⟨overs, overH⟩
    refine Traced.bind (settle_steady before lambda) fun r c₃ H₃ sub₃ h => ?_
    refine .pure ⟨h.1.trans env₂, h.2.2, ?_, ?_⟩
    · simp only [Expr.nodes, noted_cons, noted_append]
      exact ⟨h.2.1, notesp.mono sub₃, notes.mono sub₃⟩
    · simp [names, same]
  arrowBlock tag ps body ih c H := by
    unfold inferExpr
    refine .bind errorCount_steady fun before c₁ H₁ _ _ _ => ?_
    refine lambda_traced ps ih fun ts ps' r c₂ H₂ env₂ overs notesp names h => ?_
    obtain ⟨t, body'⟩ := r
    obtain ⟨overH, notes, same⟩ := h
    have lambda : (Ty.func ts (returnTy t)).Over H₂ := Ty.over_func.mpr ⟨overs, returnTy_over overH⟩
    refine Traced.bind (settle_steady before lambda) fun r c₃ H₃ sub₃ h => ?_
    refine .pure ⟨h.1.trans env₂, h.2.2, ?_, ?_⟩
    · simp only [Expr.nodes, noted_cons, noted_append]
      exact ⟨h.2.1, notesp.mono sub₃, notes.mono sub₃⟩
    · simp [names, same]
  assign tag target e ih c H := by
    rw [inferExpr_assign]
    refine .bind errorCount_steady fun before c₁ H₁ _ _ _ => ?_
    refine .bind (ih _ _) fun r c₂ H₂ _ _ h => ?_
    obtain ⟨value, e'⟩ := r
    obtain ⟨overH, notes, same⟩ := h
    refine .bind (lookup_steady target.text) fun found c₃ H₃ env₃ sub₃ h => ?_
    cases found with
    | none =>
      refine .bind (unbound_steady _ _) fun _ c₄ H₄ _ sub₄ _ => ?_
      refine .bind (freshTy_steady _ _) fun t c₅ H₅ _ sub₅ ht => ?_
      refine .bind (settle_steady before ht) fun r c₆ H₆ _ sub₆ h => .pure ⟨h.2, ?_, ?_⟩
      · simp only [Expr.nodes, noted_cons]
        exact ⟨h.1, .untypable _, notes.mono (sub₃.trans (sub₄.trans (sub₅.trans sub₆)))⟩
      · simp [same]
    | some scheme =>
      have he : (target.text, scheme) ∈ c₃.env.entries := Env.mem_entries_lookup (env₃ ▸ h.symm)
      refine .bind (instantiate_steady he) fun expected c₄ H₄ _ sub₄ overx => ?_
      have over₄ := overH.mono (sub₃.trans sub₄)
      have checked : Steady (do
          checkSame .assignment (Expr.assign tag target e).source tag.pos expected value
          apply value) c₄ H₄ fun t H' => t.Over H' :=
        .bind (checkSame_steady _ _ _ overx over₄) fun _ _ _ _ sub _ => apply_steady (over₄.mono sub)
      refine .bind (.ite (fun _ => .pure over₄) fun _ => checked) fun t c₅ H₅ _ sub₅ ht => ?_
      refine .bind (settle_steady before ht) fun r c₆ H₆ _ sub₆ h => .pure ⟨h.2, ?_, ?_⟩
      · simp only [Expr.nodes, noted_cons]
        have sub := sub₅.trans sub₆
        exact ⟨h.1, .typed (overx.mono sub), notes.mono (sub₃.trans (sub₄.trans sub))⟩
      · simp [same]
  declare tag keyword n e ih c H := by
    unfold inferStmt
    refine Traced.bind errorCount_steady fun before c₁ H₁ _ h₁ => ?_
    refine Traced.bind (ih _ _) fun r c₂ H₂ _ h => ?_
    obtain ⟨t, e'⟩ := r
    obtain ⟨env₂, overH, notes, same⟩ := h
    refine Traced.bind (declare_traced n.text (.value keyword) _ tag.pos before overH)
      fun note c₃ H₃ sub₃ h => ?_
    rw [env₂, h₁.1] at h
    refine .pure ⟨h.1, by simp, ?_, ?_⟩
    · simp only [Stmt.nodes, noted_cons]
      exact ⟨h.2, h.2, notes.mono sub₃⟩
    · simp [same]
  function tag n ps body ih c H := by
    unfold inferStmt
    refine Traced.bind errorCount_steady fun before c₁ H₁ _ h₁ => ?_
    refine lambda_traced ps ih fun ts ps' r c₂ H₂ env₂ overs notesp names h => ?_
    obtain ⟨t, body'⟩ := r
    obtain ⟨overH, notes, same⟩ := h
    have lambda : (Ty.func ts (returnTy t)).Over H₂ :=
      Ty.over_func.mpr ⟨overs, returnTy_over overH⟩
    refine Traced.bind (declare_traced n.text .function _ tag.pos before lambda)
      fun note c₃ H₃ sub₃ h => ?_
    rw [env₂, h₁.1] at h
    refine .pure ⟨h.1, by simp, ?_, ?_⟩
    · simp only [Stmt.nodes, noted_cons, noted_append]
      exact ⟨h.2, h.2, notesp.mono sub₃, notes.mono sub₃⟩
    · simp [names, same]
  retNothing tag c H := by
    unfold inferStmt
    refine .pure ⟨.refl _, by simp [Ty.undefined], ?_, rfl⟩
    simp only [Stmt.nodes, noted_cons, noted_nil, and_true]
    exact .typed (Ty.over_prim _)
  ret tag e ih c H := by
    unfold inferStmt
    refine Traced.bind errorCount_steady fun before c₁ H₁ _ h₁ => ?_
    refine Traced.bind (ih _ _) fun r c₂ H₂ _ h => ?_
    obtain ⟨t, e'⟩ := r
    obtain ⟨env₂, overH, notes, same⟩ := h
    refine Traced.bind (settle_steady before overH) fun r c₃ H₃ sub₃ h => ?_
    refine .pure ⟨?_, ?_, ?_, ?_⟩
    · rw [h.1, env₂, h₁.1]
      exact .refl _
    · rintro _ ⟨⟩
      exact h.2.2
    · simp only [Stmt.nodes, noted_cons]
      exact ⟨h.2.1, notes.mono sub₃⟩
    · simp [same]
  ifElse b ih c H := by
    unfold inferStmt
    refine Traced.bind (ih _ _) fun r c₁ H₁ _ h => .pure ⟨?_, h.2.1, h.2.2.1, ?_⟩
    · rw [h.1]
      exact .refl _
    · simp [h.2.2.2]
  block b ih c H := by
    unfold inferStmt
    refine Traced.bind (ih _ _) fun r c₁ H₁ _ h => .pure ⟨?_, h.2.1, h.2.2.1, ?_⟩
    · rw [h.1]
      exact .refl _
    · simp [h.2.2.2]
  expr e ih c H := by
    unfold inferStmt
    refine Traced.bind (ih _ _) fun r c₁ H₁ _ h => .pure ⟨?_, by simp, h.2.2.1, ?_⟩
    · rw [h.1]
      exact .refl _
    · simp [h.2.2.2]
  body tag body ih c H := by
    unfold inferBlock
    refine Steady.bind errorCount_steady fun before c₁ H₁ _ _ _ => ?_
    refine hoisted_traced body ih fun r c₂ H₂ env₂ overH notes same => ?_
    refine Traced.bind (settle_steady before (returnTy_over overH)) fun r c₃ H₃ sub₃ h => ?_
    refine .pure ⟨h.1.trans env₂, ?_, ?_, ?_⟩
    · intro t' ht'
      obtain ⟨_, _, rfl⟩ := Option.map_eq_some_iff.mp ht'
      exact h.2.2
    · simp only [Block.nodes, noted_cons]
      exact ⟨h.2.1, notes.mono sub₃⟩
    · simp [same]
  branch tag test consequent alternate iht ihc iha c H := by
    rw [inferIf_eq]
    refine .bind errorCount_steady fun before c₁ H₁ _ _ _ => ?_
    refine .bind (iht _ _) fun r c₂ H₂ _ _ h => ?_
    obtain ⟨t, test'⟩ := r
    obtain ⟨overt, notest, samet⟩ := h
    refine .bind (.ite (fun _ => .pure trivial) fun _ => checkTest_steady _ _ _ overt)
      fun _ c₃ H₃ _ sub₃ _ => ?_
    refine .bind (ihc _ _) fun r c₄ H₄ _ sub₄ h => ?_
    obtain ⟨first, consequent'⟩ := r
    obtain ⟨overc, notesc, samec⟩ := h
    refine .bind (iha _ _) fun r c₅ H₅ _ sub₅ h => ?_
    obtain ⟨second, sound, alternate'⟩ := r
    obtain ⟨overa, notesa, samea⟩ := h
    refine .bind (joinBranches_steady _ _ _ (fun t ht => (overc t ht).mono sub₅) overa)
      fun returned c₆ H₆ _ sub₆ overr => ?_
    refine .bind (settle_steady before (returnTy_over overr)) fun r c₇ H₇ _ sub₇ h => ?_
    refine .pure ⟨?_, ?_, ?_⟩
    · intro t' ht'
      obtain ⟨_, _, rfl⟩ := Option.map_eq_some_iff.mp ht'
      exact h.2
    · simp only [If.nodes, noted_cons, noted_append]
      have sub := sub₆.trans sub₇
      exact ⟨h.1, ⟨notest.mono (sub₃.trans (sub₄.trans (sub₅.trans sub))),
        notesc.mono (sub₅.trans sub)⟩, notesa.mono sub⟩
    · simp [samet, samec, samea]
  absent c H := by
    unfold inferAlternate
    exact .pure ⟨by simp, by simp [Alternate.nodes], rfl⟩
  otherwise b ih c H := by
    unfold inferAlternate
    refine .bind (ih _ _) fun r c₁ H₁ _ _ h => .pure ⟨h.1, h.2.1, ?_⟩
    simp [h.2.2]
  elseIf b ih c H := by
    unfold inferAlternate
    refine .bind (ih _ _) fun r c₁ H₁ _ _ h => .pure ⟨h.1, h.2.1, ?_⟩
    simp [h.2.2]

theorem inferProgram_steady (p : Program α) : Steady (inferProgram p) c H fun r H' =>
    Noted H' r.nodes ∧ r.body.map (Stmt.mapNotes bare) = p.body.map (Stmt.mapNotes bare) := by
  unfold inferProgram
  exact hoisted_traced p.body (fun s _ => infer_traced.forStmt s)
    fun _ _ _ env _ notes same => .pure ⟨env, notes, same⟩

end Walk

end Polytype
