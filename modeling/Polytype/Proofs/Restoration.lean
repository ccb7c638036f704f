import Polytype.Proofs.Hygiene
import Polytype.Tree.Build

/-!
# Environments are given back

The walk opens scopes, binds names in them and closes them again, and each declaration takes its name
out of the innermost scope and binds it anew, whether an error was found or not. None of this is left
behind: a program leaves the environment as it was, and on the way every expression does, while a
statement gives new schemes to names that its block has bound before (`analyse_restores`).
-/

namespace Polytype

variable {α : Type} {c : Context} {H : Set Var}

namespace Env

variable {env env' : Env} {s : Stmt α} {n : Name α}

theorem scopes_tail_modify (env : Env) (f : Scope → Scope) :
    (env.modify f).scopes.tail = env.scopes.tail := by
  obtain ⟨outermost, inner⟩ := env
  cases inner <;> rfl

/-- From `env` to `env'` only schemes in the innermost scope have changed, and there only that of the
name which the statement declares. -/
structure Rebound (s : Stmt α) (env env' : Env) : Prop where
  outer : env'.scopes.tail = env.scopes.tail
  names (x : String) : (env'.lookupLocal x).isSome = (env.lookupLocal x).isSome
  others {x : String} (h : ∀ n, s.declared? = some n → n.text ≠ x) :
    env'.lookupLocal x = env.lookupLocal x

theorem Rebound.refl (s : Stmt α) (env : Env) : env.Rebound s env :=
  ⟨rfl, fun _ => rfl, fun _ => rfl⟩

theorem Rebound.bind (declared : s.declared? = some n) (bound : (env.lookupLocal n.text).isSome)
    (σ : Scheme) : env.Rebound s (env.bind n.text σ) where
  outer := scopes_tail_modify env _
  names x := by
    rw [lookupLocal_bind]
    split
    next same => simp [same, bound]
    next => rfl
  others h := by rw [lookupLocal_bind, if_neg fun same => h n declared same.symm]

theorem isSome_lookupLocal_bindMonos (env : Env) {x : String} {xs : List String} {ts : List Ty}
    (length : ts.length = xs.length) (hx : x ∈ xs ∨ (env.lookupLocal x).isSome) :
    ((env.bindMonos xs ts).lookupLocal x).isSome := by
  induction xs generalizing env ts with
  | nil =>
    rw [List.length_eq_zero_iff.mp length]
    exact hx.resolve_left List.not_mem_nil
  | cons y xs ih =>
    cases ts with
    | nil => cases length
    | cons t ts =>
      refine ih _ (Nat.succ.inj length) ?_
      rw [lookupLocal_bind]
      by_cases same : x = y
      · simp [same]
      · simpa [same] using hx

end Env

namespace Walk

/-! ## Statements -/

theorem declare_rebinds {t : Ty} (ht : t.Over H) (name : String) (binding : Binding)
    (source : String) (pos : Position) (before : Nat) :
    Traced (declare name binding source pos before t) c H fun _ c' _ =>
      ∃ σ, c'.env = c.env.bind name σ := by
  intro sane
  obtain ⟨H', reach, _⟩ := declare_traced name binding source pos before ht sane
  have checked : Steady (if (errorCount.run c).1 = before then
      checkPlaceholder name binding source pos t else pure ()) c H fun _ _ => True :=
    .ite (fun _ => checkPlaceholder_steady _ _ _ _ ht) fun _ => .pure trivial
  obtain ⟨_, _, env, _⟩ := checked sane
  refine ⟨H', reach, ?_⟩
  rw [← env, declare_eq, run_bind, run_bind, run_bind, run_bind]
  -- With or without the check, the name is bound to one of two schemes.
  split <;> split <;> exact ⟨_, Env.bind_erase _ _ _⟩

theorem inferStmt_rebinds (s : Stmt α) (c : Context) (H : Set Var) :
    Traced (inferStmt s) c H fun _ c' _ =>
      c'.env = c.env ∨ ∃ n σ, s.declared? = some n ∧ c'.env = c.env.bind n.text σ := by
  cases s with
  | declare tag keyword n e =>
    unfold inferStmt
    refine .bind errorCount_steady fun before c₁ H₁ _ h₁ => ?_
    refine .bind (infer_traced.forExpr e c₁ H₁) fun r c₂ H₂ _ h₂ => ?_
    refine .bind (declare_rebinds h₂.2.1 _ _ _ _ _) fun _ c₃ H₃ _ h₃ => .pure (.inr ?_)
    obtain ⟨σ, env⟩ := h₃
    exact ⟨n, σ, rfl, by rw [env, h₂.1, h₁.1]⟩
  | function tag n ps body =>
    unfold inferStmt
    refine .bind errorCount_steady fun before c₁ H₁ _ h₁ => ?_
    refine lambda_traced ps (infer_traced.forBlock body) fun ts ps' r c₂ H₂ env overs _ _ h₂ => ?_
    have lambda := Ty.over_func.mpr ⟨overs, returnTy_over h₂.1⟩
    refine .bind (declare_rebinds lambda _ _ _ _ _) fun _ c₃ H₃ _ h₃ => .pure (.inr ?_)
    obtain ⟨σ, bound⟩ := h₃
    exact ⟨n, σ, rfl, by rw [bound, env, h₁.1]⟩
  | ret tag e =>
    cases e with
    | none => exact .pure (.inl rfl)
    | some e =>
      unfold inferStmt
      refine .bind errorCount_steady fun before c₁ H₁ _ h₁ => ?_
      refine .bind (infer_traced.forExpr e c₁ H₁) fun r c₂ H₂ _ h₂ => ?_
      refine .bind (settle_steady before h₂.2.1) fun _ c₃ H₃ _ h₃ => .pure (.inl ?_)
      rw [h₃.1, h₂.1, h₁.1]
  | ifElse b =>
    unfold inferStmt
    exact .bind (infer_traced.forIf b c H) fun _ _ _ _ h => .pure (.inl h.1)
  | block b =>
    unfold inferStmt
    exact .bind (infer_traced.forBlock b c H) fun _ _ _ _ h => .pure (.inl h.1)
  | expr e =>
    unfold inferStmt
    exact .bind (infer_traced.forExpr e c H) fun _ _ _ _ h => .pure (.inl h.1)

/-- The name that the statement declares is bound in the innermost scope. -/
def Hoisted (s : Stmt α) (env : Env) : Prop :=
  ∀ n, s.declared? = some n → (env.lookupLocal n.text).isSome

theorem inferStmt_rebound (s : Stmt α) (c : Context) (H : Set Var) (hoisted : Hoisted s c.env) :
    Traced (inferStmt s) c H fun _ c' _ => c.env.Rebound s c'.env := by
  refine (inferStmt_rebinds s c H).mono fun _ c' _ _ h => ?_
  rcases h with same | ⟨n, σ, declared, env⟩
  · rw [same]
    exact .refl s c.env
  · rw [env]
    exact .bind declared (hoisted n declared) σ

theorem inferStmts_names (ss : List (Stmt α)) (c : Context) (H : Set Var)
    (hoisted : ∀ s ∈ ss, Hoisted s c.env) :
    Traced (inferStmts ss) c H fun _ c' _ =>
      ∀ x, (c'.env.lookupLocal x).isSome = (c.env.lookupLocal x).isSome := by
  induction ss generalizing c H with
  | nil => exact .pure fun _ => rfl
  | cons s ss ih =>
    obtain ⟨first, rest⟩ := List.forall_mem_cons.mp hoisted
    unfold inferStmts
    refine .bind (inferStmt_rebound s c H first) fun _ c₁ H₁ _ h₁ => ?_
    have kept : ∀ s ∈ ss, Hoisted s c₁.env := by
      intro s hs n declared
      rw [h₁.names]
      exact rest s hs n declared
    refine .bind (ih c₁ H₁ kept) fun _ c₂ H₂ _ h₂ => .pure fun x => ?_
    rw [h₂, h₁.names]

theorem enterStmts_hoisted {body earlier : List (Stmt α)} (sub : earlier ⊆ body) (sane : Sane c H)
    {s : Stmt α} (hs : s ∈ body) : Hoisted s ((enterStmts body earlier).run c).2.env := by
  obtain ⟨H₁, reach, env, _⟩ := push_traced sane
  obtain ⟨H₂, reach', _⟩ := hoist_traced body (reach.sane sane)
  have bound : ∀ s ∈ body, Hoisted s ((hoist body).run ((modifyEnv Env.push).run c).2).2.env := by
    intro s hs n declared
    rw [hoist_run]
    refine Env.isSome_lookupLocal_bindMonos _ (length_freshTys _ _) (.inl ?_)
    exact List.mem_map_of_mem (List.mem_filterMap.mpr ⟨s, hs, declared⟩)
  obtain ⟨_, _, names⟩ := inferStmts_names earlier _ H₂ (fun s hs => bound s (sub hs))
    (reach'.sane (reach.sane sane))
  intro n declared
  rw [enterStmts, run_bind, run_bind]
  exact (names n.text).symm ▸ bound s hs n declared

end Walk

open Walk

/-! ## All pieces -/

/-- What the walk over a piece may do to the environment: nothing, but for a statement. -/
def Piece.Restores : Piece α → Env → Env → Prop
  | .stmt s, env, env' => env.Rebound s env'
  | _, env, env' => env' = env

theorem Visits.hoisted {p : Program α} {c₀ : Context} {s : Stmt α}
    {stack : Stack p (.stmt s)} (visit : Visits p c₀ (.stmt s) c stack) (start : Sane c₀ H) : Hoisted s c.env := by
  cases visit with
  | part before part =>
    obtain ⟨_, reach, _⟩ := before.reach start
    have sane := reach.sane start
    cases part with
    | stmt | toplevel => exact enterStmts_hoisted (by simp) sane (by simp)

theorem Visits.restores {p : Program α} {c₀ : Context} {q : Piece α} {stack : Stack p q}
    (visit : Visits p c₀ q c stack) (start : Sane c₀ H) :
    q.Restores c.env (q.walk.run c).2.env := by
  obtain ⟨H', reach, _⟩ := visit.reach start
  have sane := reach.sane start
  cases q with
  | stmt s =>
    obtain ⟨_, _, rebound⟩ := inferStmt_rebound s c H' (visit.hoisted start) sane
    exact rebound
  | program p =>
    obtain ⟨_, _, env, _⟩ := inferProgram_steady p sane
    exact env
  | expr e =>
    obtain ⟨_, _, env, _⟩ := infer_traced.forExpr e c H' sane
    exact env
  | block b =>
    obtain ⟨_, _, env, _⟩ := infer_traced.forBlock b c H' sane
    exact env
  | branch b =>
    obtain ⟨_, _, env, _⟩ := infer_traced.forIf b c H' sane
    exact env
  | alternate a =>
    obtain ⟨_, _, env, _⟩ := infer_traced.forAlternate a c H' sane
    exact env

/-- Analysing a program in a context that has been used for any programs before gives the environment
back, and the walk on the way gives it back after each expression, and after each statement up to the
schemes of the names that its block has hoisted. -/
theorem analyse_restores {chapter : Chapter} (used : Used chapter c) (p : Program α) :
    (analyse p c).2.env = c.env ∧
    ∀ {q : Piece α} {d : Context} {stack : Stack p q}, Visits p c q d stack →
      (inferProgram p).run c = (q.walk >>= stack.resume).run d ∧
        q.Restores d.env (q.walk.run d).2.env := by
  have start := used.ready.good.sane
  refine ⟨?_, fun visit => ⟨visit.run_eq, visit.restores start⟩⟩
  exact Visits.start.restores start

/-- A block that declares a function with a mistake in it, and a name for that function. -/
def mistaken : Program Unit :=
  ⟨[Build.block 1
    [Build.function 2 "f" ["x"] [Build.ret 3 (Build.binary .add (Build.ident "x") (Build.boolean true))],
     Build.declare .constant 4 "y" (Build.ident "f")]]⟩

/-- The second declaration of the block, when the program is analysed for the second time. -/
theorem analyse_restores_mistaken :
    ∃ (c d : Context) (q : Piece Unit) (stack : Stack mistaken q),
      Used .one c ∧ Visits mistaken c q d stack ∧ (analyse mistaken c).2.env = c.env ∧
      (inferProgram mistaken).run c = (q.walk >>= stack.resume).run d ∧
      q.Restores d.env (q.walk.run d).2.env := by
  have used : Used .one (analyse mistaken (Context.new .one)).2 := .single (.analyse mistaken _)
  have begun := @Visits.start _ mistaken (analyse mistaken (Context.new .one)).2
  have visit := Visits.part (.part (.part begun (.toplevel [] _ [])) (.blockStmt _)) (.stmt _ [_] _ [])
  obtain ⟨restored, visited⟩ := analyse_restores used mistaken
  exact ⟨_, _, _, _, used, visit, restored, visited visit⟩

end Polytype
