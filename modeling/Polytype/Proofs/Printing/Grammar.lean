import Polytype.Proofs.Printing.Tokens

/-!
# A grammar of expressions

An expression in a place that asks for some precedence is read from the left: something that starts
an expression, and then operators, calls and branches for as long as they bind tightly enough for the
place. Reading is unambiguous (`Reads.unique`). What is printed in a place is found there again,
whatever may follow it (`Found`), and there is one lemma for each kind of expression.
-/

namespace Polytype.Printing

/-! ## Terms -/

/-- What shows of an expression. -/
inductive Term where
  | number (text : String)
  | text (s : String)
  | boolean (b : Bool)
  | null
  | name (s : String)
  | unary (op : UnaryOp) (operand : Term)
  | binary (op : BinaryOp) (left right : Term)
  | conditional (test consequent alternate : Term)
  | call (callee : Term) (args : List Term)
  | arrow (params : List String) (body : Term)
  | assign (target : String) (value : Term)
  /-- The statements of a block are not shown. -/
  | omitted

namespace Term

/-- Numbers start with a digit or a minus. -/
def startsNumeral (s : String) : Bool := s.toList.head?.any fun c => c.isDigit || c == '-'

/-- What a word alone stands for. -/
def ofWord (s : String) : Term :=
  if s = "true" then .boolean true
  else if s = "false" then .boolean false
  else if s = "null" then .null
  else if startsNumeral s then .number s
  else .name s

def paramTokens : List String → List Token
  | [s] => [.word s]
  | ss => enclose true (listed (ss.map fun s => [.word s]))

mutual
def tokens (place : Nat) : Term → List Token
  | .number s | .name s => [.word s]
  | .text s => [.quoted s]
  | .boolean b => [.word (if b then "true" else "false")]
  | .null => [.word "null"]
  | .unary op e =>
    enclose (Precedence.unary < place) (.mark (.sign op) :: e.tokens Precedence.unary)
  | .binary op l r =>
    enclose (op.precedence < place)
      (l.tokens op.precedence ++ .mark (.operator op) :: r.tokens (op.precedence + 1))
  | .conditional t c a =>
    enclose (Precedence.conditional < place)
      (t.tokens (Precedence.conditional + 1) ++ .mark .question ::
        (c.tokens Precedence.assignment ++ .mark .colon :: a.tokens Precedence.assignment))
  | .call f args => f.tokens Precedence.call ++ enclose true (listed (tokensAll args))
  | .arrow ps body =>
    enclose (Precedence.assignment < place)
      (paramTokens ps ++ .mark .arrow :: body.tokens Precedence.assignment)
  | .assign s e =>
    enclose (Precedence.assignment < place)
      (.word s :: .mark .becomes :: e.tokens Precedence.assignment)
  | .omitted => [.mark .dots]

def tokensAll : List Term → List (List Token)
  | [] => []
  | e :: es => e.tokens Precedence.assignment :: tokensAll es
end

theorem tokensAll_eq (es : List Term) : tokensAll es = es.map (tokens Precedence.assignment) := by
  induction es with
  | nil => rfl
  | cons e es ih => rw [tokensAll, ih, List.map_cons]

end Term

/-! ## Reading -/

/-- An expression in this place goes on with the next token. -/
def GoesOn (place : Nat) : List Token → Prop
  | .mark (.operator op) :: _ => place ≤ op.precedence
  | .mark .question :: _ => place ≤ Precedence.conditional
  | .mark .opening :: _ => True
  | _ => False

/-- A word before it is a parameter or the target of an assignment. -/
def Heads : List Token → Prop
  | .mark .arrow :: _ | .mark .becomes :: _ => True
  | _ => False

mutual
/-- `Reads place ts e rest`: in this place `e` is read from `ts`, and `rest` is left. -/
inductive Reads : Nat → List Token → Term → List Token → Prop
  | intro {place : Nat} {ts rest rest' : List Token} {e e' : Term} (first : Starts ts e rest)
      (more : Continues place e rest e' rest') : Reads place ts e' rest'

inductive Starts : List Token → Term → List Token → Prop
  | word {s : String} {rest : List Token} (alone : ¬Heads rest) :
      Starts (.word s :: rest) (.ofWord s) rest
  | quoted {s : String} {rest : List Token} : Starts (.quoted s :: rest) (.text s) rest
  | omitted {rest : List Token} : Starts (.mark .dots :: rest) .omitted rest
  | unary {op : UnaryOp} {ts rest : List Token} {e : Term}
      (operand : Reads Precedence.unary ts e rest) :
      Starts (.mark (.sign op) :: ts) (.unary op e) rest
  | assign {s : String} {ts rest : List Token} {e : Term}
      (value : Reads Precedence.assignment ts e rest) :
      Starts (.word s :: .mark .becomes :: ts) (.assign s e) rest
  | arrow {s : String} {ts rest : List Token} {e : Term}
      (body : Reads Precedence.assignment ts e rest) :
      Starts (.word s :: .mark .arrow :: ts) (.arrow [s] e) rest
  | arrowList {ss : List String} {ts us rest : List Token} {e : Term} (several : ss.length ≠ 1)
      (params : us = listed (ss.map fun s => [.word s]) ++ .mark .closing :: .mark .arrow :: ts)
      (body : Reads Precedence.assignment ts e rest) :
      Starts (.mark .opening :: us) (.arrow ss e) rest
  | enclosed {ts rest : List Token} {e : Term}
      (inner : Reads Precedence.lowest ts e (.mark .closing :: rest)) :
      Starts (.mark .opening :: ts) e rest

/-- Goes on from what has been read so far. -/
inductive Continues : Nat → Term → List Token → Term → List Token → Prop
  | stop {place : Nat} {e : Term} {rest : List Token} (done : ¬GoesOn place rest) :
      Continues place e rest e rest
  | binary {place : Nat} {op : BinaryOp} {l r e : Term} {ts rest rest' : List Token}
      (tight : place ≤ op.precedence) (right : Reads (op.precedence + 1) ts r rest)
      (more : Continues place (.binary op l r) rest e rest') :
      Continues place l (.mark (.operator op) :: ts) e rest'
  | conditional {place : Nat} {t c a e : Term} {ts ts' rest rest' : List Token}
      (tight : place ≤ Precedence.conditional)
      (consequent : Reads Precedence.assignment ts c (.mark .colon :: ts'))
      (alternate : Reads Precedence.assignment ts' a rest)
      (more : Continues place (.conditional t c a) rest e rest') :
      Continues place t (.mark .question :: ts) e rest'
  | callNone {place : Nat} {f e : Term} {rest rest' : List Token}
      (more : Continues place (.call f []) rest e rest') :
      Continues place f (.mark .opening :: .mark .closing :: rest) e rest'
  | call {place : Nat} {f e : Term} {args : List Term} {ts rest rest' : List Token}
      (items : Items ts args (.mark .closing :: rest))
      (more : Continues place (.call f args) rest e rest') :
      Continues place f (.mark .opening :: ts) e rest'

/-- One argument or more. -/
inductive Items : List Token → List Term → List Token → Prop
  | last {ts rest : List Token} {e : Term}
      (item : Reads Precedence.assignment ts e (.mark .closing :: rest)) :
      Items ts [e] (.mark .closing :: rest)
  | more {ts ts' rest : List Token} {e : Term} {es : List Term}
      (item : Reads Precedence.assignment ts e (.mark .comma :: ts')) (others : Items ts' es rest) :
      Items ts (e :: es) rest
end

section Unique

variable {place : Nat} {ts rest : List Token} {e : Term} {es : List Term}

theorem Reads.not_closing : ¬Reads place (.mark .closing :: ts) e rest := by
  rintro ⟨first, more⟩
  cases first

theorem Items.not_closing : ¬Items (.mark .closing :: ts) es rest := by
  rintro (item | item)
  · exact item.not_closing
  · exact item.not_closing

theorem Reads.not_listed {ss : List String} (several : ss.length ≠ 1) :
    ¬Reads place (listed (ss.map fun s => [.word s]) ++ .mark .closing :: ts) e
      (.mark .closing :: rest) := by
  rcases ss with _ | ⟨s, _ | ⟨s', ss⟩⟩
  · exact Reads.not_closing
  · exact absurd rfl several
  · rintro ⟨first, more⟩
    cases first with
    | word => cases more

theorem listed_words_inj {ss ss' : List String} {ts ts' : List Token}
    (same : listed (ss.map fun s => [.word s]) ++ .mark .closing :: ts =
      listed (ss'.map fun s => [.word s]) ++ .mark .closing :: ts') : ss = ss' ∧ ts = ts' := by
  induction ss generalizing ss' with
  | nil => rcases ss' with _ | ⟨s', _ | ⟨t', ss'⟩⟩ <;> simp_all [listed]
  | cons s ss ih =>
    rcases ss with _ | ⟨t, ss⟩ <;> rcases ss' with _ | ⟨s', _ | ⟨t', ss'⟩⟩ <;>
      simp [listed] at same
    · simp [same]
    · obtain ⟨tails, rests⟩ := @ih (t' :: ss') same.2
      exact ⟨by rw [same.1, tails], rests⟩

-- By recursion on the first reading. The next tokens leave the second one no other rule, except where
-- a parenthesis opens: there a list of parameters has to be told from an expression.
mutual
theorem Reads.unique {place : Nat} {ts rest rest' : List Token} {e e' : Term} :
    Reads place ts e rest → Reads place ts e' rest' → e = e' ∧ rest = rest'
  | .intro first more, .intro first' more' => by
    obtain ⟨rfl, rfl⟩ := Starts.unique first first'
    exact Continues.unique more more'
termination_by structural h => h

theorem Starts.unique {ts rest rest' : List Token} {e e' : Term} :
    Starts ts e rest → Starts ts e' rest' → e = e' ∧ rest = rest'
  | .word alone, h => by
    cases h with
    | word => exact ⟨rfl, rfl⟩
    | assign | arrow => exact absurd trivial alone
  | .quoted, h => by
    cases h
    exact ⟨rfl, rfl⟩
  | .omitted, h => by
    cases h
    exact ⟨rfl, rfl⟩
  | .unary operand, .unary operand' => by
    obtain ⟨rfl, rfl⟩ := Reads.unique operand operand'
    exact ⟨rfl, rfl⟩
  | .assign value, h => by
    cases h with
    | word alone => exact absurd trivial alone
    | assign value' =>
      obtain ⟨rfl, rfl⟩ := Reads.unique value value'
      exact ⟨rfl, rfl⟩
  | .arrow body, h => by
    cases h with
    | word alone => exact absurd trivial alone
    | arrow body' =>
      obtain ⟨rfl, rfl⟩ := Reads.unique body body'
      exact ⟨rfl, rfl⟩
  | .arrowList several params body, h => by
    cases h with
    | arrowList several' params' body' =>
      obtain ⟨rfl, same⟩ := listed_words_inj (params.symm.trans params')
      cases same
      obtain ⟨rfl, rfl⟩ := Reads.unique body body'
      exact ⟨rfl, rfl⟩
    | enclosed inner => exact absurd (params ▸ inner) (Reads.not_listed several)
  | .enclosed inner, h => by
    cases h with
    | arrowList several params => exact absurd (params ▸ inner) (Reads.not_listed several)
    | enclosed inner' =>
      obtain ⟨rfl, same⟩ := Reads.unique inner inner'
      cases same
      exact ⟨rfl, rfl⟩
termination_by structural h => h

theorem Continues.unique {place : Nat} {l e e' : Term} {ts rest rest' : List Token} :
    Continues place l ts e rest → Continues place l ts e' rest' → e = e' ∧ rest = rest'
  | .stop done, h => by
    cases h with
    | stop => exact ⟨rfl, rfl⟩
    | binary tight | conditional tight => exact absurd tight done
    | callNone | call => exact absurd trivial done
  | .binary tight right more, h => by
    cases h with
    | stop done => exact absurd tight done
    | binary _ right' more' =>
      obtain ⟨rfl, rfl⟩ := Reads.unique right right'
      exact Continues.unique more more'
  | .conditional tight consequent alternate more, h => by
    cases h with
    | stop done => exact absurd tight done
    | conditional _ consequent' alternate' more' =>
      obtain ⟨rfl, same⟩ := Reads.unique consequent consequent'
      cases same
      obtain ⟨rfl, rfl⟩ := Reads.unique alternate alternate'
      exact Continues.unique more more'
  | .callNone more, h => by
    cases h with
    | stop done => exact absurd trivial done
    | callNone more' => exact Continues.unique more more'
    | call items => exact absurd items Items.not_closing
  | .call items more, h => by
    cases h with
    | stop done => exact absurd trivial done
    | callNone => exact absurd items Items.not_closing
    | call items' more' =>
      obtain ⟨rfl, same⟩ := Items.unique items items'
      cases same
      exact Continues.unique more more'
termination_by structural h => h

theorem Items.unique {ts rest rest' : List Token} {es es' : List Term} :
    Items ts es rest → Items ts es' rest' → es = es' ∧ rest = rest'
  | .last item, h => by
    cases h with
    | last item' =>
      obtain ⟨rfl, rests⟩ := Reads.unique item item'
      exact ⟨rfl, rests⟩
    | more item' => cases (Reads.unique item item').2
  | .more item others, h => by
    cases h with
    | last item' => cases (Reads.unique item item').2
    | more item' others' =>
      obtain ⟨rfl, same⟩ := Reads.unique item item'
      cases same
      obtain ⟨rfl, rfl⟩ := Items.unique others others'
      exact ⟨rfl, rfl⟩
termination_by structural h => h
end

end Unique

/-! ## Reading what was printed -/

section Found

/-- What may come after an expression in this place. -/
def Follows (place : Nat) : List Token → Prop
  | .mark (.operator op) :: _ => op.precedence ≤ place
  | .mark .question :: _ => Precedence.conditional < place
  | .mark .opening :: _ => Precedence.call ≤ place
  | .mark .arrow :: _ | .mark .becomes :: _ => False
  | _ => True

variable {place : Nat} {ts rest : List Token} {e f t c a l r : Term} {es : List Term} {s : String}

theorem Follows.not_heads (h : Follows place rest) : ¬Heads rest := by
  rcases rest with _ | ⟨_ | _ | m, rest⟩
  case cons.mark => cases m <;> simp_all [Follows, Heads]
  all_goals exact id

theorem precedence_bounds (op : BinaryOp) :
    Precedence.conditional < op.precedence ∧ op.precedence < Precedence.unary := by
  cases op <;> decide

theorem Follows.ends {place' : Nat} (h : Follows place rest)
    (operators : ∀ op : BinaryOp, op.precedence ≤ place → op.precedence < place')
    (branches : Precedence.conditional < place → Precedence.conditional < place')
    (calls : place < Precedence.call) : Follows place' rest ∧ ¬GoesOn place' rest := by
  rcases rest with _ | ⟨_ | _ | m, rest⟩
  case cons.mark =>
    cases m with
    | operator op =>
      have tight := operators op h
      exact ⟨Nat.le_of_lt tight, Nat.not_le_of_lt tight⟩
    | question => exact ⟨branches h, Nat.not_le_of_lt (branches h)⟩
    | opening => exact absurd h (Nat.not_le_of_lt calls)
    | arrow | becomes => exact h.elim
    | _ => exact ⟨trivial, id⟩
  all_goals exact ⟨trivial, id⟩

theorem Follows.low (h : Follows place rest) (low : place ≤ Precedence.conditional) :
    Follows Precedence.assignment rest ∧ ¬GoesOn Precedence.assignment rest := by
  refine h.ends (fun op le => ?_) (fun lt => absurd low (Nat.not_le_of_lt lt))
    (Nat.lt_of_le_of_lt low (by decide))
  have := (precedence_bounds op).1
  omega

/-- Printed in a place, the expression is found there by a reader in any place that asks for less,
who then goes on. -/
def Found (e : Term) : Prop :=
  ∀ ⦃place least : Nat⦄ ⦃rest rest' : List Token⦄ ⦃result : Term⦄, least ≤ place →
    place ≤ Precedence.call → Follows place rest → Continues least e rest result rest' →
    Reads least (e.tokens place ++ rest) result rest'

theorem Found.reads (h : Found e) (le : place ≤ Precedence.call)
    (ends : Follows place rest ∧ ¬GoesOn place rest) :
    Reads place (e.tokens place ++ rest) e rest :=
  h (Nat.le_refl _) le ends.1 (.stop ends.2)

/-- As `Found`, for the tokens of an expression without parentheses around it. -/
def FoundBare (level : Nat) (e : Term) (ts : List Token) : Prop :=
  ∀ ⦃place least : Nat⦄ ⦃rest rest' : List Token⦄ ⦃result : Term⦄, least ≤ place → place ≤ level →
    Follows place rest → Continues least e rest result rest' → Reads least (ts ++ rest) result rest'

theorem FoundBare.found {level : Nat} (bare : FoundBare level e ts)
    (tokens : ∀ place, e.tokens place = enclose (level < place) ts) : Found e := by
  intro place least rest rest' result le _ follows more
  rw [tokens]
  by_cases loose : level < place
  -- Inside the parentheses the expression is read in the lowest place, and the next token ends it.
  · have inner : Reads Precedence.lowest (ts ++ .mark .closing :: rest) e (.mark .closing :: rest) :=
      bare (Nat.le_refl _) (Nat.zero_le _) trivial (.stop id)
    simpa [enclose, loose] using Reads.intro (.enclosed inner) more
  · simpa [enclose, loose] using bare le (Nat.le_of_not_lt loose) follows more

theorem found_word (h : Term.ofWord s = e) (tokens : ∀ place, e.tokens place = [.word s]) :
    Found e := by
  intro place least rest rest' result _ _ follows more
  rw [tokens]
  exact .intro (.word follows.not_heads) (h ▸ more)

theorem found_text : Found (.text s) := by
  intro place least rest rest' result _ _ _ more
  exact .intro .quoted more

theorem found_omitted : Found .omitted := by
  intro place least rest rest' result _ _ _ more
  exact .intro .omitted more

theorem found_unary (op : UnaryOp) (he : Found e) : Found (.unary op e) := by
  have bare : FoundBare Precedence.unary (.unary op e)
      (.mark (.sign op) :: e.tokens Precedence.unary) := by
    intro place least rest rest' result _ le follows more
    refine .intro (.unary (he.reads (by decide) ?_)) more
    exact follows.ends (fun op _ => (precedence_bounds op).2) (fun _ => by decide)
      (Nat.lt_of_le_of_lt le (by decide))
  exact bare.found fun _ => rfl

theorem found_binary (op : BinaryOp) (hl : Found l) (hr : Found r) : Found (.binary op l r) := by
  obtain ⟨low, high⟩ := precedence_bounds op
  have top : op.precedence < Precedence.call := Nat.lt_trans high (by decide)
  have bare : FoundBare op.precedence (.binary op l r)
      (l.tokens op.precedence ++ .mark (.operator op) :: r.tokens (op.precedence + 1)) := by
    intro place least rest rest' result least_le le follows more
    rw [List.append_assoc]
    -- The right operand stops where the whole stops: what follows binds less tightly than `op`.
    have tight : least ≤ op.precedence := Nat.le_trans least_le le
    have right : Reads (op.precedence + 1) (r.tokens (op.precedence + 1) ++ rest) r rest :=
      hr.reads top (follows.ends (fun op' h => by omega) (fun _ => by omega) (by omega))
    exact hl tight (Nat.le_of_lt top) (Nat.le_refl _) (.binary tight right more)
  exact bare.found fun _ => rfl

theorem found_conditional (ht : Found t) (hc : Found c) (ha : Found a) :
    Found (.conditional t c a) := by
  have bare : FoundBare Precedence.conditional (.conditional t c a)
      (t.tokens (Precedence.conditional + 1) ++ .mark .question ::
        (c.tokens Precedence.assignment ++ .mark .colon :: a.tokens Precedence.assignment)) := by
    intro place least rest rest' result least_le le follows more
    simp only [List.append_assoc, List.cons_append]
    have tight : least ≤ Precedence.conditional := Nat.le_trans least_le le
    have alternate := ha.reads (by decide) (follows.low le)
    have consequent : Reads Precedence.assignment (c.tokens Precedence.assignment ++ .mark .colon ::
        (a.tokens Precedence.assignment ++ rest)) c _ := hc.reads (by decide) ⟨trivial, id⟩
    exact ht (Nat.le_succ_of_le tight) (by decide) (Nat.lt_succ_self _)
      (.conditional tight consequent alternate more)
  exact bare.found fun _ => rfl

theorem found_assign (he : Found e) : Found (.assign s e) := by
  have bare : FoundBare Precedence.assignment (.assign s e)
      (.word s :: .mark .becomes :: e.tokens Precedence.assignment) := by
    intro place least rest rest' result _ le follows more
    exact .intro (.assign (he.reads (by decide) (follows.low (Nat.le_succ_of_le le)))) more
  exact bare.found fun _ => rfl

theorem found_arrow (ss : List String) (he : Found e) : Found (.arrow ss e) := by
  have bare : FoundBare Precedence.assignment (.arrow ss e)
      (Term.paramTokens ss ++ .mark .arrow :: e.tokens Precedence.assignment) := by
    intro place least rest rest' result _ le follows more
    have body := he.reads (by decide) (follows.low (Nat.le_succ_of_le le))
    by_cases one : ss.length = 1
    · obtain ⟨s, rfl⟩ := List.length_eq_one_iff.mp one
      exact .intro (.arrow body) more
    · have params : Term.paramTokens ss = enclose true (listed (ss.map fun s => [.word s])) := by
        unfold Term.paramTokens
        split
        · exact absurd rfl one
        · rfl
      simpa [params, enclose] using Reads.intro (.arrowList one rfl body) more
  exact bare.found fun _ => rfl

theorem items_listed (nonempty : es ≠ []) (h : ∀ e ∈ es, Found e) :
    Items (listed (Term.tokensAll es) ++ .mark .closing :: rest) es (.mark .closing :: rest) := by
  induction es with
  | nil => exact absurd rfl nonempty
  | cons e es ih =>
    obtain ⟨first, others⟩ := List.forall_mem_cons.mp h
    rcases es with _ | ⟨e', es⟩
    · exact .last (first.reads (by decide) ⟨trivial, id⟩)
    · simp only [Term.tokensAll, listed, List.append_assoc]
      exact .more (first.reads (by decide) ⟨trivial, id⟩) (ih (List.cons_ne_nil _ _) others)

theorem found_call (hf : Found f) (hes : ∀ e ∈ es, Found e) : Found (.call f es) := by
  intro place least rest rest' result least_le le follows more
  rw [Term.tokens, List.append_assoc]
  refine hf (Nat.le_trans least_le le) (Nat.le_refl _) (Nat.le_refl _) ?_
  by_cases none : es = []
  · subst none
    exact .callNone more
  · simpa [enclose] using Continues.call (items_listed none hes) more

end Found

end Polytype.Printing
