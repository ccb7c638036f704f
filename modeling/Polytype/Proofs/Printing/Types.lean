import Mathlib.Logic.Equiv.Fintype
import Polytype.Proofs.Printing.Tokens
import Polytype.Proofs.Renaming.Texts
import Polytype.Proofs.Symmetry

/-!
# Printed types

The text of a type shows the type up to the numbers of its variables (`text_eq_iff`). There are two
parts to it. The notation is unambiguous: from its tokens a type can be read back, numbers included
(`tokens_inj`). And printing writes the tokens of the type with its variables numbered anew, where
different variables get different numbers (`exists_numbering`).
-/

namespace Polytype

open Printing

/-! ## Notation -/

namespace Var

/-- The variable by its flag and number. -/
def label (v : Var) : String := (if v.addable then "Addable" else "T") ++ toString v.id

theorem label_inj {v w : Var} (same : v.label = w.label) : v = w := by
  have chars := String.toList_inj.mpr same
  obtain ⟨m, f⟩ := v
  obtain ⟨n, g⟩ := w
  simp only [label, String.toList_append, Nat.toString_eq_ofList_toDigits,
    String.toList_ofList] at chars
  cases f <;> cases g
  · simp only [Bool.false_eq_true, if_false, List.append_cancel_left_eq] at chars
    rw [toDigits_inj (by decide) (by decide) chars]
  · simp at chars
  · simp at chars
  · simp only [if_true, List.append_cancel_left_eq] at chars
    rw [toDigits_inj (by decide) (by decide) chars]

theorem label_head (v : Var) : v.label.toList.head? = some (if v.addable then 'A' else 'T') := by
  unfold label
  cases v.addable <;> simp

theorem label_ne_name (v : Var) (p : Prim) : v.label ≠ p.name := by
  intro same
  have head := v.label_head
  rw [same] at head
  revert head
  cases v.addable <;> cases p <;> decide

theorem label_ne_list (v : Var) : v.label ≠ "List" := by
  intro same
  have head := v.label_head
  rw [same] at head
  revert head
  cases v.addable <;> decide

theorem label_isWord (v : Var) : IsWord v.label := by
  have digits : ∀ c ∈ (toString v.id).toList, isWordChar c := by
    intro c hc
    rw [Nat.toString_eq_ofList_toDigits, String.toList_ofList] at hc
    have digit := Nat.isDigit_of_mem_toDigits (by decide) (by decide) hc
    simp [isWordChar, isNameChar, Char.isAlphanum, digit]
  have kind : (if v.addable then "Addable" else "T").toList.all isWordChar := by
    cases v.addable <;> decide
  have head := v.label_head
  refine ⟨fun e => ?_, fun e => ?_, ?_⟩
  · rw [e] at head
    cases head
  · rw [e] at head
    revert head
    cases v.addable <;> decide
  · rw [label, String.toList_append, List.all_append, kind, List.all_eq_true.mpr digits]
    rfl

end Var

namespace Prim

theorem name_inj {p q : Prim} (same : p.name = q.name) : p = q := by
  revert same
  cases p <;> cases q <;> decide

theorem name_ne_list (p : Prim) : p.name ≠ "List" := by
  cases p <;> decide

theorem name_isWord (p : Prim) : IsWord p.name := by
  cases p <;> decide

end Prim

namespace Ty

/-- A single parameter that is no function stands bare. -/
def standsBare : List Ty → Bool
  | [p] => !p.isFunc
  | _ => false

mutual
def tokens : Ty → List Token
  | .var v => [.word v.label]
  | .prim p => [.word p.name]
  | .func ps r => enclose (!standsBare ps) (listed (tokensAll ps)) ++ .mark .leads :: r.tokens
  | .pair h t =>
    .mark .pairOpening :: (h.tokens ++ .mark .comma :: (t.tokens ++ [.mark .pairClosing]))
  | .list e => .word "List" :: .mark .listOpening :: (e.tokens ++ [.mark .listClosing])

def tokensAll : List Ty → List (List Token)
  | [] => []
  | t :: ts => t.tokens :: tokensAll ts
end

@[simp] theorem tokensAll_eq (ts : List Ty) : tokensAll ts = ts.map tokens := by
  induction ts with
  | nil => rfl
  | cons t ts ih => rw [tokensAll, ih, List.map_cons]

theorem tokens_tidy (t : Ty) : Tidy t.tokens := by
  induction t using Ty.ind with
  | var v => exact .word v.label_isWord
  | prim p => exact .word p.name_isWord
  | func ps r ihps ihr =>
    rw [tokens, tokensAll_eq]
    refine .append (.enclose (.listed ?_) _) ihr
    simpa using ihps
  | pair h t ihh iht => exact .mark _ (.append ihh (.concat iht))
  | list e ih =>
    have name : IsWord "List" := by decide
    exact .append (.word name) (.concat ih)

/-! ## Reading back -/

section Reading

variable {a b p q r s : Ty} {ps qs : List Ty} {rest rest' us : List Token}

theorem standsBare_iff : standsBare ps = true ↔ ∃ p, ps = [p] ∧ p.isFunc = false := by
  rcases ps with _ | ⟨p, _ | ⟨q, ps⟩⟩ <;> simp [standsBare]

theorem isFunc_iff : a.isFunc = true ↔ ∃ ps r, a = .func ps r := by
  cases a <;> simp [isFunc]

theorem tokens_bare (h : p.isFunc = false) :
    (func [p] r).tokens = p.tokens ++ .mark .leads :: r.tokens := by
  simp [tokens, standsBare, h, enclose, listed]

theorem tokens_enclosed (h : standsBare ps = false) : (func ps r).tokens =
    .mark .opening :: (listed (ps.map tokens) ++ .mark .closing :: .mark .leads :: r.tokens) := by
  simp [tokens, h, enclose]

theorem tokens_ne_opening (h : a.isFunc = false) : a.tokens ++ rest ≠ .mark .opening :: us := by
  cases a with
  | func ps r => cases h
  | _ => simp [tokens]

theorem tokens_ne_closing : a.tokens ++ rest ≠ .mark .closing :: us := by
  have atom {p : Ty} {rest : List Token} (hp : p.isFunc = false) :
      p.tokens ++ rest ≠ .mark .closing :: us := by
    cases p with
    | func ps r => cases hp
    | _ => simp [tokens]
  cases ha : a.isFunc with
  | false => exact atom ha
  | true =>
    obtain ⟨ps, r, rfl⟩ := isFunc_iff.mp ha
    cases bare : standsBare ps with
    | false => simp [tokens_enclosed bare]
    | true =>
      obtain ⟨p, rfl, hp⟩ := standsBare_iff.mp bare
      rw [tokens_bare hp, List.append_assoc]
      exact atom hp

/-- No arrow follows. -/
def Stops (rest : List Token) : Prop := ∀ us, rest ≠ .mark .leads :: us

/-- The type can be told from every other one by the tokens it starts a text with, where no arrow
follows. -/
def ReadsBack (a : Ty) : Prop :=
  ∀ {b : Ty} {rest rest' : List Token}, Stops rest → Stops rest' →
    a.tokens ++ rest = b.tokens ++ rest' → a = b ∧ rest = rest'

/-- Among the types that are no functions it can be told apart whatever follows. -/
def ReadsAlone (a : Ty) : Prop :=
  ∀ {b : Ty} {rest rest' : List Token}, b.isFunc = false →
    a.tokens ++ rest = b.tokens ++ rest' → a = b ∧ rest = rest'

theorem listed_inj (h : ∀ p ∈ ps, ReadsBack p)
    (same : listed (ps.map tokens) ++ .mark .closing :: rest =
      listed (qs.map tokens) ++ .mark .closing :: rest') : ps = qs ∧ rest = rest' := by
  induction ps generalizing qs with
  | nil =>
    rcases qs with _ | ⟨q, _ | ⟨q', qs⟩⟩
    · exact ⟨rfl, (List.cons.inj same).2⟩
    · exact absurd same.symm tokens_ne_closing
    · rw [List.map_cons, List.map_cons, listed, List.append_assoc] at same
      exact absurd same.symm tokens_ne_closing
  | cons p ps ih =>
    obtain ⟨first, others⟩ := List.forall_mem_cons.mp h
    have closing (us : List Token) : Stops (.mark .closing :: us) := by simp [Stops]
    have comma (us : List Token) : Stops (.mark .comma :: us) := by simp [Stops]
    rcases ps with _ | ⟨p', ps⟩ <;> rcases qs with _ | ⟨q, _ | ⟨q', qs⟩⟩ <;>
      simp only [List.map_cons, List.map_nil, listed, List.append_assoc, List.nil_append,
        List.cons_append] at same
    · exact absurd same tokens_ne_closing
    · obtain ⟨rfl, rests⟩ := first (closing _) (closing _) same
      exact ⟨rfl, (List.cons.inj rests).2⟩
    · cases (first (closing _) (comma _) same).2
    · exact absurd same tokens_ne_closing
    · cases (first (comma _) (closing _) same).2
    · obtain ⟨rfl, rests⟩ := first (comma _) (comma _) same
      obtain ⟨tails, rests⟩ := @ih (q' :: qs) others (List.cons.inj rests).2
      exact ⟨congrArg _ tails, rests⟩

theorem ReadsAlone.readsBack (ha : a.isFunc = false) (h : ReadsAlone a) : ReadsBack a := by
  intro b rest rest' stops _ same
  cases hb : b.isFunc with
  | false => exact h hb same
  | true =>
    obtain ⟨qs, s, rfl⟩ := isFunc_iff.mp hb
    cases bare : standsBare qs with
    | false =>
      rw [tokens_enclosed bare] at same
      exact absurd same (tokens_ne_opening ha)
    | true =>
      obtain ⟨q, rfl, hq⟩ := standsBare_iff.mp bare
      rw [tokens_bare hq, List.append_assoc] at same
      exact absurd (h hq same).2 (stops _)

theorem readsBack_func (hps : ∀ p ∈ ps, (p.isFunc = false → ReadsAlone p) ∧ ReadsBack p)
    (hr : ReadsBack r) : ReadsBack (.func ps r) := by
  intro b rest rest' stops stops' same
  cases hb : b.isFunc with
  | false =>
    cases bare : standsBare ps with
    | false =>
      rw [tokens_enclosed bare] at same
      exact absurd same.symm (tokens_ne_opening hb)
    | true =>
      obtain ⟨p, rfl, hp⟩ := standsBare_iff.mp bare
      rw [tokens_bare hp, List.append_assoc] at same
      exact absurd ((hps p List.mem_cons_self).1 hp hb same).2.symm (stops' _)
  | true =>
    obtain ⟨qs, s, rfl⟩ := isFunc_iff.mp hb
    -- If only one list of parameters is in parentheses, the first tokens differ.
    cases bare : standsBare ps <;> cases bare' : standsBare qs
    · rw [tokens_enclosed bare, tokens_enclosed bare'] at same
      simp only [List.cons_append, List.append_assoc, List.cons.injEq, true_and] at same
      obtain ⟨rfl, results⟩ := listed_inj (fun p hp => (hps p hp).2) same
      obtain ⟨rfl, rests⟩ := hr stops stops' (List.cons.inj results).2
      exact ⟨rfl, rests⟩
    · obtain ⟨q, rfl, hq⟩ := standsBare_iff.mp bare'
      rw [tokens_enclosed bare, tokens_bare hq, List.append_assoc] at same
      exact absurd same.symm (tokens_ne_opening hq)
    · obtain ⟨p, rfl, hp⟩ := standsBare_iff.mp bare
      rw [tokens_enclosed bare', tokens_bare hp, List.append_assoc] at same
      exact absurd same (tokens_ne_opening hp)
    · obtain ⟨p, rfl, hp⟩ := standsBare_iff.mp bare
      obtain ⟨q, rfl, hq⟩ := standsBare_iff.mp bare'
      rw [tokens_bare hp, tokens_bare hq, List.append_assoc, List.append_assoc] at same
      obtain ⟨rfl, results⟩ := (hps p List.mem_cons_self).1 hp hq same
      obtain ⟨rfl, rests⟩ := hr stops stops' (List.cons.inj results).2
      exact ⟨rfl, rests⟩

theorem readsAlone_pair (ha : ReadsBack a) (hb : ReadsBack b) : ReadsAlone (.pair a b) := by
  intro c rest rest' hc same
  have stops (m : Mark) (hm : m ≠ .leads) (us : List Token) : Stops (.mark m :: us) := by
    simpa [Stops] using hm
  cases c with
  | pair c d =>
    simp only [tokens, List.cons_append, List.append_assoc, List.cons.injEq, true_and] at same
    obtain ⟨rfl, seconds⟩ := ha (stops .comma nofun _) (stops .comma nofun _) same
    obtain ⟨rfl, rests⟩ := hb (stops .pairClosing nofun _) (stops .pairClosing nofun _)
      (List.cons.inj seconds).2
    exact ⟨rfl, (List.cons.inj rests).2⟩
  | func ps r => cases hc
  | _ => simp [tokens] at same

theorem readsAlone_list (ha : ReadsBack a) : ReadsAlone (.list a) := by
  intro c rest rest' hc same
  have stops (us : List Token) : Stops (.mark .listClosing :: us) := by simp [Stops]
  cases c with
  | list c =>
    simp only [tokens, List.cons_append, List.append_assoc, List.cons.injEq, true_and] at same
    obtain ⟨rfl, rests⟩ := ha (stops _) (stops _) same
    exact ⟨rfl, (List.cons.inj rests).2⟩
  | func ps r => cases hc
  | var v => simp [tokens, v.label_ne_list.symm] at same
  | prim p => simp [tokens, p.name_ne_list.symm] at same
  | pair h t => simp [tokens] at same

theorem readsAlone_var (v : Var) : ReadsAlone (.var v) := by
  intro c rest rest' hc same
  cases c with
  | var w =>
    simp only [tokens, List.cons_append, List.nil_append, List.cons.injEq, Token.word.injEq] at same
    exact ⟨congrArg Ty.var (Var.label_inj same.1), same.2⟩
  | func ps r => cases hc
  | prim p => simp [tokens, v.label_ne_name] at same
  | list e => simp [tokens, v.label_ne_list] at same
  | pair h t => simp [tokens] at same

theorem readsAlone_prim (p : Prim) : ReadsAlone (.prim p) := by
  intro c rest rest' hc same
  cases c with
  | prim q =>
    simp only [tokens, List.cons_append, List.nil_append, List.cons.injEq, Token.word.injEq] at same
    exact ⟨congrArg Ty.prim (Prim.name_inj same.1), same.2⟩
  | func ps r => cases hc
  | var v => simp [tokens, (v.label_ne_name p).symm] at same
  | list e => simp [tokens, p.name_ne_list] at same
  | pair h t => simp [tokens] at same

theorem readsBack (a : Ty) : (a.isFunc = false → ReadsAlone a) ∧ ReadsBack a := by
  have atom {a : Ty} (ha : a.isFunc = false) (h : ReadsAlone a) :
      (a.isFunc = false → ReadsAlone a) ∧ ReadsBack a := ⟨fun _ => h, h.readsBack ha⟩
  induction a using Ty.ind with
  | var v => exact atom rfl (readsAlone_var v)
  | prim p => exact atom rfl (readsAlone_prim p)
  | func ps r ihps ihr => exact ⟨nofun, readsBack_func ihps ihr.2⟩
  | pair h t ihh iht => exact atom rfl (readsAlone_pair ihh.2 iht.2)
  | list e ih => exact atom rfl (readsAlone_list ih.2)

/-- Types with the same tokens are the same, numbers included. -/
theorem tokens_inj (same : a.tokens = b.tokens) : a = b := by
  have back : ReadsBack a := (readsBack a).2
  exact (@back b [] [] nofun nofun (by rw [same])).1

end Reading

end Ty

/-! ## Numbering -/

variable {k : Nat → Bool} {β γ : Type}

namespace Namer

/-- How many names of a kind there are. -/
def count (n : Namer) (addable : Bool) : Nat := if addable then n.addable else n.plain

/-- Names are labels with the flags of `k`, counted by kind, and no two variables share one. -/
structure Sound (k : Nat → Bool) (n : Namer) : Prop where
  label {i : Nat} {text : String} : n.names.lookup i = some text →
    ∃ m ≤ n.count (k i), text = (Var.mk m (k i)).label
  apart {i j : Nat} {text : String} : n.names.lookup i = some text →
    n.names.lookup j = some text → i = j

/-- All names given so far are the labels of the variables that `σ` puts in place of the numbers. -/
def Follows (σ : Nat → Var) (n : Namer) : Prop :=
  ∀ i text, n.names.lookup i = some text → text = (σ i).label

/-- Old names are kept, and the variables `vs` have names. -/
structure Names (k : Nat → Bool) (vs : List Var) (n n' : Namer) : Prop where
  sound : n'.Sound k
  kept {i : Nat} {text : String} : n.names.lookup i = some text → n'.names.lookup i = some text
  named : ∀ v ∈ vs, ∃ text, n'.names.lookup v.id = some text

theorem name_of_none {n : Namer} {v : Var} (new : n.names.lookup v.id = none) :
    ∃ n', name v n = ((Var.mk (n.count v.addable + 1) v.addable).label, n') ∧
      n'.names = (v.id, (Var.mk (n.count v.addable + 1) v.addable).label) :: n.names ∧
      n'.count v.addable = n.count v.addable + 1 ∧ ∀ f, n.count f ≤ n'.count f := by
  obtain ⟨i, f⟩ := v
  unfold name
  rw [new]
  cases f with
  | false => exact ⟨_, rfl, rfl, rfl, fun f => by cases f <;> simp [count]⟩
  | true => exact ⟨_, rfl, rfl, rfl, fun f => by cases f <;> simp [count]⟩

theorem lookup_name (n : Namer) (v : Var) : (name v n).2.names.lookup v.id = some (name v n).1 := by
  cases given : n.names.lookup v.id with
  | some text =>
    unfold name
    rw [given]
    exact given
  | none =>
    obtain ⟨n', named, names, -⟩ := name_of_none given
    rw [named]
    show n'.names.lookup v.id = _
    rw [names, List.lookup_cons_self]

theorem name_names {n : Namer} (sound : n.Sound k) {v : Var} (flag : v.addable = k v.id) :
    Names k [v] n (name v n).2 := by
  have found : ∀ w ∈ [v], ∃ text, (name v n).2.names.lookup w.id = some text := by
    simpa using ⟨_, lookup_name n v⟩
  cases given : n.names.lookup v.id with
  | some text =>
    have same : name v n = (text, n) := by
      unfold name
      rw [given]
    rw [same] at found ⊢
    exact ⟨sound, id, found⟩
  | none =>
    obtain ⟨n', named, names, next, counts⟩ := name_of_none given
    rw [named] at found ⊢
    -- A name is the new one, or an old one with a smaller count.
    have lookup {i : Nat} {text : String} (h : n'.names.lookup i = some text) :
        (i = v.id ∧ text = (Var.mk (n.count v.addable + 1) v.addable).label) ∨
          n.names.lookup i = some text := by
      rw [names, List.lookup_cons] at h
      by_cases this : i = v.id
      · rw [beq_iff_eq.mpr this] at h
        exact .inl ⟨this, (Option.some.inj h).symm⟩
      · rw [beq_false_of_ne this] at h
        exact .inr h
    have fresh {i : Nat} (h : n.names.lookup i =
        some (Var.mk (n.count v.addable + 1) v.addable).label) : False := by
      obtain ⟨m, bound, same⟩ := sound.label h
      obtain ⟨rfl, flags⟩ := Var.mk.inj (Var.label_inj same)
      rw [← flags] at bound
      exact Nat.not_succ_le_self _ bound
    refine ⟨⟨fun {i text} h => ?_, fun {i j text} hi hj => ?_⟩, fun {i text} h => ?_, found⟩
    · rcases lookup h with ⟨rfl, rfl⟩ | old
      · exact ⟨_, by rw [← flag, next], by rw [flag]⟩
      · obtain ⟨m, bound, same⟩ := sound.label old
        exact ⟨m, bound.trans (counts _), same⟩
    · rcases lookup hi with ⟨rfl, rfl⟩ | oldi
      · rcases lookup hj with ⟨rfl, -⟩ | oldj
        · rfl
        · exact (fresh oldj).elim
      · rcases lookup hj with ⟨rfl, rfl⟩ | oldj
        · exact (fresh oldi).elim
        · exact sound.apart oldi oldj
    · have other : i ≠ v.id := by
        rintro rfl
        rw [given] at h
        cases h
      show n'.names.lookup i = some text
      rw [names, List.lookup_cons, beq_false_of_ne other]
      exact h

end Namer

open Namer (Names)

/-- Names the variables `vs`, and returns what `out` says of the variables they stand for. -/
def Writes (k : Nat → Bool) (vs : List Var) (m : StateM Namer β) (out : (Nat → Var) → β) : Prop :=
  ∀ n, n.Sound k → Names k vs n (m.run n).2 ∧ ∀ σ, (m.run n).2.Follows σ → (m.run n).1 = out σ

namespace Writes

variable {vs ws : List Var} {m : StateM Namer β} {f : β → StateM Namer γ}
  {out out' : (Nat → Var) → β} {next : β → (Nat → Var) → γ}

theorem pure (b : β) : Writes k [] (pure b) fun _ => b :=
  fun _ sound => ⟨⟨sound, id, nofun⟩, fun _ _ => rfl⟩

theorem bind (hm : Writes k vs m out) (hf : ∀ b, Writes k ws (f b) (next b)) :
    Writes k (vs ++ ws) (m >>= f) fun σ => next (out σ) σ := by
  intro n sound
  obtain ⟨first, text⟩ := hm n sound
  obtain ⟨second, texts⟩ := hf (m.run n).1 _ first.sound
  refine ⟨⟨second.sound, fun h => second.kept (first.kept h), fun v hv => ?_⟩, fun σ follows => ?_⟩
  · rcases List.mem_append.mp hv with hv | hv
    · obtain ⟨text, h⟩ := first.named v hv
      exact ⟨text, second.kept h⟩
    · exact second.named v hv
  · have before : (m.run n).2.Follows σ := fun i text h => follows i text (second.kept h)
    exact (texts σ follows).trans (congrArg (next · σ) (text σ before))

theorem imp (h : Writes k vs m out) (vars : ∀ v ∈ ws, v ∈ vs) (same : ∀ σ, out σ = out' σ) :
    Writes k ws m out' := by
  intro n sound
  obtain ⟨names, text⟩ := h n sound
  exact ⟨⟨names.sound, names.kept, fun v hv => names.named v (vars v hv)⟩,
    fun σ follows => (text σ follows).trans (same σ)⟩

theorem name {v : Var} (flag : v.addable = k v.id) :
    Writes k [v] (modifyGet (Namer.name v)) fun σ => (σ v.id).label := by
  intro n sound
  exact ⟨Namer.name_names sound flag, fun σ follows => follows v.id _ (n.lookup_name v)⟩

end Writes

namespace Ty

/-- The text of the type with `σ n` in the place of the variable numbered `n`. -/
def display (σ : Nat → Var) (t : Ty) : String :=
  String.ofList (spell (t.rename fun v => σ v.id).tokens)

theorem printAll_writes {ts : List Ty} (h : ∀ t ∈ ts, Writes k t.vars t.print fun σ => t.display σ) :
    Writes k (varsAll ts) (printAll ts) fun σ => ts.map (display σ) := by
  induction ts with
  | nil => exact .pure _
  | cons t ts ih =>
    obtain ⟨first, rest⟩ := List.forall_mem_cons.mp h
    rw [printAll]
    refine (first.bind fun _ => (ih rest).bind fun _ => .pure _).imp (by simp [varsAll]) fun σ => rfl

/-- The parameters of a function, as they stand before the arrow. -/
def displayParams (σ : Nat → Var) (ts : List Ty) : String :=
  String.ofList (spell (enclose (!standsBare ts)
    (listed (ts.map fun t => (t.rename fun v => σ v.id).tokens))))

theorem printParams_writes {ts : List Ty}
    (h : ∀ t ∈ ts, Writes k t.vars t.print fun σ => t.display σ) :
    Writes k (varsAll ts) (printParams ts) fun σ => displayParams σ ts := by
  rcases ts with _ | ⟨p, _ | ⟨q, ts⟩⟩
  · exact (Writes.pure "()").imp nofun fun σ => rfl
  · rw [printParams]
    refine ((h p List.mem_cons_self).bind fun _ => .pure _).imp (by simp [varsAll]) fun σ => ?_
    rw [← String.toList_inj]
    cases func : p.isFunc <;>
      simp [display, displayParams, standsBare, func, enclose, listed, Token.chars, Mark.text]
  · rw [printParams]
    obtain ⟨first, others⟩ := List.forall_mem_cons.mp h
    obtain ⟨second, rest⟩ := List.forall_mem_cons.mp others
    refine (first.bind fun _ => second.bind fun _ => (printAll_writes rest).bind fun _ => .pure _).imp
      (by simp [varsAll]) fun σ => ?_
    rw [← String.toList_inj]
    simp [display, displayParams, standsBare, enclose, spell_listed, String.toList_intercalate,
      Function.comp_def, Token.chars, Mark.text]

theorem standsBare_rename (g : Var → Var) (ts : List Ty) :
    standsBare (ts.map (rename g)) = standsBare ts := by
  rcases ts with _ | ⟨p, _ | ⟨q, ts⟩⟩ <;> simp [standsBare]

theorem print_writes {t : Ty} (kinded : t.Kinded k) :
    Writes k t.vars t.print fun σ => t.display σ := by
  induction t using Ty.ind with
  | var v =>
    refine (Writes.name (kinded_var.mp kinded)).imp (by simp [vars]) fun σ => ?_
    simp [display, tokens, Token.chars]
  | prim p =>
    refine (Writes.pure _).imp (by simp [vars]) fun σ => ?_
    simp [display, tokens, Token.chars]
  | func ps r ihps ihr =>
    obtain ⟨hps, hr⟩ := kinded_func.mp kinded
    refine ((printParams_writes fun p hp => ihps p hp (hps p hp)).bind fun _ =>
      (ihr hr).bind fun _ => .pure _).imp (by simp [vars]) fun σ => ?_
    rw [← String.toList_inj]
    simp [display, displayParams, tokens, standsBare_rename, Function.comp_def, Token.chars,
      Mark.text]
  | pair h t ihh iht =>
    obtain ⟨hh, ht⟩ := kinded_pair.mp kinded
    refine ((ihh hh).bind fun _ => (iht ht).bind fun _ => .pure _).imp (by simp [vars]) fun σ => ?_
    rw [← String.toList_inj]
    simp [display, tokens, Token.chars, Mark.text]
  | list e ih =>
    refine ((ih (kinded_list.mp kinded)).bind fun _ => .pure _).imp (by simp [vars]) fun σ => ?_
    rw [← String.toList_inj]
    simp [display, tokens, Token.chars, Mark.text]

/-- A type is printed with its variables numbered anew, each with the flag it has, and different ones
differently. -/
theorem exists_numbering {t : Ty} (kinded : t.Kinded k) :
    ∃ σ : Nat → Var, (∀ i, (σ i).addable = k i) ∧ Set.InjOn σ t.ids ∧ t.text = t.display σ := by
  have start : Namer.Sound k {} := ⟨nofun, nofun⟩
  obtain ⟨names, text⟩ := print_writes kinded {} start
  generalize final : (t.print.run {}).2 = n at names text
  have numbering : ∀ i, ∃ w : Var, w.addable = k i ∧
      ∀ text, n.names.lookup i = some text → text = w.label := by
    intro i
    cases given : n.names.lookup i with
    | none => exact ⟨⟨0, k i⟩, rfl, nofun⟩
    | some label =>
      obtain ⟨m, -, same⟩ := names.sound.label given
      refine ⟨⟨m, k i⟩, rfl, ?_⟩
      rintro _ ⟨⟩
      exact same
  choose σ flags follows using numbering
  refine ⟨σ, flags, fun i hi j hj same => ?_, text σ follows⟩
  obtain ⟨v, hv, rfl⟩ := mem_ids.mp hi
  obtain ⟨w, hw, rfl⟩ := mem_ids.mp hj
  obtain ⟨s, hs⟩ := names.named v hv
  obtain ⟨s', hs'⟩ := names.named w hw
  have texts : s = s' := by rw [follows _ _ hs, follows _ _ hs', same]
  exact names.sound.apart hs (texts ▸ hs')

theorem rename_rename (f g : Var → Var) (t : Ty) : (t.rename f).rename g = t.rename fun v => g (f v) :=
  bind_bind _ _ t

theorem exists_permute {k' : Nat → Bool} {a b : Ty} {σ σ' : Nat → Var} (ha : a.Kinded k)
    (hb : b.Kinded k') (flags : ∀ i, (σ i).addable = k i) (flags' : ∀ i, (σ' i).addable = k' i)
    (inj : Set.InjOn σ a.ids) (inj' : Set.InjOn σ' b.ids)
    (same : (a.rename fun v => σ v.id) = b.rename fun v => σ' v.id) :
    ∃ ρ : Equiv.Perm Nat, b = a.permute ρ := by
  have vars : a.vars.map (fun v => σ v.id) = b.vars.map fun v => σ' v.id := by
    rw [← vars_rename, same, vars_rename]
  have partner : ∀ i : { i // i ∈ a.ids }, ∃ j ∈ b.ids, σ' j = σ i := by
    intro ⟨i, hi⟩
    obtain ⟨v, hv, rfl⟩ := mem_ids.mp hi
    have image : σ v.id ∈ b.vars.map fun v => σ' v.id := vars ▸ List.mem_map_of_mem hv
    obtain ⟨w, hw, e⟩ := List.mem_map.mp image
    exact ⟨w.id, mem_ids.mpr ⟨w, hw, rfl⟩, e⟩
  choose g mem partner using partner
  have injective : Function.Injective g := by
    intro i j e
    exact Subtype.ext (inj i.2 j.2 (by rw [← partner i, ← partner j, e]))
  obtain ⟨ρ, agrees⟩ := Equiv.Perm.exists_extending_pair _ g Subtype.val_injective injective
  -- Every variable of `b` is found again by its new number.
  let back (w : Var) : Var := ⟨Function.invFunOn σ' b.ids w, w.addable⟩
  have found {j : Nat} (hj : j ∈ b.ids) : back (σ' j) = ⟨j, (σ' j).addable⟩ :=
    congrArg (Var.mk · _) (inj'.leftInvOn_invFunOn hj)
  refine ⟨ρ, ?_⟩
  calc b = (b.rename fun v => σ' v.id).rename back := by
        rw [rename_rename]
        refine (rename_eq_self b fun v hv => ?_).symm
        rw [found (mem_ids.mpr ⟨v, hv, rfl⟩), flags', ← hb v hv]
    _ = a.rename fun v => back (σ v.id) := by rw [← same, rename_rename]
    _ = a.permute ρ := by
        refine bind_congr a fun v hv => congrArg Ty.var ?_
        have hi : v.id ∈ a.ids := mem_ids.mpr ⟨v, hv, rfl⟩
        have image : ρ v.id = g ⟨v.id, hi⟩ := agrees ⟨v.id, hi⟩
        have number : σ' (ρ v.id) = σ v.id := image ▸ partner ⟨v.id, hi⟩
        show back (σ v.id) = v.permute ρ
        rw [← number, found (image ▸ mem _), number, flags, ← ha v hv, Var.permute]

end Ty

/-- Two types, each with one flag for each number, have the same text exactly if one is the other with
its variables renumbered one to one, flags kept. -/
theorem text_eq_iff {k k' : Nat → Bool} {a b : Ty} (ha : a.Kinded k) (hb : b.Kinded k') :
    a.text = b.text ↔ ∃ ρ : Equiv.Perm Nat, b = a.permute ρ := by
  constructor
  · intro same
    obtain ⟨σ, flags, inj, text⟩ := Ty.exists_numbering ha
    obtain ⟨σ', flags', inj', text'⟩ := Ty.exists_numbering hb
    rw [text, text', Ty.display, Ty.display, String.ofList_inj] at same
    have tokens := spell_injective (Ty.tokens_tidy _).spaced (Ty.tokens_tidy _).spaced same
    exact Ty.exists_permute ha hb flags flags' inj inj' (Ty.tokens_inj tokens)
  · rintro ⟨ρ, rfl⟩
    exact (Ty.text_rename_of_faithful (Var.permute_faithful ρ) (fun _ => rfl) a).symm

/-- A function that applies one, with a plain and an addable variable. -/
def applying (i j : Nat) : Ty :=
  .func [.func [.var (.plain i)] (.var ⟨j, true⟩)] (.pair (.var (.plain i)) (.list (.var ⟨j, true⟩)))

theorem text_eq_iff_applying :
    ((applying 4 0).Kinded (· == 0) ∧ (applying 0 9).Kinded (· == 9)) ∧
      (applying 4 0).text = "(T1 -> Addable1) -> [T1, List<Addable1>]" ∧
      ∃ ρ : Equiv.Perm Nat, applying 0 9 = (applying 4 0).permute ρ := by
  have kinded : (applying 4 0).Kinded (· == 0) ∧ (applying 0 9).Kinded (· == 9) := by
    simp [applying, Ty.Kinded, Ty.vars, Ty.varsAll, Var.plain]
  exact ⟨kinded, by decide +kernel, (text_eq_iff kinded.1 kinded.2).mp (by decide +kernel)⟩

end Polytype
