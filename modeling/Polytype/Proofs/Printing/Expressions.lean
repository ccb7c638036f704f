import Polytype.Proofs.Notes
import Polytype.Proofs.Printing.Grammar
import Polytype.Proofs.Printing.Numerals
import Polytype.Tree.Build

/-!
# Printed expressions

The text of an expression shows its tree (`source_eq_iff`): operators and their operands, names,
texts, and numbers by their own text. It does not show places and notes, nor the statements of a
block. This holds if names look like names and all numbers are finite.
-/

namespace Polytype

open Printing
open Decimal (IsNumeral)

variable {α β : Type}

/-! ## Names and numbers -/

section Words

variable {s : String}

/-- A name does not start with a digit, and is not the text of another literal. -/
def IsName (s : String) : Prop :=
  s ≠ "" ∧ s.toList.all isNameChar ∧ s.toList.head?.all (!·.isDigit) ∧ s ∉ ["true", "false", "null"]

instance (s : String) : Decidable (IsName s) := inferInstanceAs (Decidable (_ ∧ _ ∧ _ ∧ _))

theorem IsName.chars (h : IsName s) : ∀ c ∈ s.toList, isNameChar c := List.all_eq_true.mp h.2.1

theorem IsName.isWord (h : IsName s) : IsWord s := by
  refine ⟨h.1, ?_, List.all_eq_true.mpr fun c hc => by simp [isWordChar, h.chars c hc]⟩
  rintro rfl
  exact absurd (h.chars '-' (by decide)) (by decide)

theorem IsName.ofWord (h : IsName s) : Term.ofWord s = .name s := by
  have name : Term.startsNumeral s = false := by
    have start := h.2.2.1
    unfold Term.startsNumeral
    cases head : s.toList.head? with
    | none => rfl
    | some c =>
      have minus : c ≠ '-' := by
        rintro rfl
        exact absurd (h.chars '-' (List.mem_of_mem_head? head)) (by decide)
      simpa [head, minus] using start
  have reserved := h.2.2.2
  simp_all [Term.ofWord]

theorem Decimal.IsNumeral.isWord (h : IsNumeral s) : IsWord s := by
  obtain ⟨cs, positional, sign⟩ := h
  obtain ⟨c, head, digit⟩ := positional.head
  have chars : ∀ d ∈ cs, isWordChar d := by
    intro d hd
    rcases positional.chars d hd with digit | rfl
    · simp [isWordChar, isNameChar, Char.isAlphanum, digit]
    · decide
  have nonempty : cs ≠ [] := by
    rintro rfl
    cases head
  refine ⟨?_, ?_, ?_⟩
  · rintro rfl
    simp_all
  · rintro rfl
    rcases sign with rfl | sign
    · cases head
      cases digit
    · exact nonempty (List.cons.inj sign).2.symm
  · rcases sign with same | same <;> rw [same]
    · exact List.all_eq_true.mpr chars
    · exact List.all_eq_true.mpr (List.forall_mem_cons.mpr ⟨by decide, chars⟩)

theorem Decimal.IsNumeral.ofWord (h : IsNumeral s) : Term.ofWord s = .number s := by
  obtain ⟨cs, positional, sign⟩ := h
  obtain ⟨c, head, digit⟩ := positional.head
  have numeral : Term.startsNumeral s = true := by
    unfold Term.startsNumeral
    rcases sign with same | same <;> rw [same]
    · simp [head, digit]
    · rfl
  have other {w : String} (h : Term.startsNumeral w = false) : s ≠ w := by
    rintro rfl
    rw [numeral] at h
    cases h
  unfold Term.ofWord
  rw [if_neg (other (by decide)), if_neg (other (by decide)), if_neg (other (by decide)),
    if_pos numeral]

end Words

/-! ## Terms of expressions -/

namespace Expr

mutual
/-- What shows of the expression. -/
def term : Expr α → Term
  | .number _ x => .number (Decimal.numberText x)
  | .text _ s => .text s
  | .boolean _ b => .boolean b
  | .null _ => .null
  | .name n => .name n.text
  | .unary _ op e => .unary op e.term
  | .binary _ op l r => .binary op l.term r.term
  | .conditional _ t c a => .conditional t.term c.term a.term
  | .call _ f args => .call f.term (termAll args)
  | .arrow _ ps body => .arrow (ps.map (·.text)) body.term
  | .arrowBlock _ ps _ => .arrow (ps.map (·.text)) .omitted
  | .assign _ target e => .assign target.text e.term

def termAll : List (Expr α) → List Term
  | [] => []
  | e :: es => e.term :: termAll es
end

mutual
/-- Names are names, and numbers are finite, as far as they show. -/
def Legible : Expr α → Prop
  | .number _ x => Decimal.IsFinite x
  | .text .. | .boolean .. | .null _ => True
  | .name n => IsName n.text
  | .unary _ _ e => e.Legible
  | .binary _ _ l r => l.Legible ∧ r.Legible
  | .conditional _ t c a => t.Legible ∧ c.Legible ∧ a.Legible
  | .call _ f args => f.Legible ∧ LegibleAll args
  | .arrow _ ps body => (∀ p ∈ ps, IsName p.text) ∧ body.Legible
  | .arrowBlock _ ps _ => ∀ p ∈ ps, IsName p.text
  | .assign _ target e => IsName target.text ∧ e.Legible

def LegibleAll : List (Expr α) → Prop
  | [] => True
  | e :: es => e.Legible ∧ LegibleAll es
end

theorem termAll_eq (es : List (Expr α)) : termAll es = es.map term := by
  induction es with
  | nil => rfl
  | cons e es ih => rw [termAll, ih, List.map_cons]

theorem legibleAll_iff {es : List (Expr α)} : LegibleAll es ↔ ∀ e ∈ es, e.Legible := by
  induction es with
  | nil => simp [LegibleAll]
  | cons e es ih => simp [LegibleAll, ih]

end Expr

/-! ## Printing writes the tokens -/

theorem parenthesize_toList {needed : Bool} {text : String} {ts : List Token}
    (h : text.toList = spell ts) : (parenthesize needed text).toList = spell (enclose needed ts) := by
  cases needed <;> simp [parenthesize, enclose, h, Token.chars, Mark.text]

theorem arrowText_toList (ps : List (Name α)) :
    (Name.arrowText ps).toList = spell (Term.paramTokens (ps.map (·.text))) := by
  rcases ps with _ | ⟨p, _ | ⟨q, ps⟩⟩
  · simp [Name.arrowText, Name.listText, Term.paramTokens, enclose, listed, Token.chars, Mark.text]
  · simp [Name.arrowText, Term.paramTokens, Token.chars]
  · simp [Name.arrowText, Name.listText, Term.paramTokens, enclose, spell_listed,
      String.toList_intercalate, Function.comp_def, Token.chars, Mark.text]

namespace Expr

theorem print_toList (e : Expr α) (place : Nat) :
    (e.print place).toList = spell (e.term.tokens place) := by
  induction e using Expr.ind generalizing place with
  | number | text | boolean | null | name => simp [print, term, Term.tokens, Token.chars]
  | unary tag op e ih => exact parenthesize_toList (by simp [ih, Token.chars, Mark.text])
  | binary tag op l r ihl ihr =>
    exact parenthesize_toList (by simp [ihl, ihr, Token.chars, Mark.text])
  | conditional tag t c a iht ihc iha =>
    exact parenthesize_toList (by simp [iht, ihc, iha, Token.chars, Mark.text])
  | call tag f args ihf ihargs =>
    have items : args.map (fun e => (e.print Precedence.assignment).toList) =
        args.map fun e => spell (e.term.tokens Precedence.assignment) :=
      List.map_congr_left fun e he => ihargs e he _
    simp [print, term, Term.tokens, printAll_eq, termAll_eq, Term.tokensAll_eq, ihf, enclose, spell_listed,
      String.toList_intercalate, Function.comp_def, items, Token.chars, Mark.text]
  | arrow tag ps body ih =>
    exact parenthesize_toList (by simp [arrowText_toList, ih, Token.chars, Mark.text])
  | arrowBlock tag ps body =>
    exact parenthesize_toList (by simp [arrowText_toList, Term.tokens, Token.chars, Mark.text])
  | assign tag target e ih => exact parenthesize_toList (by simp [ih, Token.chars, Mark.text])

theorem paramTokens_tidy {ps : List (Name α)} (h : ∀ p ∈ ps, IsName p.text) :
    Tidy (Term.paramTokens (ps.map (·.text))) := by
  have words : ∀ ts ∈ (ps.map (·.text)).map (fun s => [Token.word s]), Tidy ts := by
    simp only [List.map_map, List.mem_map]
    rintro _ ⟨p, hp, rfl⟩
    exact .word (h p hp).isWord
  rcases ps with _ | ⟨p, _ | ⟨q, ps⟩⟩
  · exact (Tidy.listed words).enclose true
  · exact .word (h p List.mem_cons_self).isWord
  · exact (Tidy.listed words).enclose true

theorem tokens_tidy {e : Expr α} (legible : e.Legible) (place : Nat) :
    Tidy (e.term.tokens place) := by
  induction e using Expr.ind generalizing place with
  | number tag x => exact .word (Decimal.numberText_isNumeral legible).isWord
  | text tag s => exact .quoted s
  | boolean tag b => cases b <;> exact .word (by decide)
  | null tag => exact .word (by decide)
  | name n => exact .word legible.isWord
  | unary tag op e ih => exact .enclose (.mark _ (ih legible _)) _
  | binary tag op l r ihl ihr =>
    exact .enclose (.append (ihl legible.1 _) (ihr legible.2 _)) _
  | conditional tag t c a iht ihc iha =>
    obtain ⟨ht, hc, ha⟩ := legible
    exact .enclose (.append (iht ht _) (.append (ihc hc _) (iha ha _))) _
  | call tag f args ihf ihargs =>
    obtain ⟨hf, hargs⟩ := legible
    refine .append (ihf hf _) (.concat (.listed ?_))
    rw [Term.tokensAll_eq, termAll_eq]
    simpa using fun e he => ihargs e he (legibleAll_iff.mp hargs e he) _
  | arrow tag ps body ih =>
    exact .enclose (.append (paramTokens_tidy legible.1) (ih legible.2 _)) _
  | arrowBlock tag ps body =>
    exact .enclose (.append (paramTokens_tidy legible) (.mark .dots .nil)) _
  | assign tag target e ih =>
    exact .enclose (.append (.word legible.1.isWord) (ih legible.2 _)) _

theorem term_found {e : Expr α} (legible : e.Legible) : Found e.term := by
  induction e using Expr.ind with
  | number tag x =>
    exact found_word (Decimal.numberText_isNumeral legible).ofWord fun _ => rfl
  | text tag s => exact found_text
  | boolean tag b => cases b <;> exact found_word (by simp [Term.ofWord, term]) fun _ => rfl
  | null tag => exact found_word (by simp [Term.ofWord, term]) fun _ => rfl
  | name n => exact found_word legible.ofWord fun _ => rfl
  | unary tag op e ih => exact found_unary op (ih legible)
  | binary tag op l r ihl ihr => exact found_binary op (ihl legible.1) (ihr legible.2)
  | conditional tag t c a iht ihc iha =>
    exact found_conditional (iht legible.1) (ihc legible.2.1) (iha legible.2.2)
  | call tag f args ihf ihargs =>
    refine found_call (ihf legible.1) ?_
    rw [termAll_eq]
    simpa using fun e he => ihargs e he (legibleAll_iff.mp legible.2 e he)
  | arrow tag ps body ih => exact found_arrow _ (ih legible.2)
  | arrowBlock tag ps body => exact found_arrow _ found_omitted
  | assign tag target e ih => exact found_assign (ih legible.2)

theorem reads_tokens {e : Expr α} (legible : e.Legible) :
    Reads Precedence.lowest (e.term.tokens Precedence.lowest) e.term [] := by
  have reads := @Found.reads Precedence.lowest [] _ (term_found legible) (Nat.zero_le _) ⟨trivial, id⟩
  rwa [List.append_nil] at reads

end Expr

/-- Two legible expressions have the same text exactly if they are the same tree, apart from places,
notes and the statements of blocks, and with numbers compared by their texts. -/
theorem source_eq_iff {e₁ : Expr α} {e₂ : Expr β} (legible₁ : e₁.Legible) (legible₂ : e₂.Legible) :
    e₁.source = e₂.source ↔ e₁.term = e₂.term := by
  rw [← String.toList_inj, Expr.source, Expr.source, Expr.print_toList, Expr.print_toList]
  constructor
  · intro same
    have tokens := spell_injective (Expr.tokens_tidy legible₁ _).spaced
      (Expr.tokens_tidy legible₂ _).spaced same
    have reads₁ := Expr.reads_tokens legible₁
    have reads₂ := Expr.reads_tokens legible₂
    rw [tokens] at reads₁
    exact (Reads.unique reads₁ reads₂).1
  · intro same
    rw [same]

/-- A call with most kinds of expressions in it, several of them in parentheses. -/
def tangled : Expr Unit :=
  .call (Build.onLine 3)
    (Build.arrow ["x"] (Build.assign "y" (Build.unary .minus (Build.number 2))))
    [Build.unary .not (Build.conditional (Build.ident "a") (Build.ident "b") (Build.text "q")),
      Build.binary .mul (Build.number 0.5) (Build.binary .add (Build.ident "c") (Build.number (-1)))]

theorem source_eq_iff_tangled : (tangled.Legible ∧ (tangled.locate 7).Legible) ∧
    tangled.source = "(x => y = - 2)(!(a ? b : \"q\"), 0.5 * (c + -1))" ∧
    tangled.term = (tangled.locate 7).term := by
  have legible : tangled.Legible ∧ (tangled.locate 7).Legible := by
    simp only [tangled, Build.arrow, Build.assign, Build.unary, Build.number, Build.conditional,
      Build.ident, Build.text, Build.binary, Build.name, Expr.locate, Expr.locateAll, Name.locate,
      Expr.Legible, Expr.LegibleAll]
    decide +kernel
  exact ⟨legible, by decide +kernel, (source_eq_iff legible.1 legible.2).mp (by decide +kernel)⟩

end Polytype
