import Mathlib.Data.List.Basic
import Polytype.Tree.Printer

/-!
# Tokens of printed text

Printed types and expressions are put together from words, quoted texts and marks. Words are runs of
characters that no mark starts with, and no mark starts another one, so the text can be cut into
tokens in one way only (`spell_injective`), as long as no two words touch.
-/

namespace Polytype.Printing

/-! ## Runs -/

section Runs

variable {p : Char → Bool} {xs ys rest rest' : List Char}

theorem run_inj (hxs : ∀ c ∈ xs, p c) (hys : ∀ c ∈ ys, p c) (stop : ∀ c, rest.head? = some c → ¬p c)
    (stop' : ∀ c, rest'.head? = some c → ¬p c) (same : xs ++ rest = ys ++ rest') :
    xs = ys ∧ rest = rest' := by
  have all {zs : List Char} {rest : List Char} (hzs : ∀ c ∈ zs, p c)
      (stop : ∀ c, rest.head? = some c → ¬p c) : (zs ++ rest).takeWhile p = zs := by
    rw [List.takeWhile_append_of_pos hzs]
    cases rest with
    | nil => exact List.append_nil zs
    | cons c rest => rw [List.takeWhile_cons_of_neg (stop c rfl), List.append_nil]
  have runs : xs = ys := by rw [← all hxs stop, same, all hys stop']
  exact ⟨runs, List.append_cancel_left (runs ▸ same)⟩

end Runs

/-! ## Digits -/

section Digits

theorem digitChar_inj {m n : Nat} (hm : m < 16) (hn : n < 16) (same : m.digitChar = n.digitChar) :
    m = n := by
  have table : ∀ m < 16, ∀ n < 16, Nat.digitChar m = Nat.digitChar n → m = n := by decide
  exact table m hm n hn same

theorem mem_toDigits {b n : Nat} (hb : 1 < b) {c : Char} (h : c ∈ b.toDigits n) :
    ∃ d, c = Nat.digitChar d := by
  induction n using Nat.strongRecOn with
  | ind n ih =>
    by_cases small : n < b
    · rw [Nat.toDigits_of_lt_base small, List.mem_singleton] at h
      exact ⟨n, h⟩
    · rw [Nat.toDigits_of_base_le hb (by omega), List.mem_append, List.mem_singleton] at h
      exact h.elim (ih _ (Nat.div_lt_self (by omega) hb)) fun last => ⟨_, last⟩

theorem toDigits_inj {b : Nat} (hb : 1 < b) (hb' : b ≤ 16) {m n : Nat}
    (same : b.toDigits m = b.toDigits n) : m = n := by
  induction m using Nat.strongRecOn generalizing n with
  | ind m ih =>
    have lengths := congrArg List.length same
    by_cases hm : m < b <;> by_cases hn : n < b
    · rw [Nat.toDigits_of_lt_base hm, Nat.toDigits_of_lt_base hn, List.singleton_inj] at same
      exact digitChar_inj (by omega) (by omega) same
    · rw [Nat.toDigits_of_lt_base hm, Nat.toDigits_of_base_le hb (by omega)] at lengths
      simp at lengths
    · rw [Nat.toDigits_of_base_le hb (by omega), Nat.toDigits_of_lt_base hn] at lengths
      simp at lengths
    · rw [Nat.toDigits_of_base_le (n := m) hb (by omega),
        Nat.toDigits_of_base_le (n := n) hb (by omega)] at same
      obtain ⟨front, last⟩ := List.append_inj' same rfl
      have quotient := ih _ (Nat.div_lt_self (by omega) hb) front
      have digit := digitChar_inj (by have := Nat.mod_lt m (by omega : b > 0); omega)
        (by have := Nat.mod_lt n (by omega : b > 0); omega) (List.singleton_inj.mp last)
      rw [← Nat.div_add_mod m b, ← Nat.div_add_mod n b, quotient, digit]

end Digits

/-! ## Quoted text -/

section Quoted

/-- The characters that have an escape of their own, and what stands after the backslash. -/
def shortEscapes : List (Char × Char) :=
  [('\x00', '0'), ('\t', 't'), ('\r', 'r'), ('\n', 'n'), ('\\', '\\'), ('"', '"')]

theorem escape_cases (c : Char) : (∃ k, (c, k) ∈ shortEscapes ∧ Text.escape c = ['\\', k]) ∨
    (c ≠ '\\' ∧ c ≠ '"' ∧ Text.escape c = [c]) ∨ Text.escape c = Text.codePoint c := by
  unfold Text.escape
  split
  case h_7 backslash quote =>
    split
    · exact .inr (.inl ⟨backslash, quote, rfl⟩)
    · exact .inr (.inr rfl)
  all_goals exact .inl ⟨_, by decide, rfl⟩

theorem shortEscapes_inj {c d k : Char} (hc : (c, k) ∈ shortEscapes) (hd : (d, k) ∈ shortEscapes) :
    c = d := by
  have table : ∀ x ∈ shortEscapes, ∀ y ∈ shortEscapes, x.2 = y.2 → x.1 = y.1 := by decide
  exact table _ hc _ hd rfl

theorem codePoint_inj {c d : Char} {rest rest' : List Char}
    (same : Text.codePoint c ++ rest = Text.codePoint d ++ rest') : c = d ∧ rest = rest' := by
  have digits (n : Nat) : ∀ x ∈ Nat.toDigits 16 n, (x != '\x7d') = true := by
    intro x hx
    obtain ⟨k, rfl⟩ := mem_toDigits (by decide) hx
    exact bne_iff_ne.mpr (Nat.digitChar_ne _ (by decide))
  have stop (rest : List Char) : ∀ x, ('\x7d' :: rest).head? = some x → ¬(x != '\x7d') = true := by
    rintro _ ⟨⟩
    decide
  simp only [Text.codePoint, List.cons_append, List.cons.injEq, true_and, List.append_assoc,
    List.nil_append] at same
  obtain ⟨codes, rests⟩ := run_inj (digits _) (digits _) (stop _) (stop _) same
  exact ⟨Char.toNat_inj.mp (toDigits_inj (by decide) (by decide) codes), (List.cons.inj rests).2⟩

theorem escape_inj {c d : Char} {rest rest' : List Char}
    (same : Text.escape c ++ rest = Text.escape d ++ rest') : c = d ∧ rest = rest' := by
  have noCode {c : Char} : (c, 'u') ∉ shortEscapes := by simp [shortEscapes]
  rcases escape_cases c with ⟨k, hc, ec⟩ | ⟨hc, _, ec⟩ | ec <;>
    rcases escape_cases d with ⟨l, hd, ed⟩ | ⟨hd, _, ed⟩ | ed <;> rw [ec, ed] at same
  · obtain ⟨rfl, rfl⟩ : k = l ∧ rest = rest' := by simpa using same
    exact ⟨shortEscapes_inj hc hd, rfl⟩
  · exact absurd (List.cons.inj same).1.symm hd
  · exact absurd (List.cons.inj (List.cons.inj same).2).1 fun e => noCode (e ▸ hc)
  · exact absurd (List.cons.inj same).1 hc
  · exact List.cons.inj same
  · exact absurd (List.cons.inj same).1 hc
  · exact absurd (List.cons.inj (List.cons.inj same).2).1 fun e => noCode (e ▸ hd)
  · exact absurd (List.cons.inj same).1.symm hd
  · exact codePoint_inj same

theorem escape_head (c : Char) (rest : List Char) : (Text.escape c ++ rest).head? ≠ some '"' := by
  rcases escape_cases c with ⟨k, _, e⟩ | ⟨_, hc, e⟩ | e <;> rw [e]
  · simp
  · simpa using hc
  · simp [Text.codePoint]

theorem escapes_inj {cs ds rest rest' : List Char}
    (same : cs.flatMap Text.escape ++ '"' :: rest = ds.flatMap Text.escape ++ '"' :: rest') :
    cs = ds ∧ rest = rest' := by
  induction cs generalizing ds with
  | nil =>
    cases ds with
    | nil => exact ⟨rfl, (List.cons.inj same).2⟩
    | cons d ds =>
      rw [List.flatMap_cons, List.append_assoc] at same
      exact absurd (congrArg List.head? same).symm (escape_head d _)
  | cons c cs ih =>
    cases ds with
    | nil =>
      rw [List.flatMap_cons, List.append_assoc] at same
      exact absurd (congrArg List.head? same) (escape_head c _)
    | cons d ds =>
      rw [List.flatMap_cons, List.append_assoc, List.flatMap_cons, List.append_assoc] at same
      obtain ⟨rfl, others⟩ := escape_inj same
      obtain ⟨rfl, rests⟩ := ih others
      exact ⟨rfl, rests⟩

theorem quote_inj {s t : String} {rest rest' : List Char}
    (same : (Text.quote s).toList ++ rest = (Text.quote t).toList ++ rest') :
    s = t ∧ rest = rest' := by
  simp only [Text.quote, String.toList_ofList, List.cons_append, List.append_assoc, List.nil_append,
    List.cons.injEq, true_and] at same
  obtain ⟨texts, rests⟩ := escapes_inj same
  exact ⟨String.toList_inj.mp texts, rests⟩

end Quoted

/-! ## Tokens -/

/-- What stands between words. -/
inductive Mark where
  | opening
  | closing
  | comma
  -- Of expressions.
  | question
  | colon
  | arrow
  | becomes
  | dots
  | sign (op : UnaryOp)
  | operator (op : BinaryOp)
  -- Of types.
  | leads
  | pairOpening
  | pairClosing
  | listOpening
  | listClosing
  deriving DecidableEq

namespace Mark

def text : Mark → String
  | .opening => "("
  | .closing => ")"
  | .comma => ", "
  | .question => " ? "
  | .colon => " : "
  | .arrow => " => "
  | .becomes => " = "
  | .dots => "\x7b ... \x7d"
  | .sign op => op.leadText
  | .operator op => " " ++ op.symbol ++ " "
  | .leads => " -> "
  | .pairOpening => "["
  | .pairClosing => "]"
  | .listOpening => "<"
  | .listClosing => ">"

def all : List Mark :=
  [.opening, .closing, .comma, .question, .colon, .arrow, .becomes, .dots] ++
    [UnaryOp.minus, .not].map .sign ++
    [BinaryOp.add, .sub, .mul, .div, .mod, .equal, .notEqual, .less, .greater, .lessEqual,
      .greaterEqual, .and, .or].map .operator ++
    [.leads, .pairOpening, .pairClosing, .listOpening, .listClosing]

theorem mem_all (m : Mark) : m ∈ all := by
  cases m with
  | sign op => cases op <;> decide
  | operator op => cases op <;> decide
  | _ => decide

theorem text_ne_nil (m : Mark) : m.text.toList ≠ [] := by
  have table : ∀ m ∈ all, m.text.toList ≠ [] := by decide +kernel
  exact table m m.mem_all

theorem text_inj {m n : Mark} {rest rest' : List Char}
    (same : m.text.toList ++ rest = n.text.toList ++ rest') : m = n ∧ rest = rest' := by
  have table : ∀ m ∈ all, ∀ n ∈ all, m.text.toList <+: n.text.toList → m = n := by decide +kernel
  have marks : m = n := by
    rcases List.prefix_or_prefix_of_prefix (List.prefix_append _ rest)
      (same ▸ List.prefix_append n.text.toList rest') with h | h
    · exact table m m.mem_all n n.mem_all h
    · exact (table n n.mem_all m m.mem_all h).symm
  exact ⟨marks, List.append_cancel_left (marks ▸ same)⟩

end Mark

/-- Letters, digits, underscores, and all characters beyond ASCII. -/
def isNameChar (c : Char) : Bool := c.isAlphanum || c == '_' || 128 ≤ c.toNat

/-- The characters of words. Numbers are words too. -/
def isWordChar (c : Char) : Bool := isNameChar c || c == '.' || c == '-'

/-- A minus alone is a sign and no word. -/
def IsWord (s : String) : Prop := s ≠ "" ∧ s ≠ "-" ∧ s.toList.all isWordChar

instance (s : String) : Decidable (IsWord s) := inferInstanceAs (Decidable (_ ∧ _ ∧ _))

theorem IsWord.chars {s : String} (h : IsWord s) : ∀ c ∈ s.toList, isWordChar c :=
  List.all_eq_true.mp h.2.2

inductive Token where
  | word (s : String)
  | quoted (s : String)
  | mark (m : Mark)

def Token.chars : Token → List Char
  | .word s => s.toList
  | .quoted s => (Text.quote s).toList
  | .mark m => m.text.toList

def spell (ts : List Token) : List Char := ts.flatMap Token.chars

@[simp] theorem spell_nil : spell [] = [] := rfl

@[simp] theorem spell_cons (t : Token) (ts : List Token) : spell (t :: ts) = t.chars ++ spell ts :=
  List.flatMap_cons

@[simp] theorem spell_append (ts us : List Token) : spell (ts ++ us) = spell ts ++ spell us :=
  List.flatMap_append

/-! ## Cutting text into tokens -/

/-- No word comes first, and no sign. -/
def Apart : List Token → Prop
  | .word _ :: _ | .mark (.sign _) :: _ => False
  | _ => True

/-- All words are words, and nothing that could continue a word touches it. -/
def Spaced : List Token → Prop
  | [] => True
  | .word s :: ts => IsWord s ∧ Apart ts ∧ Spaced ts
  | _ :: ts => Spaced ts

theorem Spaced.tail {t : Token} {ts : List Token} (h : Spaced (t :: ts)) : Spaced ts := by
  cases t with
  | word s => exact h.2.2
  | _ => exact h

theorem head_quote (s : String) (rest : List Char) :
    ((Text.quote s).toList ++ rest).head? = some '"' := by
  simp [Text.quote]

theorem head_mark (m : Mark) (rest : List Char) (c : Char)
    (h : (m.text.toList ++ rest).head? = some c) : c ≠ '"' ∧ (isWordChar c → m = .sign .minus) := by
  have table : ∀ m ∈ Mark.all, m.text.toList.head?.all fun c =>
      decide (c ≠ '"' ∧ (isWordChar c → m = .sign .minus)) := by decide +kernel
  have this := table m m.mem_all
  rw [List.head?_append_of_ne_nil _ m.text_ne_nil] at h
  rw [h] at this
  exact of_decide_eq_true this

theorem head_apart {ts : List Token} (apart : Apart ts) {c : Char} (h : (spell ts).head? = some c) :
    ¬isWordChar c := by
  rcases ts with _ | ⟨_ | s | m, ts⟩
  · simp at h
  · exact apart.elim
  · rw [spell_cons, Token.chars, head_quote] at h
    cases h
    decide
  · rw [spell_cons] at h
    intro word
    rw [(head_mark m _ c h).2 word] at apart
    exact apart

theorem head_word {s : String} (word : IsWord s) (rest : List Char) :
    ∃ c, (s.toList ++ rest).head? = some c ∧ isWordChar c := by
  cases chars : s.toList with
  | nil => exact absurd (String.toList_inj.mp chars) word.1
  | cons c cs => exact ⟨c, rfl, word.chars c (chars ▸ List.mem_cons_self)⟩

theorem word_ne_mark {s : String} (word : IsWord s) (m : Mark) (rest rest' : List Char) :
    s.toList ++ rest ≠ m.text.toList ++ rest' := by
  -- The only mark that starts like a word goes on with a blank.
  intro same
  obtain ⟨c, head, hc⟩ := head_word word rest
  obtain rfl := (head_mark m rest' c (same ▸ head)).2 hc
  have blank : ¬isWordChar ' ' := by decide
  have text : (Mark.sign .minus).text.toList = ['-', ' '] := rfl
  rw [text] at same
  rcases chars : s.toList with _ | ⟨c, _ | ⟨d, cs⟩⟩
  · exact word.1 (String.toList_inj.mp chars)
  · rw [chars] at same
    obtain rfl := (List.cons.inj same).1
    exact word.2.1 (String.toList_inj.mp chars)
  · rw [chars] at same
    obtain rfl := (List.cons.inj (List.cons.inj same).2).1
    exact blank (word.chars ' ' (by simp [chars]))

theorem spell_cons_inj {t u : Token} {ts us : List Token} (ht : Spaced (t :: ts))
    (hu : Spaced (u :: us)) (same : spell (t :: ts) = spell (u :: us)) :
    t = u ∧ spell ts = spell us := by
  rw [spell_cons, spell_cons] at same
  have quote : ¬isWordChar '"' := by decide
  cases t with
  | word s =>
    cases u with
    | word s' =>
      obtain ⟨words, rests⟩ := run_inj ht.1.chars hu.1.chars (fun _ => head_apart ht.2.1)
        (fun _ => head_apart hu.2.1) same
      exact ⟨congrArg Token.word (String.toList_inj.mp words), rests⟩
    | quoted s' =>
      obtain ⟨c, head, hc⟩ := head_word ht.1 (spell ts)
      have head' := (congrArg List.head? same).trans (head_quote s' (spell us))
      exact absurd (Option.some.inj (head.symm.trans head') ▸ hc) quote
    | mark m => exact absurd same (word_ne_mark ht.1 m _ _)
  | quoted s =>
    have head := (congrArg List.head? same).symm.trans (head_quote s (spell ts))
    cases u with
    | word s' =>
      obtain ⟨c, head', hc⟩ := head_word hu.1 (spell us)
      exact absurd (Option.some.inj (head'.symm.trans head) ▸ hc) quote
    | quoted s' =>
      obtain ⟨rfl, rests⟩ := quote_inj same
      exact ⟨rfl, rests⟩
    | mark m => exact absurd rfl (head_mark m _ _ head).1
  | mark m =>
    cases u with
    | word s' => exact absurd same.symm (word_ne_mark hu.1 m _ _)
    | quoted s' =>
      have head := (congrArg List.head? same).trans (head_quote s' (spell us))
      exact absurd rfl (head_mark m _ _ head).1
    | mark m' =>
      obtain ⟨rfl, rests⟩ := Mark.text_inj same
      exact ⟨rfl, rests⟩

theorem spell_cons_ne_nil {t : Token} {ts : List Token} (h : Spaced (t :: ts)) :
    spell (t :: ts) ≠ [] := by
  rw [spell_cons]
  intro empty
  have chars := (List.append_eq_nil_iff.mp empty).1
  cases t with
  | word s => exact h.1.1 (String.toList_inj.mp chars)
  | quoted s => simp [Token.chars, Text.quote] at chars
  | mark m => exact m.text_ne_nil chars

/-- A text is cut into tokens in one way. -/
theorem spell_injective {ts us : List Token} (hts : Spaced ts) (hus : Spaced us)
    (same : spell ts = spell us) : ts = us := by
  induction ts generalizing us with
  | nil =>
    cases us with
    | nil => rfl
    | cons u us => exact absurd same.symm (spell_cons_ne_nil hus)
  | cons t ts ih =>
    cases us with
    | nil => exact absurd same (spell_cons_ne_nil hts)
    | cons u us =>
      obtain ⟨rfl, rests⟩ := spell_cons_inj hts hus same
      rw [ih hts.tail hus.tail rests]

/-! ## Phrases -/

/-- The tokens can stand before anything that keeps apart from words. -/
def Tidy (ts : List Token) : Prop := ∀ rest, Apart rest → Spaced rest → Spaced (ts ++ rest)

namespace Tidy

variable {ts us : List Token} {s : String} {m : Mark}

theorem spaced (h : Tidy ts) : Spaced ts := List.append_nil ts ▸ h [] trivial trivial

theorem nil : Tidy [] := fun _ _ spaced => spaced

theorem word (h : IsWord s) : Tidy [.word s] := fun _ apart spaced => ⟨h, apart, spaced⟩

theorem quoted (s : String) : Tidy [.quoted s] := fun _ _ spaced => spaced

theorem mark (m : Mark) (h : Tidy ts) : Tidy (.mark m :: ts) := fun rest => h rest

theorem append (hts : Tidy ts) (hus : Tidy us) (hm : ∀ op, m ≠ .sign op := by nofun) :
    Tidy (ts ++ .mark m :: us) := by
  intro rest apart spaced
  rw [List.append_assoc]
  refine hts _ ?_ (hus rest apart spaced)
  cases m with
  | sign op => exact absurd rfl (hm op)
  | _ => trivial

theorem concat (hts : Tidy ts) (hm : ∀ op, m ≠ .sign op := by nofun) : Tidy (ts ++ [.mark m]) :=
  append hts .nil hm

end Tidy

def enclose (needed : Bool) (ts : List Token) : List Token :=
  if needed then .mark .opening :: (ts ++ [.mark .closing]) else ts

theorem Tidy.enclose {ts : List Token} (h : Tidy ts) (needed : Bool) : Tidy (enclose needed ts) := by
  cases needed with
  | false => exact h
  | true => exact .mark _ (.concat h)

/-- The items with commas between them. -/
def listed : List (List Token) → List Token
  | [] => []
  | [ts] => ts
  | ts :: us :: rest => ts ++ .mark .comma :: listed (us :: rest)

theorem Tidy.listed {items : List (List Token)} (h : ∀ ts ∈ items, Tidy ts) : Tidy (listed items) := by
  induction items with
  | nil => exact .nil
  | cons ts items ih =>
    obtain ⟨first, rest⟩ := List.forall_mem_cons.mp h
    cases items with
    | nil => exact first
    | cons us items => exact .append first (ih rest)

theorem spell_listed (items : List (List Token)) :
    spell (listed items) = ", ".toList.intercalate (items.map spell) := by
  induction items with
  | nil => rfl
  | cons ts items ih =>
    cases items with
    | nil => simp [listed]
    | cons us items =>
      rw [listed, spell_append, spell_cons, ih]
      simp [Token.chars, Mark.text]

end Polytype.Printing
