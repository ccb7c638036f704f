import Mathlib.Data.List.Basic
import Polytype.Decimal.Positional
import Polytype.Proofs.Printing.Tokens

/-!
# Numerals

The text of a finite number is made of digits and points, starts with a digit, and has a minus before
it if the number is negative (`numberText_isNumeral`). That the text is not empty rests on the
shortest decimal of a number other than zero not being zero.
-/

namespace Polytype.Decimal

/-- Digits and points, a digit first. -/
structure Positional (cs : List Char) : Prop where
  head : ∃ c, cs.head? = some c ∧ c.isDigit
  chars : ∀ c ∈ cs, c.isDigit ∨ c = '.'

theorem exists_mem_toDigits_ne_zero {n : Nat} (h : n ≠ 0) : ∃ c ∈ Nat.toDigits 10 n, c ≠ '0' := by
  induction n using Nat.strongRecOn with
  | ind n ih =>
    by_cases small : n < 10
    · rw [Nat.toDigits_of_lt_base small]
      exact ⟨_, List.mem_singleton_self _, fun e => h (Nat.digitChar_eq_zero.mp e)⟩
    · rw [Nat.toDigits_of_base_le (by decide) (by omega)]
      obtain ⟨c, hc, ne⟩ := ih (n / 10) (by omega) (by omega)
      exact ⟨c, List.mem_append_left _ hc, ne⟩

theorem take_ne_nil {n : Nat} (h : n ≠ 0) : (Nat.toDigits 10 n).take ((Nat.toDigits 10 n).length -
    ((Nat.toDigits 10 n).reverse.takeWhile (· == '0')).length) ≠ [] := by
  obtain ⟨c, hc, ne⟩ := exists_mem_toDigits_ne_zero h
  generalize Nat.toDigits 10 n = all at hc
  have short : (all.reverse.takeWhile (· == '0')).length < all.length := by
    have zeros : all.reverse.takeWhile (· == '0') <+: all.reverse := List.takeWhile_prefix _
    refine Nat.lt_of_le_of_ne (by simpa using zeros.length_le) fun same => ?_
    have whole := zeros.eq_of_length (by simpa using same)
    have all_zero : (all.reverse.takeWhile (· == '0')).all (· == '0') = true := List.all_takeWhile
    rw [whole, List.all_eq_true] at all_zero
    exact ne (by simpa using all_zero c (List.mem_reverse.mpr hc))
  rw [Ne, List.take_eq_nil_iff]
  rintro (none | rfl)
  · omega
  · cases hc

theorem zero_positional : Positional ['0'] :=
  ⟨⟨'0', rfl, rfl⟩, List.forall_mem_singleton.mpr (.inl rfl)⟩

theorem positional_append {ds rest : List Char} (nonempty : ds ≠ []) (hds : ∀ c ∈ ds, c.isDigit)
    (hrest : ∀ c ∈ rest, c.isDigit ∨ c = '.') : Positional (ds ++ rest) := by
  obtain ⟨c, ds, rfl⟩ := List.exists_cons_of_ne_nil nonempty
  refine ⟨⟨c, rfl, hds c List.mem_cons_self⟩, fun x hx => ?_⟩
  exact (List.mem_append.mp hx).elim (fun h => .inl (hds x h)) (hrest x)

theorem text_positional {d : Decimal} (h : d.digits ≠ 0) : Positional d.text.toList := by
  have nonempty := take_ne_nil h
  have digits : ∀ c ∈ (Nat.toDigits 10 d.digits).take ((Nat.toDigits 10 d.digits).length -
      ((Nat.toDigits 10 d.digits).reverse.takeWhile (· == '0')).length), c.isDigit :=
    fun c hc => Nat.isDigit_of_mem_toDigits (by decide) (by decide) (List.mem_of_mem_take hc)
  unfold text
  simp only [String.toList_ofList]
  generalize (Nat.toDigits 10 d.digits).take _ = ds at nonempty digits
  split
  · refine positional_append nonempty digits fun c hc => .inl ?_
    rw [(List.mem_replicate.mp hc).2]
    rfl
  · split
    next places =>
      refine positional_append ?_ (fun c hc => digits c (List.mem_of_mem_take hc)) fun c hc => ?_
      · rw [Ne, List.take_eq_nil_iff]
        exact fun h => h.elim (by omega) nonempty
      · rcases List.mem_cons.mp hc with rfl | hc
        · exact .inr rfl
        · exact .inl (digits c (List.mem_of_mem_drop hc))
    next =>
      refine @positional_append ['0'] _ nofun (List.forall_mem_singleton.mpr rfl) fun c hc => ?_
      rcases List.mem_cons.mp hc with rfl | hc
      · exact .inr rfl
      · rcases List.mem_append.mp hc with hc | hc
        · rw [(List.mem_replicate.mp hc).2]
          exact .inl rfl
        · exact .inl (digits c hc)

namespace Binary

theorem holds_zero {b : Binary} (h : b.mantissa ≠ 0) (k : Int) : b.holds (b.grid k) 0 = false := by
  have low : 0 < b.low := by
    unfold low quarters
    split <;> omega
  have quarter : 0 < (b.grid k).quarter :=
    Nat.mul_pos (Nat.pow_pos (by decide)) (Nat.pow_pos (by decide))
  have positive := Nat.mul_pos low quarter
  unfold holds
  split
  · simp only [Nat.zero_mul, Bool.and_eq_false_iff, decide_eq_false_iff_not]
    omega
  · simp only [Nat.zero_mul, Bool.and_eq_false_iff, decide_eq_false_iff_not]
    omega

theorem nearest?_digits {b : Binary} (h : b.mantissa ≠ 0) {k : Int} {d : Decimal}
    (found : b.nearest? k = some d) : d.digits ≠ 0 := by
  have zero := holds_zero h k
  unfold nearest? at found
  dsimp only at found
  generalize b.quarters * (b.grid k).quarter / (b.grid k).unit = j at found
  have first (hj : b.holds (b.grid k) j = true) : j ≠ 0 := by
    rintro rfl
    rw [zero] at hj
    cases hj
  split at found
  next => cases found
  next hj _ =>
    cases found
    exact first hj
  next =>
    cases found
    exact Nat.succ_ne_zero j
  next hj _ =>
    cases found
    split
    · exact first hj
    · exact Nat.succ_ne_zero j

theorem shortest_positional {b : Binary} (h : b.mantissa ≠ 0) : Positional b.shortest.text.toList := by
  unfold shortest
  cases found : (List.range 17).findSome? fun (n : Nat) => b.nearest? (b.leading - n) with
  | none => exact zero_positional
  | some d =>
    obtain ⟨_, _, found⟩ := List.exists_of_findSome?_eq_some found
    exact text_positional (nearest?_digits h found)

end Binary

/-- A finite number has room left in its exponent. -/
def IsFinite (x : Float) : Prop := (Fields.ofFloat x).exponent ≠ 2047

instance (x : Float) : Decidable (IsFinite x) := inferInstanceAs (Decidable (_ ≠ _))

theorem Fields.sizeText_positional {f : Fields} (finite : f.exponent ≠ 2047) :
    Positional f.sizeText.toList := by
  unfold sizeText
  rw [if_neg finite]
  split
  · exact zero_positional
  next nonzero =>
    refine Binary.shortest_positional ?_
    unfold size
    split
    next zero => simpa [zero] using nonzero
    next => exact Nat.ne_of_gt (Nat.add_pos_left (Nat.pow_pos (by decide)) _)

/-- A minus perhaps, then digits and points. -/
def IsNumeral (s : String) : Prop := ∃ cs, Positional cs ∧ (s.toList = cs ∨ s.toList = '-' :: cs)

theorem numberText_isNumeral {x : Float} (finite : IsFinite x) : IsNumeral (numberText x) := by
  have size := Fields.sizeText_positional finite
  unfold numberText Fields.text
  rw [if_neg (by simp [show (Fields.ofFloat x).exponent ≠ 2047 from finite])]
  split
  · exact ⟨_, size, .inr (by simp)⟩
  · exact ⟨_, size, .inl rfl⟩

end Polytype.Decimal
