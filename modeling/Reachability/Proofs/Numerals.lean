import Mathlib
import Reachability.Json.Reader
import Reachability.Json.Writer

/-!
# Numerals that are written and read

A numeral is read back from its text (`Json.readNumeral?_write`), if it is followed by what does not
continue it.  A whole number is written with its digits, and any other numeral with one digit before
the point and an exponent, from which the place of the last digit is found again.

A whole number, and a numeral whose digits are all zero, are written without regard to the exponent.
They are read back with exponent zero, and so they must have it (`Numeral.IsPlain`).

Other writers use positional notation.  A numeral with digits after the point that is written so is
read as the same numeral (`Json.readNumeral?_positional`).
-/

namespace Reachability

/-- A numeral is plain if it has exponent zero, unless it is written with an exponent and not all of
its digits are zero. -/
def Numeral.IsPlain (n : Numeral) : Prop :=
  n.whole = true ∨ n.digits = 0 → n.exponent = 0

instance (n : Numeral) : Decidable n.IsPlain :=
  inferInstanceAs (Decidable (n.whole = true ∨ n.digits = 0 → n.exponent = 0))

namespace Json

/-! ### Digits -/

/-- A digit does not follow. -/
def NoDigitFollows (rest : List Char) : Prop :=
  ∀ c ∈ rest.head?, c.isDigit = false

/-- What follows does not continue a numeral: there is neither a digit, nor a point, nor the mark of
an exponent. -/
structure NumeralEnds (rest : List Char) : Prop where
  noDigit : NoDigitFollows rest
  noPoint : ∀ c ∈ rest.head?, c ≠ '.'
  noMark : ∀ c ∈ rest.head?, (c == 'e' || c == 'E') = false

/-- After a character that is no digit, no digit follows. -/
theorem noDigitFollows_cons {c : Char} {rest : List Char} (hdigit : c.isDigit = false) :
  NoDigitFollows (c :: rest)
  := by
  rintro d ⟨⟩
  exact hdigit

/-- The end of a text does not continue a numeral. -/
theorem numeralEnds_nil :
  NumeralEnds []
  := by
  constructor
  · rintro c ⟨⟩
  · rintro c ⟨⟩
  · rintro c ⟨⟩

/-- A character that is not part of a numeral does not continue one. -/
theorem numeralEnds_cons {c : Char} {rest : List Char} (hdigit : c.isDigit = false)
    (hpoint : c ≠ '.') (hmark : (c == 'e' || c == 'E') = false) :
  NumeralEnds (c :: rest)
  := by
  constructor
  · exact noDigitFollows_cons hdigit
  · rintro d ⟨⟩
    exact hpoint
  · rintro d ⟨⟩
    exact hmark

/-- Digits are split from what follows if that is no digit. -/
theorem splitDigits_append {digits rest : List Char} (hdigits : ∀ c ∈ digits, c.isDigit = true)
    (hrest : NoDigitFollows rest) :
  splitDigits (digits ++ rest) = (digits, rest)
  := by
  rw [splitDigits, List.takeWhile_append_of_pos hdigits, List.dropWhile_append_of_pos hdigits]
  cases rest with
  | nil => simp
  | cons c rest =>
      have hc := hrest c rfl
      rw [List.takeWhile_cons_of_neg (by simp [hc]), List.dropWhile_cons_of_neg (by simp [hc]),
        List.append_nil]

/-- The digits of a number are digits. -/
theorem isDigit_of_mem_digitList (n : Nat) :
  ∀ c ∈ Decimal.digitList n, c.isDigit = true
  := fun _ hc => Nat.isDigit_of_mem_toDigits (by decide) (by decide) hc

/-- A number is read back from its digits. -/
theorem natOfDigits_digitList (n : Nat) :
  natOfDigits (Decimal.digitList n) = n
  := Nat.ofDigitChars_ten_toDigits

/-- A number has a digit. -/
theorem digitList_ne_nil (n : Nat) :
  Decimal.digitList n ≠ []
  := Nat.toDigits_ne_nil

/-- What starts with the digits of a number starts with a digit. -/
theorem exists_digitList_append (n : Nat) (rest : List Char) :
  ∃ c cs, Decimal.digitList n ++ rest = c :: cs ∧ c.isDigit = true
  := by
  obtain ⟨c, cs, hcs⟩ := List.exists_cons_of_ne_nil (digitList_ne_nil n)
  refine ⟨c, cs ++ rest, by rw [hcs, List.cons_append], ?_⟩
  apply isDigit_of_mem_digitList n
  rw [hcs]
  exact List.mem_cons_self

/-- What starts with the digits of a number does not start with a character that is no digit. -/
theorem digitList_append_ne (n : Nat) (rest : List Char) {c : Char} (hc : c.isDigit = false)
    {cs : List Char} :
  Decimal.digitList n ++ rest ≠ c :: cs
  := by
  obtain ⟨d, ds, hds, hd⟩ := exists_digitList_append n rest
  intro h
  rw [hds] at h
  obtain ⟨rfl, -⟩ := List.cons.inj h
  rw [hc] at hd
  cases hd

/-- Only the digits of zero start with a zero. -/
theorem eq_zero_of_head?_digitList (n : Nat) (h : (Decimal.digitList n).head? = some '0') :
  n = 0
  := by
  induction n using Nat.strong_induction_on with
  | h n ih =>
      rw [Decimal.digitList, Nat.toDigits_eq_if (by decide)] at h
      split at h
      · next hlt =>
          have hdigit : ∀ n < 10, n.digitChar = '0' → n = 0 := by decide
          apply hdigit n hlt (Option.some_inj.mp h)
      · next hle =>
          rw [List.head?_append_of_ne_nil _ (by apply digitList_ne_nil)] at h
          have hzero := ih (n / 10) (by omega) h
          omega

/-- No number is written with a zero in front of other digits. -/
theorem not_leadingZero_digitList (n : Nat) :
  ((Decimal.digitList n).head? == some '0' && decide ((Decimal.digitList n).length > 1)) = false
  := by
  apply Bool.eq_false_iff.mpr
  intro h
  obtain ⟨hhead, hlength⟩ := Bool.and_eq_true_iff.mp h
  rw [eq_zero_of_head?_digitList n (eq_of_beq hhead)] at hlength
  cases hlength

/-! ### The parts of a numeral -/

/-- If there is no point, then there are no digits after it. -/
theorem readFraction?_eq {rest : List Char} (hrest : ∀ c ∈ rest.head?, c ≠ '.') :
  readFraction? rest = some ([], rest)
  := by
  cases rest with
  | nil => rfl
  | cons c rest =>
      rw [readFraction?]
      intro cs h
      apply hrest c rfl (List.cons.inj h).1

/-- The digits after a point are read, of which there is at least one. -/
theorem readFraction?_point {digits rest : List Char} (hne : digits ≠ [])
    (hdigits : ∀ c ∈ digits, c.isDigit = true) (hrest : NoDigitFollows rest) :
  readFraction? ('.' :: (digits ++ rest)) = some (digits, rest)
  := by
  simp only [readFraction?, splitDigits_append hdigits hrest, List.isEmpty_iff, hne, if_false]

/-- If there is no mark of an exponent, then the exponent is zero. -/
theorem readExponent?_eq {rest : List Char}
    (hrest : ∀ c ∈ rest.head?, (c == 'e' || c == 'E') = false) :
  readExponent? rest = some (0, false, rest)
  := by
  cases rest with
  | nil => rfl
  | cons c rest =>
      have hc := hrest c rfl
      simp only [readExponent?, hc, Bool.false_eq_true, if_false]

/-- An exponent is read, with its sign. -/
theorem readExponent?_mark (z : Int) {rest : List Char} (hrest : NoDigitFollows rest) :
  readExponent? ('e' :: ((toString z).toList ++ rest)) = some (z, true, rest)
  := by
  have hsplit := fun n => splitDigits_append (isDigit_of_mem_digitList n) hrest
  have hempty : ∀ n, (Decimal.digitList n).isEmpty = false :=
    fun n => Bool.eq_false_iff.mpr (mt List.isEmpty_iff.mp (digitList_ne_nil n))
  cases z with
  | ofNat n =>
      have htext : (toString (Int.ofNat n)).toList = Decimal.digitList n := Nat.toList_repr
      rw [htext, readExponent?]
      · simp only [beq_self_eq_true, Bool.true_or, if_true, hsplit, hempty, natOfDigits_digitList,
          Bool.false_eq_true, if_false]
        rfl
      · intro r
        apply digitList_append_ne n rest rfl
      · intro r
        apply digitList_append_ne n rest rfl
  | negSucc n =>
      have htext : (toString (Int.negSucc n)).toList = '-' :: Decimal.digitList (n + 1) := by
        change ("-" ++ Nat.repr (n + 1)).toList = _
        rw [String.toList_append, Nat.toList_repr]
        rfl
      rw [htext, List.cons_append, readExponent?]
      simp only [beq_self_eq_true, Bool.true_or, if_true, hsplit, hempty, natOfDigits_digitList,
        Bool.false_eq_true, if_false]
      rfl

/-! ### Numerals -/

/-- A numeral is read part by part, after its sign. -/
theorem readNumeral?_parts (negative : Bool)
    {whole afterWhole fraction afterFraction rest : List Char} {exponent : Int} {marked : Bool}
    (hwhole : ∀ c ∈ whole, c.isDigit = true) (hne : whole ≠ [])
    (hzero : (whole.head? == some '0' && decide (whole.length > 1)) = false)
    (hafter : NoDigitFollows afterWhole)
    (hfraction : readFraction? afterWhole = some (fraction, afterFraction))
    (hexponent : readExponent? afterFraction = some (exponent, marked, rest)) :
  readNumeral? ((Decimal.sign negative).toList ++ (whole ++ afterWhole))
    = some (⟨negative, natOfDigits (whole ++ fraction), exponent - fraction.length,
        fraction.isEmpty && !marked⟩, rest)
  := by
  have hsplit := splitDigits_append hwhole hafter
  have hempty : whole.isEmpty = false := Bool.eq_false_iff.mpr (mt List.isEmpty_iff.mp hne)
  cases negative with
  | true =>
      change readNumeral? ('-' :: (whole ++ afterWhole)) = _
      rw [readNumeral?]
      simp only [hsplit, hempty, hzero, hfraction, hexponent, Bool.or_self, Bool.false_eq_true,
        if_false, Option.bind_eq_bind, Option.bind_some]
  | false =>
      change readNumeral? (whole ++ afterWhole) = _
      rw [readNumeral?]
      · simp only [hsplit, hempty, hzero, hfraction, hexponent, Bool.or_self, Bool.false_eq_true,
          if_false, Option.bind_eq_bind, Option.bind_some]
      · intro r h
        obtain ⟨c, cs, rfl⟩ := List.exists_cons_of_ne_nil hne
        obtain ⟨rfl, -⟩ := List.cons.inj h
        cases hwhole '-' List.mem_cons_self

/-- In scientific notation, the first digit of a number is followed by the others, if there are any,
after a point, and by the exponent that the first digit has. -/
theorem exists_exponential_eq {digits : Nat} {exponent : Int} (h : digits = 0 → exponent = 0) :
  ∃ first others, Decimal.digitList digits = first :: others
    ∧ Decimal.exponential digits exponent = first :: ((if others.isEmpty then [] else '.' :: others)
      ++ 'e' :: (toString ((others.length : Int) + exponent)).toList)
  := by
  by_cases hzero : digits = 0
  · subst hzero
    rw [h rfl]
    exact ⟨'0', [], rfl, rfl⟩
  · obtain ⟨first, others, hdigits⟩ := List.exists_cons_of_ne_nil (digitList_ne_nil digits)
    have hplace : Decimal.place digits exponent - 1 = (others.length : Int) + exponent := by
      rw [Decimal.place, hdigits, List.length_cons]
      omega
    refine ⟨first, others, hdigits, ?_⟩
    rw [Decimal.exponential, if_neg hzero, hdigits, hplace]
    rfl

/-- The digits that are written after the first one are read as those after the point. -/
theorem readFraction?_others {others : List Char} (hothers : ∀ c ∈ others, c.isDigit = true)
    (rest : List Char) :
  readFraction? ((if others.isEmpty then [] else '.' :: others) ++ 'e' :: rest)
    = some (others, 'e' :: rest)
  := by
  cases others with
  | nil =>
      apply readFraction?_eq
      rintro c ⟨⟩
      decide
  | cons c others =>
      apply readFraction?_point (List.cons_ne_nil c others) hothers (noDigitFollows_cons rfl)

/-- No digit is written directly after the first one. -/
theorem noDigitFollows_others (others rest : List Char) :
  NoDigitFollows ((if others.isEmpty then [] else '.' :: others) ++ 'e' :: rest)
  := by
  cases others with
  | nil => apply noDigitFollows_cons rfl
  | cons d others => apply noDigitFollows_cons rfl

/-- A numeral of a whole number is written as its sign and digits. -/
theorem toList_write_whole (negative : Bool) (digits : Nat) (exponent : Int) :
  (Numeral.write ⟨negative, digits, exponent, true⟩).toList
    = (Decimal.sign negative).toList ++ Decimal.digitList digits
  := by
  change (Decimal.sign negative ++ Nat.repr digits).toList = _
  rw [String.toList_append, Nat.toList_repr]
  rfl

/-- Any other numeral is written as its sign and the number in scientific notation. -/
theorem toList_write_scientific (negative : Bool) (digits : Nat) (exponent : Int) :
  (Numeral.write ⟨negative, digits, exponent, false⟩).toList
    = (Decimal.sign negative).toList ++ Decimal.exponential digits exponent
  := by
  change (Decimal.sign negative ++ String.ofList (Decimal.exponential digits exponent)).toList = _
  rw [String.toList_append, String.toList_ofList]

/-- A plain numeral is read back, if it is not continued. -/
theorem readNumeral?_write {n : Numeral} (hn : n.IsPlain) {rest : List Char}
    (hrest : NumeralEnds rest) :
  readNumeral? (n.write.toList ++ rest) = some (n, rest)
  := by
  obtain ⟨negative, digits, exponent, whole⟩ := n
  cases whole with
  | true =>
      have hexponent : exponent = 0 := hn (Or.inl rfl)
      rw [toList_write_whole, List.append_assoc,
        readNumeral?_parts negative (isDigit_of_mem_digitList digits)
          (digitList_ne_nil digits) (not_leadingZero_digitList digits) hrest.noDigit
          (readFraction?_eq hrest.noPoint) (readExponent?_eq hrest.noMark), List.append_nil,
        natOfDigits_digitList, hexponent]
      rfl
  | false =>
      have hzero : digits = 0 → exponent = 0 := fun h => hn (Or.inr h)
      obtain ⟨first, others, hdigits, hexponential⟩ := exists_exponential_eq hzero
      have hdigit : ∀ c ∈ first :: others, c.isDigit = true := by
        rw [← hdigits]
        apply isDigit_of_mem_digitList
      obtain ⟨hfirst, hothers⟩ := List.forall_mem_cons.mp hdigit
      have htext : Decimal.exponential digits exponent ++ rest
          = [first] ++ ((if others.isEmpty then [] else '.' :: others)
            ++ 'e' :: ((toString ((others.length : Int) + exponent)).toList ++ rest)) := by
        rw [hexponential]
        simp only [List.append_assoc, List.cons_append, List.nil_append]
      rw [toList_write_scientific, List.append_assoc, htext,
        readNumeral?_parts negative (List.forall_mem_singleton.mpr hfirst)
          (List.cons_ne_nil first []) (by simp) (noDigitFollows_others others _)
          (readFraction?_others hothers _) (readExponent?_mark _ hrest.noDigit),
        List.singleton_append, ← hdigits, natOfDigits_digitList, add_sub_cancel_left, Bool.not_true,
        Bool.and_false]

/-! ### Positional notation -/

/-- Zeros in front do not change the number that digits denote. -/
theorem natOfDigits_zeros_append (count : Nat) (cs : List Char) :
  natOfDigits (Decimal.zeros count ++ cs) = natOfDigits cs
  := by
  induction count with
  | zero => rfl
  | succ count ih => exact ih

/-- Digits with a point among them are read as a numeral, in which as many places are behind the
point as digits are. -/
theorem readNumeral?_point (negative : Bool) {whole fraction rest : List Char}
    (hwhole : ∀ c ∈ whole, c.isDigit = true) (hne : whole ≠ [])
    (hzero : (whole.head? == some '0' && decide (whole.length > 1)) = false)
    (hfraction : ∀ c ∈ fraction, c.isDigit = true) (hfractionNe : fraction ≠ [])
    (hrest : NumeralEnds rest) :
  readNumeral? ((Decimal.sign negative).toList ++ (whole ++ '.' :: (fraction ++ rest)))
    = some (⟨negative, natOfDigits (whole ++ fraction), -fraction.length, false⟩, rest)
  := by
  have hempty : fraction.isEmpty = false :=
    Bool.eq_false_iff.mpr (mt List.isEmpty_iff.mp hfractionNe)
  rw [readNumeral?_parts negative hwhole hne hzero (noDigitFollows_cons rfl)
    (readFraction?_point hfractionNe hfraction hrest.noDigit) (readExponent?_eq hrest.noMark),
    hempty, zero_sub, Bool.false_and]

/-- Digits that do not start with a zero are read as they are, if a point stands in front of the
last of them or further to the left, where zeros fill the places behind it. -/
theorem readNumeral?_pointed (negative : Bool) {digits : List Char} {place : Int}
    (hdigits : ∀ c ∈ digits, c.isDigit = true) (hne : digits ≠ [])
    (hzero : digits.head? ≠ some '0') (hplace : place < digits.length) {rest : List Char}
    (hrest : NumeralEnds rest) :
  readNumeral? ((Decimal.sign negative).toList ++ (Decimal.pointed digits place ++ rest))
    = some (⟨negative, natOfDigits digits, place - digits.length, false⟩, rest)
  := by
  rw [Decimal.pointed]
  split
  · next hsmall =>
      have hbehind : ∀ c ∈ Decimal.zeros (-place).toNat ++ digits, c.isDigit = true := by
        intro c hc
        obtain hfilled | hdigit := List.mem_append.mp hc
        · rw [List.eq_of_mem_replicate hfilled]
          rfl
        · apply hdigits c hdigit
      have hread := readNumeral?_point negative (List.forall_mem_singleton.mpr rfl)
        (List.cons_ne_nil '0' []) rfl hbehind (List.append_ne_nil_of_right_ne_nil _ hne) hrest
      have hvalue : natOfDigits (['0'] ++ (Decimal.zeros (-place).toNat ++ digits))
          = natOfDigits digits := natOfDigits_zeros_append _ _
      have hlength : -((Decimal.zeros (-place).toNat ++ digits).length : Int)
          = place - digits.length := by
        rw [List.length_append, Decimal.zeros, List.length_replicate]
        omega
      rw [hvalue, hlength] at hread
      exact hread
  · next hlarge =>
      have hwhole : digits.take place.toNat ≠ [] := by
        rw [Ne, List.take_eq_nil_iff, not_or]
        exact ⟨by omega, hne⟩
      have hfraction : digits.drop place.toNat ≠ [] := by
        rw [Ne, List.drop_eq_nil_iff]
        omega
      have hhead : ((digits.take place.toNat).head? == some '0') = false := by
        rw [List.head?_take, if_neg (by omega)]
        exact beq_false_of_ne hzero
      have hread := readNumeral?_point negative (fun c hc => hdigits c (List.mem_of_mem_take hc))
        hwhole (by rw [hhead, Bool.false_and])
        (fun c hc => hdigits c (List.mem_of_mem_drop hc)) hfraction hrest
      have hlength : -((digits.drop place.toNat).length : Int) = place - digits.length := by
        rw [List.length_drop]
        omega
      rw [List.take_append_drop, hlength] at hread
      rw [if_neg (by omega), List.append_assoc]
      exact hread

/-- A numeral in positional notation that has digits after the point is read as the numeral. -/
theorem readNumeral?_positional (negative : Bool) {digits : Nat} {exponent : Int}
    (hdigits : digits ≠ 0) (hexponent : exponent < 0) {rest : List Char}
    (hrest : NumeralEnds rest) :
  readNumeral? ((Decimal.sign negative).toList ++ (Decimal.positional digits exponent ++ rest))
    = some (⟨negative, digits, exponent, false⟩, rest)
  := by
  have hplace : Decimal.place digits exponent = (Decimal.digitList digits).length + exponent := rfl
  rw [Decimal.positional, if_neg hdigits,
    readNumeral?_pointed negative (isDigit_of_mem_digitList digits) (digitList_ne_nil digits)
      (mt (eq_zero_of_head?_digitList digits) hdigits) (by omega) hrest,
    natOfDigits_digitList, hplace, add_sub_cancel_left]

/-- Whether a numeral may start with a character: a sign or a digit. -/
def startsNumeral (c : Char) : Bool := c == '-' || c.isDigit

/-- Numerals do not start with blanks. -/
theorem isBlank_eq_false_of_startsNumeral {c : Char} (hc : startsNumeral c = true) :
  isBlank c = false
  := by
  apply Bool.eq_false_iff.mpr
  intro hblank
  simp only [isBlank, Bool.or_eq_true, beq_iff_eq] at hblank
  obtain ((rfl | rfl) | rfl) | rfl := hblank
  · cases hc
  · cases hc
  · cases hc
  · cases hc

/-- The text of a plain numeral starts with a sign or a digit. -/
theorem exists_write_numeral_eq {n : Numeral} (hn : n.IsPlain) :
  ∃ c cs, n.write.toList = c :: cs ∧ startsNumeral c = true
  := by
  have hdigits : ∃ d ds, n.write.toList = (Decimal.sign n.negative).toList ++ d :: ds
      ∧ d.isDigit = true := by
    obtain ⟨negative, digits, exponent, whole⟩ := n
    obtain ⟨d, ds, hds, hd⟩ := exists_digitList_append digits []
    rw [List.append_nil] at hds
    cases whole with
    | true => exact ⟨d, ds, by rw [toList_write_whole, hds], hd⟩
    | false =>
        have hzero : digits = 0 → exponent = 0 := fun h => hn (Or.inr h)
        obtain ⟨first, others, hfirst, hexponential⟩ := exists_exponential_eq hzero
        obtain ⟨rfl, -⟩ := List.cons.inj (hds.symm.trans hfirst)
        exact ⟨d, _, by rw [toList_write_scientific, hexponential], hd⟩
  obtain ⟨d, ds, hds, hd⟩ := hdigits
  cases hsign : n.negative with
  | true => exact ⟨'-', d :: ds, by rw [hds, hsign]; rfl, by decide⟩
  | false =>
      refine ⟨d, ds, by rw [hds, hsign]; rfl, ?_⟩
      rw [startsNumeral, hd, Bool.or_true]

end Json

end Reachability
