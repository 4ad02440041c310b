import Mathlib
import Reachability.Proofs.Numerals

/-!
# Documents that are written and read

A document is read back from its text (`Json.read?_write`).  A string and a numeral are read up to
where their text ends, for which a numeral must be followed by what does not continue it, and a
document is read part by part, as its text is made.

Some numerals have the same text as another one: those of whole numbers, and those whose digits are
all zero, are written without regard to their exponent, and they are read back with exponent zero.
-/

namespace Reachability

/-! ### Strings -/

namespace Json

/-- The digit of a number below sixteen is read back as that number. -/
theorem hexDigit?_hexChar {n : Nat} (hn : n < 16) :
  hexDigit? (hexChar n) = some n
  := by
  revert n
  decide

/-- A character that is written by its number is read back. -/
theorem readEscape?_unicode {c : Char} (hc : c.toNat < 32) (rest : List Char) :
  readEscape? ('u' :: '0' :: '0' :: hexChar (c.toNat / 16) :: hexChar (c.toNat % 16) :: rest)
    = some (c, rest)
  := by
  have hzero : hexDigit? '0' = some 0 := rfl
  have hnat : ((0 * 16 + 0) * 16 + c.toNat / 16) * 16 + c.toNat % 16 = c.toNat := by omega
  have hlow : (c.toNat < 0xD800 || c.toNat > 0xDFFF) = true := by
    rw [Bool.or_eq_true, decide_eq_true_eq]
    left
    omega
  have hhigh := hexDigit?_hexChar (show c.toNat / 16 < 16 by omega)
  have hdigit := hexDigit?_hexChar (show c.toNat % 16 < 16 by omega)
  simp only [readEscape?, readUnicode?, readHex?, hzero, hhigh, hdigit, Option.bind_eq_bind,
    Option.bind_some, hnat, hlow, if_true, Char.ofNat_toNat]

/-- What is written for a character in a string is read as that character. -/
theorem readString?_escape (c : Char) (fuel : Nat) (seen rest : List Char) :
  readString? (fuel + 1) seen (escape c ++ rest) = readString? fuel (c :: seen) rest
  := by
  rw [escape]
  split_ifs with hquote hslash hline htab hreturn hcontrol
  · simp [readString?, readEscape?, hquote]
  · simp [readString?, readEscape?, hslash]
  · simp [readString?, readEscape?, hline]
  · simp [readString?, readEscape?, htab]
  · simp [readString?, readEscape?, hreturn]
  · simp only [List.cons_append, List.nil_append, readString?, readEscape?_unicode hcontrol]
  · simp only [List.cons_append, List.nil_append]
    rw [readString?]
    · rw [if_neg hcontrol]
    · exact hquote
    · exact hslash

/-- A string is read up to its closing quote. -/
theorem readString?_flatMap (text : List Char) (fuel : Nat) (seen rest : List Char)
    (hfuel : text.length < fuel) :
  readString? fuel seen (text.flatMap escape ++ '"' :: rest)
    = some (String.ofList (seen.reverse ++ text), rest)
  := by
  induction text generalizing fuel seen with
  | nil =>
      obtain ⟨fuel, rfl⟩ := Nat.exists_eq_succ_of_ne_zero hfuel.ne'
      simp [readString?]
  | cons c text ih =>
      obtain ⟨fuel, rfl⟩ := Nat.exists_eq_succ_of_ne_zero (Nat.ne_zero_of_lt hfuel)
      rw [List.flatMap_cons, List.append_assoc, readString?_escape,
        ih _ _ (Nat.lt_of_succ_lt_succ hfuel), List.reverse_cons, List.append_assoc,
        List.singleton_append]

/-- The text of a string is what is written for its characters, in quotes. -/
theorem toList_quote (text : String) :
  (quote text).toList = '"' :: (text.toList.flatMap escape ++ ['"'])
  := by
  rw [quote, String.toList_ofList]
  rfl

/-- At least one character is written for each character of a string. -/
theorem length_le_length_flatMap (text : List Char) :
  text.length ≤ (text.flatMap escape).length
  := by
  induction text with
  | nil => exact le_rfl
  | cons c text ih =>
      have hpos : 1 ≤ (escape c).length := by
        rw [escape]
        split_ifs <;> exact Nat.succ_pos _
      rw [List.flatMap_cons, List.length_append, List.length_cons]
      omega

/-- The text of a string is read as the string. -/
theorem readString?_quote {text : String} {fuel : Nat} (hfuel : (quote text).toList.length ≤ fuel)
    (rest : List Char) :
  ∃ cs, (quote text).toList ++ rest = '"' :: cs ∧ readString? fuel [] cs = some (text, rest)
  := by
  rw [toList_quote] at hfuel ⊢
  refine ⟨text.toList.flatMap escape ++ '"' :: rest, by simp, ?_⟩
  rw [readString?_flatMap, List.reverse_nil, List.nil_append, String.ofList_toList]
  have hlength := length_le_length_flatMap text.toList
  simp only [List.length_cons, List.length_append] at hfuel
  omega

/-! ### Documents -/

/-- A document is plain if all its numerals are. -/
inductive IsPlain : Json → Prop where
  | null : IsPlain null
  | bool (b : Bool) : IsPlain (bool b)
  | number {n : Numeral} (h : n.IsPlain) : IsPlain (number n)
  | string (text : String) : IsPlain (string text)
  | array {items : List Json} (h : ∀ item ∈ items, IsPlain item) : IsPlain (array items)
  | object {fields : List (String × Json)} (h : ∀ field ∈ fields, IsPlain field.2) :
      IsPlain (object fields)

/-- The text of items, with commas between them. -/
def itemsText (items : List Json) : List Char := (",".intercalate (writeItems items)).toList

/-- The text of fields, with commas between them. -/
def fieldsText (fields : List (String × Json)) : List Char :=
  (",".intercalate (writeFields fields)).toList

/-- The text of an array is that of its items in brackets. -/
theorem toList_write_array (items : List Json) :
  (array items).write.toList = '[' :: (itemsText items ++ [']'])
  := by
  rw [write, String.toList_append, String.toList_append]
  rfl

/-- The text of an object is that of its fields in braces. -/
theorem toList_write_object (fields : List (String × Json)) :
  (object fields).write.toList = '\x7b' :: (fieldsText fields ++ ['\x7d'])
  := by
  rw [write, String.toList_append, String.toList_append]
  rfl

/-- The text of one item is that of the item. -/
theorem itemsText_singleton (item : Json) :
  itemsText [item] = item.write.toList
  := by
  rw [itemsText, String.toList_intercalate]
  simp only [writeItems, List.map_cons, List.map_nil, List.intercalate_singleton]

/-- Further items follow an item after a comma. -/
theorem itemsText_cons (item item' : Json) (items : List Json) :
  itemsText (item :: item' :: items) = item.write.toList ++ ',' :: itemsText (item' :: items)
  := by
  rw [itemsText, itemsText, String.toList_intercalate, String.toList_intercalate]
  simp only [writeItems, List.map_cons, List.intercalate_cons_cons, List.append_assoc]
  rfl

/-- The text of one field is its name, a colon, and the text of its value. -/
theorem fieldsText_singleton (name : String) (value : Json) :
  fieldsText [(name, value)] = (quote name).toList ++ ':' :: value.write.toList
  := by
  rw [fieldsText, String.toList_intercalate]
  simp only [writeFields, List.map_cons, List.map_nil, List.intercalate_singleton,
    String.toList_append, List.append_assoc]
  rfl

/-- Further fields follow a field after a comma. -/
theorem fieldsText_cons (name : String) (value : Json) (field : String × Json)
    (fields : List (String × Json)) :
  fieldsText ((name, value) :: field :: fields)
    = (quote name).toList ++ ':' :: (value.write.toList ++ ',' :: fieldsText (field :: fields))
  := by
  rw [fieldsText, fieldsText, String.toList_intercalate, String.toList_intercalate]
  simp only [writeFields, List.map_cons, List.intercalate_cons_cons, String.toList_append,
    List.append_assoc]
  rfl

/-- A document starts with a character that is not blank and does not close an array. -/
theorem IsPlain.exists_write_eq {document : Json} (h : document.IsPlain) :
  ∃ c cs, document.write.toList = c :: cs ∧ isBlank c = false ∧ c ≠ ']'
  := by
  cases h with
  | null => exact ⟨'n', ['u', 'l', 'l'], by simp [write], rfl, by decide⟩
  | bool b =>
      cases b with
      | true => exact ⟨'t', ['r', 'u', 'e'], by simp [write], rfl, by decide⟩
      | false => exact ⟨'f', ['a', 'l', 's', 'e'], by simp [write], rfl, by decide⟩
  | number h =>
      obtain ⟨c, cs, hcs, hc⟩ := exists_write_numeral_eq h
      refine ⟨c, cs, hcs, isBlank_eq_false_of_startsNumeral hc, ?_⟩
      rintro rfl
      cases hc
  | string text => exact ⟨'"', _, toList_quote text, rfl, by decide⟩
  | array => exact ⟨'[', _, toList_write_array _, rfl, by decide⟩
  | object => exact ⟨'\x7b', _, toList_write_object _, rfl, by decide⟩

/-- Items start as the first one does. -/
theorem exists_itemsText_eq {item : Json} (h : item.IsPlain) (items : List Json) :
  ∃ c cs, itemsText (item :: items) = c :: cs ∧ isBlank c = false ∧ c ≠ ']'
  := by
  obtain ⟨c, cs, hcs, hblank, hc⟩ := h.exists_write_eq
  cases items with
  | nil => exact ⟨c, cs, by rw [itemsText_singleton, hcs], hblank, hc⟩
  | cons item' items =>
      exact ⟨c, _, by rw [itemsText_cons, hcs, List.cons_append], hblank, hc⟩

/-- Fields start with the quote of the first name. -/
theorem exists_fieldsText_eq (field : String × Json) (fields : List (String × Json)) :
  ∃ cs, fieldsText (field :: fields) = '"' :: cs
  := by
  obtain ⟨name, value⟩ := field
  cases fields with
  | nil => exact ⟨_, by rw [fieldsText_singleton, toList_quote, List.cons_append]⟩
  | cons field' fields => exact ⟨_, by rw [fieldsText_cons, toList_quote, List.cons_append]⟩

/-- Nothing is skipped in front of a character that is not blank. -/
theorem skipBlanks_cons {c : Char} (hc : isBlank c = false) (cs : List Char) :
  skipBlanks (c :: cs) = c :: cs
  := by
  rw [skipBlanks, List.dropWhile_cons_of_neg]
  rw [hc]
  exact Bool.false_ne_true

/-! ### Readers step by step -/

section Steps

variable {fuel : Nat} {c : Char} {cs rest : List Char}

/-- An array is read by its items. -/
theorem readValue?_array (hblank : isBlank c = false) (hc : c ≠ ']') :
  readValue? (fuel + 1) ('[' :: c :: cs)
    = (readItems? fuel (c :: cs)).map fun (items, rest) => (array items, rest)
  := by
  rw [readValue?, skipBlanks_cons rfl]
  simp only [skipBlanks_cons hblank]
  split
  · next h => exact absurd (List.cons.inj h).1 hc
  · rfl

/-- An object is read by its fields. -/
theorem readValue?_object :
  readValue? (fuel + 1) ('\x7b' :: '"' :: cs)
    = (readFields? fuel ('"' :: cs)).map fun (fields, rest) => (object fields, rest)
  := rfl

/-- A string is read as a document. -/
theorem readValue?_string {text : String} (hcs : readString? (fuel + 1) [] cs = some (text, rest)) :
  readValue? (fuel + 1) ('"' :: cs) = some (string text, rest)
  := by
  change (readString? (fuel + 1) [] cs).map _ = _
  rw [hcs]
  rfl

/-- A numeral is read as a document. -/
theorem readValue?_number {n : Numeral} (hc : startsNumeral c = true)
    (hcs : readNumeral? (c :: cs) = some (n, rest)) :
  readValue? (fuel + 1) (c :: cs) = some (number n, rest)
  := by
  have hne : ∀ d ds, startsNumeral d = false → c :: cs ≠ d :: ds := by
    rintro d ds hd ⟨⟩
    rw [hd] at hc
    cases hc
  rw [readValue?, skipBlanks_cons (isBlank_eq_false_of_startsNumeral hc)]
  split
  · next h => cases h
  · next h => exact absurd h (hne _ _ rfl)
  · next h => exact absurd h (hne _ _ rfl)
  · next h => exact absurd h (hne _ _ rfl)
  · next h => exact absurd h (hne _ _ rfl)
  · next h => exact absurd h (hne _ _ rfl)
  · next h => exact absurd h (hne _ _ rfl)
  · rw [hcs]
    rfl

/-- The last item is followed by the bracket that closes its array. -/
theorem readItems?_last {item : Json} (hcs : readValue? fuel cs = some (item, ']' :: rest)) :
  readItems? (fuel + 1) cs = some ([item], rest)
  := by
  rw [readItems?]
  simp only [hcs, skipBlanks_cons (show isBlank ']' = false from rfl)]

/-- Any other item is followed by a comma and further items. -/
theorem readItems?_more {item : Json} (hcs : readValue? fuel cs = some (item, ',' :: rest)) :
  readItems? (fuel + 1) cs
    = (readItems? fuel rest).map fun (items, rest) => (item :: items, rest)
  := by
  rw [readItems?]
  simp only [hcs, skipBlanks_cons (show isBlank ',' = false from rfl)]

variable {name : String} {value : Json} {afterColon : List Char}

/-- The last field is followed by the brace that closes its object. -/
theorem readFields?_last (hname : readString? (fuel + 1) [] cs = some (name, ':' :: afterColon))
    (hvalue : readValue? fuel afterColon = some (value, '\x7d' :: rest)) :
  readFields? (fuel + 1) ('"' :: cs) = some ([(name, value)], rest)
  := by
  rw [readFields?, skipBlanks_cons rfl]
  simp only [hname, skipBlanks_cons (show isBlank ':' = false from rfl), hvalue,
    skipBlanks_cons (show isBlank '\x7d' = false from rfl)]

/-- Any other field is followed by a comma and further fields. -/
theorem readFields?_more (hname : readString? (fuel + 1) [] cs = some (name, ':' :: afterColon))
    (hvalue : readValue? fuel afterColon = some (value, ',' :: rest)) :
  readFields? (fuel + 1) ('"' :: cs)
    = (readFields? fuel rest).map fun (fields, rest) => ((name, value) :: fields, rest)
  := by
  rw [readFields?, skipBlanks_cons rfl]
  simp only [hname, skipBlanks_cons (show isBlank ':' = false from rfl), hvalue,
    skipBlanks_cons (show isBlank ',' = false from rfl)]

end Steps

/-! ### Documents that are read back -/

/-- A document is read back if it is read up to where its text ends, for any rest that does not
continue a numeral, and with enough fuel for the length of the text. -/
def ReadsBack (document : Json) : Prop :=
  ∀ fuel rest, 2 * document.write.toList.length ≤ fuel + 1 → NumeralEnds rest →
    readValue? (fuel + 1) (document.write.toList ++ rest) = some (document, rest)

/-- A document has a text. -/
theorem IsPlain.length_write_pos {document : Json} (h : document.IsPlain) :
  0 < document.write.toList.length
  := by
  obtain ⟨c, cs, hcs, -⟩ := h.exists_write_eq
  rw [hcs]
  exact Nat.succ_pos _

/-- Items are read up to the bracket that closes their array. -/
theorem readItems?_write {item : Json} {items : List Json}
    (hplain : ∀ x ∈ item :: items, x.IsPlain) (hread : ∀ x ∈ item :: items, x.ReadsBack)
    {fuel : Nat} (hfuel : 2 * (itemsText (item :: items)).length ≤ fuel) (rest : List Char) :
  readItems? (fuel + 1) (itemsText (item :: items) ++ ']' :: rest) = some (item :: items, rest)
  := by
  induction items generalizing item fuel with
  | nil =>
      have hpos := (hplain item List.mem_cons_self).length_write_pos
      rw [itemsText_singleton] at hfuel ⊢
      obtain ⟨fuel, rfl⟩ := Nat.exists_eq_succ_of_ne_zero (show fuel ≠ 0 by omega)
      apply readItems?_last
      apply hread item List.mem_cons_self _ _ hfuel
      apply numeralEnds_cons rfl (by simp) rfl
  | cons item' items ih =>
      have hpos := (hplain item List.mem_cons_self).length_write_pos
      rw [itemsText_cons] at hfuel ⊢
      rw [List.length_append, List.length_cons] at hfuel
      obtain ⟨fuel, rfl⟩ := Nat.exists_eq_succ_of_ne_zero (show fuel ≠ 0 by omega)
      obtain ⟨hitem, hitems⟩ := List.forall_mem_cons.mp hread
      have hfirst := hitem fuel (',' :: (itemsText (item' :: items) ++ ']' :: rest)) (by omega)
        (numeralEnds_cons rfl (by simp) rfl)
      have hfurther := ih (List.forall_mem_cons.mp hplain).2 hitems (show _ ≤ fuel by omega)
      rw [List.append_assoc, List.cons_append, readItems?_more hfirst, hfurther]
      rfl

/-- Fields are read up to the brace that closes their object. -/
theorem readFields?_write {field : String × Json} {fields : List (String × Json)}
    (hread : ∀ x ∈ field :: fields, x.2.ReadsBack) {fuel : Nat}
    (hfuel : 2 * (fieldsText (field :: fields)).length ≤ fuel) (rest : List Char) :
  readFields? (fuel + 1) (fieldsText (field :: fields) ++ '\x7d' :: rest)
    = some (field :: fields, rest)
  := by
  induction fields generalizing field fuel with
  | nil =>
      obtain ⟨name, value⟩ := field
      rw [fieldsText_singleton] at hfuel ⊢
      rw [List.length_append, List.length_cons] at hfuel
      obtain ⟨fuel, rfl⟩ := Nat.exists_eq_succ_of_ne_zero (show fuel ≠ 0 by omega)
      have hlength : (quote name).toList.length ≤ fuel + 1 + 1 := by omega
      obtain ⟨cs, hcs, hname⟩ :=
        readString?_quote hlength (':' :: (value.write.toList ++ '\x7d' :: rest))
      rw [List.append_assoc, List.cons_append, hcs]
      apply readFields?_last hname
      have hvalue : value.ReadsBack := hread (name, value) List.mem_cons_self
      apply hvalue _ _ (by omega)
      apply numeralEnds_cons rfl (by simp) rfl
  | cons field' fields ih =>
      obtain ⟨name, value⟩ := field
      rw [fieldsText_cons] at hfuel ⊢
      simp only [List.length_append, List.length_cons] at hfuel
      obtain ⟨fuel, rfl⟩ := Nat.exists_eq_succ_of_ne_zero (show fuel ≠ 0 by omega)
      have hlength : (quote name).toList.length ≤ fuel + 1 + 1 := by omega
      obtain ⟨cs, hcs, hname⟩ := readString?_quote hlength
        (':' :: (value.write.toList ++ ',' :: (fieldsText (field' :: fields) ++ '\x7d' :: rest)))
      obtain ⟨hvalue, hfields⟩ := List.forall_mem_cons.mp hread
      have hvalue : value.ReadsBack := hvalue
      have hfirst := hvalue fuel (',' :: (fieldsText (field' :: fields) ++ '\x7d' :: rest))
        (by omega) (numeralEnds_cons rfl (by simp) rfl)
      have hfurther := ih hfields (show _ ≤ fuel by omega)
      simp only [List.append_assoc, List.cons_append]
      rw [hcs, readFields?_more hname hfirst, hfurther]
      rfl

/-- A plain numeral is read back as a document. -/
theorem readsBack_number {n : Numeral} (h : n.IsPlain) :
  (number n).ReadsBack
  := by
  intro fuel rest _ hrest
  obtain ⟨c, cs, hcs, hc⟩ := exists_write_numeral_eq h
  have hread := readNumeral?_write h hrest
  rw [write]
  rw [hcs] at hread ⊢
  apply readValue?_number hc hread

/-- A string is read back as a document. -/
theorem readsBack_string (text : String) :
  (string text).ReadsBack
  := by
  intro fuel rest hfuel _
  rw [write] at hfuel ⊢
  have hlength : (quote text).toList.length ≤ fuel + 1 := by omega
  obtain ⟨cs, hcs, hread⟩ := readString?_quote hlength rest
  rw [hcs]
  apply readValue?_string hread

/-- An array of plain items is read back if they are. -/
theorem readsBack_array {items : List Json} (hplain : ∀ x ∈ items, x.IsPlain)
    (hread : ∀ x ∈ items, x.ReadsBack) :
  (array items).ReadsBack
  := by
  intro fuel rest hfuel _
  rw [toList_write_array] at hfuel ⊢
  cases items with
  | nil => rfl
  | cons item items =>
      simp only [List.length_cons, List.length_append] at hfuel
      obtain ⟨fuel, rfl⟩ := Nat.exists_eq_succ_of_ne_zero (show fuel ≠ 0 by omega)
      obtain ⟨c, cs, hcs, hblank, hc⟩ := exists_itemsText_eq (hplain item List.mem_cons_self) items
      have hitems := readItems?_write hplain hread (show _ ≤ fuel by omega) rest
      rw [hcs] at hitems ⊢
      simp only [List.cons_append, List.append_assoc, List.nil_append] at hitems ⊢
      rw [readValue?_array hblank hc, hitems]
      rfl

/-- An object is read back if the values of its fields are. -/
theorem readsBack_object {fields : List (String × Json)} (hread : ∀ x ∈ fields, x.2.ReadsBack) :
  (object fields).ReadsBack
  := by
  intro fuel rest hfuel _
  rw [toList_write_object] at hfuel ⊢
  cases fields with
  | nil => rfl
  | cons field fields =>
      simp only [List.length_cons, List.length_append] at hfuel
      obtain ⟨fuel, rfl⟩ := Nat.exists_eq_succ_of_ne_zero (show fuel ≠ 0 by omega)
      obtain ⟨cs, hcs⟩ := exists_fieldsText_eq field fields
      have hfields := readFields?_write hread (show _ ≤ fuel by omega) rest
      rw [hcs] at hfields ⊢
      simp only [List.cons_append, List.append_assoc, List.nil_append] at hfields ⊢
      rw [readValue?_object, hfields]
      rfl

/-- A plain document is read back. -/
theorem IsPlain.readsBack {document : Json} (h : document.IsPlain) :
  document.ReadsBack
  := by
  induction h with
  | null =>
      intro fuel rest _ _
      rw [write]
      rfl
  | bool b =>
      intro fuel rest _ _
      cases b with
      | true =>
          rw [write]
          rfl
      | false =>
          rw [write]
          rfl
  | number h => exact readsBack_number h
  | string text => exact readsBack_string text
  | array h ih => exact readsBack_array h ih
  | object _ ih => exact readsBack_object ih

/-- A plain document is read back from its text. -/
theorem read?_write {document : Json} (h : document.IsPlain) :
  read? document.write = some document
  := by
  have hread := h.readsBack (2 * document.write.toList.length + 1) [] (by omega) numeralEnds_nil
  rw [List.append_nil] at hread
  rw [read?]
  simp only [hread]
  rfl

end Json

end Reachability
