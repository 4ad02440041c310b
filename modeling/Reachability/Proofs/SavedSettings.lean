import Mathlib
import Reachability.Proofs.WrittenNumbers
import Reachability.Settings

/-!
# Settings that are written and read

Settings are read back from the text that they are written as if and only if all their numbers are
finite (`Settings.reads_back`), provided that finite numbers read back from their numerals.  What is
not finite is written as nothing: in place of a number that cannot be read, and in place of the
accuracy it is read as one that is not set.

Fields may be missing, which then have their default, and their order does not matter.  Unknown
fields are ignored, since every field is looked up by its name, and the written names are different.

An objective is read back from its text without any condition (`Objective.ofJson?_read?_write`).
-/

namespace Reachability

/-! ### Names of options -/

/-- A way to iterate is found by its name. -/
theorem Iteration.ofName?_name (x : Iteration) :
  ofName? x.name = some x
  := by
  cases x <;> rfl

/-- A way to measure changes is found by its name. -/
theorem ChangeMeasure.ofName?_name (x : ChangeMeasure) :
  ofName? x.name = some x
  := by
  cases x <;> rfl

/-- A method is found by its name. -/
theorem TimedMethod.ofName?_name (x : TimedMethod) :
  ofName? x.name = some x
  := by
  cases x <;> rfl

/-! ### Fields of objects -/

namespace Json

variable {fields written unknown : List (String × Json)} {name : String} {value : Json}

/-- No field is found if none has the name. -/
theorem lastField?_eq_none (h : ∀ field ∈ fields, field.1 ≠ name) :
  lastField? fields name = none
  := by
  rw [lastField?, Option.map_eq_none_iff, List.find?_eq_none]
  intro field hfield
  rw [beq_iff_eq]
  apply h field (List.mem_reverse.mp hfield)

/-- A field is found if all fields with the name have the same value. -/
theorem lastField?_eq_some (hmem : (name, value) ∈ fields)
    (h : ∀ field ∈ fields, field.1 = name → field.2 = value) :
  lastField? fields name = some value
  := by
  have hfound : (fields.reverse.find? fun field => field.1 == name).isSome = true := by
    rw [List.find?_isSome]
    exact ⟨(name, value), List.mem_reverse.mpr hmem, beq_self_eq_true name⟩
  obtain ⟨field, hfield⟩ := Option.isSome_iff_exists.mp hfound
  have hin := List.mem_reverse.mp (List.mem_of_find?_eq_some hfield)
  have hname := List.find?_some hfield
  rw [lastField?, hfield, Option.map_some, h field hin (eq_of_beq hname)]

/-- Let an object have written fields, apart from those that were removed, and unknown ones, in any
order.  Then a written field is found unless it was removed. -/
theorem lastField?_of_perm {removed : List String} (hnames : (written.map Prod.fst).Nodup)
    (hunknown : ∀ field ∈ unknown, field.1 ∉ written.map Prod.fst)
    (hperm : fields.Perm ((written.filter fun field => field.1 ∉ removed) ++ unknown))
    (hmem : (name, value) ∈ written) :
  lastField? fields name = if name ∈ removed then none else some value
  := by
  have hname : name ∈ written.map Prod.fst := List.mem_map.mpr ⟨_, hmem, rfl⟩
  have hfields : ∀ field ∈ fields, field.1 = name → field ∈ written ∧ name ∉ removed := by
    rintro field hfield rfl
    obtain hkept | hadded := List.mem_append.mp (hperm.mem_iff.mp hfield)
    · rwa [List.mem_filter, decide_eq_true_eq] at hkept
    · exact absurd hname (hunknown field hadded)
  split
  · next hremoved =>
      apply lastField?_eq_none
      intro field hfield h
      exact (hfields field hfield h).2 hremoved
  · next hkept =>
      apply lastField?_eq_some
      · apply hperm.mem_iff.mpr
        apply List.mem_append_left
        rw [List.mem_filter, decide_eq_true_eq]
        exact ⟨hmem, hkept⟩
      · intro field hfield h
        have hin := (hfields field hfield h).1
        rw [List.inj_on_of_nodup_map hnames hin hmem h]

/-- A part that was removed is read as its default, and any other as its value. -/
theorem partOr?_ite {α : Type} {read : Json → Option α} {removed : List String} {x : α}
    (default : α) (h : name ∉ removed → read value = some x) :
  partOr? read default (if name ∈ removed then none else some value)
    = some (if name ∈ removed then default else x)
  := by
  split
  · rfl
  · next hkept => exact h hkept

/-! ### Values of fields -/

/-- A truth value is read from its document. -/
theorem asBool?_bool (b : Bool) :
  (bool b).asBool? = some b
  := rfl

/-- An index that fits a machine word is read from its document. -/
theorem asIndex?_int {k : Nat} (hk : k ≤ indexLimit) :
  (int k).asIndex? = some k
  := by
  have hrange : (0 : Int) ≤ k ∧ (k : Int) ≤ indexLimit := by omega
  rw [int, asIndex?]
  simp only [Numeral.integer?_ofInt, if_pos hrange, Int.toNat_natCast]

variable {W : Type} [Numeric W]

/-- A value that reads back is read from its document. -/
theorem asNumeric?_ofNumeric {x : W} (hx : Numeric.ReadsBack x) :
  (ofNumeric x).asNumeric? = some x
  := by
  obtain ⟨n, hn, hnames⟩ := hx
  simp only [ofNumeric, hn, asNumeric?, hnames]

/-- A value that reads back is read from its document as one that is set. -/
theorem asOptional?_ofNumeric {x : W} (hx : Numeric.ReadsBack x) :
  (ofNumeric x).asOptional? = some (some x)
  := by
  obtain ⟨n, hn, hnames⟩ := hx
  simp only [ofNumeric, hn, asOptional?, hnames]

/-- Only a value with a numeral is read from its document. -/
theorem numeral?_ne_none_of_asNumeric? {x y : W} (h : (ofNumeric x).asNumeric? = some y) :
  Numeric.numeral? x ≠ none
  := by
  intro hx
  simp only [ofNumeric, hx, asNumeric?] at h
  cases h

/-- Only a value with a numeral is read from its document as one that is set. -/
theorem numeral?_ne_none_of_asOptional? {x y : W} (h : (ofNumeric x).asOptional? = some (some y)) :
  Numeric.numeral? x ≠ none
  := by
  intro hx
  simp only [ofNumeric, hx, asOptional?] at h
  cases h

end Json

namespace Settings

variable {W : Type}

/-- Settings are read from parts if each part is read as the option that they have, where the
default of an option is read if the part is missing. -/
structure ReadFrom [Arithmetic W] [Numeric W] (part? : String → Option Json) (s : Settings W) :
    Prop where
  precomputation : Json.partOr? Json.asBool? (default : Settings W).precomputation
    (part? "precomputation") = some s.precomputation
  iteration : Json.partOr? (Json.asNamed? Iteration.ofName?) (default : Settings W).iteration
    (part? "solve_method") = some s.iteration
  measure : Json.partOr? (Json.asNamed? ChangeMeasure.ofName?) (default : Settings W).measure
    (part? "term_crit") = some s.measure
  threshold : Json.partOr? Json.asNumeric? default.threshold
    (part? "term_crit_param") = some s.threshold
  maxIterations : Json.partOr? Json.asIndex? (default : Settings W).maxIterations
    (part? "max_iters") = some s.maxIterations
  parallel : Json.partOr? Json.asBool? (default : Settings W).parallel
    (part? "parallel") = some s.parallel
  timedMethod : Json.partOr? (Json.asNamed? TimedMethod.ofName?) (default : Settings W).timedMethod
    (part? "ctmdp_method") = some s.timedMethod
  discretisationError : Json.partOr? Json.asNumeric? default.discretisationError
    (part? "discretisation_epsilon") = some s.discretisationError
  underflow : Json.partOr? Json.asNumeric? default.underflow
    (part? "fox_glynn_underflow") = some s.underflow
  overflow : Json.partOr? Json.asNumeric? default.overflow
    (part? "fox_glynn_overflow") = some s.overflow
  accuracy : Json.partOr? Json.asOptional? default.accuracy
    (part? "fox_glynn_accuracy") = some s.accuracy
  exportStrategy : Json.partOr? Json.asBool? (default : Settings W).exportStrategy
    (part? "export_strategy") = some s.exportStrategy

/-- The settings that an object holds are read from its fields. -/
theorem ofJson?_object_eq_some_iff [Arithmetic W] [Numeric W] {fields : List (String × Json)}
    {s : Settings W} :
  ofJson? (.object fields) = some s ↔ s.ReadFrom (Json.lastField? fields)
  := by
  change ofParts? (fieldNames.map (Json.lastField? fields)) = some s ↔ _
  simp only [fieldNames, List.map_cons, List.map_nil, ofParts?, Option.bind_eq_bind,
    Option.bind_eq_some_iff, Option.pure_def, Option.some_inj]
  constructor
  · rintro ⟨_, precomputation, _, iteration, _, measure, _, threshold, _, maxIterations, _,
      parallel, _, timedMethod, _, discretisationError, _, underflow, _, overflow, _, accuracy, _,
      exportStrategy, rfl⟩
    exact ⟨precomputation, iteration, measure, threshold, maxIterations, parallel, timedMethod,
      discretisationError, underflow, overflow, accuracy, exportStrategy⟩
  · rintro ⟨precomputation, iteration, measure, threshold, maxIterations, parallel, timedMethod,
      discretisationError, underflow, overflow, accuracy, exportStrategy⟩
    exact ⟨_, precomputation, _, iteration, _, measure, _, threshold, _, maxIterations, _, parallel,
      _, timedMethod, _, discretisationError, _, underflow, _, overflow, _, accuracy, _,
      exportStrategy, rfl⟩

/-- The numbers that settings have, with the names of their fields. -/
def numbers (s : Settings W) : List (String × W) :=
  [("term_crit_param", s.threshold), ("discretisation_epsilon", s.discretisationError),
    ("fox_glynn_underflow", s.underflow), ("fox_glynn_overflow", s.overflow)]
    ++ s.accuracy.toList.map fun x => ("fox_glynn_accuracy", x)

/-- What holds of all numbers that settings have holds of the four that they always have, and of the
accuracy if it is set. -/
theorem forall_mem_numbers_iff {s : Settings W} {p : String × W → Prop} :
  (∀ e ∈ s.numbers, p e)
    ↔ p ("term_crit_param", s.threshold) ∧ p ("discretisation_epsilon", s.discretisationError)
      ∧ p ("fox_glynn_underflow", s.underflow) ∧ p ("fox_glynn_overflow", s.overflow)
      ∧ ∀ x, s.accuracy = some x → p ("fox_glynn_accuracy", x)
  := by
  simp only [numbers, List.cons_append, List.nil_append, List.forall_mem_cons, List.forall_mem_map,
    Option.mem_toList]

/-- The settings where the fields with the given names have their defaults. -/
def reset [Arithmetic W] (s : Settings W) (names : List String) : Settings W where
  precomputation :=
    if "precomputation" ∈ names then (default : Settings W).precomputation else s.precomputation
  iteration := if "solve_method" ∈ names then (default : Settings W).iteration else s.iteration
  measure := if "term_crit" ∈ names then (default : Settings W).measure else s.measure
  threshold := if "term_crit_param" ∈ names then default.threshold else s.threshold
  maxIterations :=
    if "max_iters" ∈ names then (default : Settings W).maxIterations else s.maxIterations
  parallel := if "parallel" ∈ names then (default : Settings W).parallel else s.parallel
  timedMethod :=
    if "ctmdp_method" ∈ names then (default : Settings W).timedMethod else s.timedMethod
  discretisationError :=
    if "discretisation_epsilon" ∈ names then default.discretisationError else s.discretisationError
  underflow := if "fox_glynn_underflow" ∈ names then default.underflow else s.underflow
  overflow := if "fox_glynn_overflow" ∈ names then default.overflow else s.overflow
  accuracy := if "fox_glynn_accuracy" ∈ names then default.accuracy else s.accuracy
  exportStrategy :=
    if "export_strategy" ∈ names then (default : Settings W).exportStrategy else s.exportStrategy

/-- Nothing is reset without a name. -/
theorem reset_nil [Arithmetic W] (s : Settings W) :
  s.reset [] = s
  := by
  simp only [reset, List.not_mem_nil, if_false]

section Saved

variable [Arithmetic W] [Numeric W] {s t : Settings W} {part? : String → Option Json}

/-- Settings are read from what they are written as, apart from what was removed, if the numbers
that remain read back. -/
theorem readFrom_reset {removed : List String} (hindex : s.maxIterations ≤ indexLimit)
    (hnumbers : ∀ e ∈ s.numbers, e.1 ∉ removed → Numeric.ReadsBack e.2)
    (hparts : ∀ field ∈ fieldNames.zip s.fieldValues,
      part? field.1 = if field.1 ∈ removed then none else some field.2) :
  (s.reset removed).ReadFrom part?
  := by
  simp only [fieldNames, fieldValues, List.zip_cons_cons, List.zip_nil_right,
    List.forall_mem_cons] at hparts
  obtain ⟨precomputation, iteration, measure, threshold, maxIterations, parallel, timedMethod,
    discretisationError, underflow, overflow, accuracy, exportStrategy, -⟩ := hparts
  obtain ⟨hthreshold, hdiscretisationError, hunderflow, hoverflow, haccuracy⟩ :=
    forall_mem_numbers_iff.mp hnumbers
  constructor
  · rw [precomputation]
    apply Json.partOr?_ite _ fun _ => Json.asBool?_bool s.precomputation
  · rw [iteration]
    apply Json.partOr?_ite _ fun _ => s.iteration.ofName?_name
  · rw [measure]
    apply Json.partOr?_ite _ fun _ => s.measure.ofName?_name
  · rw [threshold]
    apply Json.partOr?_ite _ fun hkept => Json.asNumeric?_ofNumeric (hthreshold hkept)
  · rw [maxIterations]
    apply Json.partOr?_ite _ fun _ => Json.asIndex?_int hindex
  · rw [parallel]
    apply Json.partOr?_ite _ fun _ => Json.asBool?_bool s.parallel
  · rw [timedMethod]
    apply Json.partOr?_ite _ fun _ => s.timedMethod.ofName?_name
  · rw [discretisationError]
    apply Json.partOr?_ite _ fun hkept => Json.asNumeric?_ofNumeric (hdiscretisationError hkept)
  · rw [underflow]
    apply Json.partOr?_ite _ fun hkept => Json.asNumeric?_ofNumeric (hunderflow hkept)
  · rw [overflow]
    apply Json.partOr?_ite _ fun hkept => Json.asNumeric?_ofNumeric (hoverflow hkept)
  · rw [accuracy]
    apply Json.partOr?_ite
    intro hkept
    cases h : s.accuracy with
    | none => rfl
    | some x =>
        apply Json.asOptional?_ofNumeric (haccuracy x h hkept)
  · rw [exportStrategy]
    apply Json.partOr?_ite _ fun _ => Json.asBool?_bool s.exportStrategy

/-- If settings are read from what others are written as, and both set the accuracy or neither does,
then all numbers of the others have numerals. -/
theorem numeral?_ne_none_of_readFrom
    (hparts : ∀ field ∈ fieldNames.zip s.fieldValues, part? field.1 = some field.2)
    (hread : t.ReadFrom part?) (haccuracy : t.accuracy.isSome = s.accuracy.isSome) :
  ∀ e ∈ s.numbers, Numeric.numeral? e.2 ≠ none
  := by
  simp only [fieldNames, fieldValues, List.zip_cons_cons, List.zip_nil_right,
    List.forall_mem_cons] at hparts
  obtain ⟨-, -, -, threshold, -, -, -, discretisationError, underflow, overflow, accuracy, -, -⟩ :=
    hparts
  rw [forall_mem_numbers_iff (p := fun e => Numeric.numeral? e.2 ≠ none)]
  refine ⟨?_, ?_, ?_, ?_, ?_⟩
  · have h := hread.threshold
    rw [threshold] at h
    apply Json.numeral?_ne_none_of_asNumeric? h
  · have h := hread.discretisationError
    rw [discretisationError] at h
    apply Json.numeral?_ne_none_of_asNumeric? h
  · have h := hread.underflow
    rw [underflow] at h
    apply Json.numeral?_ne_none_of_asNumeric? h
  · have h := hread.overflow
    rw [overflow] at h
    apply Json.numeral?_ne_none_of_asNumeric? h
  · intro x hx
    rw [hx, Option.isSome_some] at haccuracy
    obtain ⟨y, hy⟩ := Option.isSome_iff_exists.mp haccuracy
    have h := hread.accuracy
    rw [accuracy, hx, hy] at h
    apply Json.numeral?_ne_none_of_asOptional? h

end Saved

/-- The fields that settings are written as have different names. -/
theorem nodup_names [Numeric W] (s : Settings W) :
  ((fieldNames.zip s.fieldValues).map Prod.fst).Nodup
  := by
  change fieldNames.Nodup
  decide

/-- Settings equal themselves if all their numbers do. -/
theorem same_self [BEq W] {s : Settings W} (h : ∀ e ∈ s.numbers, (e.2 == e.2) = true) :
  s.same s = true
  := by
  obtain ⟨hthreshold, hdiscretisationError, hunderflow, hoverflow, haccuracy⟩ :=
    forall_mem_numbers_iff.mp h
  have hoption : (s.accuracy == s.accuracy) = true := by
    cases h : s.accuracy with
    | none => rfl
    | some x => exact haccuracy x h
  simp only [same, beq_self_eq_true, hthreshold, hdiscretisationError, hunderflow, hoverflow,
    hoption, Bool.and_self]

/-- If settings are equal, then both set the accuracy or neither does. -/
theorem isSome_accuracy_of_same [BEq W] {s t : Settings W} (h : s.same t = true) :
  t.accuracy.isSome = s.accuracy.isSome
  := by
  simp only [same, Bool.and_eq_true] at h
  have haccuracy := h.1.2
  cases hs : s.accuracy with
  | none =>
      cases ht : t.accuracy with
      | none => rfl
      | some y =>
          rw [hs, ht] at haccuracy
          cases haccuracy
  | some x =>
      cases ht : t.accuracy with
      | none =>
          rw [hs, ht] at haccuracy
          cases haccuracy
      | some y => rfl

/-- The document of settings is plain if their finite numbers read back. -/
theorem isPlain_toJson {s : Settings Float}
    (hnumbers : ∀ e ∈ s.numbers, e.2.isFinite = true → Numeric.ReadsBack e.2) :
  s.toJson.IsPlain
  := by
  obtain ⟨hthreshold, hdiscretisationError, hunderflow, hoverflow, haccuracy⟩ :=
    forall_mem_numbers_iff.mp hnumbers
  apply Json.IsPlain.object
  simp only [fieldNames, fieldValues, List.zip_cons_cons, List.zip_nil_right,
    List.forall_mem_cons]
  refine ⟨.bool _, .string _, .string _, isPlain_ofNumeric hthreshold, .number fun _ => rfl,
    .bool _, .string _, isPlain_ofNumeric hdiscretisationError, isPlain_ofNumeric hunderflow,
    isPlain_ofNumeric hoverflow, ?_, .bool _, ?_⟩
  · cases h : s.accuracy with
    | none => exact .null
    | some x => exact isPlain_ofNumeric (haccuracy x h)
  · intro field hfield
    cases hfield

/-- Let an object have the fields that settings are written as, apart from those that were removed,
and unknown ones, in any order.  Then the settings are read from it, with the fields that were
removed reset, if the numbers that remain read back. -/
theorem ofJson?_eq_reset [Arithmetic W] [Numeric W] {s : Settings W} {removed : List String}
    {fields unknown : List (String × Json)} (hindex : s.maxIterations ≤ indexLimit)
    (hnumbers : ∀ e ∈ s.numbers, e.1 ∉ removed → Numeric.ReadsBack e.2)
    (hunknown : ∀ field ∈ unknown, field.1 ∉ fieldNames)
    (hperm : fields.Perm (((fieldNames.zip s.fieldValues).filter fun field => field.1 ∉ removed)
      ++ unknown)) :
  ofJson? (.object fields) = some (s.reset removed)
  := by
  rw [ofJson?_object_eq_some_iff]
  apply readFrom_reset hindex hnumbers
  intro field hfield
  exact Json.lastField?_of_perm s.nodup_names hunknown hperm hfield

/-- Let the finite numbers of settings read back.  Then the settings are written as a text from which
equal settings are read if and only if all their numbers are finite.  Moreover, let a text be an
object that has the fields that are written, apart from some that were removed, and unknown ones, in
any order, where the numbers that remain are finite.  Then the settings are read from it, with
exactly those fields reset that were removed. -/
theorem reads_back (s : Settings Float) (hindex : s.maxIterations ≤ indexLimit)
    (hnumbers : ∀ e ∈ s.numbers, e.2.isFinite = true → Numeric.ReadsBack e.2) :
  ((∃ t, (Json.read? s.toJson.write).bind ofJson? = some t ∧ s.same t = true)
      ↔ ∀ e ∈ s.numbers, e.2.isFinite = true)
    ∧ ∀ written removed unknown fields text, s.toJson = .object written →
      (∀ e ∈ s.numbers, e.1 ∉ removed → e.2.isFinite = true) →
      (∀ field ∈ unknown, field.1 ∉ fieldNames) →
      fields.Perm ((written.filter fun field => field.1 ∉ removed) ++ unknown) →
      Json.read? text = some (.object fields) →
      (Json.read? text).bind ofJson? = some (s.reset removed)
  := by
  have hread : Json.read? s.toJson.write = some (.object (fieldNames.zip s.fieldValues)) :=
    Json.read?_write (isPlain_toJson hnumbers)
  have hwritten : (fieldNames.zip s.fieldValues).Perm
      (((fieldNames.zip s.fieldValues).filter fun field => field.1 ∉ []) ++ []) := by simp
  constructor
  · rw [hread, Option.bind_some]
    constructor
    · rintro ⟨t, ht, hsame⟩ e he
      have hnumeral : Numeric.numeral? e.2 ≠ none := by
        apply numeral?_ne_none_of_readFrom _ (ofJson?_object_eq_some_iff.mp ht)
          (isSome_accuracy_of_same hsame) e he
        intro field hfield
        have hfound := Json.lastField?_of_perm s.nodup_names (List.forall_mem_nil _) hwritten hfield
        rwa [if_neg List.not_mem_nil] at hfound
      rwa [Ne, numeral?_double_eq_none_iff, Bool.not_eq_false] at hnumeral
    · intro hfinite
      use s
      constructor
      · have hreset := ofJson?_eq_reset hindex (fun e he _ => hnumbers e he (hfinite e he))
          (List.forall_mem_nil _) hwritten
        rwa [reset_nil] at hreset
      · apply same_self
        intro e he
        apply beq_self_of_isFinite (hfinite e he)
  · rintro written removed unknown fields text ⟨⟩ hfinite hunknown hperm htext
    rw [htext, Option.bind_some]
    apply ofJson?_eq_reset hindex _ hunknown hperm
    intro e he hkept
    exact hnumbers e he (hfinite e he hkept)

/-- Settings with an accuracy that is infinite. -/
def unlimited : Settings Float :=
  { (default : Settings Float) with
    iteration := .gaussSeidel
    measure := .relative
    threshold := Arithmetic.decimal 1 8
    accuracy := some (1 / 0)
    exportStrategy := true }

/-- Settings with an infinite accuracy are not read back.  But without the accuracy and all fields
that have their defaults, in the opposite order and after a comment, they are read with defaults. -/
theorem reads_back_unlimited :
  unlimited.maxIterations ≤ indexLimit
    ∧ (∀ e ∈ unlimited.numbers, e.2.isFinite = true → Numeric.ReadsBack e.2)
    ∧ (¬ ∃ t, (Json.read? unlimited.toJson.write).bind ofJson? = some t ∧ unlimited.same t = true)
    ∧ (Json.read? ("\x7b\"comment\":null,\"export_strategy\":true,\"term_crit_param\":1e-8,"
        ++ "\"term_crit\":\"Relative\",\"solve_method\":\"GaussSeidel\"\x7d")).bind ofJson?
      = some { unlimited with accuracy := none }
  := by
  have hnumbers : ∀ e ∈ unlimited.numbers, e.2.isFinite = true → Numeric.ReadsBack e.2 := by
    decide +kernel
  obtain ⟨hequal, hremoved⟩ := reads_back unlimited (by decide) hnumbers
  refine ⟨by decide, hnumbers, ?_, ?_⟩
  · rw [hequal]
    decide +kernel
  · let threshold := Json.number ⟨false, 1, -8, false⟩
    let fields : List (String × Json) := [("comment", .null), ("export_strategy", .bool true),
      ("term_crit_param", threshold), ("term_crit", .string "Relative"),
      ("solve_method", .string "GaussSeidel")]
    let removed : List String := ["precomputation", "max_iters", "parallel", "ctmdp_method",
      "discretisation_epsilon", "fox_glynn_underflow", "fox_glynn_overflow", "fox_glynn_accuracy"]
    have hplain : (Json.object fields).IsPlain := by
      apply Json.IsPlain.object
      simp only [fields, List.forall_mem_cons]
      refine ⟨.null, .bool _, .number (by decide), .string _, .string _, ?_⟩
      intro field hfield
      cases hfield
    have hthreshold : Json.ofNumeric unlimited.threshold = threshold := by
      have hnumeral : Numeric.numeral? unlimited.threshold = some ⟨false, 1, -8, false⟩ := by
        decide +kernel
      simp only [Json.ofNumeric, hnumeral, threshold]
    have hperm : fields.Perm (((fieldNames.zip unlimited.fieldValues).filter
        fun field => field.1 ∉ removed) ++ [("comment", .null)]) := by
      have hkept : ((fieldNames.zip unlimited.fieldValues).filter fun field => field.1 ∉ removed)
          = [("solve_method", .string "GaussSeidel"), ("term_crit", .string "Relative"),
            ("term_crit_param", .ofNumeric unlimited.threshold), ("export_strategy", .bool true)] :=
        rfl
      rw [hkept, hthreshold]
      exact (List.reverse_perm fields).symm
    have hread := hremoved _ removed [("comment", .null)] fields (Json.object fields).write rfl
      (by decide +kernel) (by decide) hperm (Json.read?_write hplain)
    have htext : (Json.object fields).write
        = "\x7b\"comment\":null,\"export_strategy\":true,\"term_crit_param\":1e-8,"
          ++ "\"term_crit\":\"Relative\",\"solve_method\":\"GaussSeidel\"\x7d" := by
      decide +kernel
    rw [← htext, hread]
    rfl

end Settings

/-- An objective is read back from the text that it is written as. -/
theorem Objective.ofJson?_read?_write (o : Objective) :
  (Json.read? o.toJson.write).bind ofJson? = some o
  := by
  have hplain : o.toJson.IsPlain := by
    apply Json.IsPlain.object
    simp only [List.forall_mem_cons]
    refine ⟨.string _, .string _, ?_⟩
    intro field hfield
    cases hfield
  have hparts : o.toJson.parts? ["player1", "player2"]
      = some [some (.string o.player1.name), some (.string o.player2.name)] := rfl
  rw [Json.read?_write hplain, Option.bind_some, ofJson?, hparts]
  simp only [Json.asNamed?, Direction.ofName?_name]
  rfl

end Reachability
