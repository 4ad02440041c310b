import Reachability.Arithmetic
import Reachability.Json
import Reachability.Sweep

/-!
# Settings of the checker

`Settings` hold the options of the checker.  They are written as a JSON object with one field for
each option, and read from an object in which fields may be missing, which then have their
default, and unknown ones are ignored.  An array is read as the values of the first fields in
their order.
-/

namespace Reachability

/-- How unbounded reachability is iterated. -/
inductive Iteration where
  /-- Each round computes a new vector from the last one. -/
  | jacobi
  /-- Each round updates one vector in place. -/
  | gaussSeidel
deriving DecidableEq, Repr

/-- How time-bounded reachability is computed. -/
inductive TimedMethod where
  /-- By many steps of a short length of time. -/
  | discretisation
  /-- By a weighted sum over the number of jumps. -/
  | uniformisation
deriving DecidableEq, Repr

/-- The options of the checker. -/
structure Settings (W : Type) where
  /-- Whether the states with probability zero and one are found first. -/
  precomputation : Bool
  iteration : Iteration
  measure : ChangeMeasure
  /-- Iteration ends when the largest change is below the threshold. -/
  threshold : W
  maxIterations : Nat
  /-- Whether all entries of a round are computed at once. -/
  parallel : Bool
  timedMethod : TimedMethod
  /-- The error that discretisation may make. -/
  discretisationError : W
  underflow : W
  overflow : W
  /-- The accuracy of the Poisson weights, if it is not to follow the threshold. -/
  accuracy : Option W
  /-- Whether the choices of the last round are kept. -/
  exportStrategy : Bool

namespace Settings

variable {W : Type}

/-- The settings where nothing is set. -/
def default [Arithmetic W] : Settings W where
  precomputation := true
  iteration := .jacobi
  measure := .absolute
  threshold := Arithmetic.decimal 1 6
  maxIterations := 10000
  parallel := false
  timedMethod := .discretisation
  discretisationError := Arithmetic.decimal 1 3
  underflow := Arithmetic.decimal 1 300
  overflow := Arithmetic.ofNat (Nat.pow 10 300)
  accuracy := none
  exportStrategy := false

/-- The accuracy of the Poisson weights: an eighth of the threshold, unless it is set. -/
def poissonAccuracy [Arithmetic W] (s : Settings W) : W :=
  s.accuracy.getD (s.threshold / Arithmetic.ofNat 8)

/-- Whether two settings are equal, where numbers are compared as numbers. -/
def same [BEq W] (s t : Settings W) : Bool :=
  s.precomputation == t.precomputation && s.iteration == t.iteration && s.measure == t.measure
    && s.threshold == t.threshold && s.maxIterations == t.maxIterations
    && s.parallel == t.parallel && s.timedMethod == t.timedMethod
    && s.discretisationError == t.discretisationError && s.underflow == t.underflow
    && s.overflow == t.overflow && s.accuracy == t.accuracy
    && s.exportStrategy == t.exportStrategy

end Settings

/-! ### Names of the options -/

/-- The name of a way to iterate. -/
def Iteration.name : Iteration → String
  | jacobi => "ValueIteration"
  | gaussSeidel => "GaussSeidel"

/-- The name of a way to measure changes. -/
def ChangeMeasure.name : ChangeMeasure → String
  | absolute => "Absolute"
  | relative => "Relative"

/-- The name of a method. -/
def TimedMethod.name : TimedMethod → String
  | discretisation => "Discretisation"
  | uniformisation => "Uniformisation"

/-- The way to iterate with a name. -/
def Iteration.ofName? (name : String) : Option Iteration :=
  [jacobi, gaussSeidel].find? fun x => x.name == name

/-- The way to measure changes with a name. -/
def ChangeMeasure.ofName? (name : String) : Option ChangeMeasure :=
  [absolute, relative].find? fun x => x.name == name

/-- The method with a name. -/
def TimedMethod.ofName? (name : String) : Option TimedMethod :=
  [discretisation, uniformisation].find? fun x => x.name == name

/-! ### Settings as documents -/

namespace Json

/-- The truth value that a document is. -/
def asBool? : Json → Option Bool
  | bool b => some b
  | _ => none

/-- The index that a document is: a whole number that is not negative and fits a machine word. -/
def asIndex? : Json → Option Nat
  | number n =>
    match n.integer? with
    | some z => if 0 ≤ z ∧ z ≤ (indexLimit : Int) then some z.toNat else none
    | none => none
  | _ => none

/-- The value that a document is. -/
def asNumeric? {W : Type} [Numeric W] : Json → Option W
  | number n => some (Numeric.ofNumeral n)
  | _ => none

/-- The value that a document is, or that none is set. -/
def asOptional? {W : Type} [Numeric W] : Json → Option (Option W)
  | null => some none
  | number n => some (some (Numeric.ofNumeral n))
  | _ => none

/-- The option that a document names: by a string, or by the single field of an object, which
must be null. -/
def asNamed? {α : Type} (ofName? : String → Option α) : Json → Option α
  | string name => ofName? name
  | object [(name, null)] => ofName? name
  | _ => none

/-- The parts of a record with the given field names: those of an object are found by their
names, and those of an array by their places. -/
def parts? (names : List String) : Json → Option (List (Option Json))
  | object fields => some (names.map (lastField? fields))
  | array items =>
    if items.length ≤ names.length then
      some (items.map some ++ List.replicate (names.length - items.length) none)
    else none
  | _ => none

/-- Reads a part, or takes the default if it is missing. -/
def partOr? {α : Type} (read : Json → Option α) (default : α) : Option Json → Option α
  | some part => read part
  | none => some default

end Json

namespace Settings

variable {W : Type}

/-- The names of the fields, in their order. -/
def fieldNames : List String :=
  ["precomputation", "solve_method", "term_crit", "term_crit_param", "max_iters", "parallel",
    "ctmdp_method", "discretisation_epsilon", "fox_glynn_underflow", "fox_glynn_overflow",
    "fox_glynn_accuracy", "export_strategy"]

/-- The values of the fields, in their order. -/
def fieldValues [Numeric W] (s : Settings W) : List Json :=
  [.bool s.precomputation, .string s.iteration.name, .string s.measure.name,
    .ofNumeric s.threshold, .int s.maxIterations, .bool s.parallel, .string s.timedMethod.name,
    .ofNumeric s.discretisationError, .ofNumeric s.underflow, .ofNumeric s.overflow,
    (match s.accuracy with
      | some x => .ofNumeric x
      | none => .null),
    .bool s.exportStrategy]

/-- The settings as a document. -/
def toJson [Numeric W] (s : Settings W) : Json := .object (fieldNames.zip s.fieldValues)

/-- The settings whose fields are the given parts, in their order. -/
def ofParts? [Arithmetic W] [Numeric W] : List (Option Json) → Option (Settings W)
  | [precomputation, iteration, measure, threshold, maxIterations, parallel, timedMethod,
      discretisationError, underflow, overflow, accuracy, exportStrategy] => do
    let d : Settings W := default
    return {
      precomputation := ← Json.partOr? Json.asBool? d.precomputation precomputation
      iteration := ← Json.partOr? (Json.asNamed? Iteration.ofName?) d.iteration iteration
      measure := ← Json.partOr? (Json.asNamed? ChangeMeasure.ofName?) d.measure measure
      threshold := ← Json.partOr? Json.asNumeric? d.threshold threshold
      maxIterations := ← Json.partOr? Json.asIndex? d.maxIterations maxIterations
      parallel := ← Json.partOr? Json.asBool? d.parallel parallel
      timedMethod := ← Json.partOr? (Json.asNamed? TimedMethod.ofName?) d.timedMethod timedMethod
      discretisationError := ← Json.partOr? Json.asNumeric? d.discretisationError
        discretisationError
      underflow := ← Json.partOr? Json.asNumeric? d.underflow underflow
      overflow := ← Json.partOr? Json.asNumeric? d.overflow overflow
      accuracy := ← Json.partOr? Json.asOptional? d.accuracy accuracy
      exportStrategy := ← Json.partOr? Json.asBool? d.exportStrategy exportStrategy }
  | _ => none

/-- The settings that a document holds. -/
def ofJson? [Arithmetic W] [Numeric W] (document : Json) : Option (Settings W) :=
  (document.parts? fieldNames).bind ofParts?

end Settings

/-- The objective that a document holds; both of its fields must be there. -/
def Objective.ofJson? (document : Json) : Option Objective :=
  match document.parts? ["player1", "player2"] with
  | some [some p1, some p2] => do
    return ⟨← p1.asNamed? Direction.ofName?, ← p2.asNamed? Direction.ofName?⟩
  | _ => none

end Reachability
