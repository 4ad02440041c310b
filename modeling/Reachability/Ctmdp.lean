import Reachability.Mdp.Draft

/-!
# Markov decision processes in continuous time

A `Ctmdp` is a Markov decision process whose choices have exit rates: a choice leaves its state
with its exit rate and then jumps according to its distribution.  It is locally uniform if all
exit rates equal the largest one, within a relative tolerance.

`Ctmdp.discretise` is the process that is seen in steps of a fixed length of time, and
`Ctmdp.uniformise` is the one in which all choices leave at a common rate and may stay where
they are.  A `Ctmdp.Draft` builds a model as a `Mdp.Draft` builds its process.
-/

namespace Reachability

/-- A Markov decision process with an exit rate for every row of its choice matrix. -/
structure Ctmdp (V : Type) where
  mdp : Mdp V
  exitRates : Array V

namespace Ctmdp

variable {V W : Type}

/-- The exit rate of a choice of the model. -/
def exitRate? (m : Ctmdp V) (s c : Nat) : Option V :=
  (m.mdp.rowIndex? s c).bind fun r => m.exitRates[r]?

variable [Arithmetic V]

/-- The exit rate of a choice; it is zero for a choice that the model does not have. -/
def exitRate (m : Ctmdp V) (s c : Nat) : V := (m.exitRate? s c).getD 0

/-- The largest exit rate; it is zero if there are no choices. -/
def maxExitRate (m : Ctmdp V) : V := Arithmetic.maximum m.exitRates.toList

/-- How far an exit rate may be from the largest one, relative to that one. -/
def uniformityTolerance : V := Arithmetic.decimal 1 12

/-- An exit rate must not be farther from the largest one than the tolerance. -/
def checkExitRate (m : Ctmdp V) (s c : Nat) : Except (CheckError V W) Unit :=
  if m.maxExitRate * uniformityTolerance < Arithmetic.abs (m.exitRate s c - m.maxExitRate) then
    .error (.notLocallyUniform s c (m.exitRate s c) m.maxExitRate)
  else .ok ()

/-- All exit rates must equal the largest one within the tolerance; the first one that does not
is the cause. -/
def checkLocallyUniform (m : Ctmdp V) : Except (CheckError V W) Unit :=
  m.mdp.choicePairs.forM fun (s, c) => m.checkExitRate s c

/-- The distribution of a choice of state `s` after a step in which the choice stays put with
probability `stay`. -/
def discretised (stay : V) (s : Nat) (d : Distribution V) : Distribution V :=
  (Distribution.ofPairs (d.pairs.map fun (t, p) => (t, (1 - stay) * p))).add s stay

/-- The process that is seen in steps of length `tau`: a choice with exit rate `E` stays put with
probability `exp (-E * tau)`. -/
def discretise (m : Ctmdp V) (tau : V) : Except (CheckError V W) (Mdp V) :=
  m.mdp.mapDistributions fun s c d => discretised (Arithmetic.exp (-m.exitRate s c * tau)) s d

/-- The distribution of a choice of state `s` that jumps with probability `jump` and otherwise
stays put. -/
def uniformised (jump : V) (s : Nat) (d : Distribution V) : Distribution V :=
  let jumps := Distribution.ofPairs (d.pairs.map fun (t, p) => (t, jump * p))
  if jump < 1 then jumps.add s (1 - jump) else jumps

/-- The process in which all choices leave at the common rate `q`: a choice with exit rate `E`
jumps with probability `E / q`. -/
def uniformise (m : Ctmdp V) (q : V) : Except (CheckError V W) (Mdp V) :=
  m.mdp.mapDistributions fun s c d => uniformised (m.exitRate s c / q) s d

/-- A model that is being built: its process, and the exit rates of each state in the order of
its choices. -/
structure Draft (V : Type) where
  mdp : Mdp.Draft V
  rates : Array (Array V)

namespace Draft

/-- The draft without states. -/
def empty : Draft V := ⟨.empty, #[]⟩

/-- The draft with `count` more states. -/
def addStates (b : Draft V) (count : Nat) : Draft V :=
  ⟨b.mdp.addStates count, b.rates ++ Array.replicate count #[]⟩

/-- Marks a state as initial. -/
def addInitialState (b : Draft V) (s : Nat) : Except (CheckError V W) (Draft V) := do
  return { b with mdp := ← b.mdp.addInitialState s }

/-- Adds a choice with an exit rate to a state, and says which of its choices it is.  The rate
is checked before the state. -/
def addChoice (b : Draft V) (s : Nat) (d : Distribution V) (rate : V) :
    Except (CheckError V W) (Draft V × Nat) := do
  if Arithmetic.isFinite rate = false ∨ rate ≤ 0 then
    throw (.invalidRate s rate)
  let (mdp, c) ← b.mdp.addChoice s ⟨d, none⟩
  return (⟨mdp, b.rates.modify s fun rates => rates.push rate⟩, c)

/-- Adds a choice that is given by the rates of its successors: its exit rate is their sum, and
its distribution are the rates divided by it. -/
def addRateChoice (b : Draft V) (s : Nat) (rates : Distribution V) :
    Except (CheckError V W) (Draft V × Nat) :=
  let exitRate := rates.total
  b.addChoice s (Distribution.ofPairs (rates.pairs.map fun (t, rate) => (t, rate / exitRate)))
    exitRate

/-- The finished model. -/
def build (b : Draft V) : Except (CheckError V W) (Ctmdp V) := do
  return ⟨← b.mdp.build, b.rates.flatten⟩

end Draft

end Ctmdp

end Reachability
