import Reachability.Model

/-!
# States with probability zero and one

`Arena.zeroStates` are the states from which the optimal probability of reaching the target,
while all states before it remain in a set, is zero, and `Arena.sureStates` those from which it
is one.  Both are found by graph search, which looks at a mass only to see whether it is positive.

One step of the search asks of each state of a set whether all choices satisfy a condition, or
some choice, as the flag of its owner says.  `Arena.zeroStates` is the complement of the least
fixed point of such a step, and `Arena.sureStates` is the greatest fixed point of a least one.
Each iteration stops when it finds the same states twice in a row.
-/

namespace Reachability

variable {V : Type} [Arithmetic V]

/-- Whether some successor with positive mass lies in the set. -/
def hits (set : StateSet) (row : List (Nat × V)) : Bool :=
  row.any fun (s, p) => decide (0 < p) && set.contains s

/-- Whether all successors with positive mass lie in the set. -/
def staysIn (set : StateSet) (row : List (Nat × V)) : Bool :=
  row.all fun (s, p) => decide (p ≤ 0) || set.contains s

/-- For each player, whether all choices must satisfy a condition, and not just some choice. -/
structure Quantifiers where
  forAll1 : Bool
  forAll2 : Bool
deriving DecidableEq, Repr

/-- The flag of a player. -/
def Quantifiers.forAll (q : Quantifiers) : Player → Bool
  | .one => q.forAll1
  | .two => q.forAll2

/-- A player that minimises must be beaten on all choices, one that maximises on some choice. -/
def Objective.quantifiers (o : Objective) : Quantifiers :=
  ⟨o.player1.isMin, o.player2.isMin⟩

/-- The set with or without a state, as the flag says. -/
def StateSet.assign (set : StateSet) (s : Nat) (present : Bool) : StateSet :=
  if present then set.insert s else set.erase s

/-- The set with or without a state, as the flag says; it must have room for a state that is
removed. -/
def StateSet.assign? (set : StateSet) (s : Nat) (present : Bool) : Option StateSet :=
  if present then some (set.insert s) else set.erase? s

/-- Assigning a state decides its membership and that of no other state. -/
@[simp]
theorem StateSet.contains_assign (set : StateSet) (s t : Nat) (present : Bool) :
  (set.assign s present).contains t = if t = s then present else set.contains t
  := by
  unfold assign
  by_cases h : t = s
  · cases present <;> simp [h]
  · cases present <;> simp [h]

/-- Searches for a set that a step leaves as it is, for a limited number of steps. -/
def settle (step : StateSet → StateSet) : Nat → StateSet → StateSet
  | 0, set => set
  | steps + 1, set =>
    let next := step set
    if set.sameStates next then set else settle step steps next

namespace Arena

variable (a : Arena V)

/-- Whether all or some of the choices of a state satisfy a condition on their successors. -/
def quantified (q : Quantifiers) (condition : List (Nat × V) → Bool) (s : Nat) : Bool :=
  let rows := (List.range (a.mdp.numChoices s)).map (a.mdp.successors s)
  if q.forAll (a.owner s) then rows.all condition else rows.any condition

/-- The states of a set that the model has. -/
def statesOf (set : StateSet) : List Nat := set.toList.filter fun s => decide (s < a.numStates)

/-- Puts each state of `subset` into the result or takes it out, as its choices satisfy the
condition or not. -/
def decideStates (q : Quantifiers) (condition : List (Nat × V) → Bool)
    (subset result : StateSet) : StateSet :=
  (a.statesOf subset).foldl (fun r s => r.assign s (a.quantified q condition s)) result

/-- As `decideStates`, for a result that may be too small to take a state out of it. -/
def decideStates? (q : Quantifiers) (condition : List (Nat × V) → Bool)
    (subset result : StateSet) : Option StateSet :=
  (a.statesOf subset).foldlM (fun (r : StateSet) s => r.assign? s (a.quantified q condition s))
    result

/-- The condition that a choice can move into `u`. -/
def reaches (u : StateSet) (row : List (Nat × V)) : Bool := hits u row

/-- The condition that a choice stays inside `u` and can move into `v`. -/
def reachesWithin (u v : StateSet) (row : List (Nat × V)) : Bool := staysIn u row && hits v row

/-- The states that are still open: those in `remain` and not in the target that have a
choice. -/
def openStates (remain : Option StateSet) (target : StateSet) : StateSet :=
  let candidates := match remain with
    | some r => r.difference target a.numStates
    | none => target.complement a.numStates
  .ofList a.numStates (candidates.toList.filter fun s => decide (0 < a.mdp.numChoices s))

variable (remain : Option StateSet) (target : StateSet) (o : Objective)

/-- The target and the open states from which the players cannot avoid to move into `u`. -/
def attract (u : StateSet) : StateSet :=
  a.decideStates o.quantifiers (reaches u) (a.openStates remain target) (target.below a.numStates)

/-- The target and the open states from which the players cannot avoid to move into `v` while
they stay inside `u`. -/
def attractWithin (u v : StateSet) : StateSet :=
  a.decideStates o.quantifiers (reachesWithin u v) (a.openStates remain target)
    (target.below a.numStates)

/-- The states from which the target is reached with positive probability. -/
def positiveStates : StateSet :=
  settle (a.attract remain target o) (a.numStates + 1) (target.below a.numStates)

/-- The states from which the optimal probability is zero. -/
def zeroStates : StateSet := (a.positiveStates remain target o).complement a.numStates

/-- The states from which the target is reached with positive probability by moves that stay
inside `u`. -/
def positiveWithin (u : StateSet) : StateSet :=
  settle (a.attractWithin remain target o u) (a.numStates + 1) (target.below a.numStates)

/-- The states from which the optimal probability is one. -/
def sureStates : StateSet :=
  settle (a.positiveWithin remain target o) (a.numStates + 1) (.full a.numStates)

end Arena

end Reachability
