import Reachability.Arithmetic
import Reachability.Json

/-!
# Players, directions and objectives

A `Player` owns states, a `Direction` says whether a player minimises or maximises, and an
`Objective` gives each player a direction.
-/

namespace Reachability

/-- The owner of a state. -/
inductive Player where
  | one
  | two
deriving DecidableEq, Repr

namespace Player

/-- The number by which a player is known outside. -/
def tag : Player → Int
  | one => 1
  | two => 2

/-- The player with a given tag. -/
def ofTag? (tag : Int) : Option Player :=
  if tag = 1 then some one else if tag = 2 then some two else none

/-- The name of a player. -/
def name (p : Player) : String := "P-" ++ toString p.tag

/-- A tag is that of the player who has it, and other tags are those of no player. -/
theorem ofTag?_eq_some_iff {tag : Int} {p : Player} :
  ofTag? tag = some p ↔ p.tag = tag
  := by
  rw [ofTag?]
  split
  · next hone =>
      subst hone
      cases p <;> decide
  · next hone =>
      split
      · next htwo =>
          subst htwo
          cases p <;> decide
      · next htwo =>
          cases p with
          | one => exact iff_of_false nofun (Ne.symm hone)
          | two => exact iff_of_false nofun (Ne.symm htwo)

end Player

/-- Whether a player minimises or maximises. -/
inductive Direction where
  | min
  | max
deriving DecidableEq, Repr

namespace Direction

/-- Whether the direction is to minimise. -/
def isMin (d : Direction) : Bool := d == min

/-- The direction of a player that minimises if the flag is set. -/
def ofFlag (isMin : Bool) : Direction := if isMin then min else max

/-- The name of a direction. -/
def name : Direction → String
  | min => "min"
  | max => "max"

/-- The direction with a given name. -/
def ofName? (name : String) : Option Direction :=
  if name = "min" then some min else if name = "max" then some max else none

/-- Whether a candidate is strictly better than the best value so far. -/
def improves {V : Type} [Arithmetic V] (d : Direction) (candidate best : V) : Bool :=
  match d with
  | min => decide (candidate < best)
  | max => decide (best < candidate)

/-- A direction is found by its name. -/
theorem ofName?_name (d : Direction) :
  ofName? d.name = some d
  := by
  cases d <;> rfl

end Direction

/-- The direction of each player.  Where there is one player only, the direction of the second
does not matter. -/
structure Objective where
  player1 : Direction
  player2 : Direction
deriving DecidableEq, Repr

namespace Objective

/-- The objective in which both players minimise or maximise as the flags say. -/
def ofFlags (isMin1 isMin2 : Bool) : Objective :=
  ⟨Direction.ofFlag isMin1, Direction.ofFlag isMin2⟩

/-- Both players minimise. -/
def min : Objective := ⟨.min, .min⟩

/-- Both players maximise. -/
def max : Objective := ⟨.max, .max⟩

/-- The direction of a player. -/
def directionOf (o : Objective) : Player → Direction
  | .one => o.player1
  | .two => o.player2

/-- The name of the common direction, or the names of both. -/
def name (o : Objective) : String :=
  if o.player1 = o.player2 then o.player1.name else o.player1.name ++ o.player2.name

/-- The objective as a document. -/
def toJson (o : Objective) : Json :=
  .object [("player1", .string o.player1.name), ("player2", .string o.player2.name)]

end Objective

end Reachability
