import Reachability.Mdp.Draft
import Reachability.Objective

/-!
# Stochastic games of two players

A `Game` is a Markov decision process in which each state is owned by one of two players.  In
the game of a Markov decision process the first player owns every state.  A `Game.Draft` builds a
game as a `Mdp.Draft` builds its process; a state that is added without an owner belongs to the
first player.
-/

namespace Reachability

variable {V W : Type}

/-- The player with a tag, which must be the tag of one. -/
def Player.ofTag (tag : Int) : Except (CheckError V W) Player :=
  match Player.ofTag? tag with
  | some p => .ok p
  | none => .error (.invalidPlayer tag)

/-- The owners of states after one of them is changed; the tag is checked before the state. -/
def Player.relabel (players : Array Player) (s : Nat) (tag : Int) :
    Except (CheckError V W) (Array Player) := do
  let p ← Player.ofTag tag
  if s < players.size then return players.setIfInBounds s p
  else throw (.stateOutOfRange s players.size)

/-- A Markov decision process with an owner for every state. -/
structure Game (V : Type) where
  mdp : Mdp V
  players : Array Player

namespace Game

/-- The game in which the first player owns every state. -/
def ofMdp (m : Mdp V) : Game V := ⟨m, Array.replicate m.numStates .one⟩

/-- The owner of a state of the game. -/
def owner? (g : Game V) (s : Nat) : Option Player := g.players[s]?

/-- The owner of a state; a state that the game does not have belongs to the first player. -/
def owner (g : Game V) (s : Nat) : Player := (g.owner? s).getD .one

/-- Changes the owner of a state.  If the tag is that of no player, the owner stays. -/
def setPlayer (g : Game V) (s : Nat) (tag : Int) : Except (CheckError V W) (Game V) := do
  return { g with players := ← Player.relabel g.players s tag }

/-- The successors of a choice with their masses, in braces. -/
def successorsText [Written V] (row : List (Nat × V)) : String :=
  "\x7b" ++ ", ".intercalate (row.map fun (s, p) => toString s ++ ": " ++ plainText p) ++ "\x7d"

/-- The choice with its action label in front, if it has one. -/
def choiceText [Written V] (m : Mdp V) (s c : Nat) : String :=
  let body := successorsText (m.successors s c)
  match (m.action? s c).join with
  | some action => action ++ ":" ++ body
  | none => body

/-- A state with its owner and its choices. -/
def stateText [Written V] (g : Game V) (s : Nat) : String :=
  let choices := (List.range (g.mdp.numChoices s)).map (choiceText g.mdp s)
  toString s ++ "(" ++ (g.owner s).name ++ "): [" ++ ",".intercalate choices ++ "]"

/-- All states of the game. -/
def text [Written V] (g : Game V) : String :=
  "[ " ++ ", ".intercalate ((List.range g.mdp.numStates).map g.stateText) ++ " ]"

/-- A game that is being built. -/
structure Draft (V : Type) where
  mdp : Mdp.Draft V
  players : Array Player

namespace Draft

/-- The draft without states. -/
def empty : Draft V := ⟨.empty, #[]⟩

/-- The number of states so far. -/
def numStates (b : Draft V) : Nat := b.players.size

/-- The draft with `count` more states of the first player. -/
def addStates (b : Draft V) (count : Nat) : Draft V :=
  ⟨b.mdp.addStates count, b.players ++ Array.replicate count .one⟩

/-- The draft with one more state for each tag; all tags are checked before any state is
added. -/
def addStatesFor (b : Draft V) (tags : List Int) : Except (CheckError V W) (Draft V) := do
  let players ← tags.mapM Player.ofTag
  return ⟨b.mdp.addStates tags.length, b.players ++ players.toArray⟩

/-- Changes the owner of a state.  If the tag is that of no player, the owner stays. -/
def setPlayer (b : Draft V) (s : Nat) (tag : Int) : Except (CheckError V W) (Draft V) := do
  return { b with players := ← Player.relabel b.players s tag }

/-- The owner of a state so far. -/
def player? (b : Draft V) (s : Nat) : Option Player := b.players[s]?

/-- Adds a choice to a state, and says which of its choices it is. -/
def addChoice (b : Draft V) (s : Nat) (choice : Choice V) :
    Except (CheckError V W) (Draft V × Nat) := do
  let (mdp, c) ← b.mdp.addChoice s choice
  return ({ b with mdp := mdp }, c)

/-- Marks a state as initial. -/
def addInitialState (b : Draft V) (s : Nat) : Except (CheckError V W) (Draft V) := do
  return { b with mdp := ← b.mdp.addInitialState s }

/-- The finished game. -/
def build [Arithmetic V] (b : Draft V) : Except (CheckError V W) (Game V) := do
  return ⟨← b.mdp.build, b.players⟩

end Draft

end Game

end Reachability
