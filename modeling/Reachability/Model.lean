import Reachability.Ctmdp
import Reachability.Game

/-!
# Models of any kind

A `Model` is a Markov decision process, a game, or a process in continuous time.  The numerical
and the qualitative analyses see of it only its `Arena`: the embedded process, and the owner of
each state.
-/

namespace Reachability

/-- What the analyses see of a model. -/
structure Arena (V : Type) where
  mdp : Mdp V
  owner : Nat → Player

namespace Arena

variable {V : Type}

/-- The number of states. -/
def numStates (a : Arena V) : Nat := a.mdp.numStates

/-- The direction that an objective gives the owner of a state. -/
def direction (a : Arena V) (o : Objective) (s : Nat) : Direction := o.directionOf (a.owner s)

end Arena

variable {V : Type}

/-- A process whose states all belong to the first player. -/
def Mdp.arena (m : Mdp V) : Arena V := ⟨m, fun _ => .one⟩

/-- The process of a game with the owners of its states. -/
def Game.arena (g : Game V) : Arena V := ⟨g.mdp, g.owner⟩

/-- The jump process of a model in continuous time. -/
def Ctmdp.arena (m : Ctmdp V) : Arena V := m.mdp.arena

/-- A model of any kind. -/
inductive Model (V : Type) where
  | mdp (m : Mdp V)
  | game (g : Game V)
  | ctmdp (m : Ctmdp V)

namespace Model

/-- The kind of a model. -/
def kind : Model V → ModelKind
  | mdp _ => .mdp
  | game _ => .stpg
  | ctmdp _ => .ctmdp

/-- The embedded process of a model. -/
def process : Model V → Mdp V
  | mdp m => m
  | game g => g.mdp
  | ctmdp m => m.mdp

/-- The number of states of a model. -/
def numStates (m : Model V) : Nat := m.process.numStates

/-- The owner of a state.  A model with one player answers for any index, and a game for its
states. -/
def owner? : Model V → Nat → Option Player
  | game g, s => g.owner? s
  | _, _ => some .one

/-- What the analyses see of a model. -/
def arena : Model V → Arena V
  | mdp m => m.arena
  | game g => g.arena
  | ctmdp m => m.arena

/-- The text of a model: all states of a game, and otherwise the summary of the process. -/
def text [Written V] : Model V → String
  | game g => g.text
  | m => m.process.text

end Model

end Reachability
