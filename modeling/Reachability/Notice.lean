import Reachability.Query

/-!
# Notices of the checker

While it answers a query, the checker gives notices of what it has found and done.  A `Sink` says
what becomes of them, and whether it wants one for every round.  An `Account` is the outcome of
a query together with the notices, in the order in which they were given.
-/

namespace Reachability

/-- What the checker gives notice of. -/
inductive Notice (V W : Type) where
  | startingBounded (o : Objective)
  | settled (target no : Nat)
  | round (number : Nat) (value : Option V)
  | finishedBounded (o : Objective) (rounds : Nat)
  | discretising (rate : W) (steps : Nat) (length : W)
  | weighted (expectedJumps : V) (left right : Nat)
  | finishedUniformised (o : Objective) (rounds : Nat)
  | startingUnbounded (o : Objective)
  | decided (yes no maybe : Nat)
  | finishedUnbounded (o : Objective) (rounds : Nat)
  | checking (query : BoundedUntil W)

namespace Notice

variable {V W : Type}

/-- How important a notice is. -/
def level : Notice V W → String
  | round _ _ => "DEBUG"
  | _ => "INFO"

variable [Written V] [Written W]

/-- The end of a notice that says how many rounds were made and in how many seconds. -/
def effort (rounds : Nat) (seconds : String) : String :=
  " took " ++ toString rounds ++ " iterations and " ++ seconds ++ " seconds."

/-- The text of a notice; the seconds are those of work that is finished. -/
def text (seconds : String) : Notice V W → String
  | startingBounded o => "Starting bounded probabilistic reachability (" ++ o.name ++ ")..."
  | settled target no => "target=" ++ toString target ++ ", no=" ++ toString no
  | round number value =>
    "Iteration " ++ toString number ++ ": "
      ++ (match value with
          | some x => "Some(" ++ mixedText x ++ ")"
          | none => "None")
  | finishedBounded o rounds =>
    "Bounded probabilistic reachability (" ++ o.name ++ ")" ++ effort rounds seconds
  | discretising rate steps length =>
    "Discretising CTMDP with maximal rate " ++ plainText rate ++ " into " ++ toString steps
      ++ " steps of length " ++ plainText length
  | weighted expectedJumps left right =>
    "Fox-Glynn (qt = " ++ plainText expectedJumps ++ "): left = " ++ toString left
      ++ ", right = " ++ toString right
  | finishedUniformised o rounds =>
    "Uniformised bounded reachability (" ++ o.name ++ ")" ++ effort rounds seconds
  | startingUnbounded o => "Starting probabilistic reachability (" ++ o.name ++ ")..."
  | decided yes no maybe =>
    "yes=" ++ toString yes ++ ", no=" ++ toString no ++ ", maybe=" ++ toString maybe
  | finishedUnbounded o rounds =>
    "Probabilistic reachability (" ++ o.name ++ ")" ++ effort rounds seconds
  | checking query => "Model checking: " ++ query.text

end Notice

/-- What becomes of notices: they are dropped, handed on, or kept. -/
inductive Sink where
  | silent
  | forwarding (verbose : Bool)
  | keeping (verbose : Bool)
deriving DecidableEq, Repr

namespace Sink

/-- Whether a notice of every round is wanted. -/
def verbose : Sink → Bool
  | silent => false
  | forwarding verbose => verbose
  | keeping verbose => verbose

/-- The notices that are kept when more are given. -/
def keep {V W : Type} (sink : Sink) (kept new : List (Notice V W)) : List (Notice V W) :=
  match sink with
  | keeping _ => kept ++ new
  | _ => kept

end Sink

/-- Whether some of the characters, in a row, are the given ones. -/
def hasSegment (part : List Char) : List Char → Bool
  | [] => part.isEmpty
  | c :: cs => part.isPrefixOf (c :: cs) || hasSegment part cs

/-- Whether a text occurs in another one. -/
def occursIn (part text : String) : Bool := hasSegment part.toList text.toList

/-- The outcome of a query with the notices that were given of it. -/
structure Account (V W α : Type) where
  notices : List (Notice V W)
  outcome : Except (CheckError V W) α

namespace Account

variable {V W α β : Type}

/-- An account without notices. -/
def silent (outcome : Except (CheckError V W) α) : Account V W α := ⟨[], outcome⟩

/-- The account with notices that were given before. -/
def after (earlier : List (Notice V W)) (account : Account V W α) : Account V W α :=
  { account with notices := earlier ++ account.notices }

/-- The account with a function applied to its result. -/
def map (f : α → β) (account : Account V W α) : Account V W β :=
  ⟨account.notices, account.outcome.map f⟩

@[simp]
theorem outcome_silent (outcome : Except (CheckError V W) α) :
  (silent outcome).outcome = outcome
  := rfl

@[simp]
theorem outcome_after (earlier : List (Notice V W)) (account : Account V W α) :
  (account.after earlier).outcome = account.outcome
  := rfl

@[simp]
theorem outcome_map (f : α → β) (account : Account V W α) :
  (account.map f).outcome = account.outcome.map f
  := rfl

end Account

end Reachability
