import Reachability.Arithmetic
import Reachability.Arithmetic.Binary
import Reachability.Decimal
import Reachability.Decimal.Shortest
import Reachability.Json
import Reachability.Json.Reader
import Reachability.Json.Writer
import Reachability.StateSet
import Reachability.Objective
import Reachability.Json.Number
import Reachability.Bound
import Reachability.Error
import Reachability.Query
import Reachability.Table
import Reachability.Distribution
import Reachability.SparseRows
import Reachability.ChoiceMatrix
import Reachability.Mdp
import Reachability.Mdp.Draft
import Reachability.Game
import Reachability.Ctmdp
import Reachability.Model
import Reachability.Rewards
import Reachability.Labelling
import Reachability.Bellman
import Reachability.Sweep
import Reachability.Certainty
import Reachability.Settings
import Reachability.Poisson
import Reachability.Notice
import Reachability.Solve.Bounded
import Reachability.Solve.Unbounded
import Reachability.Solve.Timed
import Reachability.Checker
import Reachability.Proofs.Choice
import Reachability.Proofs.Construction
import Reachability.Proofs.Expectation
import Reachability.Proofs.Sweep
import Reachability.Proofs.Formula
import Reachability.Proofs.StepValue
import Reachability.Proofs.Attraction
import Reachability.Proofs.Bounded
import Reachability.Proofs.Sure
import Reachability.Proofs.Path
import Reachability.Proofs.Limit
import Reachability.Proofs.LoopFree
import Reachability.Proofs.Unbounded
import Reachability.Proofs.Progress
import Reachability.Proofs.Strategy
import Reachability.Proofs.Greedy
import Reachability.Proofs.Rates
import Reachability.Proofs.Jumps
import Reachability.Proofs.Weights
import Reachability.Proofs.Coverage
import Reachability.Proofs.Rounding
import Reachability.Proofs.InPlace
import Reachability.Proofs.Truncated
import Reachability.Proofs.Scaled
import Reachability.Proofs.Uniformised
import Reachability.Proofs.Replacement
import Reachability.Proofs.Steps
import Reachability.Proofs.Discretised
import Reachability.Proofs.DiscretisationError
import Reachability.Proofs.Residual
import Reachability.Proofs.Signs
import Reachability.Proofs.Binary
import Reachability.Proofs.Cancellation
import Reachability.Proofs.Passes
import Reachability.Proofs.FixedPoints
import Reachability.Proofs.Rounds
import Reachability.Proofs.Precomputation
import Reachability.Proofs.Restart
import Reachability.Proofs.Refusal
import Reachability.Proofs.Calls
import Reachability.Proofs.Assembly
import Reachability.Proofs.Owners
import Reachability.Proofs.SideTables
import Reachability.Proofs.QueryOrder
import Reachability.Proofs.Stopping
import Reachability.Proofs.Directions
import Reachability.Proofs.Layouts
import Reachability.Proofs.Excess
import Reachability.Proofs.LabelTables
import Reachability.Proofs.RewardTables
import Reachability.Proofs.Comparison
import Reachability.Proofs.PassChanges
import Reachability.Proofs.SameRuns
import Reachability.Proofs.Schedules
import Reachability.Proofs.Starts
import Reachability.Proofs.Traces
import Reachability.Proofs.LastRound
import Reachability.Proofs.Rebuilt
import Reachability.Proofs.StayingPut
import Reachability.Proofs.Derived
import Reachability.Proofs.Loops
import Reachability.Proofs.SearchLoops
import Reachability.Proofs.Accumulation
import Reachability.Proofs.RowCounts
import Reachability.Proofs.Ties
import Reachability.Proofs.SearchSteps
import Reachability.Proofs.Numerals
import Reachability.Proofs.Documents
import Reachability.Proofs.WrittenNumbers
import Reachability.Proofs.SavedSettings
