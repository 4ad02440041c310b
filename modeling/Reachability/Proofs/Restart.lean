import Mathlib
import Reachability.Proofs.Precomputation

/-!
# Runs that start from the answer of another run

A bounded run that starts from the answer of another one goes on where that one has stopped: both
together are one run of as many rounds (`Checker.exists_restart`).

A starting vector is written over on the target and on the states that do not remain.  No round
changes these states, so the answer of a run is a starting vector that stays as it is
(`Arena.startVector_plainVector`).  The second run makes no use of precomputation, since it has a
starting vector.  If the first one does, the rounds of both are alike only because precomputation
changes no vector.
-/

namespace Reachability

variable {V W : Type} [Arithmetic V]

namespace Arena

section Restart

variable {a : Arena V} {settings : Settings W} {u : Until} {o : Objective}
  {init : Option (Array V)}

/-- A vector that rounds have led to is the vector that a run starts from if it is given that
vector. -/
theorem startVector_plainVector (parallel : Bool) (k : Nat) :
  startVector a.numStates u.target (u.unknown a.numStates u.target none)
      (some (a.plainVector u o init parallel k))
    = a.plainVector u o init parallel k
  := by
  have hstart : (startVector a.numStates u.target (u.unknown a.numStates u.target none)
      init).size = a.numStates := size_startVector _ _ _ _
  apply eq_of_valuation_eq
  · rw [plainVector, size_iterate_sweep, hstart, size_startVector]
  · intro s hs
    rw [size_startVector] at hs
    rw [valuation_startVector _ _ _ hs]
    cases hunknown : (u.unknown a.numStates u.target none).contains s with
    | true =>
        have htarget := (Until.contains_unknown.mp hunknown).2.2.1
        rw [htarget, if_neg Bool.false_ne_true, if_pos rfl, Option.elim_some]
    | false =>
        rw [plainVector, valuation_iterate_sweep _ _ _ _ _ hstart hs hunknown,
          valuation_startVector _ _ _ hs, hunknown]
        rfl

/-- Rounds that start from the vector of earlier rounds go on from there. -/
theorem plainVector_add (parallel : Bool) (j k : Nat) :
  a.plainVector u o (some (a.plainVector u o init parallel j)) parallel k
    = a.plainVector u o init parallel (j + k)
  := by
  rw [plainVector, startVector_plainVector, plainVector, plainVector, Nat.add_comm,
    Function.iterate_add_apply]

variable (hplain : ∀ k, a.runVector settings u o init k
  = a.plainVector u o init settings.parallel k)

include hplain

/-- A run that starts from the vector of another run goes through the vectors that come next in
that one. -/
theorem runVector_add (j k : Nat) :
  a.runVector settings u o (some (a.runVector settings u o init j)) k
    = a.runVector settings u o init (j + k)
  := by
  rw [runVector_of_swept fun _ => Option.some_ne_none _, hplain, hplain, plainVector_add]

/-- The results of a run and of one that starts from its answer, but for the first of these, are
those of one run. -/
theorem results_add (j k : Nat) :
  (a.runRounds settings u o (j + k) init).results
    = (a.runRounds settings u o j init).results
      ++ (a.runRounds settings u o k (some (a.runVector settings u o init j))).results.tail
  := by
  have htail : (List.range (k + 1)).tail = (List.range k).map (· + 1) := by
    rw [List.range_succ_eq_map]
    rfl
  simp only [results_runRounds, runVector_add hplain]
  split
  · rw [Nat.add_right_comm, List.range_add, List.map_append, ← List.map_tail, htail, List.map_map,
      List.map_map]
    congr 2
    funext i
    rw [Function.comp_apply, Function.comp_apply, Nat.add_assoc, Nat.add_comm 1 i]
  · rfl

end Restart

end Arena

/-- The runs of a model that can be made have the plain vectors if they do not make use of
precomputation, or under the laws of signs. -/
theorem Model.Built.runVector_eq_plainVector {m : Model V} (hm : m.Built) {settings : Settings W}
    {init : Option (Array V)}
    (hsigns : settings.precomputation = true → init = none → SignLaws V) (u : Until)
    (o : Objective) (k : Nat) :
  m.arena.runVector settings u o init k = m.arena.plainVector u o init settings.parallel k
  := by
  by_cases h : settings.precomputation = true → init ≠ none
  · apply Arena.runVector_of_swept h
  · obtain ⟨hprecomputation, hnone⟩ : settings.precomputation = true ∧ init = none := by
      simpa using h
    have := hsigns hprecomputation hnone
    apply Arena.runVector_eq_plainVector hm.proper_arena hm.carriesMass_arena

namespace Checker

variable (checker : Checker W)

/-- A run of `j` rounds, and then one of `k` rounds from its answer, are a run of `j + k` rounds:
they have the same values, the results of the second but for its first come after those of the
first, and the vector of the round before is the same if the second has rounds.  In the one case
in which the first run makes use of precomputation and the second does not, this is so under the
laws of signs. -/
theorem exists_restart {m : Model V} (hm : m.Built) {u : Until} (hu : u.Within m.numStates)
    (o : Objective) {init : Option (Array V)} (hinit : ∀ v ∈ init, v.size = m.numStates)
    (hsigns : checker.settings.precomputation = true → init = none → SignLaws V) (j k : Nat) :
  ∃ first second whole : BoundedRun V,
    (checker.boundedReach m.arena u j o init : Account V W (BoundedRun V)).outcome = .ok first
      ∧ (checker.boundedReach m.arena u k o (some first.solution.values)
        : Account V W (BoundedRun V)).outcome = .ok second
      ∧ (checker.boundedReach m.arena u (j + k) o init
        : Account V W (BoundedRun V)).outcome = .ok whole
      ∧ second.solution.values = whole.solution.values
      ∧ whole.results = first.results ++ second.results.tail
      ∧ (0 < k → second.solution.previous = whole.solution.previous)
  := by
  rw [← m.numStates_arena] at hu hinit
  have hplain := hm.runVector_eq_plainVector hsigns (u.resized m.arena.numStates) o
  have hfirst := m.arena.values_eq_runVector checker.settings (u.resized m.arena.numStates) o init j
  have hsize : ∀ v ∈ some (m.arena.runRounds checker.settings (u.resized m.arena.numStates) o j
      init).solution.values, v.size = m.arena.numStates := by
    rintro v ⟨⟩
    rw [hfirst, Arena.size_runVector]
  refine ⟨_, _, _, checker.boundedReach_eq_ok hu j o init hinit,
    checker.boundedReach_eq_ok hu k o _ hsize,
    checker.boundedReach_eq_ok hu (j + k) o init hinit, ?_, ?_, ?_⟩
  · rw [hfirst, Arena.values_eq_runVector, Arena.values_eq_runVector, Arena.runVector_add hplain]
  · rw [hfirst]
    apply Arena.results_add hplain
  · intro hk
    rw [hfirst, Arena.previous_runRounds, Arena.previous_runRounds, Arena.runVector_add hplain,
      Nat.add_sub_assoc hk]

/-- In the sample game, two rounds from the answer of a first one are three rounds. -/
theorem exists_restart_sample :
  ∃ first second whole : BoundedRun ℝ,
    (sample.boundedReach Model.sample.arena .sample 1 .opposed none
      : Account ℝ ℝ (BoundedRun ℝ)).outcome = .ok first
      ∧ (sample.boundedReach Model.sample.arena .sample 2 .opposed (some first.solution.values)
        : Account ℝ ℝ (BoundedRun ℝ)).outcome = .ok second
      ∧ (sample.boundedReach Model.sample.arena .sample (1 + 2) .opposed none
        : Account ℝ ℝ (BoundedRun ℝ)).outcome = .ok whole
      ∧ second.solution.values = whole.solution.values
      ∧ whole.results = first.results ++ second.results.tail
      ∧ (0 < 2 → second.solution.previous = whole.solution.previous)
  := sample.exists_restart Model.built_sample Until.within_sample .opposed (by rintro v ⟨⟩)
    (fun _ _ => inferInstance) 1 2

end Checker

end Reachability
