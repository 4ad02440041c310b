import Mathlib
import Reachability.Proofs.Assembly
import Reachability.Proofs.Replacement

/-!
# Processes that are rebuilt

To replace the distributions of a process, its choices are read off its matrix one after the other
and added to a new draft, which is then finished.  If the process is that of a draft, then the new
draft is that one with its distributions replaced (`Mdp.Draft.mapDistributions_process`).  Hence the
result has the frame of the process: the states, the choices with their actions, and the initial
states.

A process whose rows do not change when they are replaced is rebuilt as it is
(`Mdp.Draft.process_redistributed`).
-/

namespace Reachability

variable {V W : Type}

/-- Two processes have the same frame if they have the same states, the same choices with the same
actions, and the same initial states. -/
structure Mdp.SameFrame (m m' : Mdp V) : Prop where
  numStates : m.numStates = m'.numStates
  numChoices : ∀ s, m.numChoices s = m'.numChoices s
  action? : ∀ s c, m.action? s c = m'.action? s c
  initialStates : m.initialStates = m'.initialStates

namespace Mdp.Draft

variable {b : Draft V} {d : Nat → Nat → Distribution V}

/-! ### Drafts with other distributions -/

/-- The draft whose choices have other distributions, and which starts where its process does. -/
def redistributed (b : Draft V) (d : Nat → Nat → Distribution V) : Draft V where
  choices := b.choices.mapIdx fun s choices =>
    choices.mapIdx fun c choice => ⟨d s c, choice.action⟩
  initialStates := b.startStates

/-- There are as many states as before. -/
@[simp]
theorem numStates_redistributed :
  (b.redistributed d).numStates = b.numStates
  := Array.size_mapIdx

/-- A choice has its new distribution and its old action. -/
@[simp]
theorem choice?_redistributed (s c : Nat) :
  (b.redistributed d).choice? s c = (b.choice? s c).map fun choice => ⟨d s c, choice.action⟩
  := by
  rw [choice?, choice?, redistributed, Array.getElem?_mapIdx]
  cases b.choices[s]? with
  | none => rfl
  | some choices => apply Array.getElem?_mapIdx

/-- A state has as many choices as before. -/
@[simp]
theorem numChoices_redistributed (s : Nat) :
  (b.redistributed d).numChoices s = b.numChoices s
  := by
  rw [numChoices, numChoices, redistributed, Array.getElem?_mapIdx]
  cases b.choices[s]? with
  | none => rfl
  | some choices => apply Array.size_mapIdx

/-- The finished process starts where it did before. -/
@[simp]
theorem startStates_redistributed :
  (b.redistributed d).startStates = b.startStates
  := by
  have hsome : ¬ (b.startStates.isEmpty ∧ 0 < b.numStates) := by
    rintro ⟨hnone, hpos⟩
    rw [startStates] at hnone
    split at hnone
    · cases hnone
    · next h => exact h ⟨hnone, hpos⟩
  rw [startStates, numStates_redistributed]
  apply if_neg hsome

/-- What is made of the choices of two drafts with as many states is the same if it is for each
choice. -/
theorem valuesOf_congr {α : Type} {b b' : Draft V} {f : Choice V → α}
    (hstates : b.numStates = b'.numStates)
    (h : ∀ s c, (b.choice? s c).map f = (b'.choice? s c).map f) :
  b.valuesOf f = b'.valuesOf f
  := by
  have hlength : ∀ b : Draft V, (b.valuesOf f).length = b.numStates := by
    intro b
    apply List.length_map
  apply List.ext_getElem
  · rw [hlength, hlength, hstates]
  · intro s hs hs'
    ext1 c
    have hchoice := h s c
    rw [← getElem?_valuesOf, ← getElem?_valuesOf, List.getElem?_eq_getElem hs,
      List.getElem?_eq_getElem hs'] at hchoice
    exact hchoice

/-! ### The process that is rebuilt -/

variable [Arithmetic V]

/-- Replacing distributions does not change the frame of the process. -/
theorem sameFrame_redistributed :
  (b.redistributed d).process.SameFrame b.process
  where
  numStates := numStates_redistributed
  numChoices s := by
    rw [numChoices_process, numChoices_process, numChoices_redistributed]
  action? s c := by
    rw [action?_process, action?_process, choice?_redistributed, Option.map_map]
    rfl
  initialStates := startStates_redistributed

/-- The row of a choice is that of its new distribution. -/
theorem successors_redistributed {s c : Nat} (hc : c < b.process.numChoices s) :
  (b.redistributed d).process.successors s c = (d s c).row
  := by
  rw [numChoices_process] at hc
  obtain ⟨choice, hchoice⟩ := exists_choice hc
  rw [successors_process, choice?_redistributed, hchoice]
  rfl

/-- If the rows of all choices are as before, then so is the process. -/
theorem process_redistributed (h : ∀ s < b.process.numStates, ∀ c < b.process.numChoices s,
      (d s c).row = b.process.successors s c) :
  (b.redistributed d).process = b.process
  := by
  have hrows : (b.redistributed d).stateRows = b.stateRows := by
    apply valuesOf_congr numStates_redistributed
    intro s c
    rw [choice?_redistributed, Option.map_map]
    cases hchoice : b.choice? s c with
    | none => rfl
    | some choice =>
        obtain ⟨hs, hc⟩ := lt_of_choice?_eq_some hchoice
        have hrow := h s hs c ((b.numChoices_process s).symm ▸ hc)
        rw [successors_process, hchoice] at hrow
        apply congrArg some hrow
  have hactions : (b.redistributed d).actions = b.actions := by
    apply Array.toList_inj.mp
    rw [toList_actions, toList_actions]
    congr 1
    apply valuesOf_congr numStates_redistributed
    intro s c
    rw [choice?_redistributed, Option.map_map]
    rfl
  rw [process, process, hrows, hactions, numStates_redistributed, startStates_redistributed]

/-- The choices of a state of the process, read off its matrix and given other distributions. -/
theorem getElem?_choices_redistributed {s : Nat} (hs : s < b.numStates) :
  (b.redistributed d).choices[s]? = some ((List.range (b.process.numChoices s)).map
    fun c => (⟨d s c, (b.process.action? s c).join⟩ : Choice V)).toArray
  := by
  obtain ⟨choices, hchoices⟩ : ∃ choices, b.choices[s]? = some choices :=
    ⟨_, Array.getElem?_eq_getElem hs⟩
  rw [redistributed, Array.getElem?_mapIdx, hchoices, Option.map_some, numChoices_process,
    numChoices, hchoices, Option.getD_some]
  congr 1
  apply Array.ext_getElem?
  intro c
  simp only [Array.getElem?_mapIdx, List.getElem?_toArray, List.getElem?_map, action?_process,
    choice?, hchoices, Option.bind_some]
  by_cases hc : c < choices.size
  · rw [List.getElem?_range hc, Option.map_some, Array.getElem?_eq_getElem hc]
    rfl
  · rw [Array.getElem?_eq_none (Nat.le_of_not_lt hc),
      List.getElem?_eq_none (by rw [List.length_range]; exact Nat.le_of_not_lt hc)]
    rfl

/-- Replacing the distributions of the process of a draft finishes the draft with the new
distributions, if its initial states exist and none of them is listed twice. -/
theorem mapDistributions_process (hstarted : b.Started) (hnodup : b.initialStates.Nodup)
    (f : Nat → Nat → Distribution V → Distribution V) :
  (b.process.mapDistributions f : Except (CheckError V W) (Mdp V))
    = (b.redistributed fun s c => f s c (b.process.distribution s c)).build
  := by
  obtain ⟨b', hmap, hstates, hchoices, hinitial⟩ :=
    b.process.exists_draft_mapDistributions (W := W) hstarted.process f
  have hsame : b'.choices
      = (b.redistributed fun s c => f s c (b.process.distribution s c)).choices := by
    apply Array.ext_getElem?
    intro s
    by_cases hs : s < b.numStates
    · rw [hchoices s hs, getElem?_choices_redistributed hs]
    · have hnone : ∀ b' : Draft V, b'.numStates = b.numStates → b'.choices[s]? = none := by
        intro b' hb'
        apply Array.getElem?_eq_none
        rw [← numStates, hb']
        apply Nat.le_of_not_lt hs
      rw [hnone b' hstates, hnone _ numStates_redistributed]
  rw [hmap]
  congr 1
  cases b'
  congr 1
  apply hinitial (nodup_startStates hnodup)

/-- The distributions of the process of a draft may be replaced by others that fit, if its initial
states exist and none of them is listed twice.  This does not change the frame of the process, nor
the process if the new rows are the old ones. -/
theorem exists_mapDistributions_process (hstarted : b.Started) (hnodup : b.initialStates.Nodup)
    {f : Nat → Nat → Distribution V → Distribution V}
    (hf : ∀ s < b.process.numStates, ∀ c < b.process.numChoices s,
      ((f s c (b.process.distribution s c)).validate s c b.process.numStates
        : Except (CheckError V W) Unit) = .ok ()) :
  ∃ m, (b.process.mapDistributions f : Except (CheckError V W) (Mdp V)) = .ok m
    ∧ m.Proper ∧ m.SameFrame b.process
    ∧ (∀ s < b.process.numStates, ∀ c < b.process.numChoices s,
      m.successors s c = (f s c (b.process.distribution s c)).row)
    ∧ ((∀ s < b.process.numStates, ∀ c < b.process.numChoices s,
      (f s c (b.process.distribution s c)).row = b.process.successors s c) → m = b.process)
  := by
  have hvalid : ((b.redistributed fun s c => f s c (b.process.distribution s c)).validate
      : Except (CheckError V W) Unit) = .ok () := by
    apply validate_eq_ok_iff.mpr
    intro s c choice hchoice
    rw [choice?_redistributed] at hchoice
    obtain ⟨old, hold, rfl⟩ := Option.map_eq_some_iff.mp hchoice
    obtain ⟨hs, hc⟩ := lt_of_choice?_eq_some hold
    rw [numStates_redistributed]
    apply hf s hs c ((b.numChoices_process s).symm ▸ hc)
  use (b.redistributed fun s c => f s c (b.process.distribution s c)).process
  constructor
  · rw [mapDistributions_process hstarted hnodup]
    apply build_eq_ok_iff.mpr ⟨hvalid, rfl⟩
  refine ⟨proper_process hvalid, sameFrame_redistributed, ?_, process_redistributed⟩
  intro s _ c hc
  apply successors_redistributed hc

end Mdp.Draft

end Reachability
