import Mathlib
import Reachability.Proofs.Starts

/-!
# Counting rows and transitions

A process finds the row of a choice by the starts of the rows of each state.  In a process that is
built, these starts lay the rows out without gaps and overlaps: the rows of all choices, in the
order of the states and of their choices, are all rows of the matrix in their order
(`Mdp.RowsInOrder`).  So each row is that of exactly one choice, and what is counted row by row is
counted choice by choice (`Mdp.RowsInOrder.sum_choices`).  In particular the stored transitions of
a model that calls make are those of all of its choices (`Model.MadeBy.rows_counted`).
-/

namespace Reachability

variable {V W : Type}

/-! ### Places in lists that are put together -/

/-- If lists are put together, then the places of their members, list by list, are all places in
order. -/
theorem SparseRows.flatMap_places {α : Type} (lists : List (List α)) :
  ((List.range lists.length).flatMap fun s =>
      (List.range (lists[s]?.getD []).length).map fun c => (lists.take s).flatten.length + c)
    = List.range lists.flatten.length
  := by
  induction lists using List.reverseRecOn with
  | nil => rfl
  | append_singleton lists last ih =>
      -- the places in the lists before the last one do not depend on it
      have hbefore : ∀ s ∈ List.range lists.length,
          ((List.range ((lists ++ [last])[s]?.getD []).length).map fun c =>
              ((lists ++ [last]).take s).flatten.length + c)
            = (List.range (lists[s]?.getD []).length).map fun c =>
              (lists.take s).flatten.length + c := by
        intro s hs
        rw [List.mem_range] at hs
        rw [List.getElem?_append_left hs, List.take_append_of_le_length hs.le]
      rw [List.length_append, List.length_singleton, List.range_succ, List.flatMap_append,
        List.flatMap_congr hbefore, ih, List.flatten_append, List.length_append, List.range_add]
      simp

namespace SparseRows

/-- The rows that are stored have as many entries as are stored, together. -/
theorem sum_length_row (columns : Nat) (rows : List (List (Nat × V))) :
  ((List.range (ofRows columns rows).numRows).map fun r => ((ofRows columns rows).row r).length).sum
    = (ofRows columns rows).numEntries
  := by
  have hrows : ((List.range rows.length).map fun r => ((ofRows columns rows).row r).length)
      = rows.map List.length := by
    apply List.ext_getElem
    · rw [List.length_map, List.length_map, List.length_range]
    · intro r hr hr'
      rw [List.length_map] at hr'
      rw [List.getElem_map, List.getElem_map, List.getElem_range, row_ofRows columns rows r hr']
  rw [numRows_ofRows, hrows, numEntries_ofRows, List.length_flatten]

end SparseRows

/-! ### Processes whose rows are in order -/

namespace Mdp

/-- The rows of a process are in order if the rows of its choices, state by state and choice by
choice, are all rows of its matrix in their order. -/
def RowsInOrder (m : Mdp V) : Prop :=
  (m.choicePairs.map fun pair => m.rowIndex? pair.1 pair.2) = (List.range m.numRows).map some

/-- What is counted for the pairs of states and choices is counted for the choices of each
state. -/
theorem sum_choicePairs (m : Mdp V) (count : Nat → Nat → Nat) :
  (m.choicePairs.map fun pair => count pair.1 pair.2).sum
    = ((List.range m.numStates).map fun s =>
      ((List.range (m.numChoices s)).map fun c => count s c).sum).sum
  := by
  rw [choicePairs, List.map_flatMap, List.flatMap_def, List.sum_flatten, List.map_map]
  simp only [Function.comp_def, List.map_map]

/-- The transitions are counted choice by choice. -/
theorem countTransitions_eq_sum (m : Mdp V) :
  m.countTransitions = ((List.range m.numStates).map fun s =>
    ((List.range (m.numChoices s)).map fun c => (m.successors s c).length).sum).sum
  := by
  rw [← m.sum_choicePairs fun s c => (m.successors s c).length, List.sum_eq_foldl, List.foldl_map]
  rfl

/-- A choice has a row if and only if the model has the choice. -/
theorem exists_rowIndex?_iff {m : Mdp V} {pair : Nat × Nat} :
  (∃ r, m.rowIndex? pair.1 pair.2 = some r) ↔ pair ∈ m.choicePairs
  := by
  obtain ⟨s, c⟩ := pair
  rw [mem_choicePairs, rowIndex?, ChoiceMatrix.rowIndex?, numChoices]
  split
  · next hs => simp [hs]
  · next hs => simp [hs]

namespace RowsInOrder

variable {m : Mdp V} (h : m.RowsInOrder)

include h

/-- There are as many rows as choices of all states together. -/
theorem numRows_eq :
  m.numRows = ((List.range m.numStates).map m.numChoices).sum
  := by
  have hlength := congrArg List.length h
  rw [List.length_map, List.length_map, List.length_range] at hlength
  rw [← hlength, choicePairs, List.length_flatMap]
  simp

/-- The pair at a place has the row with that number. -/
theorem rowIndex?_getElem {r : Nat} (hr : r < m.choicePairs.length) :
  m.rowIndex? m.choicePairs[r].1 m.choicePairs[r].2 = some r
  := by
  have hplace := congrArg (fun rows => rows[r]?) h
  have hlength := congrArg List.length h
  rw [List.length_map, List.length_map, List.length_range] at hlength
  simp only [List.getElem?_map] at hplace
  rw [List.getElem?_eq_getElem hr, List.getElem?_range (hlength ▸ hr)] at hplace
  exact Option.some_inj.mp hplace

/-- Each row is that of exactly one pair of a state and a choice. -/
theorem existsUnique_pair {r : Nat} (hr : r < m.numRows) :
  ∃! pair : Nat × Nat, m.rowIndex? pair.1 pair.2 = some r
  := by
  have hlength := congrArg List.length h
  rw [List.length_map, List.length_map, List.length_range] at hlength
  rw [← hlength] at hr
  refine ⟨m.choicePairs[r], h.rowIndex?_getElem hr, ?_⟩
  intro pair hpair
  -- a pair with this row is listed at some place, and the row has the number of that place
  obtain ⟨i, hi, rfl⟩ := List.mem_iff_getElem.mp (exists_rowIndex?_iff.mp ⟨r, hpair⟩)
  rw [h.rowIndex?_getElem hi, Option.some_inj] at hpair
  subst hpair
  rfl

/-- The row of a choice is one of the rows. -/
theorem lt_numRows {s c r : Nat} (hr : m.rowIndex? s c = some r) :
  r < m.numRows
  := by
  have hmem : some r ∈ m.choicePairs.map fun pair => m.rowIndex? pair.1 pair.2 :=
    List.mem_map.mpr ⟨(s, c), exists_rowIndex?_iff.mp ⟨r, hr⟩, hr⟩
  rw [h] at hmem
  obtain ⟨r', hr', hsame⟩ := List.mem_map.mp hmem
  cases hsame
  apply List.mem_range.mp hr'

/-- What is counted for the successors of all choices is counted for all rows. -/
theorem sum_choices (count : List (Nat × V) → Nat) :
  (m.choicePairs.map fun pair => count (m.successors pair.1 pair.2)).sum
    = ((List.range m.numRows).map fun r => count (m.matrix.transitions.row r)).sum
  := by
  have hsuccessors : ∀ pair ∈ m.choicePairs, count (m.successors pair.1 pair.2)
      = ((m.rowIndex? pair.1 pair.2).map fun r => count (m.matrix.transitions.row r)).getD 0 := by
    intro pair hpair
    obtain ⟨r, hr⟩ := exists_rowIndex?_iff.mpr hpair
    have hfound : m.successors? pair.1 pair.2 = some (m.matrix.transitions.row r) := by
      rw [successors?, hr]
      rfl
    rw [hr, successors_eq hfound]
    rfl
  have hrows := congrArg (List.map fun row? : Option Nat =>
    (row?.map fun r => count (m.matrix.transitions.row r)).getD 0) h
  rw [List.map_map, List.map_map] at hrows
  rw [List.map_congr_left hsuccessors]
  exact congrArg List.sum hrows

end RowsInOrder

/-- The process of a draft has its rows in order. -/
theorem Draft.rowsInOrder_process [Arithmetic V] (b : Draft V) :
  b.process.RowsInOrder
  := by
  have hstates : b.process.numStates = b.stateRows.length := by
    rw [stateRows, List.length_map, Array.length_toList]
    rfl
  have hrow : ∀ s ∈ List.range b.stateRows.length,
      ((List.range (b.process.numChoices s)).map fun c => b.process.rowIndex? s c)
        = ((List.range (b.stateRows[s]?.getD []).length).map fun c =>
          (b.stateRows.take s).flatten.length + c).map some := by
    intro s hs
    rw [List.mem_range, ← hstates] at hs
    have hnum : b.process.numChoices s = (b.stateRows[s]?.getD []).length :=
      ChoiceMatrix.numChoices_ofStates _ _ s
    rw [hnum, List.map_map]
    apply List.map_congr_left
    intro c hc
    rw [Mdp.rowIndex?, if_pos hs]
    apply Eq.trans (ChoiceMatrix.rowIndex?_ofStates _ _ s c)
    apply if_pos (List.mem_range.mp hc)
  have hnumRows : b.process.numRows = b.stateRows.flatten.length := SparseRows.numRows_ofRows _ _
  rw [RowsInOrder, choicePairs, List.map_flatMap, hstates, hnumRows]
  simp only [List.map_map, Function.comp_def]
  rw [List.flatMap_congr hrow, ← List.map_flatMap, SparseRows.flatMap_places]

/-- The stored transitions of the process of a draft are those of its choices. -/
theorem Draft.numTransitions_process [Arithmetic V] (b : Draft V) :
  b.process.numTransitions = b.process.countTransitions
  := by
  rw [countTransitions_eq_sum,
    ← sum_choicePairs b.process fun s c => (b.process.successors s c).length,
    b.rowsInOrder_process.sum_choices List.length]
  symm
  apply SparseRows.sum_length_row

/-- The rows of each state of the process of a draft have a start. -/
theorem Draft.exists_rowStart [Arithmetic V] (b : Draft V) {s : Nat}
    (hs : s < b.process.numStates) :
  ∃ start, b.process.matrix.rowStarts[s]? = some start
  := by
  have hlt : s < b.process.matrix.rowStarts.size := by
    change s < (SparseRows.offsetsFrom 0 b.stateRows).toArray.size
    rw [List.size_toArray, SparseRows.length_offsetsFrom, stateRows, List.length_map,
      Array.length_toList]
    apply Nat.lt_succ_of_lt hs
  exact ⟨_, Array.getElem?_eq_getElem hlt⟩

end Mdp

/-- A process, a game or a model in continuous time that calls make stores as many transitions as
are counted choice by choice, and has as many rows as all states have choices.  The row of a choice
is found at the start of the rows of its state, and each row is that of exactly one choice of one
state. -/
theorem Model.MadeBy.rows_counted [Arithmetic V] {m : Model V} {layout : Layout V}
    (h : m.MadeBy layout) :
  m.process.numTransitions = m.process.countTransitions
    ∧ m.process.countTransitions = ((List.range m.process.numStates).map fun s =>
      ((List.range (m.process.numChoices s)).map fun c => (m.process.successors s c).length).sum).sum
    ∧ m.process.numRows = ((List.range m.process.numStates).map m.process.numChoices).sum
    ∧ (∀ s < m.process.numStates, ∀ c < m.process.numChoices s, ∃ start,
      m.process.matrix.rowStarts[s]? = some start
        ∧ m.process.rowIndex? s c = some (start + c) ∧ start + c < m.process.numRows)
    ∧ ∀ r < m.process.numRows, ∃! pair : Nat × Nat, m.process.rowIndex? pair.1 pair.2 = some r
  := by
  obtain ⟨b, -, hprocess⟩ := h.exists_started
  rw [hprocess]
  have hrows := b.rowsInOrder_process
  refine ⟨b.numTransitions_process, b.process.countTransitions_eq_sum, hrows.numRows_eq, ?_,
    fun r hr => hrows.existsUnique_pair hr⟩
  intro s hs c hc
  obtain ⟨start, hstart⟩ := b.exists_rowStart hs
  have hrow : b.process.rowIndex? s c = some (start + c) := by
    rw [Mdp.rowIndex?, if_pos hs, ChoiceMatrix.rowIndex?, Array.getD_eq_getD_getElem?, hstart]
    apply if_pos hc
  exact ⟨start, hstart, hrow, hrows.lt_numRows hrow⟩

/-- The game that the shuffled calls make has three choices of state `0`, one of state `1` and none
of state `2`, and each of its four rows is that of exactly one of them. -/
theorem Model.MadeBy.rows_counted_shuffled :
  let m : Model ℝ := .game ⟨(Game.Draft.journal ℝ Game.Draft.shuffled).state.mdp.process,
    (Game.Draft.journal ℝ Game.Draft.shuffled).state.players⟩
  m.MadeBy (.ofGame (Game.Draft.journal ℝ Game.Draft.shuffled).accepted)
    ∧ m.process.numTransitions = m.process.countTransitions
    ∧ (List.range m.process.numStates).map m.process.numChoices = [3, 1, 0]
    ∧ m.process.numRows = 4
    ∧ ∀ r < 4, ∃! pair : Nat × Nat, m.process.rowIndex? pair.1 pair.2 = some r
  := by
  intro m
  obtain ⟨htransitions, -, hnum, -, hunique⟩ := Game.Draft.madeBy_shuffled.rows_counted
  have hchoices : (List.range m.process.numStates).map m.process.numChoices = [3, 1, 0] := by
    apply List.map_congr_left fun s _ => Mdp.Draft.numChoices_process _ s
  have hrows : m.process.numRows = 4 := by
    rw [hnum, hchoices]
    rfl
  rw [hrows] at hunique
  exact ⟨Game.Draft.madeBy_shuffled, htransitions, hchoices, hrows, hunique⟩

end Reachability
