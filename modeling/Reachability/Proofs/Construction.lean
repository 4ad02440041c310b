import Mathlib
import Reachability.Model

/-!
# What models are built from

The finished process of a draft holds, for every choice of every state, the row of the
distribution that the choice was given (`Mdp.Draft.successors_process`).  Hence the rows of a
built process are proper (`Mdp.Proper`): their successors are states in ascending order, and
all masses are positive.

`Model.Built` are the models that drafts finish, together with the games that are made from
processes and those whose owners are changed.
-/

namespace Reachability

variable {V W : Type}

/-! ### Rows that are stored state by state -/

/-- Members of one of several lists follow those of the lists before it. -/
theorem SparseRows.getElem?_flatten {α : Type} (lists : List (List α)) {s : Nat}
    (hs : s < lists.length) {c : Nat} (hc : c < lists[s].length) :
  lists.flatten[(lists.take s).flatten.length + c]? = lists[s][c]?
  := by
  rw [← List.getElem?_drop, ← List.getElem?_take_of_lt hc, take_drop_flatten lists s hs]

namespace ChoiceMatrix

/-- The matrix of the rows of all choices, state by state. -/
def ofStates (columns : Nat) (states : List (List (List (Nat × V)))) : ChoiceMatrix V :=
  ⟨(SparseRows.offsetsFrom 0 states).toArray, SparseRows.ofRows columns states.flatten⟩

variable (columns : Nat) (states : List (List (List (Nat × V))))

/-- The rows of a state that exists start after those of the states before it. -/
theorem rowStarts_ofStates (s : Nat) (h : s ≤ states.length) :
  (ofStates columns states).rowStarts.getD s 0 = (states.take s).flatten.length
  := by
  rw [ofStates, Array.getD_eq_getD_getElem?, List.getElem?_toArray,
    SparseRows.getElem?_offsetsFrom 0 states s h, Option.getD_some, Nat.zero_add]

/-- A state has as many choices as it was given rows. -/
theorem numChoices_ofStates (s : Nat) :
  (ofStates columns states).numChoices s = (states[s]?.getD []).length
  := by
  rw [numChoices]
  by_cases h : s < states.length
  · rw [rowStarts_ofStates _ _ s (le_of_lt h), rowStarts_ofStates _ _ (s + 1) h,
      SparseRows.length_flatten_take_add_one states s h, Nat.add_sub_cancel_left,
      List.getElem?_eq_getElem h, Option.getD_some]
  · have hstop : (ofStates columns states).rowStarts.getD (s + 1) 0 = 0 := by
      rw [ofStates, Array.getD_eq_getD_getElem?, List.getElem?_toArray,
        List.getElem?_eq_none (by rw [SparseRows.length_offsetsFrom]; omega), Option.getD_none]
    rw [hstop, Nat.zero_sub, List.getElem?_eq_none (Nat.le_of_not_lt h), Option.getD_none,
      List.length_nil]

/-- The row of a choice comes after those of the states before it. -/
theorem rowIndex?_ofStates (s c : Nat) :
  (ofStates columns states).rowIndex? s c
    = if c < (states[s]?.getD []).length then some ((states.take s).flatten.length + c) else none
  := by
  rw [rowIndex?, numChoices_ofStates]
  split
  · next hc =>
      have hs : s < states.length := by
        by_contra hs
        rw [List.getElem?_eq_none (Nat.le_of_not_lt hs)] at hc
        apply Nat.not_lt_zero c hc
      rw [rowStarts_ofStates _ _ s hs.le]
  · rfl

/-- What is listed state by state, with one member for each row, is found at the row of a
choice. -/
theorem bind_rowIndex?_ofStates {α : Type} {values : List (List α)}
    (hsizes : values.map List.length = states.map List.length) (s c : Nat) :
  ((ofStates columns states).rowIndex? s c).bind (fun r => values.flatten[r]?)
    = (values[s]?.getD [])[c]?
  := by
  have hbefore : (values.take s).flatten.length = (states.take s).flatten.length := by
    rw [List.length_flatten, List.length_flatten, List.map_take, List.map_take, hsizes]
  have hstate : (values[s]?.getD []).length = (states[s]?.getD []).length := by
    have hs := congrArg (fun sizes => sizes[s]?.getD 0) hsizes
    simp only [List.getElem?_map] at hs
    cases hv : values[s]? <;> cases ht : states[s]? <;> simp_all
  rw [rowIndex?_ofStates, ← hstate, ← hbefore]
  split
  · next hc =>
      have hs : s < values.length := by
        by_contra hs
        rw [List.getElem?_eq_none (Nat.le_of_not_lt hs)] at hc
        apply Nat.not_lt_zero c hc
      rw [List.getElem?_eq_getElem hs, Option.getD_some] at hc ⊢
      apply SparseRows.getElem?_flatten values hs hc
  · next hc => rw [Option.bind_none, List.getElem?_eq_none (Nat.le_of_not_lt hc)]

variable {columns states} in
/-- The rows of choices are among those of all states. -/
theorem lt_of_rowIndex?_ofStates {s c r : Nat}
    (h : (ofStates columns states).rowIndex? s c = some r) :
  r < states.flatten.length
  := by
  have hfound := bind_rowIndex?_ofStates columns states rfl s c
  rw [h, Option.bind_some] at hfound
  rw [rowIndex?, numChoices_ofStates] at h
  split at h
  · next hc =>
      rw [List.getElem?_eq_getElem hc] at hfound
      apply (List.getElem?_eq_some_iff.mp hfound).1
  · cases h

/-- The row of a choice is the one that its state was given for it. -/
theorem successors_ofStates (s c : Nat) :
  (ofStates columns states).successors s c = ((states[s]?.getD [])[c]?).getD []
  := by
  rw [successors, ← bind_rowIndex?_ofStates columns states rfl s c]
  cases hrow : (ofStates columns states).rowIndex? s c with
  | none => rfl
  | some r =>
      have hlt := lt_of_rowIndex?_ofStates hrow
      rw [Option.bind_some, List.getElem?_eq_getElem hlt, Option.getD_some]
      apply SparseRows.row_ofRows columns states.flatten r hlt

end ChoiceMatrix

/-! ### The rows of a draft -/

namespace ChoiceMatrix.Draft

variable [Arithmetic V]

/-- The rows of choices are added at the end. -/
theorem foldl_push (choices : List (Choice V)) (m : Draft V) :
  choices.foldl (fun rows choice => rows.push choice.distribution) m
    = { m with rows := m.rows ++ (choices.map fun choice => choice.distribution.row).toArray }
  := by
  induction choices generalizing m with
  | nil => simp
  | cons choice choices ih =>
      rw [List.foldl_cons, ih]
      simp [push]

/-- The draft after the choices of one more state. -/
def addState (m : Draft V) (choices : Array (Choice V)) : Draft V :=
  (choices.foldl (fun rows choice => rows.push choice.distribution) m).finishState

/-- After the choices of further states, their rows stand at the end, and the starts go on
where they were. -/
theorem foldl_addState (states : List (Array (Choice V))) (m : Draft V) :
  states.foldl addState m
    = { columns := m.columns
        rows := m.rows ++ (states.flatMap fun choices =>
          choices.toList.map fun choice => choice.distribution.row).toArray
        starts := m.starts ++ (SparseRows.offsetsFrom m.numRows (states.map fun choices =>
          choices.toList.map fun choice => choice.distribution.row)).tail.toArray }
  := by
  induction states generalizing m with
  | nil => simp [SparseRows.offsetsFrom]
  | cons choices states ih =>
      have hstate : m.addState choices =
          { columns := m.columns
            rows := m.rows ++ (choices.toList.map fun choice => choice.distribution.row).toArray
            starts := m.starts.push (m.numRows + choices.size) } := by
        rw [addState, ← Array.foldl_toList, foldl_push]
        simp [finishState, numRows]
      rw [List.foldl_cons, ih, hstate]
      cases states with
      | nil => simp [SparseRows.offsetsFrom, numRows]
      | cons next states => simp [SparseRows.offsetsFrom, numRows]

end ChoiceMatrix.Draft

/-- Two computations in a row succeed if the first one does, and the second one does with its
result. -/
theorem Except.bind_eq_ok_iff {ε α β : Type} {x : Except ε α} {f : α → Except ε β} {y : β} :
  x >>= f = .ok y ↔ ∃ a, x = .ok a ∧ f a = .ok y
  := by
  cases x with
  | error e => simp [bind, Except.bind]
  | ok a => simp [bind, Except.bind]

/-- Checks of the members of a list succeed if each of them does. -/
theorem Except.forM_eq_ok_iff {ε α : Type} {check : α → Except ε Unit} {members : List α} :
  members.forM check = .ok () ↔ ∀ x ∈ members, check x = .ok ()
  := by
  induction members with
  | nil =>
      constructor
      · intro _ x hx
        cases hx
      · intro _
        rfl
  | cons x members ih =>
      rw [List.forall_mem_cons, ← ih]
      cases h : check x with
      | error e => simp [h, bind, Except.bind]
      | ok u => simp [h, bind, Except.bind]

/-- An entry whose key does not occur twice is found under its key. -/
theorem Table.lookup_eq_some {α : Type} {entries : List (Nat × α)}
    (hdistinct : (entries.map Prod.fst).Nodup) {entry : Nat × α} (h : entry ∈ entries) :
  entries.lookup entry.1 = some entry.2
  := by
  induction entries with
  | nil => cases h
  | cons first entries ih =>
      obtain ⟨hfirst, hdistinct⟩ := List.nodup_cons.mp hdistinct
      rw [List.lookup_cons]
      obtain rfl | h := List.mem_cons.mp h
      · rw [beq_self_eq_true]
      · have hne : (entry.1 == first.1) = false := by
          apply beq_false_of_ne
          intro hsame
          apply hfirst (hsame ▸ List.mem_map_of_mem h)
        rw [hne]
        apply ih hdistinct h

/-- If no key occurs twice, then the entries are those that are found under their keys. -/
theorem Table.mem_iff_lookup_eq_some {α : Type} {entries : List (Nat × α)}
    (hdistinct : (entries.map Prod.fst).Nodup) {e : Nat × α} :
  e ∈ entries ↔ entries.lookup e.1 = some e.2
  := by
  constructor
  · apply lookup_eq_some hdistinct
  · intro h
    obtain ⟨before, after, hsplit, -⟩ := List.lookup_eq_some_iff.mp h
    rw [hsplit]
    apply List.mem_append_right _ List.mem_cons_self

/-- If no key occurs twice, then the keys ascend after the entries are sorted. -/
theorem Table.pairwise_mergeSort {α : Type} {entries : List (Nat × α)}
    (hdistinct : (entries.map Prod.fst).Nodup) :
  (entries.mergeSort fun e e' => decide (e.1 ≤ e'.1)).Pairwise fun e e' => e.1 < e'.1
  := by
  have hle : (entries.mergeSort fun e e' => decide (e.1 ≤ e'.1)).Pairwise
      fun e e' => e.1 ≤ e'.1 := by
    apply (List.pairwise_mergeSort _ _ _).imp
    · intro e e' h
      apply of_decide_eq_true h
    · intro e e' e'' h h'
      rw [decide_eq_true_eq] at h h' ⊢
      apply le_trans h h'
    · intro e e'
      rw [Bool.or_eq_true, decide_eq_true_eq, decide_eq_true_eq]
      apply le_total
  have hne : (entries.mergeSort fun e e' => decide (e.1 ≤ e'.1)).Pairwise
      fun e e' => e.1 ≠ e'.1 := by
    apply List.pairwise_map.mp
    apply ((List.mergeSort_perm _ _).map Prod.fst).nodup_iff.mpr hdistinct
  apply (hle.and hne).imp
  rintro e e' ⟨h, h'⟩
  apply lt_of_le_of_ne h h'

namespace Distribution

variable [Arithmetic V]

/-- The row of a distribution lists its positive masses. -/
theorem mem_row {d : Distribution V} {e : Nat × V} :
  e ∈ d.row ↔ e ∈ d.pairs ∧ 0 < e.2
  := by
  rw [row, List.mem_mergeSort, List.mem_filter, decide_eq_true_eq]

/-- The states of a row ascend, since no state was given two masses. -/
theorem pairwise_row (d : Distribution V) :
  d.row.Pairwise fun e e' => e.1 < e'.1
  := by
  apply Table.pairwise_mergeSort
  apply d.masses.distinct.sublist (List.filter_sublist.map Prod.fst)

/-- A distribution fits if it is not empty, its masses are on states of the model, finite and not
negative, and they sum to one within the tolerance. -/
theorem validate_eq_ok_iff {d : Distribution V} {s c numStates : Nat} :
  (d.validate s c numStates : Except (CheckError V W) Unit) = .ok ()
    ↔ d.pairs ≠ []
      ∧ (∀ pair ∈ d.pairs, pair.1 < numStates ∧ Arithmetic.isFinite pair.2 = true ∧ ¬ pair.2 < 0)
      ∧ ¬ tolerance < Arithmetic.abs (d.total - 1)
  := by
  have hpair : ∀ pair,
      (validatePair s c numStates pair : Except (CheckError V W) Unit) = .ok ()
        ↔ pair.1 < numStates ∧ Arithmetic.isFinite pair.2 = true ∧ ¬ pair.2 < 0 := by
    intro pair
    unfold validatePair
    grind
  simp only [← hpair, ← Except.forM_eq_ok_iff]
  unfold validate
  split
  · next hempty => simp [List.isEmpty_iff.mp hempty]
  · next hne =>
      rw [List.isEmpty_iff] at hne
      cases d.pairs.forM (validatePair s c numStates : _ → Except (CheckError V W) Unit) with
      | error e => simp
      | ok u => simp [hne]

/-- A distribution that fits has its masses on states of the model only. -/
theorem lt_of_validate {d : Distribution V} {s c numStates : Nat}
    (h : (d.validate s c numStates : Except (CheckError V W) Unit) = .ok ()) :
  ∀ pair ∈ d.pairs, pair.1 < numStates
  := fun pair hpair => ((validate_eq_ok_iff.mp h).2.1 pair hpair).1

end Distribution

namespace Mdp.Draft

variable [Arithmetic V]

/-- The rows of the choices of a draft, state by state. -/
def stateRows (b : Draft V) : List (List (List (Nat × V))) :=
  b.choices.toList.map fun choices => choices.toList.map fun choice => choice.distribution.row

/-- A choice of a draft. -/
def choice? (b : Draft V) (s c : Nat) : Option (Choice V) :=
  b.choices[s]?.bind fun choices => choices[c]?

/-- What is made of the choices of a draft, state by state. -/
def valuesOf {α : Type} (b : Draft V) (f : Choice V → α) : List (List α) :=
  b.choices.toList.map fun choices => choices.toList.map f

omit [Arithmetic V] in
/-- There is one value for each choice. -/
theorem map_length_valuesOf {α : Type} (b : Draft V) (f : Choice V → α) :
  (b.valuesOf f).map List.length = b.choices.toList.map Array.size
  := by
  simp [valuesOf, Function.comp_def]

omit [Arithmetic V] in
/-- The value of a choice is made of that choice. -/
theorem getElem?_valuesOf {α : Type} (b : Draft V) (f : Choice V → α) (s c : Nat) :
  ((b.valuesOf f)[s]?.getD [])[c]? = (b.choice? s c).map f
  := by
  rw [valuesOf, choice?, List.getElem?_map, ← Array.getElem?_toList]
  cases b.choices.toList[s]? with
  | none => rfl
  | some choices =>
      rw [Option.map_some, Option.getD_some, List.getElem?_map, Option.bind_some,
        Array.getElem?_toList]

/-- The rows of a draft are those of the distributions of its choices. -/
theorem getD_stateRows (b : Draft V) (s c : Nat) :
  ((b.stateRows[s]?.getD [])[c]?).getD []
    = ((b.choice? s c).map fun choice => choice.distribution.row).getD []
  := by
  rw [← getElem?_valuesOf]
  rfl

/-- A draft has a matrix if all successors are states, and then it is that of its rows. -/
theorem matrix?_eq_some_iff {b : Draft V} {matrix : ChoiceMatrix V} :
  b.matrix? = some matrix
    ↔ (∀ row ∈ b.stateRows.flatten, ∀ e ∈ row, e.1 < b.numStates)
      ∧ matrix = ChoiceMatrix.ofStates b.numStates b.stateRows
  := by
  have hdraft : b.choices.foldl
      (fun rows choices =>
        (choices.foldl (fun rows choice => rows.push choice.distribution) rows).finishState)
      (ChoiceMatrix.Draft.empty b.numStates)
        = ⟨b.numStates, b.stateRows.flatten.toArray,
            (SparseRows.offsetsFrom 0 b.stateRows).toArray⟩ := by
    rw [← Array.foldl_toList]
    apply Eq.trans (ChoiceMatrix.Draft.foldl_addState b.choices.toList _)
    have hstart : ∀ states : List (List (List (Nat × V))),
        0 :: (SparseRows.offsetsFrom 0 states).tail = SparseRows.offsetsFrom 0 states := by
      rintro ⟨⟩ <;> rfl
    simp [ChoiceMatrix.Draft.empty, ChoiceMatrix.Draft.numRows, stateRows, List.flatMap_def, hstart]
  rw [matrix?, hdraft, ChoiceMatrix.Draft.build?, SparseRows.ofRows?]
  simp only [List.all_eq_true, decide_eq_true_eq]
  split
  · next hrows =>
      rw [Option.map_some, Option.some_inj]
      constructor
      · rintro rfl
        exact ⟨hrows, rfl⟩
      · rintro ⟨-, rfl⟩
        rfl
  · next hrows =>
      constructor
      · rintro ⟨⟩
      · rintro ⟨h, -⟩
        exact absurd h hrows

/-- A draft is valid if the distribution of every choice fits its state and its choice. -/
theorem validate_eq_ok_iff {b : Draft V} :
  (b.validate : Except (CheckError V W) Unit) = .ok ()
    ↔ ∀ s c choice, b.choice? s c = some choice →
        (choice.distribution.validate s c b.numStates : Except (CheckError V W) Unit) = .ok ()
  := by
  rw [validate, Except.forM_eq_ok_iff]
  constructor
  · intro h s c choice hchoice
    obtain ⟨choices, hs, hc⟩ := Option.bind_eq_some_iff.mp hchoice
    rw [← Array.getElem?_toList] at hs hc
    have hstate := h (choices, s) (List.mk_mem_zipIdx_iff_getElem?.mpr hs)
    apply Except.forM_eq_ok_iff.mp hstate (choice, c) (List.mk_mem_zipIdx_iff_getElem?.mpr hc)
  · rintro h ⟨choices, s⟩ hs
    apply Except.forM_eq_ok_iff.mpr
    rintro ⟨choice, c⟩ hc
    apply h s c choice
    apply Option.bind_eq_some_iff.mpr
    rw [List.mk_mem_zipIdx_iff_getElem?, Array.getElem?_toList] at hs hc
    exact ⟨choices, hs, hc⟩

/-- The process of a draft. -/
def process (b : Draft V) : Mdp V :=
  ⟨b.numStates, ChoiceMatrix.ofStates b.numStates b.stateRows, b.actions, b.startStates⟩

/-- The rows of a valid draft stay within its states. -/
theorem lt_of_mem_stateRows {b : Draft V}
    (h : (b.validate : Except (CheckError V W) Unit) = .ok ()) :
  ∀ row ∈ b.stateRows.flatten, ∀ e ∈ row, e.1 < b.numStates
  := by
  intro row hrow e he
  obtain ⟨rows, hrows, hrow⟩ := List.mem_flatten.mp hrow
  obtain ⟨choices, hchoices, rfl⟩ := List.mem_map.mp hrows
  obtain ⟨choice, hchoice, rfl⟩ := List.mem_map.mp hrow
  obtain ⟨s, hs⟩ := List.mem_iff_getElem?.mp hchoices
  obtain ⟨c, hc⟩ := List.mem_iff_getElem?.mp hchoice
  rw [Array.getElem?_toList] at hs hc
  have hfits := validate_eq_ok_iff.mp h s c choice (Option.bind_eq_some_iff.mpr ⟨choices, hs, hc⟩)
  apply Distribution.lt_of_validate hfits e (Distribution.mem_row.mp he).1

/-- A draft can be finished if it is valid, and then the result is its process. -/
theorem build_eq_ok_iff {b : Draft V} {m : Mdp V} :
  (b.build : Except (CheckError V W) (Mdp V)) = .ok m
    ↔ (b.validate : Except (CheckError V W) Unit) = .ok () ∧ m = b.process
  := by
  rw [build]
  cases h : (b.validate : Except (CheckError V W) Unit) with
  | error e => simp [bind, Except.bind]
  | ok u =>
      have hmatrix := matrix?_eq_some_iff.mpr ⟨lt_of_mem_stateRows h, rfl⟩
      rw [hmatrix]
      constructor
      · rintro ⟨⟩
        exact ⟨rfl, rfl⟩
      · rintro ⟨-, rfl⟩
        rfl

/-- The row of a choice in the process is that of the distribution which the choice was
given. -/
theorem successors_process (b : Draft V) (s c : Nat) :
  b.process.successors s c = ((b.choice? s c).map fun choice => choice.distribution.row).getD []
  := by
  rw [Mdp.successors, process, ChoiceMatrix.successors_ofStates, getD_stateRows]

/-- A state of the process has as many choices as were added to it. -/
theorem numChoices_process (b : Draft V) (s : Nat) :
  b.process.numChoices s = b.numChoices s
  := by
  rw [Mdp.numChoices, process, ChoiceMatrix.numChoices_ofStates, stateRows, List.getElem?_map,
    numChoices, ← Array.getElem?_toList]
  cases b.choices.toList[s]? with
  | none => rfl
  | some choices => simp

omit [Arithmetic V] in
/-- A choice of a draft is listed with its state. -/
theorem mem_of_choice?_eq_some {b : Draft V} {s c : Nat} {choice : Choice V}
    (h : b.choice? s c = some choice) :
  choice ∈ b.choices.toList.flatMap Array.toList
  := by
  obtain ⟨choices, hchoices, hchoice⟩ := Option.bind_eq_some_iff.mp h
  apply List.mem_flatMap.mpr
  use choices, Array.mem_toList_iff.mpr (Array.mem_of_getElem? hchoices)
  apply Array.mem_toList_iff.mpr (Array.mem_of_getElem? hchoice)

omit [Arithmetic V] in
/-- A state has a choice for every number below that of its choices. -/
theorem exists_choice {b : Draft V} {s c : Nat} (h : c < b.numChoices s) :
  ∃ choice, b.choice? s c = some choice
  := by
  rw [numChoices] at h
  rw [choice?]
  cases hstate : b.choices[s]? with
  | none =>
      rw [hstate] at h
      exact absurd h (Nat.not_lt_zero c)
  | some choices =>
      rw [hstate, Option.getD_some] at h
      use choices[c]
      rw [Option.bind_some, Array.getElem?_eq_getElem h]

end Mdp.Draft

/-! ### Proper processes -/

variable [Arithmetic V]

/-- The rows of a process are proper: only its states have choices, and the successors of a
choice are states in ascending order, with positive masses. -/
structure Mdp.Proper (m : Mdp V) : Prop where
  lt_numStates : ∀ s c, ∀ e ∈ m.successors s c, e.1 < m.numStates
  mass_pos : ∀ s c, ∀ e ∈ m.successors s c, 0 < e.2
  pairwise : ∀ s c, (m.successors s c).Pairwise fun e e' => e.1 < e'.1
  numChoices_eq_zero : ∀ s, m.numStates ≤ s → m.numChoices s = 0

/-- A state of a proper process that has a choice exists. -/
theorem Mdp.Proper.lt_of_lt_numChoices {m : Mdp V} (h : m.Proper) {s c : Nat}
    (hc : c < m.numChoices s) :
  s < m.numStates
  := by
  by_contra hs
  rw [h.numChoices_eq_zero s (Nat.le_of_not_lt hs)] at hc
  apply Nat.not_lt_zero c hc

/-- The process of a valid draft is proper. -/
theorem Mdp.Draft.proper_process {b : Mdp.Draft V}
    (h : (b.validate : Except (CheckError V W) Unit) = .ok ()) :
  b.process.Proper
  := by
  have hrow : ∀ s c, ∀ e ∈ b.process.successors s c, ∃ choice,
      b.choice? s c = some choice ∧ e ∈ choice.distribution.row := by
    intro s c e he
    rw [successors_process] at he
    cases hchoice : b.choice? s c with
    | none =>
        rw [hchoice] at he
        cases he
    | some choice =>
        rw [hchoice] at he
        exact ⟨choice, rfl, he⟩
  constructor
  · intro s c e he
    obtain ⟨choice, hchoice, he⟩ := hrow s c e he
    have hfits := validate_eq_ok_iff.mp h s c choice hchoice
    apply Distribution.lt_of_validate hfits e (Distribution.mem_row.mp he).1
  · intro s c e he
    obtain ⟨choice, -, he⟩ := hrow s c e he
    apply (Distribution.mem_row.mp he).2
  · intro s c
    rw [successors_process]
    cases b.choice? s c with
    | none => exact List.Pairwise.nil
    | some choice => apply Distribution.pairwise_row
  · intro s hs
    have hnone : b.choices[s]? = none := Array.getElem?_eq_none hs
    rw [numChoices_process, numChoices, hnone]
    rfl

/-- The models that can be made: those that drafts finish, the games of processes, and games
after a change of owner. -/
inductive Model.Built : Model V → Prop where
  | mdp {W : Type} {b : Mdp.Draft V} {m : Mdp V}
      (h : (b.build : Except (CheckError V W) (Mdp V)) = .ok m) : Built (.mdp m)
  | game {W : Type} {b : Game.Draft V} {g : Game V}
      (h : (b.build : Except (CheckError V W) (Game V)) = .ok g) : Built (.game g)
  | ctmdp {W : Type} {b : Ctmdp.Draft V} {m : Ctmdp V}
      (h : (b.build : Except (CheckError V W) (Ctmdp V)) = .ok m) : Built (.ctmdp m)
  | ofMdp {m : Mdp V} (h : Built (.mdp m)) : Built (.game (.ofMdp m))
  | setPlayer {W : Type} {g g' : Game V} {s : Nat} {tag : Int} (h : Built (.game g))
      (hset : (g.setPlayer s tag : Except (CheckError V W) (Game V)) = .ok g') :
      Built (.game g')

omit [Arithmetic V] in
/-- A change of owner leaves the process of a game as it is. -/
theorem Game.mdp_of_setPlayer {g g' : Game V} {s : Nat} {tag : Int}
    (h : (g.setPlayer s tag : Except (CheckError V W) (Game V)) = .ok g') :
  g'.mdp = g.mdp
  := by
  unfold setPlayer at h
  cases hplayers : (Player.relabel g.players s tag : Except (CheckError V W) _) with
  | error e =>
      rw [hplayers] at h
      cases h
  | ok players =>
      rw [hplayers] at h
      cases h
      rfl

/-- The process of a model that can be made is that of a valid draft. -/
theorem Model.Built.exists_draft {m : Model V} (h : m.Built) :
  ∃ (W : Type) (b : Mdp.Draft V),
    (b.validate : Except (CheckError V W) Unit) = .ok () ∧ m.process = b.process
  := by
  induction h with
  | @mdp W b m h => exact ⟨W, b, Mdp.Draft.build_eq_ok_iff.mp h⟩
  | @game W b g h =>
      unfold Game.Draft.build at h
      cases hmdp : (b.mdp.build : Except (CheckError V W) (Mdp V)) with
      | error e =>
          rw [hmdp] at h
          cases h
      | ok m =>
          rw [hmdp] at h
          cases h
          exact ⟨W, b.mdp, Mdp.Draft.build_eq_ok_iff.mp hmdp⟩
  | @ctmdp W b m h =>
      unfold Ctmdp.Draft.build at h
      cases hmdp : (b.mdp.build : Except (CheckError V W) (Mdp V)) with
      | error e =>
          rw [hmdp] at h
          cases h
      | ok m =>
          rw [hmdp] at h
          cases h
          exact ⟨W, b.mdp, Mdp.Draft.build_eq_ok_iff.mp hmdp⟩
  | ofMdp _ ih => apply ih
  | setPlayer _ hset ih =>
      rw [Model.process] at ih ⊢
      rw [Game.mdp_of_setPlayer hset]
      apply ih

/-- The process of a model that can be made is proper. -/
theorem Model.Built.proper {m : Model V} (h : m.Built) :
  m.process.Proper
  := by
  obtain ⟨W, b, hvalid, hprocess⟩ := h.exists_draft
  rw [hprocess]
  apply Mdp.Draft.proper_process hvalid

omit [Arithmetic V] in
/-- The analyses see the process of a model. -/
theorem Model.mdp_arena (m : Model V) :
  m.arena.mdp = m.process
  := by
  cases m with
  | mdp m => rfl
  | game g => rfl
  | ctmdp m => rfl

omit [Arithmetic V] in
/-- The analyses see as many states as a model has. -/
theorem Model.numStates_arena (m : Model V) :
  m.arena.numStates = m.numStates
  := congrArg Mdp.numStates m.mdp_arena

/-- The process that the analyses see of a model that can be made is proper. -/
theorem Model.Built.proper_arena {m : Model V} (h : m.Built) :
  m.arena.mdp.Proper
  := by
  rw [m.mdp_arena]
  apply h.proper

end Reachability
