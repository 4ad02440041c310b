import Mathlib
import Reachability.Proofs.Calls

/-!
# Processes that calls assemble

The draft without states is changed by calls, of which some fail.  What those that succeed add is
read off the calls: the number of states, the choices of each state in order, and the initial
states, each where it was marked first.  A draft holds this after any calls
(`Mdp.Draft.holds_journal`).

The process of a draft finds the successors and the action of a choice at the row of that choice
(`Mdp.Draft.bind_rowIndex?_process`), so that it represents the calls that succeeded
(`Mdp.Represents`), whatever the order in which states and choices were added.  A draft is refused
for the first distribution that does not fit, in the order of the states and of their choices
(`Mdp.Draft.build_after_calls`).
-/

namespace Reachability

variable {V W : Type}

/-! ### Starts of rows -/

/-- Each of the starts of rows is at most those after it. -/
theorem SparseRows.pairwise_offsetsFrom {α : Type} (start : Nat) (rows : List (List α)) :
  (offsetsFrom start rows).Pairwise (· ≤ ·) ∧ ∀ offset ∈ offsetsFrom start rows, start ≤ offset
  := by
  induction rows generalizing start with
  | nil => simp [offsetsFrom]
  | cons row rows ih =>
      obtain ⟨hpairwise, hle⟩ := ih (start + row.length)
      have hstart : ∀ offset ∈ offsetsFrom (start + row.length) rows, start ≤ offset :=
        fun offset hoffset => le_trans (Nat.le_add_right _ _) (hle offset hoffset)
      rw [offsetsFrom, List.pairwise_cons, List.forall_mem_cons]
      exact ⟨⟨hstart, hpairwise⟩, le_rfl, hstart⟩

/-! ### The first cause of a failure -/

/-- Checks of the members of a list fail with the failure of the first member that does not
pass. -/
theorem Except.exists_first_error {ε α : Type} {check : α → Except ε Unit} {members : List α}
    {e : ε} (h : members.forM check = .error e) :
  ∃ (i : Nat) (x : α), members[i]? = some x ∧ check x = .error e
    ∧ ∀ j < i, ∀ y, members[j]? = some y → check y = .ok ()
  := by
  induction members with
  | nil => cases h
  | cons x members ih =>
      have hcons : (check x >>= fun _ => members.forM check) = .error e := h
      cases hx : check x with
      | error e' =>
          rw [hx] at hcons
          cases hcons
          exact ⟨0, x, rfl, hx, fun j hj => absurd hj (Nat.not_lt_zero j)⟩
      | ok u =>
          rw [hx] at hcons
          obtain ⟨i, y, hy, herror, hbefore⟩ := ih hcons
          refine ⟨i + 1, y, hy, herror, ?_⟩
          intro j hj z hz
          cases j with
          | zero =>
              cases hz
              exact hx
          | succ j => exact hbefore j (Nat.lt_of_succ_lt_succ hj) z hz

/-- The same of checks of the members with their places. -/
theorem Except.exists_first_error_zipIdx {ε α : Type} {check : α × Nat → Except ε Unit}
    {members : List α} {e : ε} (h : members.zipIdx.forM check = .error e) :
  ∃ (i : Nat) (x : α), members[i]? = some x ∧ check (x, i) = .error e
    ∧ ∀ j < i, ∀ y, members[j]? = some y → check (y, j) = .ok ()
  := by
  obtain ⟨i, ⟨x, place⟩, hx, herror, hbefore⟩ := Except.exists_first_error h
  rw [List.getElem?_zipIdx, Option.map_eq_some_iff] at hx
  obtain ⟨x', hx, hsame⟩ := hx
  rw [Nat.zero_add] at hsame
  cases hsame
  refine ⟨i, x, hx, herror, ?_⟩
  intro j hj y hy
  apply hbefore j hj
  rw [List.getElem?_zipIdx, hy, Nat.zero_add]
  rfl

namespace Mdp.Draft

variable [Arithmetic V]

/-- If a draft is not valid, then the cause is the first distribution that does not fit, in the
order of the states and of their choices. -/
theorem exists_first_fault {b : Draft V} {e : CheckError V W} (h : b.validate = .error e) :
  ∃ s c choice, b.choice? s c = some choice
    ∧ choice.distribution.validate s c b.numStates = .error e
    ∧ ∀ s' c' choice', b.choice? s' c' = some choice' → s' < s ∨ s' = s ∧ c' < c →
      (choice'.distribution.validate s' c' b.numStates : Except (CheckError V W) Unit) = .ok ()
  := by
  -- the first state that fails, and the first choice that fails in it
  obtain ⟨s, choices, hs, hstate, hstates⟩ := Except.exists_first_error_zipIdx h
  obtain ⟨c, choice, hc, herror, hchoices⟩ := Except.exists_first_error_zipIdx hstate
  rw [Array.getElem?_toList] at hs hc
  refine ⟨s, c, choice, Option.bind_eq_some_iff.mpr ⟨choices, hs, hc⟩, herror, ?_⟩
  intro s' c' choice' hchoice' hbefore
  obtain ⟨choices', hs', hc'⟩ := Option.bind_eq_some_iff.mp hchoice'
  rw [← Array.getElem?_toList] at hs' hc'
  obtain hlt | ⟨rfl, hlt⟩ := hbefore
  · apply Except.forM_eq_ok_iff.mp (hstates s' hlt choices' hs') (choice', c')
    apply List.mk_mem_zipIdx_iff_getElem?.mpr hc'
  · rw [Array.getElem?_toList, hs] at hs'
    cases hs'
    apply hchoices c' hlt choice' hc'

end Mdp.Draft

/-! ### What calls add -/

namespace Mdp.Draft

/-- How many states a call adds. -/
def Call.stateCount : Call V → Nat
  | .addStates count => count
  | _ => 0

/-- The choice that a call adds to a state. -/
def Call.choiceFor? (s : Nat) : Call V → Option (Choice V)
  | .addChoice t choice => if t = s then some choice else none
  | _ => none

/-- The state that a call marks as initial. -/
def Call.initialState? : Call V → Option Nat
  | .addInitialState s => some s
  | _ => none

/-- The cause to refuse a state that does not exist. -/
def stateRefusal? (numStates s : Nat) : Option (CheckError V W) :=
  if s < numStates then none else some (.stateOutOfRange s numStates)

/-- States that do not exist are refused. -/
theorem stateRefusal?_eq_some_iff {numStates s : Nat} {e : CheckError V W} :
  stateRefusal? numStates s = some e ↔ numStates ≤ s ∧ e = .stateOutOfRange s numStates
  := by
  rw [stateRefusal?]
  split
  · next hs =>
      constructor
      · rintro ⟨⟩
      · rintro ⟨hle, -⟩
        exact absurd hs (Nat.not_lt_of_ge hle)
  · next hs =>
      rw [Option.some_inj, eq_comm]
      exact (and_iff_right (Nat.le_of_not_lt hs)).symm

/-- States that exist are not refused. -/
theorem stateRefusal?_eq_none_iff {numStates s : Nat} :
  (stateRefusal? numStates s : Option (CheckError V W)) = none ↔ s < numStates
  := by
  simp [stateRefusal?]

/-- The cause to refuse a call on a draft with `numStates` states. -/
def Call.refusal? (numStates : Nat) : Call V → Option (CheckError V W)
  | .addStates _ => none
  | .addInitialState s => stateRefusal? numStates s
  | .addChoice s _ => stateRefusal? numStates s

/-- The number of states that calls add. -/
def numStatesAdded (accepted : List (Call V × Reply)) : Nat :=
  (accepted.map fun entry => entry.1.stateCount).sum

/-- The choices that calls add to a state, in order. -/
def choicesAdded (accepted : List (Call V × Reply)) (s : Nat) : List (Choice V) :=
  accepted.filterMap fun entry => entry.1.choiceFor? s

/-- The states that calls mark as initial, each where it is marked first. -/
def initialStatesAdded (accepted : List (Call V × Reply)) : List Nat :=
  (accepted.filterMap fun entry => entry.1.initialState?).eraseDups

/-- A member that is listed once more stays where it is, and a new one goes to the end. -/
theorem eraseDups_concat {α : Type} [BEq α] [LawfulBEq α] (members : List α) (s : α) :
  (members ++ [s]).eraseDups
    = if s ∈ members.eraseDups then members.eraseDups else members.eraseDups ++ [s]
  := by
  rw [List.eraseDups_append]
  split
  · next hs => simp [List.removeAll, List.mem_eraseDups.mp hs]
  · next hs =>
      have hnew : [s].removeAll members = [s] := by
        rw [List.mem_eraseDups] at hs
        simp [List.removeAll, hs]
      rw [hnew]
      rfl

section Concat

variable (accepted : List (Call V × Reply)) (call : Call V) (reply : Reply)

/-- One more call adds its states. -/
theorem numStatesAdded_concat :
  numStatesAdded (accepted ++ [(call, reply)]) = numStatesAdded accepted + call.stateCount
  := by
  simp [numStatesAdded]

/-- One more call adds its choice at the end. -/
theorem choicesAdded_concat (s : Nat) :
  choicesAdded (accepted ++ [(call, reply)]) s
    = choicesAdded accepted s ++ (call.choiceFor? s).toList
  := by
  rw [choicesAdded, List.filterMap_append]
  cases hchoice : call.choiceFor? s <;> simp [choicesAdded, hchoice]

/-- One more call that marks no state adds no initial state. -/
theorem initialStatesAdded_concat_of_none (hnone : call.initialState? = none) :
  initialStatesAdded (accepted ++ [(call, reply)]) = initialStatesAdded accepted
  := by
  simp [initialStatesAdded, hnone]

/-- One more call that marks a state adds it at the end unless it is there. -/
theorem initialStatesAdded_concat_of_some {s : Nat} (hsome : call.initialState? = some s) :
  initialStatesAdded (accepted ++ [(call, reply)])
    = if s ∈ initialStatesAdded accepted then initialStatesAdded accepted
      else initialStatesAdded accepted ++ [s]
  := by
  rw [initialStatesAdded, List.filterMap_append]
  simp only [List.filterMap_cons, List.filterMap_nil, hsome]
  apply eraseDups_concat

end Concat

/-- The reply to a call that succeeds after others. -/
def Call.replyAfter (accepted : List (Call V × Reply)) : Call V → Reply
  | .addStates count =>
    .states (numStatesAdded accepted) (numStatesAdded accepted + count)
  | .addInitialState _ => .done
  | .addChoice s _ => .choice (choicesAdded accepted s).length

/-- A draft holds what calls add. -/
structure Holds (b : Draft V) (accepted : List (Call V × Reply)) : Prop where
  numStates : b.numStates = numStatesAdded accepted
  choices : ∀ s, (b.choices[s]?.getD #[]).toList = choicesAdded accepted s
  initialStates : b.initialStates = initialStatesAdded accepted

/-- Copies of a member at the end do not change what is found, if that member is found where there
is none. -/
theorem getD_append_replicate {α : Type} (xs : Array α) (x : α) (count s : Nat) :
  (xs ++ Array.replicate count x)[s]?.getD x = xs[s]?.getD x
  := by
  rw [Array.getElem?_append]
  split
  · rfl
  · next hs =>
      rw [Array.getElem?_eq_none (Nat.le_of_not_lt hs), Array.getElem?_replicate]
      split <;> rfl

/-- A member that is added to one of several arrays is found at its end. -/
theorem toList_getD_modify_push {α : Type} (arrays : Array (Array α)) {t : Nat}
    (ht : t < arrays.size) (x : α) (s : Nat) :
  ((arrays.modify t fun xs => xs.push x)[s]?.getD #[]).toList
    = (arrays[s]?.getD #[]).toList ++ if t = s then [x] else []
  := by
  rw [Array.getElem?_modify]
  split
  · next hs =>
      subst hs
      rw [Array.getElem?_eq_getElem ht]
      simp
  · simp

/-- The draft without states holds what no calls add. -/
theorem holds_empty :
  (empty : Draft V).Holds []
  := ⟨rfl, fun _ => rfl, rfl⟩

namespace Holds

variable {b : Draft V} {accepted : List (Call V × Reply)} (h : b.Holds accepted)

include h

/-- The choices of a draft are those that were added. -/
theorem choice?_eq (s c : Nat) :
  b.choice? s c = (choicesAdded accepted s)[c]?
  := by
  rw [choice?, ← h.choices]
  cases b.choices[s]? with
  | none => rfl
  | some choices => simp

/-- A state has as many choices as were added. -/
theorem numChoices_eq (s : Nat) :
  b.numChoices s = (choicesAdded accepted s).length
  := by
  rw [numChoices, ← h.choices, Array.length_toList]

/-- A call that succeeds adds to what a draft holds. -/
theorem concat {call : Call V} {b' : Draft V} {reply : Reply}
    (happly : (call.apply b : Except (CheckError V W) _) = .ok (b', reply)) :
  b'.Holds (accepted ++ [(call, reply)])
  := by
  cases call with
  | addStates count =>
      cases happly
      constructor
      · rw [numStates_addStates, h.numStates, numStatesAdded_concat, Call.stateCount]
      · intro s
        rw [addStates, getD_append_replicate, h.choices, choicesAdded_concat]
        exact (List.append_nil _).symm
      · rw [initialStatesAdded_concat_of_none _ _ _ rfl, ← h.initialStates, addStates]
  | addInitialState s =>
      obtain ⟨added, hadd, hsame⟩ := Except.map_eq_ok_iff.mp happly
      cases hsame
      obtain ⟨-, hadded⟩ := addInitialState_eq_ok_iff.mp hadd
      have hchoices : b'.choices = b.choices := by
        rw [hadded]
        split <;> rfl
      constructor
      · rw [Draft.numStates, hchoices, numStatesAdded_concat]
        exact h.numStates
      · intro t
        rw [hchoices, h.choices, choicesAdded_concat]
        exact (List.append_nil _).symm
      · rw [initialStatesAdded_concat_of_some _ _ _ rfl, ← h.initialStates, hadded]
        split <;> rfl
  | addChoice s choice =>
      obtain ⟨⟨added, c⟩, hadd, hsame⟩ := Except.map_eq_ok_iff.mp happly
      cases hsame
      obtain ⟨hs, rfl, -⟩ := addChoice_eq_ok_iff.mp hadd
      constructor
      · rw [numStatesAdded_concat, ← h.numStates]
        apply Array.size_modify
      · intro t
        rw [toList_getD_modify_push _ hs, h.choices, choicesAdded_concat, Call.choiceFor?]
        split <;> rfl
      · rw [initialStatesAdded_concat_of_none _ _ _ rfl, ← h.initialStates]

/-- A draft refuses calls that are about a state which does not exist. -/
theorem answers (call : Call V) :
  InPlace.Answers (call.perform : EStateM (CheckError V W) (Draft V) Reply) b
    (call.refusal? (numStatesAdded accepted)) (call.replyAfter accepted)
  := by
  rw [← h.numStates]
  constructor
  · intro e he
    rw [Call.run_perform, InPlace.outcome_eq_error_iff]
    refine ⟨?_, rfl⟩
    cases call with
    | addStates count => cases he
    | addInitialState s =>
        obtain ⟨hs, rfl⟩ := stateRefusal?_eq_some_iff.mp he
        rw [Call.apply, addInitialState, checkState, if_pos hs]
        rfl
    | addChoice s choice =>
        obtain ⟨hs, rfl⟩ := stateRefusal?_eq_some_iff.mp he
        rw [Call.apply, addChoice, checkState, if_pos hs]
        rfl
  · intro hnone
    simp only [Call.run_perform, InPlace.outcome_eq_ok_iff]
    cases call with
    | addStates count =>
        use b.addStates count
        rw [Call.apply, Call.replyAfter, h.numStates]
    | addInitialState s =>
        have hadd : (b.addInitialState s : Except (CheckError V W) _) = .ok _ :=
          addInitialState_eq_ok_iff.mpr ⟨stateRefusal?_eq_none_iff.mp hnone, rfl⟩
        exact ⟨_, Except.map_eq_ok_iff.mpr ⟨_, hadd, rfl⟩⟩
    | addChoice s choice =>
        have hadd : (b.addChoice s choice : Except (CheckError V W) _) = .ok (_, _) :=
          addChoice_eq_ok_iff.mpr
            ⟨stateRefusal?_eq_none_iff.mp hnone, rfl, (h.numChoices_eq s).symm⟩
        exact ⟨_, Except.map_eq_ok_iff.mpr ⟨_, hadd, rfl⟩⟩

end Holds

/-- What has a draft as one of its parts answers the calls on that part as the draft does. -/
theorem Holds.answers_within {β : Type} {part : β → Draft V} {replace : β → Draft V → β} {whole : β}
    {accepted : List (Call V × Reply)} (h : (part whole).Holds accepted)
    (hreplace : replace whole (part whole) = whole) (call : Call V) :
  InPlace.Answers (InPlace.within part replace call.perform : EStateM (CheckError V W) β Reply)
    whole (call.refusal? (part whole).numStates) (call.replyAfter accepted)
  := by
  rw [h.numStates]
  apply (h.answers call).within hreplace

variable (W) in
/-- The journal of calls on the draft without states. -/
def journal (calls : List (Call V)) : Journal (Call V) (Draft V) :=
  .ofCalls (Call.perform (W := W)) empty calls

/-- What calls leave behind holds what the calls that succeeded add. -/
theorem holds_journal (calls : List (Call V)) :
  (journal W calls).state.Holds (journal W calls).accepted
  := Journal.ofCalls_induction Call.run_perform holds_empty
    (fun _ _ _ _ _ h happly => h.concat happly) calls

end Mdp.Draft

/-! ### The process of a draft -/

namespace Distribution

variable [Arithmetic V]

omit [Arithmetic V] in
/-- Entries in ascending order have different states. -/
theorem nodup_of_ascending {row : List (Nat × V)} (hrow : row.Pairwise fun e e' => e.1 < e'.1) :
  (row.map Prod.fst).Nodup
  := by
  rw [List.nodup_iff_pairwise_ne, List.pairwise_map]
  apply hrow.imp
  intro e e' hlt
  apply Nat.ne_of_lt hlt

omit [Arithmetic V] in
/-- Entries in ascending order are determined by which ones they are. -/
theorem eq_of_mem_iff {row row' : List (Nat × V)}
    (hrow : row.Pairwise fun e e' => e.1 < e'.1) (hrow' : row'.Pairwise fun e e' => e.1 < e'.1)
    (h : ∀ e, e ∈ row ↔ e ∈ row') :
  row = row'
  := by
  have : Std.Asymm fun e e' : Nat × V => e.1 < e'.1 := ⟨fun _ _ hlt => Nat.lt_asymm hlt⟩
  apply List.Pairwise.eq_of_mem_iff hrow hrow' h

/-- A row lists masses: the states with positive mass, in ascending order, each with its mass. -/
structure Lists (row : List (Nat × V)) (mass : Nat → Option V) : Prop where
  pairwise : row.Pairwise fun e e' => e.1 < e'.1
  mem_iff : ∀ t p, (t, p) ∈ row ↔ mass t = some p ∧ 0 < p

/-- The row of a distribution lists its masses. -/
theorem lists_row (d : Distribution V) :
  Lists d.row d.masses.get?
  := by
  refine ⟨d.pairwise_row, ?_⟩
  intro t p
  rw [mem_row]
  apply and_congr_left'
  apply Table.mem_iff_lookup_eq_some d.masses.distinct

end Distribution

namespace Mdp.Draft

variable [Arithmetic V]

section Values

variable {α : Type} (b : Draft V)

/-- What is listed state by state, with one member for each choice, is found at the row of a choice
in the process. -/
theorem bind_rowIndex?_process {values : List (List α)}
    (hsizes : values.map List.length = b.choices.toList.map Array.size) (s c : Nat) :
  (b.process.rowIndex? s c).bind (fun r => values.flatten[r]?) = (values[s]?.getD [])[c]?
  := by
  rw [Mdp.rowIndex?]
  split
  · apply ChoiceMatrix.bind_rowIndex?_ofStates
    rw [hsizes, ← map_length_valuesOf]
    rfl
  · next hs =>
      have hlength : values.length = b.numStates := by
        rw [← List.length_map (f := List.length), hsizes, List.length_map, Array.length_toList]
        rfl
      have hle : values.length ≤ s := by
        rw [hlength]
        apply Nat.le_of_not_lt hs
      rw [List.getElem?_eq_none hle]
      rfl

omit [Arithmetic V] in
/-- The actions are those of the choices, state by state. -/
theorem toList_actions :
  b.actions.toList = (b.valuesOf Choice.action).flatten
  := by
  rw [actions, Array.toList_flatMap, List.flatMap_def]
  simp [valuesOf]

/-- The action of a choice in the process is the one that the choice was given. -/
theorem action?_process (s c : Nat) :
  b.process.action? s c = (b.choice? s c).map Choice.action
  := by
  rw [← getElem?_valuesOf, ← b.bind_rowIndex?_process (b.map_length_valuesOf _),
    ← b.toList_actions]
  simp only [Array.getElem?_toList]
  rfl

/-- The successors of a choice in the process are those of the row of the distribution which the
choice was given. -/
theorem successors?_process (s c : Nat) :
  b.process.successors? s c = (b.choice? s c).map fun choice => choice.distribution.row
  := by
  rw [← getElem?_valuesOf, ← b.bind_rowIndex?_process (b.map_length_valuesOf _), Mdp.successors?]
  cases hrow : b.process.rowIndex? s c with
  | none => rfl
  | some r =>
      have hlt : r < b.stateRows.flatten.length := by
        rw [Mdp.rowIndex?] at hrow
        split at hrow
        · apply ChoiceMatrix.lt_of_rowIndex?_ofStates hrow
        · cases hrow
      have hfound : b.process.matrix.transitions.row r = b.stateRows.flatten[r] :=
        SparseRows.row_ofRows _ _ r hlt
      rw [Option.map_some, Option.bind_some, hfound]
      symm
      apply List.getElem?_eq_getElem hlt

end Values

end Mdp.Draft

/-! ### What processes represent -/

namespace Mdp

variable [Arithmetic V]

open Draft in
/-- A process represents what calls add. -/
structure Represents (m : Mdp V) (accepted : List (Call V × Reply)) : Prop where
  numStates : m.numStates = numStatesAdded accepted
  numChoices : ∀ s < m.numStates, m.numChoices? s = some (choicesAdded accepted s).length
  successors : ∀ s c choice, (choicesAdded accepted s)[c]? = some choice →
    ∃ row, m.successors? s c = some row ∧ Distribution.Lists row choice.distribution.masses.get?
  action : ∀ s c choice, (choicesAdded accepted s)[c]? = some choice →
    m.action? s c = some choice.action
  size_rowStarts : m.matrix.rowStarts.size = m.numStates + 1
  rowStarts_zero : m.matrix.rowStarts[0]? = some 0
  rowStarts_numStates : m.matrix.rowStarts[m.numStates]? = some m.numRows
  pairwise_rowStarts : m.matrix.rowStarts.toList.Pairwise (· ≤ ·)
  initialStates : m.initialStates
    = if initialStatesAdded accepted = [] ∧ 0 < m.numStates then [0]
      else initialStatesAdded accepted

namespace Draft

variable {b : Draft V} {accepted : List (Call V × Reply)}

/-- The process of a draft represents what calls add if the draft holds it. -/
theorem Holds.represents (h : b.Holds accepted) :
  b.process.Represents accepted
  where
  numStates := h.numStates
  numChoices s hs := by
    rw [numChoices?, if_pos hs, numChoices_process, h.numChoices_eq]
  successors s c choice hchoice := by
    rw [successors?_process, h.choice?_eq, hchoice]
    exact ⟨_, rfl, Distribution.lists_row _⟩
  action s c choice hchoice := by
    rw [action?_process, h.choice?_eq, hchoice]
    rfl
  size_rowStarts := by
    change (SparseRows.offsetsFrom 0 b.stateRows).toArray.size = b.numStates + 1
    rw [List.size_toArray, SparseRows.length_offsetsFrom, stateRows, List.length_map,
      Array.length_toList]
    rfl
  rowStarts_zero := by
    change (SparseRows.offsetsFrom 0 b.stateRows).toArray[0]? = some 0
    rw [List.getElem?_toArray, SparseRows.getElem?_offsetsFrom _ _ _ (Nat.zero_le _)]
    rfl
  rowStarts_numStates := by
    have hlength : b.stateRows.length = b.numStates := by
      rw [stateRows, List.length_map, Array.length_toList]
      rfl
    change (SparseRows.offsetsFrom 0 b.stateRows).toArray[b.numStates]?
      = some (SparseRows.ofRows b.numStates b.stateRows.flatten).numRows
    rw [List.getElem?_toArray, ← hlength, SparseRows.getElem?_offsetsFrom _ _ _ le_rfl,
      List.take_length, Nat.zero_add, SparseRows.numRows_ofRows]
  pairwise_rowStarts := (SparseRows.pairwise_offsetsFrom 0 b.stateRows).1
  initialStates := by
    change b.startStates = _
    rw [startStates, h.initialStates]
    apply if_congr (and_congr_left' List.isEmpty_iff) rfl rfl

variable (W) in
/-- The first fault among the choices that calls add, in the order of the states and of their
choices: the distribution of that choice does not fit for the given cause. -/
def FirstFault (accepted : List (Draft.Call V × Reply)) (e : CheckError V W) : Prop :=
  ∃ (s c : Nat) (choice : Choice V), (choicesAdded accepted s)[c]? = some choice
    ∧ choice.distribution.validate s c (numStatesAdded accepted) = .error e
    ∧ ∀ (s' c' : Nat) (choice' : Choice V), (choicesAdded accepted s')[c']? = some choice' →
      s' < s ∨ s' = s ∧ c' < c →
      (choice'.distribution.validate s' c' (numStatesAdded accepted)
        : Except (CheckError V W) Unit) = .ok ()

variable (W) in
/-- The distributions of all choices that calls add fit. -/
def AllFit (accepted : List (Draft.Call V × Reply)) : Prop :=
  ∀ (s c : Nat) (choice : Choice V), (choicesAdded accepted s)[c]? = some choice →
    (choice.distribution.validate s c (numStatesAdded accepted) : Except (CheckError V W) Unit)
      = .ok ()

/-- A draft that holds what calls add is refused for the first fault among the choices, or they all
fit, and it is finished as its process. -/
theorem Holds.build (h : b.Holds accepted) :
  (∃ e, FirstFault W accepted e ∧ b.build = .error e)
    ∨ AllFit W accepted ∧ (b.build : Except (CheckError V W) (Mdp V)) = .ok b.process
  := by
  cases hvalid : (b.validate : Except (CheckError V W) Unit) with
  | error e =>
      left
      refine ⟨e, ?_, ?_⟩
      · have hfault := exists_first_fault hvalid
        simp only [h.choice?_eq, h.numStates] at hfault
        exact hfault
      · rw [Draft.build, hvalid]
        rfl
  | ok u =>
      right
      refine ⟨?_, build_eq_ok_iff.mpr ⟨hvalid, rfl⟩⟩
      have hfits := validate_eq_ok_iff.mp hvalid
      simp only [h.choice?_eq, h.numStates] at hfits
      exact hfits

/-- What is finished from the process of a draft is refused for the first fault among the choices,
or they all fit, and it has the properties of what is made of the process. -/
theorem Holds.build_of (h : b.Holds accepted) {α : Type} (finish : Mdp V → α) {p : α → Prop}
    {x : Except (CheckError V W) α} (hx : x = b.build.map finish) (hp : p (finish b.process)) :
  (∃ e, FirstFault W accepted e ∧ x = .error e) ∨ AllFit W accepted ∧ ∃ a, x = .ok a ∧ p a
  := by
  rw [hx]
  obtain ⟨e, hfault, hbuild⟩ | ⟨hfits, hbuild⟩ := h.build (W := W)
  · left
    rw [hbuild]
    exact ⟨e, hfault, rfl⟩
  · right
    rw [hbuild]
    exact ⟨hfits, _, rfl, hp⟩

/-- Calls on the draft without states are refused only if they are about a state that does not
exist, and then they change nothing.  After any calls, the draft is refused for the first fault
among the choices of the calls that succeeded, or these choices all fit, and the finished process
represents the calls that succeeded. -/
theorem build_after_calls (calls : List (Draft.Call V)) :
  (∀ call : Draft.Call V, InPlace.Answers
      (call.perform : EStateM (CheckError V W) (Draft V) Reply) (journal W calls).state
      (call.refusal? (numStatesAdded (journal W calls).accepted))
      (call.replyAfter (journal W calls).accepted))
    ∧ ((∃ e, FirstFault W (journal W calls).accepted e ∧ (journal W calls).state.build = .error e)
      ∨ AllFit W (journal W calls).accepted
        ∧ ∃ m, ((journal W calls).state.build : Except (CheckError V W) (Mdp V)) = .ok m
          ∧ m.Represents (journal W calls).accepted)
  := by
  have h := holds_journal (W := W) calls
  refine ⟨h.answers, ?_⟩
  obtain hfault | ⟨hfits, hbuild⟩ := h.build (W := W)
  · exact .inl hfault
  · exact .inr ⟨hfits, _, hbuild, h.represents⟩

end Draft

end Mdp

end Reachability
