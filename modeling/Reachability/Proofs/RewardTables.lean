import Mathlib
import Reachability.Rewards
import Reachability.Proofs.Assembly
import Reachability.Proofs.Exact

/-!
# Rewards that calls set

Calls set rewards of states and of choices, in any order and again and again, and a draft of rewards
keeps for each place the one that was set last (`Rewards.Draft.Holds`).  Finished rewards are sorted
and packed, and look-ups find the same ones in them (`Rewards.Records`).

The number of columns is the index after the largest choice, in the arithmetic of machine words.
Zero is taken for the index after the last one, so that a reward which is set for the choice with
the last index has no column.  Such a draft cannot be finished, and all other drafts can
(`Rewards.Draft.settles_journal`).
-/

namespace Reachability

/-- After entries are sorted by keys that do not occur twice, the same ones are found. -/
theorem Table.lookup_mergeSort {α : Type} {entries : List (Nat × α)}
    (hdistinct : (entries.map Prod.fst).Nodup) (key : Nat) :
  (entries.mergeSort fun e e' => decide (e.1 ≤ e'.1)).lookup key = entries.lookup key
  := by
  have hsorted : ((entries.mergeSort fun e e' => decide (e.1 ≤ e'.1)).map Prod.fst).Nodup :=
    ((List.mergeSort_perm _ _).map Prod.fst).nodup_iff.mpr hdistinct
  apply Option.ext
  intro value
  have hfound := mem_iff_lookup_eq_some hsorted (e := (key, value))
  rw [← hfound, List.mem_mergeSort, mem_iff_lookup_eq_some hdistinct]

/-- Nothing is found under a key that is not there. -/
theorem Table.get?_eq_none_iff {α : Type} {t : Table α} {key : Nat} :
  t.get? key = none ↔ key ∉ t.keys
  := by
  rw [get?, List.lookup_eq_none_iff, keys, List.mem_map, not_exists]
  apply forall_congr'
  intro entry
  rw [bne_iff_ne, not_and, ne_comm]

/-- Numbers of which each is below all later ones pass the check. -/
theorem SparseRows.isStrictlyAscending_of_pairwise {indices : List Nat}
    (h : indices.Pairwise (· < ·)) :
  isStrictlyAscending indices = true
  := by
  induction indices with
  | nil => rfl
  | cons a rest ih =>
      obtain ⟨hfirst, hrest⟩ := List.pairwise_cons.mp h
      cases rest with
      | nil => rfl
      | cons b rest =>
          rw [isStrictlyAscending, ih hrest, Bool.and_true, decide_eq_true_eq]
          apply hfirst b List.mem_cons_self

/-- A number is below the largest one of a list if it is below one of them. -/
theorem lt_foldl_max_iff {xs : List Nat} {start m : Nat} :
  m < xs.foldl max start ↔ m < start ∨ ∃ x ∈ xs, m < x
  := by
  induction xs generalizing start with
  | nil => simp
  | cons x xs ih => rw [List.foldl_cons, ih, lt_max_iff, List.exists_mem_cons_iff, or_assoc]

namespace Rewards

variable {V W : Type}

namespace Draft

/-! ### Calls -/

/-- The calls that set rewards, with machine words as indices. -/
inductive Call (V : Type) where
  | setStateReward (s : UInt64) (r : V)
  | setChoiceReward (s c : UInt64) (r : V)

/-- A place for a reward: a state, or a choice of a state. -/
inductive Place where
  | state (s : Nat)
  | choice (s c : Nat)
deriving DecidableEq

namespace Call

/-- The state of a call. -/
def state : Call V → Nat
  | .setStateReward s _ => s.toNat
  | .setChoiceReward s _ _ => s.toNat

/-- The place that a call sets the reward of. -/
def place : Call V → Place
  | .setStateReward s _ => .state s.toNat
  | .setChoiceReward s c _ => .choice s.toNat c.toNat

/-- The state of the place that a call sets the reward of is the state of the call. -/
theorem state_eq {call : Call V} {s : Nat}
    (h : call.place = .state s ∨ ∃ c, call.place = .choice s c) :
  call.state = s
  := by
  cases call with
  | setStateReward s' r =>
      obtain ⟨⟨⟩⟩ | ⟨c, ⟨⟩⟩ := h
      rfl
  | setChoiceReward s' c' r =>
      obtain ⟨⟨⟩⟩ | ⟨c, ⟨⟩⟩ := h
      rfl

/-- The reward that a call sets. -/
def reward : Call V → V
  | .setStateReward _ r => r
  | .setChoiceReward _ _ r => r

/-- The reward that a call sets for a place. -/
def rewardAt? (place : Place) (call : Call V) : Option V :=
  if call.place = place then some call.reward else none

end Call

/-- The reward that was set last for a place. -/
def lastReward? (calls : List (Call V)) (place : Place) : Option V :=
  (calls.filterMap (Call.rewardAt? place)).getLast?

/-- One more call sets the reward of its place. -/
theorem lastReward?_concat (calls : List (Call V)) (call : Call V) (place : Place) :
  lastReward? (calls ++ [call]) place
    = if call.place = place then some call.reward else lastReward? calls place
  := by
  rw [lastReward?, List.filterMap_append]
  split
  · next h => simp [Call.rewardAt?, h]
  · next h => simp [Call.rewardAt?, h, lastReward?]

/-- No reward was set last for a place that no call sets the reward of. -/
theorem lastReward?_eq_none_iff {calls : List (Call V)} {place : Place} :
  lastReward? calls place = none ↔ ∀ call ∈ calls, call.place ≠ place
  := by
  simp only [lastReward?, List.getLast?_eq_none_iff, List.filterMap_eq_nil_iff, Call.rewardAt?,
    ite_eq_right_iff, reduceCtorEq, imp_false, ne_eq]

/-- In place, a state must be one of the model. -/
def requireState (s : Nat) : EStateM (CheckError V W) (Draft V) Unit := do
  let b ← get
  if b.numStates ≤ s then
    throw (.stateOutOfRange s b.numStates)

/-- The draft after a call that is not refused. -/
def after (b : Draft V) : Call V → Draft V
  | .setStateReward s r => { b with stateRewards := b.stateRewards.insert s.toNat r }
  | .setChoiceReward s c r => { b with
      choiceRewards := b.choiceRewards.modify s.toNat fun t => t.insert c.toNat r }

/-- The steps of a call: its state is looked at before anything is changed. -/
def Call.perform (call : Call V) : EStateM (CheckError V W) (Draft V) Reply := do
  requireState call.state
  modify fun b => b.after call
  return .done

/-- The operation of a call. -/
def Call.apply (b : Draft V) : Call V → Except (CheckError V W) (Draft V × Reply)
  | .setStateReward s r => (b.setStateReward s.toNat r).map fun b' => (b', .done)
  | .setChoiceReward s c r => (b.setChoiceReward s.toNat c.toNat r).map fun b' => (b', .done)

/-- In place, a state that exists passes, and any other one fails. -/
theorem run_requireState (s : Nat) (b : Draft V) :
  (requireState s : EStateM (CheckError V W) (Draft V) Unit).run b
    = if s < b.numStates then .ok () b else .error (.stateOutOfRange s b.numStates) b
  := by
  rw [requireState, EStateM.run_bind, EStateM.run_get]
  dsimp only
  split
  · next h =>
      rw [if_neg (Nat.not_lt_of_le h)]
      rfl
  · next h =>
      rw [if_pos (Nat.lt_of_not_le h)]
      rfl

/-- A call succeeds if its state is one of the model. -/
theorem Call.apply_eq (call : Call V) (b : Draft V) :
  (call.apply b : Except (CheckError V W) _)
    = if call.state < b.numStates then .ok (b.after call, .done)
      else .error (.stateOutOfRange call.state b.numStates)
  := by
  cases call with
  | setStateReward s r =>
      rw [apply, Draft.setStateReward, checkState, state]
      split <;> rfl
  | setChoiceReward s c r =>
      rw [apply, Draft.setChoiceReward, checkState, state]
      split <;> rfl

/-- The steps of a call do what its operation does. -/
theorem Call.run_perform (call : Call V) (b : Draft V) :
  (call.perform : EStateM (CheckError V W) (Draft V) Reply).run b
    = InPlace.outcome b (call.apply b)
  := by
  rw [apply_eq, perform, EStateM.run_bind, run_requireState]
  by_cases h : call.state < b.numStates
  · rw [if_pos h, if_pos h]
    rfl
  · rw [if_neg h, if_neg h]
    rfl

/-! ### What a draft holds -/

/-- The reward that a draft keeps for a place. -/
def reward? (b : Draft V) : Place → Option V
  | .state s => b.stateRewards.get? s
  | .choice s c => b.choiceRewards[s]?.bind fun t => t.get? c

/-- Calls change no number of states. -/
theorem numStates_after (b : Draft V) (call : Call V) :
  (b.after call).numStates = b.numStates
  := by
  cases call with
  | setStateReward s r => rfl
  | setChoiceReward s c r => exact Array.size_modify

/-- A call that is not refused sets the reward of its place, and no other one. -/
theorem reward?_after {b : Draft V} {call : Call V} (h : call.state < b.numStates)
    (place : Place) :
  (b.after call).reward? place
    = if call.place = place then some call.reward else b.reward? place
  := by
  cases call with
  | setStateReward s r =>
      cases place with
      | state s' =>
          simp only [reward?, after, Table.get?_insert, Call.place, Place.state.injEq, Call.reward,
            eq_comm (a := s')]
      | choice s' c' =>
          rw [if_neg (by rintro ⟨⟩)]
          rfl
  | setChoiceReward s c r =>
      cases place with
      | state s' =>
          rw [if_neg (by rintro ⟨⟩)]
          rfl
      | choice s' c' =>
          rw [reward?, after, Array.getElem?_modify]
          by_cases hs : s.toNat = s'
          · subst hs
            obtain ⟨row, hrow⟩ : ∃ row, b.choiceRewards[s.toNat]? = some row :=
              ⟨_, Array.getElem?_eq_getElem h⟩
            simp only [if_true, hrow, Option.map_some, Option.bind_some, Table.get?_insert,
              Call.place, Place.choice.injEq, true_and, Call.reward, reward?, eq_comm (a := c')]
          · rw [if_neg hs, if_neg]
            · rfl
            · intro hplace
              apply hs (Place.choice.inj hplace).1

/-- A draft for `n` states holds the rewards that calls which succeeded set last. -/
structure Holds (b : Draft V) (name : String) (n : Nat) (accepted : List (Call V × Reply)) :
    Prop where
  name : b.name = name
  numStates : b.numStates = n
  within : ∀ call ∈ accepted.map Prod.fst, call.state < n
  rewards : ∀ place, b.reward? place = lastReward? (accepted.map Prod.fst) place

/-- The draft without rewards holds what no calls set. -/
theorem holds_empty (name : String) (n : Nat) :
  (empty name n : Draft V).Holds name n []
  where
  name := rfl
  numStates := Array.size_replicate
  within := by rintro call ⟨⟩
  rewards := by
    rintro (s | ⟨s, c⟩)
    · rfl
    · rw [reward?, empty, Array.getElem?_replicate]
      split <;> rfl

namespace Holds

variable {b : Draft V} {name : String} {n : Nat} {accepted : List (Call V × Reply)}
  (h : b.Holds name n accepted)

include h

/-- A call that succeeds adds to what a draft holds. -/
theorem concat {call : Call V} {b' : Draft V} {reply : Reply}
    (happly : (call.apply b : Except (CheckError V W) _) = .ok (b', reply)) :
  b'.Holds name n (accepted ++ [(call, reply)])
  := by
  rw [Call.apply_eq] at happly
  split at happly
  · next hstate =>
      cases happly
      constructor
      · rw [← h.name]
        cases call <;> rfl
      · rw [numStates_after, h.numStates]
      · intro call' hcall'
        rw [List.map_append, List.mem_append] at hcall'
        obtain hcall' | hcall' := hcall'
        · apply h.within call' hcall'
        · cases List.mem_singleton.mp hcall'
          rwa [h.numStates] at hstate
      · intro place
        rw [reward?_after hstate, h.rewards, List.map_append]
        exact (lastReward?_concat _ call place).symm
  · cases happly

/-- A call is refused if its state is not one of the model, without changing anything, and otherwise
it succeeds. -/
theorem answers (call : Call V) :
  InPlace.Answers (call.perform : EStateM (CheckError V W) (Draft V) Reply) b
    (if call.state < n then none else some (.stateOutOfRange call.state n)) .done
  := by
  rw [← h.numStates]
  constructor
  · intro e he
    split at he
    · cases he
    · next hstate =>
        cases he
        rw [Call.run_perform, Call.apply_eq, if_neg hstate]
        rfl
  · intro hnone
    split at hnone
    · next hstate =>
        use b.after call
        rw [Call.run_perform, Call.apply_eq, if_pos hstate]
        rfl
    · cases hnone

/-- A reward is kept for a state if a call set one. -/
theorem mem_keys_stateRewards_iff {s : Nat} :
  s ∈ b.stateRewards.keys ↔ ∃ call ∈ accepted.map Prod.fst, call.place = .state s
  := by
  have hreward := h.rewards (.state s)
  rw [reward?] at hreward
  rw [← not_iff_not, ← Table.get?_eq_none_iff, hreward, lastReward?_eq_none_iff]
  simp

/-- A reward is kept for a choice of a state if a call set one. -/
theorem mem_keys_iff {s c : Nat} {t : Table V} (ht : b.choiceRewards[s]? = some t) :
  c ∈ t.keys ↔ ∃ call ∈ accepted.map Prod.fst, call.place = .choice s c
  := by
  have hreward := h.rewards (.choice s c)
  rw [reward?, ht, Option.bind_some] at hreward
  rw [← not_iff_not, ← Table.get?_eq_none_iff, hreward, lastReward?_eq_none_iff]
  simp

/-- The choices with rewards are machine words. -/
theorem le_indexLimit :
  ∀ t ∈ b.choiceRewards.toList, ∀ c ∈ t.keys, c ≤ indexLimit
  := by
  intro t ht c hc
  obtain ⟨s, hs⟩ := List.getElem?_of_mem ht
  rw [Array.getElem?_toList] at hs
  obtain ⟨call, -, hplace⟩ := (h.mem_keys_iff hs).mp hc
  cases call with
  | setStateReward s' r => cases hplace
  | setChoiceReward s' c' r =>
      cases hplace
      apply Nat.le_of_lt_succ c'.toNat_lt

/-- No reward is kept for the choice with an index if and only if no call set one. -/
theorem not_mem_keys_iff (c : Nat) :
  (∀ t ∈ b.choiceRewards.toList, c ∉ t.keys)
    ↔ ∀ call ∈ accepted.map Prod.fst, ∀ s, call.place ≠ .choice s c
  := by
  constructor
  · intro hnone call hcall s hplace
    have hs : s < b.choiceRewards.size := by
      rw [← Call.state_eq (Or.inr ⟨_, hplace⟩)]
      apply lt_of_lt_of_eq (h.within call hcall) h.numStates.symm
    apply hnone _ (Array.getElem_mem_toList hs)
    apply (h.mem_keys_iff (Array.getElem?_eq_getElem hs)).mpr ⟨call, hcall, hplace⟩
  · intro hcalls t ht hin
    obtain ⟨s, hs⟩ := List.getElem?_of_mem ht
    rw [Array.getElem?_toList] at hs
    obtain ⟨call, hcall, hplace⟩ := (h.mem_keys_iff hs).mp hin
    apply hcalls call hcall s hplace

end Holds

variable (W) in
/-- The journal of calls on the draft without rewards. -/
def journal (name : String) (n : Nat) (calls : List (Call V)) : Journal (Call V) (Draft V) :=
  .ofCalls (Call.perform (W := W)) (empty name n) calls

/-- What calls leave behind holds the rewards that those which succeeded set last. -/
theorem holds_journal (name : String) (n : Nat) (calls : List (Call V)) :
  (journal W name n calls).state.Holds name n (journal W name n calls).accepted
  := Journal.ofCalls_induction Call.run_perform (p := fun b accepted => b.Holds name n accepted)
    (holds_empty name n) (fun _ _ _ _ _ h happly => h.concat happly) calls

/-- The calls on states of the model are those that succeed. -/
theorem accepted_journal (name : String) (n : Nat) (calls : List (Call V)) :
  (journal W name n calls).accepted.map Prod.fst
    = calls.filter fun call => decide (call.state < n)
  := by
  induction calls using List.reverseRecOn with
  | nil => rfl
  | append_singleton calls call ih =>
      have h := holds_journal (W := W) name n calls
      rw [journal] at h ih ⊢
      rw [Journal.ofCalls_concat, Journal.record, Call.run_perform, Call.apply_eq, h.numStates,
        List.filter_append, ← ih, List.filter_singleton]
      by_cases h : call.state < n
      · rw [if_pos h, decide_eq_true h]
        exact List.map_append
      · rw [if_neg h, decide_eq_false h]
        exact (List.append_nil _).symm

/-! ### Columns -/

/-- The index after the last one is zero, and after any other one comes a larger one. -/
theorem lt_nextIndex_iff {i : Nat} (h : i ≤ indexLimit) :
  i < nextIndex i ↔ i ≠ indexLimit
  := by
  rw [nextIndex]
  constructor
  · rintro hlt rfl
    rw [Nat.mod_self] at hlt
    cases hlt
  · intro hne
    rw [Nat.mod_eq_of_lt (by omega)]
    omega

/-- No index comes after the last one. -/
theorem nextIndex_le (i : Nat) :
  nextIndex i ≤ indexLimit
  := Nat.le_of_lt_succ (Nat.mod_lt _ (Nat.succ_pos _))

/-- A number is below the number of columns if it is below the index after some choice. -/
theorem lt_columns_iff {b : Draft V} {m : Nat} :
  m < b.columns ↔ ∃ t ∈ b.choiceRewards.toList, ∃ c ∈ t.keys, m < nextIndex c
  := by
  rw [columns, lt_foldl_max_iff]
  constructor
  · rintro (hzero | ⟨next, hnext, hlt⟩)
    · cases hzero
    · obtain ⟨t, ht, hnext⟩ := List.mem_flatMap.mp hnext
      obtain ⟨c, hc, rfl⟩ := List.mem_map.mp hnext
      exact ⟨t, ht, c, hc, hlt⟩
  · rintro ⟨t, ht, c, hc, hlt⟩
    right
    exact ⟨nextIndex c, List.mem_flatMap.mpr ⟨t, ht, List.mem_map_of_mem hc⟩, hlt⟩

/-- If the choices with rewards are machine words, then there is a column for each of them unless
one is the last word. -/
theorem lt_columns_all_iff {b : Draft V}
    (h : ∀ t ∈ b.choiceRewards.toList, ∀ c ∈ t.keys, c ≤ indexLimit) :
  (∀ t ∈ b.choiceRewards.toList, ∀ c ∈ t.keys, c < b.columns)
    ↔ ∀ t ∈ b.choiceRewards.toList, indexLimit ∉ t.keys
  := by
  constructor
  · intro hall t ht hlast
    -- a column after the last index would be that after some choice
    obtain ⟨t', -, c, -, hlt⟩ := lt_columns_iff.mp (hall t ht indexLimit hlast)
    apply Nat.not_lt_of_le (nextIndex_le c) hlt
  · intro hnone t ht c hc
    apply lt_columns_iff.mpr
    refine ⟨t, ht, c, hc, (lt_nextIndex_iff (h t ht c hc)).mpr ?_⟩
    rintro rfl
    apply hnone t ht hc

/-! ### Finished rewards -/

/-- The rewards of a draft, sorted and packed. -/
def packed (b : Draft V) : Rewards V :=
  ⟨b.name, ascending b.stateRewards,
    .ofRows b.columns (b.choiceRewards.toList.map ascending)⟩

/-- A key is one of the entries in ascending order if it is one of the table. -/
theorem mem_keys_ascending {t : Table V} {key : Nat} :
  key ∈ (ascending t).map Prod.fst ↔ key ∈ t.keys
  := ((List.mergeSort_perm _ _).map Prod.fst).mem_iff

/-- The packed rewards of choices have the columns of the draft. -/
theorem columns_packed (b : Draft V) :
  b.packed.choiceRewards.columns = b.columns
  := rfl

/-- There is a packed row for each state. -/
theorem numRows_packed (b : Draft V) :
  b.packed.choiceRewards.numRows = b.numStates
  := by
  rw [packed, SparseRows.numRows_ofRows, List.length_map, Array.length_toList, numStates]

/-- The packed row of a state is its table in ascending order. -/
theorem row_packed {b : Draft V} {s : Nat} {t : Table V} (ht : b.choiceRewards[s]? = some t) :
  b.packed.choiceRewards.row s = ascending t
  := by
  obtain ⟨hs, rfl⟩ := Array.getElem?_eq_some_iff.mp ht
  rw [packed, SparseRows.row_ofRows _ _ s (by simpa using hs), List.getElem_map,
    Array.getElem_toList]

/-- A draft is finished if there is a column for each choice with a reward. -/
theorem build?_eq (b : Draft V) :
  b.build? = if ∀ t ∈ b.choiceRewards.toList, ∀ c ∈ t.keys, c < b.columns then some b.packed
    else none
  := by
  have hall : ((b.choiceRewards.toList.map ascending).all
      fun row => row.all fun entry => decide (entry.1 < b.columns)) = true
        ↔ ∀ t ∈ b.choiceRewards.toList, ∀ c ∈ t.keys, c < b.columns := by
    simp only [List.all_eq_true, List.forall_mem_map, decide_eq_true_eq]
    apply forall₂_congr
    intro t _
    simp only [← mem_keys_ascending, List.forall_mem_map]
  rw [build?, SparseRows.ofRows?]
  by_cases h : ∀ t ∈ b.choiceRewards.toList, ∀ c ∈ t.keys, c < b.columns
  · rw [if_pos (hall.mpr h), if_pos h]
    rfl
  · rw [if_neg (mt hall.mp h), if_neg h]
    rfl

end Draft

/-! ### What rewards record -/

/-- Rewards record what calls set: look-ups find the reward that was set last for a place, or else
zero, and all entries are in ascending order within the states and the columns. -/
structure Records [Arithmetic V] (r : Rewards V) (name : String) (n : Nat)
    (calls : List (Draft.Call V)) : Prop where
  name : r.name = name
  stateReward : ∀ s, r.stateReward s = (Draft.lastReward? calls (.state s)).getD 0
  choiceReward : ∀ s c, r.choiceReward s c = (Draft.lastReward? calls (.choice s c)).getD 0
  numRows : r.choiceRewards.numRows = n
  states : SparseRows.isStrictlyAscending (r.stateRewards.map Prod.fst) = true
    ∧ ∀ e ∈ r.stateRewards, e.1 < n
  rows : ∀ row ∈ r.choiceRewards.rows, SparseRows.isStrictlyAscending (row.map Prod.fst) = true
    ∧ ∀ e ∈ row, e.1 < r.choiceRewards.columns

namespace Draft

/-- The entries of a table in ascending order ascend. -/
theorem isStrictlyAscending_ascending (t : Table V) :
  SparseRows.isStrictlyAscending ((ascending t).map Prod.fst) = true
  := by
  apply SparseRows.isStrictlyAscending_of_pairwise
  apply List.pairwise_map.mpr
  apply Table.pairwise_mergeSort t.distinct

namespace Holds

variable [Arithmetic V] {b : Draft V} {name : String} {n : Nat}
  {accepted : List (Call V × Reply)} (h : b.Holds name n accepted)

include h

/-- If there is a column for each choice with a reward, then the reward that was set last for a
choice is found, or else zero. -/
theorem choiceReward_packed
    (hcolumns : ∀ t ∈ b.choiceRewards.toList, ∀ c ∈ t.keys, c < b.columns) (s c : Nat) :
  b.packed.choiceReward s c = (lastReward? (accepted.map Prod.fst) (.choice s c)).getD 0
  := by
  rw [← h.rewards, reward?, choiceReward, numRows_packed, columns_packed]
  cases ht : b.choiceRewards[s]? with
  | none =>
      have hs : b.numStates ≤ s := Array.getElem?_eq_none_iff.mp ht
      rw [if_pos (Or.inl hs)]
      rfl
  | some t =>
      have hs : ¬ b.numStates ≤ s := Nat.not_le_of_lt (Array.getElem?_eq_some_iff.mp ht).1
      have hmem : t ∈ b.choiceRewards.toList := Array.mem_toList_iff.mpr (Array.mem_of_getElem? ht)
      rw [Option.bind_some]
      by_cases hc : b.columns ≤ c
      · have hout : c ∉ t.keys := fun hin => Nat.not_lt_of_le hc (hcolumns t hmem c hin)
        rw [if_pos (Or.inr hc), Table.get?_eq_none_iff.mpr hout]
        rfl
      · rw [if_neg (not_or.mpr ⟨hs, hc⟩), SparseRows.get?, row_packed ht, ascending,
          Table.lookup_mergeSort t.distinct, Table.get?]

/-- If there is a column for each choice with a reward, then the packed rewards record the calls
that succeeded. -/
theorem records_packed
    (hcolumns : ∀ t ∈ b.choiceRewards.toList, ∀ c ∈ t.keys, c < b.columns) :
  b.packed.Records name n (accepted.map Prod.fst)
  where
  name := h.name
  stateReward s := by
    rw [← h.rewards, stateReward, packed, ascending, Table.lookup_mergeSort b.stateRewards.distinct]
    rfl
  choiceReward := h.choiceReward_packed hcolumns
  numRows := by rw [numRows_packed, h.numStates]
  states := by
    use isStrictlyAscending_ascending b.stateRewards
    intro e he
    have hkey := mem_keys_ascending.mp (List.mem_map_of_mem he)
    obtain ⟨call, hcall, hplace⟩ := h.mem_keys_stateRewards_iff.mp hkey
    rw [← Call.state_eq (Or.inl hplace)]
    apply h.within call hcall
  rows := by
    intro row hrow
    obtain ⟨s, hs, rfl⟩ := List.mem_map.mp hrow
    rw [List.mem_range, numRows_packed] at hs
    rw [row_packed (Array.getElem?_eq_getElem hs)]
    use isStrictlyAscending_ascending _
    intro e he
    apply hcolumns _ (Array.getElem_mem_toList hs)
    apply mem_keys_ascending.mp (List.mem_map_of_mem he)

/-- A draft cannot be finished if a call set a reward for the choice with the last index, and
otherwise it is finished as rewards that record the calls. -/
theorem build :
  (∃ call ∈ accepted.map Prod.fst, ∃ s, call.place = .choice s indexLimit) ∧ b.build? = none
    ∨ (∀ call ∈ accepted.map Prod.fst, ∀ s, call.place ≠ .choice s indexLimit)
      ∧ ∃ r, b.build? = some r ∧ r.Records name n (accepted.map Prod.fst)
  := by
  have hcolumns := (lt_columns_all_iff h.le_indexLimit).trans (h.not_mem_keys_iff indexLimit)
  rw [build?_eq]
  by_cases hall : ∀ call ∈ accepted.map Prod.fst, ∀ s, call.place ≠ .choice s indexLimit
  · right
    rw [if_pos (hcolumns.mpr hall)]
    exact ⟨hall, b.packed, rfl, h.records_packed (hcolumns.mpr hall)⟩
  · left
    rw [if_neg (mt hcolumns.mp hall)]
    push Not at hall
    exact ⟨hall, rfl⟩

end Holds

variable (W) in
/-- What calls leave behind settles which rewards are set: those calls succeed whose state is one of
the `n` states, and any other call is refused without changing anything.  The draft is finished as
rewards that record the calls that succeeded, unless one of these set a reward for the choice with
the last index. -/
structure Settles [Arithmetic V] (j : Journal (Call V) (Draft V)) (name : String) (n : Nat)
    (calls : List (Call V)) : Prop where
  accepted : j.accepted.map Prod.fst = calls.filter fun call => decide (call.state < n)
  answers : ∀ call : Call V, InPlace.Answers
    (call.perform : EStateM (CheckError V W) (Draft V) Reply) j.state
    (if call.state < n then none else some (.stateOutOfRange call.state n)) .done
  unchanged : ∀ (call : Call V) (e : CheckError V W) (b' : Draft V),
    call.perform.run j.state = .error e b' → b' = j.state
  build :
    (∃ call ∈ j.accepted.map Prod.fst, ∃ s, call.place = .choice s indexLimit)
        ∧ j.state.build? = none
      ∨ (∀ call ∈ j.accepted.map Prod.fst, ∀ s, call.place ≠ .choice s indexLimit)
        ∧ ∃ r, j.state.build? = some r ∧ r.Records name n (j.accepted.map Prod.fst)

/-- Any calls on the draft without rewards settle which rewards are set. -/
theorem settles_journal [Arithmetic V] (name : String) (n : Nat) (calls : List (Call V)) :
  Settles W (journal W name n calls) name n calls
  where
  accepted := accepted_journal name n calls
  answers := (holds_journal name n calls).answers
  unchanged call _ _ herror := ((holds_journal name n calls).answers call).eq_of_error herror
  build := (holds_journal name n calls).build

/-- A reward for the choice with the last index is set, and then the draft cannot be finished. -/
theorem settles_journal_last :
  (journal ℝ "r" 1 [.setChoiceReward 0 18446744073709551615 (1 : ℝ)]).state.build? = none
  := by
  have h := settles_journal (W := ℝ) "r" 1
    [Call.setChoiceReward 0 18446744073709551615 (1 : ℝ)]
  obtain ⟨-, hnone⟩ | ⟨hall, -⟩ := h.build
  · exact hnone
  · rw [h.accepted] at hall
    exact absurd rfl (hall _ (List.mem_filter.mpr ⟨List.mem_cons_self, rfl⟩) 0)

end Draft

end Rewards

end Reachability
