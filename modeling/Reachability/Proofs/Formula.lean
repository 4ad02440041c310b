import Mathlib
import Reachability.Solve.Bounded

/-!
# Until formulas over a model

A formula counts as within a model if all states of its sets are states of the model.  Such a
formula passes the check of its sets, which changes the room of the sets and nothing else
(`Until.restrict_eq_ok_iff`).
-/

namespace Reachability

variable {V W : Type}

/-- Whether a state remains, which every state does where there is no set to remain in. -/
def Until.remains (u : Until) (s : Nat) : Bool :=
  match u.remain with
  | some set => set.contains s
  | none => true

/-- All states of a set are states of a model. -/
def StateSet.Within (set : StateSet) (numStates : Nat) : Prop :=
  ∀ s, set.contains s = true → s < numStates

/-- All states of a formula are states of a model. -/
structure Until.Within (u : Until) (numStates : Nat) : Prop where
  target : u.target.Within numStates
  remain : ∀ set ∈ u.remain, set.Within numStates

/-- A set of listed states is within a model that has them all. -/
theorem StateSet.within_ofList {numStates count : Nat} {states : List Nat}
    (h : ∀ s ∈ states, s < numStates) :
  (ofList count states).Within numStates
  := by
  intro s hs
  rw [contains_ofList, decide_eq_true_eq] at hs
  apply h s hs

/-- A formula without a set to remain in is within a model if its target is. -/
theorem Until.within_of_target {target : StateSet} {numStates : Nat}
    (h : target.Within numStates) :
  (⟨none, target⟩ : Until).Within numStates
  where
  target := h
  remain := by rintro set ⟨⟩

/-- The set with the same states and room for those of a model. -/
def StateSet.resized (set : StateSet) (numStates : Nat) : StateSet := .ofList numStates set.toList

/-- The formula with the same states and room for those of a model. -/
def Until.resized (u : Until) (numStates : Nat) : Until :=
  ⟨u.remain.map fun set => set.resized numStates, u.target.resized numStates⟩

/-- Resizing a set changes no membership. -/
@[simp]
theorem StateSet.contains_resized (set : StateSet) (numStates s : Nat) :
  (set.resized numStates).contains s = set.contains s
  := by
  rw [resized, contains_ofList, Bool.eq_iff_iff, decide_eq_true_eq, mem_toList]

/-- Resizing a formula changes no membership in the target. -/
@[simp]
theorem Until.contains_target_resized (u : Until) (numStates s : Nat) :
  (u.resized numStates).target.contains s = u.target.contains s
  := StateSet.contains_resized u.target numStates s

/-- Resizing a formula does not change which states remain. -/
@[simp]
theorem Until.remains_resized (u : Until) (numStates s : Nat) :
  (u.resized numStates).remains s = u.remains s
  := by
  rw [remains, remains, resized]
  cases u.remain with
  | none => rfl
  | some set => apply StateSet.contains_resized

/-- A set passes the check if it is within the model, and then comes out resized. -/
theorem StateSet.restrict_eq_ok_iff {set set' : StateSet} {numStates : Nat} :
  (set.restrict numStates : Except (CheckError V W) StateSet) = .ok set'
    ↔ set.Within numStates ∧ set' = set.resized numStates
  := by
  rw [restrict]
  split
  · next s hfind =>
      have hs := List.mem_of_find?_eq_some hfind
      have hout := List.find?_some hfind
      rw [decide_eq_true_eq] at hout
      constructor
      · rintro ⟨⟩
      · rintro ⟨hwithin, -⟩
        exact absurd (hwithin s (mem_toList.mp hs)) (Nat.not_lt_of_ge hout)
  · next hfind =>
      have hwithin : set.Within numStates := by
        intro s hs
        have hin := List.find?_eq_none.mp hfind s (mem_toList.mpr hs)
        rw [decide_eq_true_eq] at hin
        apply Nat.lt_of_not_ge hin
      constructor
      · rintro ⟨⟩
        exact ⟨hwithin, rfl⟩
      · rintro ⟨-, rfl⟩
        rfl

/-- A formula passes the check if it is within the model, and then comes out resized. -/
theorem Until.restrict_eq_ok_iff {u u' : Until} {numStates : Nat} :
  (u.restrict numStates : Except (CheckError V W) Until) = .ok u'
    ↔ u.Within numStates ∧ u' = u.resized numStates
  := by
  obtain ⟨remain, target⟩ := u
  rw [restrict]
  cases htarget : (target.restrict numStates : Except (CheckError V W) StateSet) with
  | error e =>
      constructor
      · rintro ⟨⟩
      · rintro ⟨⟨hwithin, -⟩, -⟩
        rw [StateSet.restrict_eq_ok_iff.mpr ⟨hwithin, rfl⟩] at htarget
        cases htarget
  | ok target' =>
      obtain ⟨htarget', rfl⟩ := StateSet.restrict_eq_ok_iff.mp htarget
      cases remain with
      | none =>
          constructor
          · rintro ⟨⟩
            refine ⟨⟨htarget', ?_⟩, rfl⟩
            rintro set ⟨⟩
          · rintro ⟨-, rfl⟩
            rfl
      | some remain =>
          cases hremain : (remain.restrict numStates : Except (CheckError V W) StateSet) with
          | error e =>
              simp only [hremain, bind, Except.bind]
              constructor
              · rintro ⟨⟩
              · rintro ⟨⟨-, hwithin⟩, -⟩
                rw [StateSet.restrict_eq_ok_iff.mpr ⟨hwithin remain rfl, rfl⟩] at hremain
                cases hremain
          | ok remain' =>
              obtain ⟨hremain', rfl⟩ := StateSet.restrict_eq_ok_iff.mp hremain
              simp only [hremain, bind, Except.bind]
              constructor
              · rintro ⟨⟩
                refine ⟨⟨htarget', ?_⟩, rfl⟩
                rintro set ⟨⟩
                apply hremain'
              · rintro ⟨-, rfl⟩
                rfl

/-- The unknown states are those of the model that remain and are not decided. -/
theorem Until.contains_unknown {u : Until} {numStates s : Nat} {decided : StateSet}
    {no : Option StateSet} :
  (u.unknown numStates decided no).contains s = true
    ↔ s < numStates ∧ u.remains s = true ∧ decided.contains s = false
      ∧ ∀ set ∈ no, set.contains s = false
  := by
  obtain ⟨remain, target⟩ := u
  cases remain with
  | none => cases no with
    | none => simp [unknown, remains]
    | some set =>
        simp [unknown, remains]
        grind
  | some remain => cases no with
    | none =>
        simp [unknown, remains]
        grind
    | some set =>
        simp [unknown, remains]
        grind

end Reachability
