import Mathlib
import Reachability.Proofs.Choice
import Reachability.Proofs.Construction
import Reachability.Proofs.Formula
import Reachability.Proofs.Settle

/-!
# The steps of the search

A step of the search for the states with probability zero or one keeps the target and decides
the open states, each by its own choices: all of them must do where the owner minimises, and some
choice where the owner maximises (`Arena.contains_attract`, `Arena.contains_attractWithin`).
Hence the steps keep the order of sets, and their iterates from the target ascend.  The searches
themselves find the states of all iterates (`Arena.contains_positiveStates`,
`Arena.contains_positiveWithin`), and the sure states reach the target within themselves
(`Arena.exists_sureStates`).
-/

namespace Reachability

variable {V : Type}

/-- Putting states in or taking them out decides the membership of those states only. -/
theorem contains_foldl_assign (present : Nat → Bool) (states : List Nat) (x : StateSet) (s : Nat) :
  (states.foldl (fun r t => r.assign t (present t)) x).contains s
    = if s ∈ states then present s else x.contains s
  := by
  induction states generalizing x with
  | nil => rfl
  | cons t states ih =>
      rw [List.foldl_cons, ih, StateSet.contains_assign]
      by_cases hst : s = t
      · subst hst
        rw [if_pos rfl, ite_self, if_pos List.mem_cons_self]
      · simp only [List.mem_cons, hst, false_or, if_false]

namespace Arena

variable {a : Arena V} {u : Until} {o : Objective} {x y : StateSet} {s : Nat}

/-- A step decides the states of the subset that the model has, and no other state. -/
theorem contains_decideStates (q : Quantifiers) (condition : List (Nat × V) → Bool)
    (subset result : StateSet) :
  (a.decideStates q condition subset result).contains s
    = if subset.contains s = true ∧ s < a.numStates then a.quantified q condition s
      else result.contains s
  := by
  rw [decideStates, contains_foldl_assign]
  simp only [statesOf, List.mem_filter, StateSet.mem_toList, decide_eq_true_eq]

/-- Under the flags of an objective, a condition is asked of all choices of a state whose owner
minimises, and of some choice of one whose owner maximises. -/
theorem quantified_iff {condition : List (Nat × V) → Bool} :
  a.quantified o.quantifiers condition s = true
    ↔ (a.direction o s).Quantify (a.mdp.numChoices s)
        fun c => condition (a.mdp.successors s c) = true
  := by
  have hflag : o.quantifiers.forAll (a.owner s) = (a.direction o s).isMin := by
    rw [direction]
    cases a.owner s <;> rfl
  rw [quantified, hflag]
  cases a.direction o s with
  | min => simp [Direction.isMin, Direction.Quantify]
  | max => simp [Direction.isMin, Direction.Quantify]

/-- A state is open if it is one of the model, remains, is not in the target, and has a
choice. -/
structure IsOpen (a : Arena V) (u : Until) (s : Nat) : Prop where
  lt_numStates : s < a.numStates
  target : u.target.contains s = false
  remains : u.remains s = true
  choices : 0 < a.mdp.numChoices s

/-- The open states of a formula are found. -/
theorem contains_openStates :
  (a.openStates u.remain u.target).contains s = true ↔ a.IsOpen u s
  := by
  have hiff : (a.openStates u.remain u.target).contains s = true
      ↔ s < a.numStates ∧ u.target.contains s = false ∧ u.remains s = true
        ∧ 0 < a.mdp.numChoices s := by
    obtain ⟨remain, target⟩ := u
    cases remain with
    | none =>
        simp [openStates, Until.remains]
        grind
    | some set =>
        simp [openStates, Until.remains]
        grind
  rw [hiff]
  constructor
  · rintro ⟨hlt, htarget, hremains, hchoices⟩
    exact ⟨hlt, htarget, hremains, hchoices⟩
  · rintro ⟨hlt, htarget, hremains, hchoices⟩
    exact ⟨hlt, htarget, hremains, hchoices⟩

/-- A step of the search holds the target, and the open states whose choices satisfy the
condition. -/
theorem contains_decideStates_open (condition : List (Nat × V) → Bool) :
  (a.decideStates o.quantifiers condition (a.openStates u.remain u.target)
      (u.target.below a.numStates)).contains s = true
    ↔ (u.target.contains s = true ∧ s < a.numStates)
      ∨ (a.IsOpen u s ∧ (a.direction o s).Quantify (a.mdp.numChoices s)
          fun c => condition (a.mdp.successors s c) = true)
  := by
  rw [contains_decideStates]
  by_cases hopen : a.IsOpen u s
  · rw [if_pos ⟨contains_openStates.mpr hopen, hopen.lt_numStates⟩, quantified_iff]
    simp only [hopen, hopen.target, Bool.false_eq_true, false_and, false_or, true_and]
  · rw [if_neg (fun h => hopen (contains_openStates.mp h.1)), StateSet.contains_below,
      Bool.and_eq_true, decide_eq_true_eq]
    simp only [hopen, false_and, or_false]

/-- Iterates of a step that only holds states of the model hold only such states, if the target is
cut down to them. -/
theorem lt_numStates_of_contains_iterate (a : Arena V) (u : Until) {step : StateSet → StateSet}
    (hstep : ∀ x s, (step x).contains s = true → s < a.numStates) (i : Nat) :
  ∀ s, (step^[i] (u.target.below a.numStates)).contains s = true → s < a.numStates
  := by
  intro s hs
  cases i with
  | zero =>
      rw [Function.iterate_zero_apply, StateSet.contains_below, Bool.and_eq_true,
        decide_eq_true_eq] at hs
      apply hs.2
  | succ i =>
      rw [Function.iterate_succ_apply'] at hs
      apply hstep _ s hs

variable [Arithmetic V]

/-- The states that are attracted to `x`. -/
theorem contains_attract :
  (a.attract u.remain u.target o x).contains s = true
    ↔ (u.target.contains s = true ∧ s < a.numStates)
      ∨ (a.IsOpen u s ∧ (a.direction o s).Quantify (a.mdp.numChoices s)
          fun c => hits x (a.mdp.successors s c) = true)
  := contains_decideStates_open (reaches x)

/-- The states that are attracted to `y` within `x`. -/
theorem contains_attractWithin :
  (a.attractWithin u.remain u.target o x y).contains s = true
    ↔ (u.target.contains s = true ∧ s < a.numStates)
      ∨ (a.IsOpen u s ∧ (a.direction o s).Quantify (a.mdp.numChoices s)
          fun c => staysIn x (a.mdp.successors s c) = true
            ∧ hits y (a.mdp.successors s c) = true)
  := by
  rw [attractWithin, contains_decideStates_open]
  simp only [reachesWithin, Bool.and_eq_true]

/-- A row that hits a set hits a larger one. -/
theorem hits_mono (h : x ⊆ y) {row : List (Nat × V)} (hx : hits x row = true) :
  hits y row = true
  := by
  rw [hits, List.any_eq_true] at hx ⊢
  obtain ⟨e, he, hhit⟩ := hx
  rw [Bool.and_eq_true] at hhit
  use e, he
  rw [Bool.and_eq_true]
  exact ⟨hhit.1, h _ hhit.2⟩

/-- A row that stays in a set stays in a larger one. -/
theorem staysIn_mono (h : x ⊆ y) {row : List (Nat × V)} (hx : staysIn x row = true) :
  staysIn y row = true
  := by
  rw [staysIn, List.all_eq_true] at hx ⊢
  intro e he
  have hstay := hx e he
  rw [Bool.or_eq_true] at hstay ⊢
  apply hstay.imp_right (h _)

variable (a u o)

/-- A larger set attracts more states. -/
theorem keepsOrder_attract :
  KeepsOrder (a.attract u.remain u.target o)
  := by
  intro x y hxy s hs
  rw [contains_attract] at hs ⊢
  apply hs.imp_right
  rintro ⟨hopen, hquantify⟩
  use hopen
  apply hquantify.mono fun c _ hc => hits_mono hxy hc

/-- A larger set attracts more states within a larger one. -/
theorem attractWithin_mono {x x' y y' : StateSet} (hx : x ⊆ x') (hy : y ⊆ y') :
  a.attractWithin u.remain u.target o x y ⊆ a.attractWithin u.remain u.target o x' y'
  := by
  intro s hs
  rw [contains_attractWithin] at hs ⊢
  apply hs.imp_right
  rintro ⟨hopen, hquantify⟩
  use hopen
  apply hquantify.mono fun c _ hc => ⟨staysIn_mono hx hc.1, hits_mono hy hc.2⟩

/-- A larger set attracts more states within the same one. -/
theorem keepsOrder_attractWithin (x : StateSet) :
  KeepsOrder (a.attractWithin u.remain u.target o x)
  := by
  intro y y' hy
  apply a.attractWithin_mono u o (fun _ h => h) hy

/-- The target states of the model are attracted to any set. -/
theorem below_subset_attract :
  u.target.below a.numStates ⊆ a.attract u.remain u.target o x
  := by
  intro s hs
  rw [StateSet.contains_below, Bool.and_eq_true, decide_eq_true_eq] at hs
  apply contains_attract.mpr (Or.inl hs)

/-- The target states of the model are attracted to any set within any set. -/
theorem below_subset_attractWithin :
  u.target.below a.numStates ⊆ a.attractWithin u.remain u.target o x y
  := by
  intro s hs
  rw [StateSet.contains_below, Bool.and_eq_true, decide_eq_true_eq] at hs
  apply contains_attractWithin.mpr (Or.inl hs)

/-- Attracted states are states of the model. -/
theorem lt_numStates_of_contains_attract (x : StateSet) (s : Nat)
    (h : (a.attract u.remain u.target o x).contains s = true) :
  s < a.numStates
  := by
  obtain h | h := contains_attract.mp h
  · apply h.2
  · apply h.1.lt_numStates

/-- States that are attracted within a set are states of the model. -/
theorem lt_numStates_of_contains_attractWithin (x y : StateSet) (s : Nat)
    (h : (a.attractWithin u.remain u.target o x y).contains s = true) :
  s < a.numStates
  := by
  obtain h | h := contains_attractWithin.mp h
  · apply h.2
  · apply h.1.lt_numStates

/-- The states with positive probability are those of all iterates of the step, and of the one
that has the number of states of the model as its index. -/
theorem contains_positiveStates (s : Nat) :
  ((a.positiveStates u.remain u.target o).contains s = true
      ↔ ((a.attract u.remain u.target o)^[a.numStates]
          (u.target.below a.numStates)).contains s = true)
    ∧ ((a.positiveStates u.remain u.target o).contains s = true
      ↔ ∃ i, ((a.attract u.remain u.target o)^[i]
          (u.target.below a.numStates)).contains s = true)
  := by
  apply contains_settle (a.keepsOrder_attract u o) (a.below_subset_attract u o)
  apply a.lt_numStates_of_contains_iterate u (a.lt_numStates_of_contains_attract u o)

/-- No further state is attracted to those with positive probability. -/
theorem contains_attract_positiveStates (s : Nat) :
  (a.attract u.remain u.target o (a.positiveStates u.remain u.target o)).contains s
    = (a.positiveStates u.remain u.target o).contains s
  := by
  obtain ⟨j, -, hsettle, hfixed⟩ := settle_ascending (a.keepsOrder_attract u o)
    (a.below_subset_attract u o)
    (a.lt_numStates_of_contains_iterate u (a.lt_numStates_of_contains_attract u o))
  rw [positiveStates, hsettle]
  apply hfixed

/-- The zero states are the states of the model that are not attracted to the target. -/
theorem contains_zeroStates_iff_positiveStates {s : Nat} :
  (a.zeroStates u.remain u.target o).contains s = true
    ↔ s < a.numStates ∧ ¬ (a.positiveStates u.remain u.target o).contains s = true
  := by
  rw [zeroStates, StateSet.contains_complement, Bool.and_eq_true, decide_eq_true_eq,
    Bool.not_eq_true', Bool.not_eq_true]

/-- A state with probability zero is not in the target, and if it is open then its owner is not
bound to move to a state with positive probability. -/
theorem of_contains_zeroStates {s : Nat}
    (h : (a.zeroStates u.remain u.target o).contains s = true) :
  u.target.contains s = false
    ∧ (a.IsOpen u s → ¬ (a.direction o s).Quantify (a.mdp.numChoices s) fun c =>
        hits (a.positiveStates u.remain u.target o) (a.mdp.successors s c) = true)
  := by
  obtain ⟨hs, h⟩ := (a.contains_zeroStates_iff_positiveStates u o).mp h
  rw [← contains_attract_positiveStates, contains_attract, not_or] at h
  obtain ⟨htarget, hquantify⟩ := h
  constructor
  · apply Bool.eq_false_iff.mpr
    intro h
    apply htarget ⟨h, hs⟩
  · intro hopen h
    apply hquantify ⟨hopen, h⟩

/-- The states that reach the target within a set are those of all iterates of the step, and of
the one that has the number of states of the model as its index. -/
theorem contains_positiveWithin (x : StateSet) (s : Nat) :
  ((a.positiveWithin u.remain u.target o x).contains s = true
      ↔ ((a.attractWithin u.remain u.target o x)^[a.numStates]
          (u.target.below a.numStates)).contains s = true)
    ∧ ((a.positiveWithin u.remain u.target o x).contains s = true
      ↔ ∃ i, ((a.attractWithin u.remain u.target o x)^[i]
          (u.target.below a.numStates)).contains s = true)
  := by
  apply contains_settle (a.keepsOrder_attractWithin u o x) (a.below_subset_attractWithin u o)
  apply a.lt_numStates_of_contains_iterate u (a.lt_numStates_of_contains_attractWithin u o x)

/-- No further state is attracted within a set to those that reach the target within it. -/
theorem contains_attractWithin_positiveWithin (x : StateSet) (s : Nat) :
  (a.attractWithin u.remain u.target o x (a.positiveWithin u.remain u.target o x)).contains s
    = (a.positiveWithin u.remain u.target o x).contains s
  := by
  obtain ⟨j, -, hsettle, hfixed⟩ := settle_ascending (a.keepsOrder_attractWithin u o x)
    (a.below_subset_attractWithin u o)
    (a.lt_numStates_of_contains_iterate u (a.lt_numStates_of_contains_attractWithin u o x))
  rw [positiveWithin, hsettle]
  apply hfixed

/-- A state that does not reach the target within a set is not in the target, and if it is open then
its owner is not bound to stay in the set and move to a state that reaches the target there. -/
theorem of_not_positiveWithin {x : StateSet} {s : Nat} (hs : s < a.numStates)
    (h : (a.positiveWithin u.remain u.target o x).contains s = false) :
  u.target.contains s = false
    ∧ (a.IsOpen u s → ¬ (a.direction o s).Quantify (a.mdp.numChoices s) fun c =>
        staysIn x (a.mdp.successors s c) = true
          ∧ hits (a.positiveWithin u.remain u.target o x) (a.mdp.successors s c) = true)
  := by
  rw [← contains_attractWithin_positiveWithin, Bool.eq_false_iff, ne_eq, contains_attractWithin,
    not_or] at h
  obtain ⟨htarget, hquantify⟩ := h
  constructor
  · apply Bool.eq_false_iff.mpr
    intro h
    apply htarget ⟨h, hs⟩
  · intro hopen h
    apply hquantify ⟨hopen, h⟩

/-- States that reach the target within a set are states of the model. -/
theorem lt_numStates_of_contains_positiveWithin (x : StateSet) (s : Nat)
    (h : (a.positiveWithin u.remain u.target o x).contains s = true) :
  s < a.numStates
  := by
  rw [← contains_attractWithin_positiveWithin] at h
  apply a.lt_numStates_of_contains_attractWithin u o x _ s h

/-- More states reach the target within a larger set. -/
theorem keepsOrder_positiveWithin :
  KeepsOrder (a.positiveWithin u.remain u.target o)
  := by
  intro x y hxy s hs
  rw [(a.contains_positiveWithin u o _ s).2] at hs ⊢
  obtain ⟨i, hi⟩ := hs
  use i
  apply iterate_subset_iterate (fun _ _ => a.attractWithin_mono u o hxy) (fun _ h => h) i s hi

/-- The sure states are an iterate of the outer search, at most as many steps from the states of
the model as there are such states, and all of them reach the target within themselves. -/
theorem exists_sureStates :
  ∃ j ≤ a.numStates, a.sureStates u.remain u.target o
      = (a.positiveWithin u.remain u.target o)^[j] (.full a.numStates)
    ∧ ∀ s, (a.positiveWithin u.remain u.target o (a.sureStates u.remain u.target o)).contains s
      = (a.sureStates u.remain u.target o).contains s
  := by
  have hstart : a.positiveWithin u.remain u.target o (.full a.numStates) ⊆ .full a.numStates := by
    intro s hs
    rw [StateSet.contains_full, decide_eq_true_eq]
    apply a.lt_numStates_of_contains_positiveWithin u o _ s hs
  obtain ⟨j, hj, hsettle, hfixed⟩ := settle_descending (n := a.numStates)
    (a.keepsOrder_positiveWithin u o) hstart (by
      intro s hs
      rw [StateSet.contains_full, decide_eq_true_eq] at hs
      apply hs)
  use j, hj, hsettle
  rw [sureStates, hsettle]
  apply hfixed

/-- The sure states are the target states of the model, and the open states whose owner is bound to
stay among the sure states. -/
theorem contains_sureStates_iff_attracted (s : Nat) :
  (a.sureStates u.remain u.target o).contains s = true
    ↔ (u.target.contains s = true ∧ s < a.numStates)
      ∨ (a.IsOpen u s ∧ (a.direction o s).Quantify (a.mdp.numChoices s) fun c =>
          staysIn (a.sureStates u.remain u.target o) (a.mdp.successors s c) = true
            ∧ hits (a.sureStates u.remain u.target o) (a.mdp.successors s c) = true)
  := by
  obtain ⟨-, -, -, hfixed⟩ := a.exists_sureStates u o
  rw [← contains_attractWithin]
  constructor
  · intro hs
    rw [← hfixed, ← contains_attractWithin_positiveWithin] at hs
    apply a.keepsOrder_attractWithin u o _ _ _ _ s hs
    intro t ht
    rwa [← hfixed]
  · intro hs
    rw [← hfixed, ← contains_attractWithin_positiveWithin]
    apply a.keepsOrder_attractWithin u o _ _ _ _ s hs
    intro t ht
    rwa [hfixed]

/-- The target states of the model are sure. -/
theorem contains_sureStates_of_target {s : Nat} (hs : s < a.numStates)
    (htarget : u.target.contains s = true) :
  (a.sureStates u.remain u.target o).contains s = true
  := (a.contains_sureStates_iff_attracted u o s).mpr (Or.inl ⟨htarget, hs⟩)

/-- Sure states are states of the model. -/
theorem lt_numStates_of_contains_sureStates (s : Nat)
    (h : (a.sureStates u.remain u.target o).contains s = true) :
  s < a.numStates
  := by
  obtain h | h := (a.contains_sureStates_iff_attracted u o s).mp h
  · apply h.2
  · apply h.1.lt_numStates

end Arena

/-! ### Rows of positive masses -/

/-- A row of positive masses hits a set that has one of its successors. -/
theorem hits_iff [Arithmetic V] {row : List (Nat × V)} (hrow : ∀ e ∈ row, 0 < e.2) {x : StateSet} :
  hits x row = true ↔ ∃ e ∈ row, x.contains e.1 = true
  := by
  rw [hits, List.any_eq_true]
  constructor
  · rintro ⟨e, he, hhit⟩
    rw [Bool.and_eq_true] at hhit
    exact ⟨e, he, hhit.2⟩
  · rintro ⟨e, he, hx⟩
    use e, he
    rw [Bool.and_eq_true, decide_eq_true_eq]
    exact ⟨hrow e he, hx⟩

/-- No value above zero is at most zero. -/
class SeparatesZero (V : Type) [Arithmetic V] : Prop where
  not_le_zero : ∀ x : V, 0 < x → ¬ x ≤ 0

instance : SeparatesZero ℝ where
  not_le_zero _ h := not_le_of_gt h

/-- A row of positive masses stays in a set that has all its successors. -/
theorem staysIn_iff [Arithmetic V] [SeparatesZero V] {row : List (Nat × V)}
    (hrow : ∀ e ∈ row, 0 < e.2) {x : StateSet} :
  staysIn x row = true ↔ ∀ e ∈ row, x.contains e.1 = true
  := by
  rw [staysIn, List.all_eq_true]
  constructor
  · intro h e he
    have hstay := h e he
    rw [Bool.or_eq_true, decide_eq_true_eq] at hstay
    apply hstay.resolve_left (SeparatesZero.not_le_zero _ (hrow e he))
  · intro h e he
    rw [Bool.or_eq_true]
    apply Or.inr (h e he)

end Reachability
