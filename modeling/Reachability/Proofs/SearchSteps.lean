import Mathlib
import Reachability.Proofs.Comparison
import Reachability.Proofs.Greedy
import Reachability.Proofs.SearchLoops

/-!
# Steps of a search

A step of a search changes a set at the states of a subset, and at no other state: it decides each
of them by its own choices, of which all or some must satisfy a condition, as the flag of the owner
says (`Arena.DecidesBy`).  This holds of any flags and of any set that the step starts from, as long
as that has room for the states.

More choices satisfy a weaker condition, so that the steps are monotone in the sets that successors
are looked up in.  A condition that all choices satisfy is satisfied by some choice, provided that
there is one; a state without choices satisfies any condition if all choices must do, and none if
some choice must (`Model.Built.steps_decide`).
-/

namespace Reachability

/-- Flags are relaxed to others if no flag is set that was not. -/
def Quantifiers.RelaxesTo (q q' : Quantifiers) : Prop :=
  ∀ p, q'.forAll p = true → q.forAll p = true

/-! ### Conditions under flags -/

namespace Arena

variable {V : Type} {a : Arena V} {q q' : Quantifiers} {s : Nat} {p p' : Nat → Prop}

/-- Under flags, a condition is asked of all choices of a state whose owner has the flag set, and of
some choice of any other state. -/
def Asks (a : Arena V) (q : Quantifiers) (s : Nat) (p : Nat → Prop) : Prop :=
  (Direction.ofFlag (q.forAll (a.owner s))).Quantify (a.mdp.numChoices s) p

/-- If the flag of the owner is set, then all choices must satisfy a condition. -/
theorem asks_of_forAll (h : q.forAll (a.owner s) = true) :
  a.Asks q s p ↔ ∀ c < a.mdp.numChoices s, p c
  := by
  rw [Asks, h]
  exact Iff.rfl

/-- If the flag of the owner is not set, then some choice must satisfy a condition. -/
theorem asks_of_not_forAll (h : q.forAll (a.owner s) = false) :
  a.Asks q s p ↔ ∃ c < a.mdp.numChoices s, p c
  := by
  rw [Asks, h]
  exact Iff.rfl

/-- A state satisfies a weaker condition. -/
theorem Asks.mono (h : a.Asks q s p) (hp : ∀ c < a.mdp.numChoices s, p c → p' c) :
  a.Asks q s p'
  := Direction.Quantify.mono h hp

/-- A state with choices satisfies a condition under relaxed flags. -/
theorem Asks.relax (h : a.Asks q s p) (hq : q.RelaxesTo q') (hn : 0 < a.mdp.numChoices s) :
  a.Asks q' s p
  := by
  cases hflag' : q'.forAll (a.owner s) with
  | true => rwa [asks_of_forAll hflag', ← asks_of_forAll (hq _ hflag')]
  | false =>
      rw [asks_of_not_forAll hflag']
      cases hflag : q.forAll (a.owner s) with
      | true => exact ⟨0, hn, (asks_of_forAll hflag).mp h 0 hn⟩
      | false => exact (asks_of_not_forAll hflag).mp h

/-- A state without choices satisfies a condition if and only if the flag of its owner is set. -/
theorem asks_iff_of_numChoices_eq_zero (hn : a.mdp.numChoices s = 0) :
  a.Asks q s p ↔ q.forAll (a.owner s) = true
  := by
  cases hflag : q.forAll (a.owner s) with
  | true => simp [asks_of_forAll hflag, hn]
  | false => simp [asks_of_not_forAll hflag, hn]

/-- A state is decided by what its choices are asked. -/
theorem quantified_iff_asks {condition : List (Nat × V) → Bool} :
  a.quantified q condition s = true
    ↔ a.Asks q s fun c => condition (a.mdp.successors s c) = true
  := by
  rw [quantified]
  cases hflag : q.forAll (a.owner s) with
  | true => simp [asks_of_forAll hflag]
  | false => simp [asks_of_not_forAll hflag]

/-! ### Steps that decide by a condition -/

/-- A step decides states by a condition on their choices.  It starts from a result, and under any
flags it finds a set, which differs from the result at states of the subset only.  Of these it has
the ones whose choices satisfy the condition, all of them or some, as the flag of the owner says.
When flags are relaxed, it keeps all states that have choices; and it has a state without choices if
the flag of its owner is set. -/
structure DecidesBy (a : Arena V) (subset result : StateSet)
    (step : Quantifiers → Option StateSet) (p : Nat → Nat → Prop) : Prop where
  exists_found : ∀ q, ∃ found, step q = some found
  unchanged : ∀ q found, step q = some found → ∀ s, subset.contains s = false ∨ a.numStates ≤ s →
    found.contains s = result.contains s
  forAll : ∀ q found, step q = some found → ∀ s < a.numStates, subset.contains s = true →
    q.forAll (a.owner s) = true → (found.contains s = true ↔ ∀ c < a.mdp.numChoices s, p s c)
  forSome : ∀ q found, step q = some found → ∀ s < a.numStates, subset.contains s = true →
    q.forAll (a.owner s) = false → (found.contains s = true ↔ ∃ c < a.mdp.numChoices s, p s c)
  relaxed : ∀ q q' found found', step q = some found → step q' = some found' → q.RelaxesTo q' →
    ∀ s, 0 < a.mdp.numChoices s → found.contains s = true → found'.contains s = true
  withoutChoices : ∀ q found, step q = some found → ∀ s < a.numStates, subset.contains s = true →
    a.mdp.numChoices s = 0 → (found.contains s = true ↔ q.forAll (a.owner s) = true)

section Steps

variable {subset result found found' : StateSet} {condition condition' : List (Nat × V) → Bool}

/-- A step that is made finds what deciding the states does, if there is room for them. -/
theorem eq_of_decideStates? (hroom : a.numStates ≤ result.capacity)
    (h : a.decideStates? q condition subset result = some found) :
  found = a.decideStates q condition subset result
  := by
  rw [a.decideStates?_eq_some q condition subset hroom] at h
  exact (Option.some_inj.mp h).symm

/-- A step has a state of the subset if its choices satisfy what they are asked, and any other state
if the result has it. -/
theorem contains_of_decideStates? (hroom : a.numStates ≤ result.capacity)
    (h : a.decideStates? q condition subset result = some found) :
  found.contains s = true
    ↔ if subset.contains s = true ∧ s < a.numStates then
        a.Asks q s fun c => condition (a.mdp.successors s c) = true
      else result.contains s = true
  := by
  rw [eq_of_decideStates? hroom h, contains_decideStates, ← quantified_iff_asks]
  split
  · exact Iff.rfl
  · exact Iff.rfl

/-- A step with a weaker condition finds a larger set. -/
theorem decideStates?_subset (hroom : a.numStates ≤ result.capacity)
    (hcondition : ∀ row, condition row = true → condition' row = true)
    (h : a.decideStates? q condition subset result = some found)
    (h' : a.decideStates? q condition' subset result = some found') :
  found ⊆ found'
  := by
  intro s hs
  rw [contains_of_decideStates? hroom h] at hs
  rw [contains_of_decideStates? hroom h']
  split
  · next hin =>
      rw [if_pos hin] at hs
      apply hs.mono fun c _ => hcondition _
  · next hout => rwa [if_neg hout] at hs

/-- A step decides states by its condition. -/
theorem decidesBy {p : Nat → Nat → Prop} (hroom : a.numStates ≤ result.capacity)
    (hp : ∀ s c, condition (a.mdp.successors s c) = true ↔ p s c) :
  a.DecidesBy subset result (fun q => a.decideStates? q condition subset result) p
  := by
  have hasks : ∀ q found, a.decideStates? q condition subset result = some found →
      ∀ s < a.numStates, subset.contains s = true →
      (found.contains s = true ↔ a.Asks q s (p s)) := by
    intro q found h s hs hin
    rw [contains_of_decideStates? hroom h, if_pos ⟨hin, hs⟩]
    simp only [hp]
  constructor
  · intro q
    exact ⟨_, a.decideStates?_eq_some q condition subset hroom⟩
  · intro q found h s hout
    rw [eq_of_decideStates? hroom h, contains_decideStates, if_neg]
    rintro ⟨hin, hs⟩
    obtain hout | hle := hout
    · rw [hin] at hout
      cases hout
    · exact Nat.not_lt_of_ge hle hs
  · intro q found h s hs hin hflag
    rw [hasks q found h s hs hin, asks_of_forAll hflag]
  · intro q found h s hs hin hflag
    rw [hasks q found h s hs hin, asks_of_not_forAll hflag]
  · intro q q' found found' h h' hq s hn hs
    rw [contains_of_decideStates? hroom h] at hs
    rw [contains_of_decideStates? hroom h']
    split
    · next hin =>
        rw [if_pos hin] at hs
        apply hs.relax hq hn
    · next hout => rwa [if_neg hout] at hs
  · intro q found h s hs hin hn
    rw [hasks q found h s hs hin, asks_iff_of_numChoices_eq_zero hn]

end Steps

end Arena

/-! ### Values above zero -/

/-- An unpacked number above zero is not at most the positive zero. -/
theorem Unpacked.IsAbove.not_le_zero {x : Float.Model.UnpackedFloat} (hx : IsAbove x) :
  ¬ x.le (.zero .positive) = true
  := by
  obtain ⟨⟩ | ⟨hx⟩ := hx
  · decide
  · exact Bool.false_ne_true

instance : SeparatesZero Float where
  not_le_zero x hx hle := by
    apply ((isPacked_double.zero_lt_iff x).mp hx).not_le_zero
    rw [← isPacked_double.unpack_zero]
    apply of_decide_eq_true hle

instance : SeparatesZero Float32 where
  not_le_zero x hx hle := by
    apply ((isPacked_single.zero_lt_iff x).mp hx).not_le_zero
    rw [← isPacked_single.unpack_zero]
    apply of_decide_eq_true hle

/-! ### The two steps of the searches -/

namespace Arena

variable {V : Type} [Arithmetic V] (a : Arena V) (u : StateSet) (s c : Nat)

/-- A choice can move into a set if it has a successor with positive mass there. -/
def MovesInto : Prop :=
  ∃ e ∈ a.mdp.successors s c, 0 < e.2 ∧ u.contains e.1 = true

/-- A choice stays in a set if all its successors with positive mass are there. -/
def RemainsIn : Prop :=
  ∀ e ∈ a.mdp.successors s c, 0 < e.2 → u.contains e.1 = true

variable {a u s c}

/-- Reaching a set is moving into it. -/
theorem reaches_iff :
  reaches u (a.mdp.successors s c) = true ↔ a.MovesInto u s c
  := by
  simp only [reaches, hits, MovesInto, List.any_eq_true, Bool.and_eq_true, decide_eq_true_eq]

/-- In a proper process, reaching a set within another one is to move into the one and remain in
the other. -/
theorem reachesWithin_iff [SeparatesZero V] {v : StateSet} (ha : a.mdp.Proper) :
  reachesWithin u v (a.mdp.successors s c) = true ↔ a.RemainsIn u s c ∧ a.MovesInto v s c
  := by
  rw [reachesWithin, Bool.and_eq_true, staysIn_iff (ha.mass_pos s c), RemainsIn, ← reaches_iff,
    reaches]
  apply and_congr_left
  intro _
  constructor
  · intro h e he _
    apply h e he
  · intro h e he
    apply h e he (ha.mass_pos s c e he)

end Arena

/-- In a model that can be made, let a set have room for all states.  A step that looks for states
that move into `u` decides the states of the subset by that, and a step that looks for those that
move into `v` and remain in `u` by that: these states only, by all of their choices or by some, as
the flags say.  Either step finds more states for larger sets. -/
theorem Model.Built.steps_decide {V : Type} [Arithmetic V] [SeparatesZero V] {m : Model V}
    (hm : m.Built) (subset : StateSet) {result : StateSet}
    (hroom : m.numStates ≤ result.capacity) :
  (∀ u, m.arena.DecidesBy subset result
      (fun q => m.arena.decideStates? q (Arena.reaches u) subset result)
      (m.arena.MovesInto u))
    ∧ (∀ u v, m.arena.DecidesBy subset result
      (fun q => m.arena.decideStates? q (Arena.reachesWithin u v) subset result)
      (fun s c => m.arena.RemainsIn u s c ∧ m.arena.MovesInto v s c))
    ∧ (∀ q u u' found found', u ⊆ u' →
      m.arena.decideStates? q (Arena.reaches u) subset result = some found →
      m.arena.decideStates? q (Arena.reaches u') subset result = some found' →
      found ⊆ found')
    ∧ ∀ q u u' v v' found found', u ⊆ u' → v ⊆ v' →
      m.arena.decideStates? q (Arena.reachesWithin u v) subset result = some found →
      m.arena.decideStates? q (Arena.reachesWithin u' v') subset result = some found' →
      found ⊆ found'
  := by
  rw [← m.numStates_arena] at hroom
  refine ⟨?_, ?_, ?_, ?_⟩
  · intro u
    apply Arena.decidesBy hroom
    intro s c
    apply Arena.reaches_iff
  · intro u v
    apply Arena.decidesBy hroom
    intro s c
    apply Arena.reachesWithin_iff hm.proper_arena
  · intro q u u' found found' hu
    apply Arena.decideStates?_subset hroom
    intro row h
    apply Arena.hits_mono hu h
  · intro q u u' v v' found found' hu hv
    apply Arena.decideStates?_subset hroom
    intro row h
    rw [Arena.reachesWithin, Bool.and_eq_true] at h ⊢
    exact ⟨Arena.staysIn_mono hu h.1, Arena.hits_mono hv h.2⟩

/-- In the model with a tie, only gambling moves from state `0` into state `1`.  So state `0` is
found if some choice must do so, and not if all must; state `1`, which has no choices, is found if
all must, and not if some must; state `2` is not decided and stays found. -/
theorem Model.Built.steps_decide_tied :
  Model.tied.Built ∧ Model.tied.numStates ≤ (StateSet.ofList 3 [2]).capacity
    ∧ ∃ loose strict, Model.tied.arena.decideStates? ⟨false, false⟩ (Arena.reaches (.ofList 3 [1]))
        (.ofList 3 [0, 1]) (.ofList 3 [2]) = some loose
      ∧ Model.tied.arena.decideStates? ⟨true, true⟩ (Arena.reaches (.ofList 3 [1]))
        (.ofList 3 [0, 1]) (.ofList 3 [2]) = some strict
      ∧ (loose.contains 0 = true ∧ loose.contains 1 = false ∧ loose.contains 2 = true)
      ∧ strict.contains 0 = false ∧ strict.contains 1 = true ∧ strict.contains 2 = true
  := by
  have hroom : Model.tied.numStates ≤ (StateSet.ofList 3 [2]).capacity :=
    StateSet.le_capacity_ofList 3 [2]
  have hsteps := (Model.built_tied.steps_decide (.ofList 3 [0, 1]) hroom).1 (.ofList 3 [1])
  have hgamble : Model.tied.arena.MovesInto (.ofList 3 [1]) 0 1 := by
    use (1, 1 / 2)
    change _ ∈ Mdp.Draft.tied.process.successors 0 1 ∧ _
    rw [Mdp.Draft.successors_process]
    refine ⟨Distribution.mem_row.mpr ⟨List.mem_cons_self, ?_⟩, ?_, by decide⟩
    · exact one_half_pos
    · exact one_half_pos
  have hstay : ¬ Model.tied.arena.MovesInto (.ofList 3 [1]) 0 0 := by
    rintro ⟨e, he, -, hin⟩
    change e ∈ Mdp.Draft.tied.process.successors 0 0 at he
    rw [Mdp.Draft.successors_process] at he
    obtain rfl := List.mem_singleton.mp (Distribution.mem_row.mp he).1
    cases hin
  obtain ⟨loose, hloose⟩ := hsteps.exists_found ⟨false, false⟩
  obtain ⟨strict, hstrict⟩ := hsteps.exists_found ⟨true, true⟩
  refine ⟨Model.built_tied, hroom, loose, strict, hloose, hstrict, ⟨?_, ?_, ?_⟩, ?_, ?_, ?_⟩
  · apply (hsteps.forSome _ _ hloose 0 (by decide) (by decide) rfl).mpr
    exact ⟨1, by decide, hgamble⟩
  · apply Bool.eq_false_iff.mpr
    rw [ne_eq, hsteps.withoutChoices _ _ hloose 1 (by decide) (by decide) (by decide)]
    exact Bool.false_ne_true
  · rw [hsteps.unchanged _ _ hloose 2 (Or.inl (by decide))]
    decide
  · apply Bool.eq_false_iff.mpr
    rw [ne_eq, hsteps.forAll _ _ hstrict 0 (by decide) (by decide) rfl]
    intro h
    exact hstay (h 0 (by decide))
  · rw [hsteps.withoutChoices _ _ hstrict 1 (by decide) (by decide) (by decide)]
    rfl
  · rw [hsteps.unchanged _ _ hstrict 2 (Or.inl (by decide))]
    decide

end Reachability
