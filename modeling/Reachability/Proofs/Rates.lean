import Mathlib
import Reachability.Proofs.Formula
import Reachability.Proofs.Stochastic

/-!
# Models in continuous time that are made

`Ctmdp.Draft.Made` are the drafts that come from the empty one by adding states and choices and by
marking states as initial.  They have as many exit rates as choices in each state, so that every
choice of a finished model has one of the exit rates of the model (`Ctmdp.Built.exitRate_mem`), and
these are positive (`Ctmdp.Built.rate_pos`).

If all exit rates of a model are equal, then it is locally uniform, and unless it has no choices its
largest exit rate is that one (`Ctmdp.maxExitRate_eq`).
-/

namespace Reachability

section Drafts

variable {V W : Type}

/-! ### Operations on drafts -/

namespace Mdp.Draft

variable {b b' : Mdp.Draft V} {s : Nat}

/-- A state may be marked as initial if it exists, and then it is one of the initial states. -/
theorem addInitialState_eq_ok_iff :
  (b.addInitialState s : Except (CheckError V W) (Mdp.Draft V)) = .ok b'
    ↔ s < b.numStates
      ∧ b' = if s ∈ b.initialStates then b else { b with initialStates := b.initialStates ++ [s] }
  := by
  rw [addInitialState, checkState]
  split
  · next hs => simp [bind, Except.bind, hs]
  · next hs =>
      rw [Nat.not_le] at hs
      simp only [hs, true_and]
      constructor
      · rintro ⟨⟩
        rfl
      · rintro rfl
        rfl

/-- A choice may be added to a state that exists, and then it is the last one of that state. -/
theorem addChoice_eq_ok_iff {choice : Choice V} {c : Nat} :
  (b.addChoice s choice : Except (CheckError V W) (Mdp.Draft V × Nat)) = .ok (b', c)
    ↔ s < b.numStates ∧ b' = { b with choices := b.choices.modify s fun cs => cs.push choice }
      ∧ c = b.numChoices s
  := by
  rw [addChoice, checkState]
  split
  · next hs => simp [bind, Except.bind, hs]
  · next hs =>
      rw [Nat.not_le] at hs
      simp only [hs, true_and]
      constructor
      · rintro ⟨⟩
        exact ⟨rfl, rfl⟩
      · rintro ⟨rfl, rfl⟩
        rfl

/-! ### Initial states -/

/-- The initial states of a draft exist. -/
def Started (b : Mdp.Draft V) : Prop := ∀ s ∈ b.initialStates, s < b.numStates

/-- There are no initial states in the draft without states. -/
theorem started_empty :
  (empty : Mdp.Draft V).Started
  := by
  rintro s ⟨⟩

/-- Initial states exist still when there are more states. -/
theorem Started.addStates (h : b.Started) (count : Nat) :
  (b.addStates count).Started
  := by
  intro s hs
  rw [numStates_addStates]
  apply Nat.lt_add_right count (h s hs)

/-- A state that is marked as initial exists. -/
theorem Started.addInitialState (h : b.Started)
    (hb' : (b.addInitialState s : Except (CheckError V W) (Mdp.Draft V)) = .ok b') :
  b'.Started
  := by
  obtain ⟨hs, rfl⟩ := addInitialState_eq_ok_iff.mp hb'
  split
  · exact h
  · intro t ht
    obtain ht | ht := List.mem_append.mp ht
    · apply h t ht
    · obtain rfl := List.mem_singleton.mp ht
      apply hs

/-- A choice that is added leaves the states as they are. -/
theorem Started.addChoice {choice : Choice V} {c : Nat} (h : b.Started)
    (hb' : (b.addChoice s choice : Except (CheckError V W) (Mdp.Draft V × Nat)) = .ok (b', c)) :
  b'.Started
  := by
  obtain ⟨-, rfl, -⟩ := addChoice_eq_ok_iff.mp hb'
  intro t ht
  apply lt_of_lt_of_le (h t ht)
  simp [numStates]

/-- The initial states of the finished process exist. -/
theorem Started.process [Arithmetic V] (h : b.Started) :
  ∀ t ∈ b.process.initialStates, t < b.process.numStates
  := by
  intro t ht
  change t ∈ b.startStates at ht
  rw [startStates] at ht
  split at ht
  · next hnone =>
      obtain rfl := List.mem_singleton.mp ht
      apply hnone.2
  · apply h t ht

/-- A state that is marked as initial is not listed twice. -/
theorem nodup_addInitialState (h : b.initialStates.Nodup)
    (hb' : (b.addInitialState s : Except (CheckError V W) (Mdp.Draft V)) = .ok b') :
  b'.initialStates.Nodup
  := by
  obtain ⟨-, rfl⟩ := addInitialState_eq_ok_iff.mp hb'
  split
  · exact h
  · next hnew =>
      apply h.append (List.nodup_singleton s)
      rw [List.disjoint_singleton]
      apply hnew

/-- The initial states of the finished process are not listed twice. -/
theorem nodup_startStates (h : b.initialStates.Nodup) :
  b.startStates.Nodup
  := by
  rw [startStates]
  split
  · apply List.nodup_singleton
  · exact h

end Mdp.Draft

/-! ### Drafts that are made -/

namespace Ctmdp.Draft

variable [Arithmetic V]

/-- The drafts that are made by the operations on drafts, of which those that fail make none. -/
inductive Made : Draft V → Prop where
  | empty : Made empty
  | addStates {b : Draft V} (h : Made b) (count : Nat) : Made (b.addStates count)
  | addInitialState {W : Type} {b b' : Draft V} {s : Nat} (h : Made b)
      (hb' : (b.addInitialState s : Except (CheckError V W) (Draft V)) = .ok b') : Made b'
  | addChoice {W : Type} {b b' : Draft V} {s c : Nat} {d : Distribution V} {rate : V} (h : Made b)
      (hb' : (b.addChoice s d rate : Except (CheckError V W) (Draft V × Nat)) = .ok (b', c)) :
      Made b'

/-- A draft is consistent if its states have as many exit rates as choices, and its initial states
exist. -/
structure Consistent (b : Draft V) : Prop where
  sizes : b.rates.map Array.size = b.mdp.choices.map Array.size
  initial : b.mdp.Started

omit [Arithmetic V] in
/-- Adding a member to one of several arrays adds one to its size. -/
theorem map_size_modify_push {α : Type} (arrays : Array (Array α)) (s : Nat) (x : α) :
  (arrays.modify s fun xs => xs.push x).map Array.size
    = (arrays.map Array.size).modify s fun size => size + 1
  := by
  apply Array.ext_getElem?
  intro t
  simp only [Array.getElem?_map, Array.getElem?_modify]
  split <;> cases arrays[t]? <;> simp

/-- Drafts that are made are consistent. -/
theorem Made.consistent {b : Draft V} (h : b.Made) :
  b.Consistent
  := by
  induction h with
  | empty =>
      constructor
      · simp [Draft.empty, Mdp.Draft.empty]
      · apply Mdp.Draft.started_empty
  | @addStates b _ count ih =>
      constructor
      · simp [Draft.addStates, Mdp.Draft.addStates, ih.sizes]
      · apply ih.initial.addStates
  | @addInitialState W b b' s _ hb' ih =>
      rw [Draft.addInitialState] at hb'
      obtain ⟨mdp, hmdp, hsame⟩ := Except.bind_eq_ok_iff.mp hb'
      cases hsame
      constructor
      · obtain ⟨-, rfl⟩ := Mdp.Draft.addInitialState_eq_ok_iff.mp hmdp
        split
        · exact ih.sizes
        · exact ih.sizes
      · apply ih.initial.addInitialState hmdp
  | @addChoice W b b' s c d rate _ hb' ih =>
      rw [Draft.addChoice] at hb'
      split at hb'
      · cases hb'
      · obtain ⟨added, hmdp, hsame⟩ := Except.bind_eq_ok_iff.mp hb'
        cases hsame
        constructor
        · obtain ⟨-, hmdp, -⟩ := Mdp.Draft.addChoice_eq_ok_iff.mp hmdp
          rw [hmdp, map_size_modify_push, map_size_modify_push, ih.sizes]
        · apply ih.initial.addChoice hmdp

/-- A draft is regular if none of its initial states is listed twice, and its exit rates are
positive. -/
structure Regular (b : Draft V) : Prop where
  nodup : b.mdp.initialStates.Nodup
  not_le_zero : ∀ rates ∈ b.rates, ∀ rate ∈ rates, ¬ rate ≤ 0

/-- Drafts that are made are regular. -/
theorem Made.regular {b : Draft V} (h : b.Made) :
  b.Regular
  := by
  induction h with
  | empty =>
      constructor
      · apply List.nodup_nil
      · intro rates hrates
        cases Array.not_mem_empty _ hrates
  | @addStates b _ count ih =>
      constructor
      · exact ih.nodup
      · intro rates hrates
        obtain hrates | hrates := Array.mem_append.mp hrates
        · apply ih.not_le_zero rates hrates
        · rw [Array.eq_of_mem_replicate hrates]
          intro rate hrate
          cases Array.not_mem_empty _ hrate
  | @addInitialState W b b' s _ hb' ih =>
      rw [Draft.addInitialState] at hb'
      obtain ⟨mdp, hmdp, hsame⟩ := Except.bind_eq_ok_iff.mp hb'
      cases hsame
      constructor
      · apply Mdp.Draft.nodup_addInitialState ih.nodup hmdp
      · exact ih.not_le_zero
  | @addChoice W b b' s c d rate _ hb' ih =>
      rw [Draft.addChoice] at hb'
      split at hb'
      · cases hb'
      · next hrate =>
          obtain ⟨added, hmdp, hsame⟩ := Except.bind_eq_ok_iff.mp hb'
          cases hsame
          constructor
          · obtain ⟨-, hmdp, -⟩ := Mdp.Draft.addChoice_eq_ok_iff.mp hmdp
            rw [hmdp]
            exact ih.nodup
          · intro rates hrates rate' hrate'
            obtain ⟨t, ht⟩ := Array.mem_iff_getElem?.mp hrates
            rw [Array.getElem?_modify] at ht
            split at ht
            · obtain ⟨before, hbefore, rfl⟩ := Option.map_eq_some_iff.mp ht
              obtain hold | rfl := Array.mem_push.mp hrate'
              · apply ih.not_le_zero before (Array.mem_of_getElem? hbefore) rate' hold
              · exact (not_or.mp hrate).2
            · apply ih.not_le_zero rates (Array.mem_of_getElem? ht) rate' hrate'

end Ctmdp.Draft

/-! ### Models that are finished -/

/-- The models in continuous time that are finished from drafts that are made. -/
inductive Ctmdp.Built [Arithmetic V] : Ctmdp V → Prop where
  | finish {W : Type} {b : Ctmdp.Draft V} {m : Ctmdp V} (hb : b.Made)
      (h : (b.build : Except (CheckError V W) (Ctmdp V)) = .ok m) : Built m

namespace Ctmdp.Built

variable [Arithmetic V] {m : Ctmdp V}

/-- A finished model is one. -/
theorem model (h : m.Built) :
  (Model.ctmdp m).Built
  := by
  obtain ⟨-, h⟩ := h
  apply Model.Built.ctmdp h

/-- A finished model consists of the process and the exit rates of a draft that is made. -/
theorem exists_made (h : m.Built) :
  ∃ b : Ctmdp.Draft V, b.Made ∧ m = ⟨b.mdp.process, b.rates.flatten⟩
  := by
  induction h with
  | @finish W b m hb h =>
      use b, hb
      unfold Draft.build at h
      cases hmdp : (b.mdp.build : Except (CheckError V W) (Mdp V)) with
      | error e =>
          rw [hmdp] at h
          cases h
      | ok mdp =>
          rw [hmdp] at h
          cases h
          rw [(Mdp.Draft.build_eq_ok_iff.mp hmdp).2]

/-- A finished model consists of the process and the exit rates of a consistent draft. -/
theorem exists_draft (h : m.Built) :
  ∃ b : Ctmdp.Draft V, b.Consistent ∧ m = ⟨b.mdp.process, b.rates.flatten⟩
  := by
  obtain ⟨b, hb, hm⟩ := h.exists_made
  exact ⟨b, hb.consistent, hm⟩

/-- The exit rate of a choice is one of the exit rates of its model. -/
theorem exitRate_mem (h : m.Built) {s c : Nat} (hs : s < m.mdp.numStates)
    (hc : c < m.mdp.numChoices s) :
  m.exitRate s c ∈ m.exitRates
  := by
  obtain ⟨b, hb, rfl⟩ := h.exists_draft
  have hindex : b.mdp.process.rowIndex? s c
      = some (b.mdp.process.matrix.rowStarts.getD s 0 + c) := by
    rw [Mdp.rowIndex?, if_pos hs, ChoiceMatrix.rowIndex?]
    apply if_pos hc
  have hsize : b.rates.flatten.size = b.mdp.stateRows.flatten.length := by
    rw [Array.size_flatten, hb.sizes, Mdp.Draft.stateRows, List.length_flatten, List.map_map,
      ← Array.sum_toList, Array.toList_map]
    simp only [Function.comp_def, List.length_map, Array.length_toList]
  have hlt := ChoiceMatrix.lt_of_rowIndex?_ofStates
    (by rw [Mdp.rowIndex?, if_pos hs] at hindex; exact hindex)
  rw [← hsize] at hlt
  rw [exitRate, exitRate?, hindex, Option.bind_some, Array.getElem?_eq_getElem hlt,
    Option.getD_some]
  apply Array.getElem_mem

end Ctmdp.Built

end Drafts

/-- Adding a choice with a positive exit rate to a state that exists makes a draft. -/
theorem Ctmdp.Draft.Made.addChoice_of_pos {b : Ctmdp.Draft ℝ} (h : b.Made) {s : Nat}
    (hs : s < b.mdp.numStates) (d : Distribution ℝ) {rate : ℝ} (hrate : 0 < rate) :
  Made ⟨{ b.mdp with choices := b.mdp.choices.modify s fun cs => cs.push ⟨d, none⟩ },
    b.rates.modify s fun rates => rates.push rate⟩
  := by
  have hvalid : ¬ (Arithmetic.isFinite rate = false ∨ rate ≤ 0) := by
    rintro (hinfinite | hle)
    · cases hinfinite
    · apply not_lt_of_ge hle hrate
  have hmdp : (b.mdp.addChoice s ⟨d, none⟩ : Except (CheckError ℝ Nat) _) = .ok (_, _) :=
    Mdp.Draft.addChoice_eq_ok_iff.mpr ⟨hs, rfl, rfl⟩
  apply Made.addChoice (W := Nat) (d := d) h
  rw [Draft.addChoice, if_neg hvalid, hmdp]
  rfl

/-! ### Equal exit rates -/

namespace Ctmdp

variable {m : Ctmdp ℝ} {q : ℝ}

/-- The exit rates of a finished model are positive. -/
theorem Built.rate_pos (h : m.Built) {rate : ℝ} (hrate : rate ∈ m.exitRates) :
  0 < rate
  := by
  obtain ⟨b, hb, rfl⟩ := h.exists_made
  obtain ⟨rates, hrates, hrate⟩ := Array.mem_flatten.mp hrate
  apply not_le.mp (hb.regular.not_le_zero rates hrates rate hrate)

/-- If all exit rates are equal, then so is that of every choice. -/
theorem Built.exitRate_eq (h : m.Built) (hrates : ∀ rate ∈ m.exitRates, rate = q) {s c : Nat}
    (hs : s < m.mdp.numStates) (hc : c < m.mdp.numChoices s) :
  m.exitRate s c = q
  := hrates _ (h.exitRate_mem hs hc)

/-- Without exit rates there are no choices. -/
theorem Built.numChoices_eq_zero (h : m.Built) (hnone : m.exitRates = #[]) {s : Nat}
    (hs : s < m.mdp.numStates) :
  m.mdp.numChoices s = 0
  := by
  by_contra hn
  have hmem := h.exitRate_mem hs (Nat.pos_of_ne_zero hn)
  rw [hnone] at hmem
  simp at hmem

/-- The largest one of equal exit rates is that one, if there is any. -/
theorem maxExitRate_eq (hq : 0 < q) (hrates : ∀ rate ∈ m.exitRates, rate = q)
    (hsome : m.exitRates ≠ #[]) :
  m.maxExitRate = q
  := by
  have hlt : ∀ x, m.maxExitRate < x ↔ q < x := by
    intro x
    rw [maxExitRate, Arithmetic.maximum_lt_iff]
    obtain ⟨rate, hrate⟩ := Array.exists_mem_of_ne_empty _ hsome
    constructor
    · rintro ⟨-, h⟩
      rw [← hrates rate hrate]
      apply h rate (Array.mem_toList_iff.mpr hrate)
    · intro h
      use lt_trans hq h
      intro rate hrate
      rw [hrates rate (Array.mem_toList_iff.mp hrate)]
      apply h
  apply eq_of_forall_gt_iff hlt

/-- The largest exit rate is zero if there is none. -/
theorem maxExitRate_eq_zero (hnone : m.exitRates = #[]) :
  m.maxExitRate = 0
  := by
  rw [maxExitRate, hnone]
  rfl

/-- If all exit rates are equal, then the model is locally uniform. -/
theorem Built.checkLocallyUniform_eq_ok {W : Type} (h : m.Built) (hq : 0 < q)
    (hrates : ∀ rate ∈ m.exitRates, rate = q) :
  (m.checkLocallyUniform : Except (CheckError ℝ W) Unit) = .ok ()
  := by
  apply Except.forM_eq_ok_iff.mpr
  rintro ⟨s, c⟩ hmem
  obtain ⟨hs, hc⟩ := Mdp.mem_choicePairs.mp hmem
  have hsome : m.exitRates ≠ #[] := by
    intro hnone
    rw [h.numChoices_eq_zero hnone hs] at hc
    apply Nat.not_lt_zero c hc
  simp only [checkExitRate, maxExitRate_eq hq hrates hsome, h.exitRate_eq hrates hs hc]
  apply if_neg
  change ¬ q * ((1 : ℕ) / 10 ^ 12) < |q - q|
  rw [sub_self, abs_zero, not_lt]
  positivity

end Ctmdp

/-! ### A sample model in continuous time -/

/-- A draft of two states in which state `0` is left for state `1` with rate one. -/
noncomputable def Ctmdp.Draft.sample : Ctmdp.Draft ℝ where
  mdp := { choices := #[#[⟨.dirac 1, none⟩], #[]], initialStates := [] }
  rates := #[#[1], #[]]

/-- The sample model in continuous time. -/
noncomputable def Ctmdp.sample : Ctmdp ℝ := ⟨Draft.sample.mdp.process, #[1]⟩

/-- The distributions of the sample model in continuous time are exact. -/
theorem Ctmdp.Draft.exact_sample (s c : Nat) (choice : Choice ℝ)
    (h : sample.mdp.choice? s c = some choice) :
  choice.distribution.Exact sample.mdp.numStates
  := by
  obtain rfl : choice = ⟨.dirac 1, none⟩ := by
    simpa [sample] using Mdp.Draft.mem_of_choice?_eq_some h
  apply Distribution.exact_dirac (by decide)

/-- The sample draft is made by adding two states and a choice. -/
theorem Ctmdp.Draft.made_sample :
  sample.Made
  := (Made.empty.addStates 2).addChoice_of_pos (s := 0) (by decide) (.dirac 1) one_pos

/-- The sample model in continuous time can be made. -/
theorem Ctmdp.built_sample :
  sample.Built
  := by
  have hmdp := (Mdp.Draft.build_of_exact (W := Nat) Draft.exact_sample).1
  apply Built.finish (W := Nat) Draft.made_sample
  rw [Draft.build, hmdp]
  rfl

/-- The masses of every choice of the sample model in continuous time sum to one. -/
theorem Ctmdp.stochastic_sample :
  sample.mdp.Stochastic
  := (Mdp.Draft.build_of_exact (W := Nat) Draft.exact_sample).2

/-- All exit rates of the sample model are one. -/
theorem Ctmdp.exitRates_sample :
  ∀ rate ∈ sample.exitRates, rate = 1
  := by
  simp [sample]

/-- No state of the sample model in continuous time has several choices. -/
theorem Ctmdp.numChoices_sample :
  ∀ s < sample.mdp.numStates, sample.mdp.numChoices s ≤ 1
  := by
  intro s hs
  rw [sample, Mdp.Draft.numChoices_process, Mdp.Draft.numChoices]
  change s < 2 at hs
  interval_cases s
  · apply le_refl
  · apply Nat.zero_le

/-- State `1` of the sample model in continuous time is to be reached. -/
def Until.arrival : Until := ⟨none, .ofList 2 [1]⟩

/-- The formula is within the sample model in continuous time. -/
theorem Until.within_arrival :
  arrival.Within Ctmdp.sample.mdp.numStates
  := within_of_target (StateSet.within_ofList (by decide))

end Reachability
