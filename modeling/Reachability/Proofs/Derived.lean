import Mathlib
import Reachability.Proofs.Discretised

/-!
# Processes that are made of models in continuous time

Both the discretised and the uniformised process of a model exist whenever the model can be made,
whatever its exit rates are and although its masses need only sum to one within the tolerance.  They
have the frame of the process of the jumps, and each of their choices jumps as it did there or stays
put (`Ctmdp.Built.exists_discretise_staying`, `Ctmdp.Built.exists_uniformise_staying`).

If all choices already leave at the common rate, then uniformising changes nothing: the result is
the process of the jumps, and is analysed like the model itself.
-/

namespace Reachability

namespace Ctmdp

/-! ### Discretised processes -/

/-- Of a model that can be made there is a process that is seen in steps, whatever the probabilities
of staying put are: it has the same frame, and each choice stays put with the probability that goes
with its exit rate and jumps as before with the remaining one.  Discretising a model is this with
the exponential function or any other in its place, so that the discretised process exists for every
length of the steps. -/
theorem Built.exists_discretise_staying {W : Type} {m : Ctmdp ℝ} (hm : m.Built) :
  (∀ stay : ℝ → ℝ, (∀ rate ∈ m.exitRates, stay rate ∈ Set.Ioc 0 1) →
      ∃ mdp, (m.stepped stay : Except (CheckError ℝ W) (Mdp ℝ)) = .ok mdp
        ∧ mdp.JumpsOrStays m.mdp (fun s c => 1 - stay (m.exitRate s c)) fun s c =>
          stay (m.exitRate s c))
    ∧ (∀ exp tau, @discretise ℝ W (.exactWith exp) m tau
      = m.stepped fun rate => exp (-rate * tau))
    ∧ ∀ tau, 0 ≤ tau → ∃ mdp, (m.discretise tau : Except (CheckError ℝ W) (Mdp ℝ)) = .ok mdp
        ∧ mdp.JumpsOrStays m.mdp (fun s c => 1 - Real.exp (-m.exitRate s c * tau)) fun s c =>
          Real.exp (-m.exitRate s c * tau)
  := by
  have hstepped : ∀ stay : ℝ → ℝ, (∀ rate ∈ m.exitRates, stay rate ∈ Set.Ioc 0 1) →
      ∃ mdp, (m.stepped stay : Except (CheckError ℝ W) (Mdp ℝ)) = .ok mdp
        ∧ mdp.JumpsOrStays m.mdp (fun s c => 1 - stay (m.exitRate s c)) fun s c =>
          stay (m.exitRate s c) := by
    intro stay hstay
    obtain ⟨mdp, hok, -, hjumps⟩ :=
      hm.exists_stepped (W := W) stay fun rate hrate =>
        Set.Ioc_subset_Icc_self (hstay rate hrate)
    exact ⟨mdp, hok, hjumps⟩
  refine ⟨hstepped, fun exp tau => rfl, ?_⟩
  intro tau htau
  apply hstepped fun rate => Real.exp (-rate * tau)
  intro rate hrate
  use Real.exp_pos _
  apply (exp_neg_mul_mem_Icc (hm.rate_pos hrate).le htau).2

end Ctmdp

/-! ### A model with different exit rates -/

/-- Masses of two states which exceed one by the tolerance. -/
noncomputable def Distribution.surplus : Distribution ℝ :=
  ⟨⟨[(0, 1 / (2 : Nat)), (1, 1 / (2 : Nat) + 1 / (10 : Nat) ^ 6)], by decide⟩⟩

/-- The masses that exceed one by the tolerance fit a choice of a model with two states. -/
theorem Distribution.validate_surplus {W : Type} (s c : Nat) :
  (surplus.validate s c 2 : Except (CheckError ℝ W) Unit) = .ok ()
  := by
  apply validate_eq_ok_iff_abs_le.mpr
  constructor
  · intro pair hpair
    simp only [surplus, pairs, List.mem_cons, List.not_mem_nil, or_false] at hpair
    obtain rfl | rfl := hpair
    · norm_num
    · norm_num
  · norm_num [surplus, pairs]

namespace Ctmdp

/-- A draft of two states.  State `0` may be left with rate two, and then the masses of its
successors exceed one, or with rate five; the other state is the initial one. -/
noncomputable def Draft.uneven : Draft ℝ where
  mdp := { choices := #[#[⟨.surplus, none⟩, ⟨.dirac 1, none⟩], #[]], initialStates := [1] }
  rates := #[#[(2 : Nat), (5 : Nat)], #[]]

/-- The model with different exit rates. -/
noncomputable def uneven : Ctmdp ℝ := ⟨Draft.uneven.mdp.process, #[(2 : Nat), (5 : Nat)]⟩

/-- The draft with different exit rates is made by adding two states and two choices, and by marking
a state as initial. -/
theorem Draft.made_uneven :
  uneven.Made
  := by
  have hfirst := (Made.empty.addStates 2).addChoice_of_pos (s := 0) (by decide) .surplus
    (Nat.cast_pos.mpr two_pos)
  have hsecond := hfirst.addChoice_of_pos (s := 0) (by decide) (.dirac 1)
    (Nat.cast_pos.mpr (Nat.succ_pos 4))
  apply hsecond.addInitialState (W := Nat) (s := 1)
  rfl

/-- The model with different exit rates can be made. -/
theorem built_uneven :
  uneven.Built
  := by
  have hvalid : (Draft.uneven.mdp.validate : Except (CheckError ℝ Nat) Unit) = .ok () := by
    apply Mdp.Draft.validate_eq_ok_iff.mpr
    intro s c choice hchoice
    have hmem : choice = ⟨.surplus, none⟩ ∨ choice = ⟨.dirac 1, none⟩ := by
      simpa [Draft.uneven] using Mdp.Draft.mem_of_choice?_eq_some hchoice
    obtain rfl | rfl := hmem
    · apply Distribution.validate_surplus
    · apply (Distribution.exact_dirac _).validate_eq_ok
      decide
  apply Built.finish (W := Nat) Draft.made_uneven
  rw [Draft.build, Mdp.Draft.build_eq_ok_iff.mpr ⟨hvalid, rfl⟩]
  rfl

/-- The exit rates of the model are two and five. -/
theorem mem_exitRates_uneven {rate : ℝ} (h : rate ∈ uneven.exitRates) :
  rate = 2 ∨ rate = 5
  := by
  simpa [uneven] using h

/-- The choices of the model with different exit rates may stay put with probabilities one half and
one fifth, and it is discretised in steps of any length. -/
theorem exists_discretise_staying_uneven :
  (∃ mdp, (uneven.stepped fun rate => 1 / rate : Except (CheckError ℝ ℝ) (Mdp ℝ)) = .ok mdp
      ∧ mdp.JumpsOrStays uneven.mdp (fun s c => 1 - 1 / uneven.exitRate s c) fun s c =>
        1 / uneven.exitRate s c)
    ∧ ∀ tau, 0 ≤ tau → ∃ mdp, (uneven.discretise tau : Except (CheckError ℝ ℝ) (Mdp ℝ)) = .ok mdp
      ∧ mdp.JumpsOrStays uneven.mdp (fun s c => 1 - Real.exp (-uneven.exitRate s c * tau))
        fun s c => Real.exp (-uneven.exitRate s c * tau)
  := by
  obtain ⟨hstepped, -, hdiscretised⟩ := built_uneven.exists_discretise_staying (W := ℝ)
  refine ⟨hstepped (fun rate => 1 / rate) ?_, hdiscretised⟩
  intro rate hrate
  obtain rfl | rfl := mem_exitRates_uneven hrate
  · norm_num
  · norm_num

/-! ### Uniformised processes -/

/-- A model that can be made has a uniformised process for every positive common rate that is not
below its exit rates.  The process has the same frame, and each choice jumps as before with
probability `E / q`, where `E` is its exit rate and `q` the common one, and stays put with the
remaining probability.  If all exit rates are the common one, then the process is that of the jumps,
and the analyses with and without a bound on the steps give the same answers for both. -/
theorem Built.exists_uniformise_staying {W : Type} [Wide W] [Precision ℝ W] {m : Ctmdp ℝ}
    (hm : m.Built) {q : ℝ} (hq : 0 < q) (hmax : m.maxExitRate ≤ q) :
  ∃ mdp, (m.uniformise q : Except (CheckError ℝ W) (Mdp ℝ)) = .ok mdp
    ∧ (mdp.JumpsOrStays m.mdp (fun s c => m.exitRate s c / q) fun s c => 1 - m.exitRate s c / q)
    ∧ ((∀ rate ∈ m.exitRates, rate = q) → mdp = m.mdp
      ∧ ∀ (checker : Checker W) (u : Until) (o : Objective),
        (∀ k init, checker.boundedReach mdp.arena u k o init
          = checker.boundedReach m.arena u k o init)
        ∧ (∀ bound, checker.boundedUntil mdp.arena u bound o
          = checker.boundedUntil m.arena u bound o)
        ∧ checker.unboundedUntil mdp.arena u o = checker.unboundedUntil m.arena u o)
  := by
  have hle : ∀ rate ∈ m.exitRates, rate ≤ q := fun rate hrate =>
    (Arithmetic.maximum_le_iff.mp hmax).2 rate (Array.mem_toList_iff.mpr hrate)
  have hunit : ∀ s < m.mdp.numStates, ∀ c < m.mdp.numChoices s,
      m.exitRate s c / q ∈ Set.Icc 0 1 := by
    intro s hs c hc
    have hmem := hm.exitRate_mem hs hc
    exact ⟨div_nonneg (hm.rate_pos hmem).le hq.le, (div_le_one hq).mpr (hle _ hmem)⟩
  obtain ⟨mdp, hok, -, hjumps, hsame⟩ := hm.exists_jumpsOrStays (W := W)
    (fun s c d => uniformised (m.exitRate s c / q) s d)
    (fun s c => m.exitRate s c / q) (fun s c => 1 - m.exitRate s c / q)
    (fun s hs c hc => ⟨hunit s hs c hc, add_sub_cancel _ _⟩)
    (fun s hs c hc d hd => hd.uniformised hs (hunit s hs c hc))
  refine ⟨mdp, hok, hjumps, ?_⟩
  intro hrates
  obtain rfl : mdp = m.mdp := by
    apply hsame
    intro s hs c hc
    rw [hm.exitRate_eq hrates hs hc, div_self hq.ne', sub_self]
  exact ⟨rfl, fun checker u o => ⟨fun k init => rfl, fun bound => rfl, rfl⟩⟩

/-- The model with different exit rates is uniformised at rate six, and uniformising the sample
model at its exit rate gives the process of its jumps. -/
theorem exists_uniformise_staying_uneven :
  (∃ mdp, (uneven.uniformise 6 : Except (CheckError ℝ ℝ) (Mdp ℝ)) = .ok mdp
      ∧ mdp.JumpsOrStays uneven.mdp (fun s c => uneven.exitRate s c / 6)
        fun s c => 1 - uneven.exitRate s c / 6)
    ∧ ∃ mdp, (sample.uniformise 1 : Except (CheckError ℝ ℝ) (Mdp ℝ)) = .ok mdp ∧ mdp = sample.mdp
  := by
  have hsix : uneven.maxExitRate ≤ 6 := by
    apply Arithmetic.maximum_le_iff.mpr
    constructor
    · norm_num
    · intro rate hrate
      obtain rfl | rfl := mem_exitRates_uneven (Array.mem_toList_iff.mp hrate)
      · norm_num
      · norm_num
  have hone : sample.maxExitRate ≤ 1 := by
    apply Arithmetic.maximum_le_iff.mpr
    use zero_le_one
    intro rate hrate
    apply (exitRates_sample rate (Array.mem_toList_iff.mp hrate)).le
  constructor
  · obtain ⟨mdp, hok, hjumps, -⟩ :=
      built_uneven.exists_uniformise_staying (W := ℝ) (by norm_num) hsix
    exact ⟨mdp, hok, hjumps⟩
  · obtain ⟨mdp, hok, -, hsame⟩ := built_sample.exists_uniformise_staying (W := ℝ) one_pos hone
    exact ⟨mdp, hok, (hsame exitRates_sample).1⟩

end Ctmdp

end Reachability
