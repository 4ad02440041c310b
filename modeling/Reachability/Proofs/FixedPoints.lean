import Mathlib
import Reachability.Proofs.LoopFree
import Reachability.Proofs.Passes

/-!
# Fixed points of passes and of sweeps

A Gauss-Seidel pass and a Jacobi sweep compute different values, but with exact numbers and masses
that sum to one they agree on what stays: by how much the value of a choice with its loop solved for
exceeds that of its state is by how much its expected value does, divided by the mass that leads away
(`Arena.loopFreeValue_sub`).  Only a sure loop has no such mass.  Its expected value is that of its
state, whatever that is, whereas it has just its reward if it is solved for.  Without rewards, what a
pass leaves as it is so stays in a sweep nevertheless (`Arena.SettledAt.steady`).
-/

namespace Reachability

/-- The optimum of values is that of others which are at least as large as it wherever they are, and
not above it where they are not. -/
theorem Direction.optimum_eq_of_le_of_lt {d : Direction} {n : Nat} {f g : Nat → ℝ} {x : ℝ}
    (h : d.optimum n f = x) (hle : ∀ c < n, x ≤ f c → x ≤ g c)
    (hlt : ∀ c < n, x < g c → x < f c) :
  d.optimum n g = x
  := by
  obtain rfl | hn := Nat.eq_zero_or_pos n
  · apply h
  · apply le_antisymm
    · apply le_of_not_gt
      intro habove
      have hf := (lt_optimum_iff hn).mpr (((lt_optimum_iff hn).mp habove).mono hlt)
      apply hf.ne' h
    · apply (le_optimum_iff hn).mpr
      apply ((le_optimum_iff hn).mp h.ge).mono hle

/-- A choice is a sure loop if all its mass leads back to its own state. -/
def Mdp.SureLoop (m : Mdp ℝ) (s c : Nat) : Prop := (s, 1) ∈ m.successors s c

namespace Arena

variable {a : Arena ℝ} {rewards : Option (Rewards ℝ)} {o : Objective} {sel : Selection}
  {v : Nat → ℝ} {s c : Nat}

/-- A choice that is not a sure loop has mass that leads away. -/
theorem escapeMass_pos_of_not_sureLoop (ha : a.mdp.Proper) (hsum : a.mdp.Stochastic)
    (hc : c < a.mdp.numChoices s) (h : ¬ a.mdp.SureLoop s c) :
  0 < a.escapeMass s c
  := by
  by_contra hmass
  have hback : ∀ e ∈ a.mdp.successors s c, e.1 = s := by
    intro e he
    by_contra hne
    apply hmass (escapeMass_pos ha hsum hc (mem_leaving.mpr ⟨he, hne⟩))
  have hone := hsum s c hc
  rw [Mdp.SureLoop] at h
  -- the successors are in ascending order, so that there is one of them only
  cases hrow : a.mdp.successors s c with
  | nil =>
      rw [hrow] at hone
      apply zero_ne_one hone
  | cons e row =>
      have hpairwise := ha.pairwise s c
      rw [hrow] at hone hback hpairwise h
      obtain ⟨hfirst, hback⟩ := List.forall_mem_cons.mp hback
      cases row with
      | nil =>
          rw [List.map_singleton, List.sum_singleton] at hone
          apply h
          rw [← hfirst, ← hone]
          apply List.mem_singleton_self
      | cons e' row =>
          have hlt := List.rel_of_pairwise_cons hpairwise List.mem_cons_self
          rw [hfirst, hback e' List.mem_cons_self] at hlt
          apply Nat.lt_irrefl s hlt

/-- The value of a choice is what it gains elsewhere, plus the value of its state times the mass that
leads back. -/
theorem choiceValue_eq_escape (hsum : a.mdp.Stochastic) (hc : c < a.mdp.numChoices s) :
  a.choiceValue rewards v s c = a.escapeValue rewards v s c + (1 - a.escapeMass s c) * v s
  := by
  have hgain : a.escapeValue rewards v s c
      = rewardOrZero rewards s c + a.escapeValue none v s c := by
    rw [escapeValue_eq]
    apply foldl_escapeValue
  have hvalue : a.choiceValue rewards v s c
      = rewardOrZero rewards s c + expectation (a.mdp.successors s c) v := by
    cases rewards with
    | none => apply (zero_add _).symm
    | some r => apply add_comm
  rw [hvalue, hgain, expectation_eq_escape hsum hc, add_assoc]

/-- The value of a choice with its loop solved for differs from that of its state by the difference
without that, divided by the mass which leads away. -/
theorem loopFreeValue_sub (hsum : a.mdp.Stochastic) (hc : c < a.mdp.numChoices s)
    (hmass : 0 < a.escapeMass s c) :
  a.loopFreeValue rewards v s c - v s = (a.choiceValue rewards v s c - v s) / a.escapeMass s c
  := by
  rw [loopFreeValue, if_pos hmass, choiceValue_eq_escape hsum hc]
  field_simp
  ring

/-- A choice with mass that leads away is as good as the value of its state if it is so with its loop
solved for. -/
theorem le_loopFreeValue_iff (hsum : a.mdp.Stochastic) (hc : c < a.mdp.numChoices s)
    (hmass : 0 < a.escapeMass s c) :
  v s ≤ a.loopFreeValue rewards v s c ↔ v s ≤ a.choiceValue rewards v s c
  := by
  rw [← sub_nonneg, loopFreeValue_sub hsum hc hmass, le_div_iff₀ hmass, zero_mul, sub_nonneg]

/-- A choice with mass that leads away is better than the value of its state if it is so with its
loop solved for. -/
theorem lt_loopFreeValue_iff (hsum : a.mdp.Stochastic) (hc : c < a.mdp.numChoices s)
    (hmass : 0 < a.escapeMass s c) :
  v s < a.loopFreeValue rewards v s c ↔ v s < a.choiceValue rewards v s c
  := by
  rw [← sub_pos, loopFreeValue_sub hsum hc hmass, lt_div_iff₀ hmass, zero_mul, sub_pos]

/-! ### Values that a sweep leaves as they are -/

/-- A vector is steady at a state if the value of that state is its optimum. -/
def Steady (a : Arena ℝ) (rewards : Option (Rewards ℝ)) (o : Objective) (v : Nat → ℝ) (s : Nat) :
    Prop :=
  (a.update rewards o v s).1 = v s

/-- Where there are no sure loops, a vector is settled at a state if and only if it is steady
there. -/
theorem settledAt_iff_steady (ha : a.mdp.Proper) (hsum : a.mdp.Stochastic)
    (h : ∀ c < a.mdp.numChoices s, ¬ a.mdp.SureLoop s c) :
  a.SettledAt rewards o v s ↔ a.Steady rewards o v s
  := by
  have hmass : ∀ c < a.mdp.numChoices s, 0 < a.escapeMass s c :=
    fun c hc => escapeMass_pos_of_not_sureLoop ha hsum hc (h c hc)
  constructor
  · intro hsettled
    apply Direction.optimum_eq_of_le_of_lt hsettled
    · intro c hc
      apply (le_loopFreeValue_iff hsum hc (hmass c hc)).mp
    · intro c hc
      apply (lt_loopFreeValue_iff hsum hc (hmass c hc)).mpr
  · intro hsteady
    apply Direction.optimum_eq_of_le_of_lt hsteady
    · intro c hc
      apply (le_loopFreeValue_iff hsum hc (hmass c hc)).mpr
    · intro c hc
      apply (lt_loopFreeValue_iff hsum hc (hmass c hc)).mp

/-- Without rewards, a vector is steady where it is settled. -/
theorem SettledAt.steady (ha : a.mdp.Proper) (hsum : a.mdp.Stochastic)
    (h : a.SettledAt none o v s) :
  a.Steady none o v s
  := by
  -- a sure loop has the value of its state, so that it neither improves on this nor falls behind
  have hsure : ∀ c < a.mdp.numChoices s, ¬ 0 < a.escapeMass s c →
      a.choiceValue none v s c = v s :=
    fun c hc hmass => (escapeValue_eq_zero ha hsum hc hmass v).2
  apply Direction.optimum_eq_of_le_of_lt h
  · intro c hc hle
    by_cases hmass : 0 < a.escapeMass s c
    · apply (le_loopFreeValue_iff hsum hc hmass).mp hle
    · apply (hsure c hc hmass).ge
  · intro c hc hlt
    by_cases hmass : 0 < a.escapeMass s c
    · apply (lt_loopFreeValue_iff hsum hc hmass).mpr hlt
    · apply absurd (hsure c hc hmass) hlt.ne'

/-- A sweep leaves at a selected state what the vector has there if and only if that is steady. -/
theorem getElem?_jacobi_eq_iff {v result : Array ℝ} {choices : Strategy} (hs : s < a.numStates)
    (hsel : sel.has s = true) (hv : s < v.size) (hresult : s < result.size) :
  (a.jacobi rewards o sel v (result, choices)).1[s]? = v[s]?
    ↔ a.Steady rewards o (valuation v) s
  := by
  rw [jacobi, getElem?_writeStates_fst, if_pos (Selection.mem_filter_range.mpr ⟨hs, hsel⟩),
    getElem?_eq_valuation hv, Array.getElem?_eq_getElem hresult, Option.map_some, Option.some_inj,
    Steady]

end Arena

/-- If no choice of a selected state is a sure loop, then a pass over a vector leaves it as it is if
and only if a sweep from it gives every selected state the value that it has.  Without rewards, what
a pass leaves as it is a sweep leaves so even if there are sure loops. -/
theorem Model.Built.pass_eq_self_iff {m : Model ℝ} (hm : m.Built) (hsum : m.process.Stochastic)
    (rewards : Option (Rewards ℝ)) (o : Objective) (sel : Selection) (measure : ChangeMeasure)
    {v result : Array ℝ} {strategy : Option Strategy} (hv : sel.SpannedBy m.arena v.size)
    (hplaces : ∀ s < m.arena.numStates, sel.has s = true →
      s < result.size ∧ ∀ t ∈ strategy, s < t.size) :
  ∃ change w out choices, m.arena.gaussSeidel? rewards o sel measure v = some (change, w)
    ∧ m.arena.jacobi? rewards o sel v result strategy = some (out, choices)
    ∧ ((∀ s < m.arena.numStates, sel.has s = true →
          ∀ c < m.process.numChoices s, ¬ m.process.SureLoop s c) →
        (w = v ↔ ∀ s < m.arena.numStates, sel.has s = true → out[s]? = v[s]?))
    ∧ (rewards = none → w = v → ∀ s < m.arena.numStates, sel.has s = true → out[s]? = v[s]?)
  := by
  have ha := hm.proper_arena
  rw [← m.mdp_arena] at hsum ⊢
  have hsweep : ∀ s < m.arena.numStates, sel.has s = true →
      ((m.arena.jacobi rewards o sel v (result, strategy.getD #[])).1[s]? = v[s]?
        ↔ m.arena.Steady rewards o (valuation v) s) :=
    fun s hs hsel => Arena.getElem?_jacobi_eq_iff hs hsel (hv s hs hsel).1 (hplaces s hs hsel).1
  refine ⟨_, _, _, _, Arena.gaussSeidel?_eq_some hv, Arena.jacobi?_eq_some hv hplaces, ?_, ?_⟩
  · intro hloops
    apply (Arena.gaussSeidel_eq_self_iff hv).trans
    apply forall₃_congr
    intro s hs hsel
    rw [hsweep s hs hsel]
    apply Arena.settledAt_iff_steady ha hsum (hloops s hs hsel)
  · rintro rfl hpass s hs hsel
    rw [hsweep s hs hsel]
    apply ((Arena.gaussSeidel_eq_self_iff hv).mp hpass s hs hsel).steady ha hsum

/-- No choice of state `1` of the sample game is a sure loop. -/
theorem Model.not_sureLoop_sample (c : Nat) :
  ¬ sample.process.SureLoop 1 c
  := by
  intro hloop
  have hrow : (1, 1) ∈ Game.Draft.sample.mdp.process.successors 1 c := hloop
  rw [Mdp.Draft.successors_process] at hrow
  match c with
  | 0 => simp [Mdp.Draft.choice?, Game.Draft.sample, Distribution.mem_row, Distribution.pairs] at hrow
  | 1 => simp [Mdp.Draft.choice?, Game.Draft.sample, Distribution.mem_row, Distribution.pairs] at hrow
  | c + 2 => simp [Mdp.Draft.choice?, Game.Draft.sample] at hrow

/-- At state `1` of the sample game, passes and sweeps leave the same vectors as they are. -/
theorem Model.pass_eq_self_iff_sample :
  let sel := Selection.only (.ofList 4 [1])
  let v : Array ℝ := #[0, 1 / 2, 0, 1]
  ∃ change w out choices,
    sample.arena.gaussSeidel? none .max sel .absolute v = some (change, w)
    ∧ sample.arena.jacobi? none .max sel v #[0, 0, 0, 0] none = some (out, choices)
    ∧ (w = v ↔ ∀ s < sample.arena.numStates, sel.has s = true → out[s]? = v[s]?)
    ∧ (w = v → ∀ s < sample.arena.numStates, sel.has s = true → out[s]? = v[s]?)
  := by
  intro sel v
  have hspanned : sel.SpannedBy sample.arena v.size :=
    built_sample.proper_arena.spannedBy sel (le_refl 4)
  have hplaces : ∀ s < sample.arena.numStates, sel.has s = true →
      s < (#[0, 0, 0, 0] : Array ℝ).size ∧ ∀ t ∈ (none : Option Strategy), s < t.size := by
    intro s hs _
    exact ⟨hs, by simp⟩
  have hloops : ∀ s < sample.arena.numStates, sel.has s = true →
      ∀ c < sample.process.numChoices s, ¬ sample.process.SureLoop s c := by
    intro s _ hsel c _
    rw [Selection.has_only, StateSet.contains_ofList, decide_eq_true_eq, List.mem_singleton] at hsel
    rw [hsel]
    apply not_sureLoop_sample
  obtain ⟨change, w, out, choices, hpass, hsweep, hiff, himp⟩ :=
    built_sample.pass_eq_self_iff stochastic_sample none .max sel .absolute hspanned hplaces
  exact ⟨change, w, out, choices, hpass, hsweep, hiff hloops, himp rfl⟩

end Reachability
