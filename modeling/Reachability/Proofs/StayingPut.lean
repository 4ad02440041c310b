import Mathlib
import Reachability.Proofs.Excess
import Reachability.Proofs.Rebuilt
import Reachability.Proofs.SideTables

/-!
# Choices that stay put

A distribution jumps as another one with probability `jump` and stays in a state with probability
`stay` if its masses are those of the other one times `jump`, to which `stay` is added at the state
(`Distribution.JumpsOrStays`).  The discretised and the uniformised distributions of a choice are
of this form.  If the two probabilities sum to one, then the sum of the masses is at most as far
from one as it was, so that the distribution fits if the other one did
(`Distribution.JumpsOrStays.validate_eq_ok`).

Hence the choices of every process that can be made with exit rates may be replaced by choices that
stay put (`Ctmdp.Built.exists_jumpsOrStays`).
-/

namespace Reachability

/-- A number that is not zero is there if it is taken in place of zero. -/
theorem Option.getD_zero_eq_iff {o : Option ℝ} {x : ℝ} (hx : x ≠ 0) :
  o.getD 0 = x ↔ o = some x
  := by
  cases o with
  | none => simp [Ne.symm hx]
  | some y => simp

namespace Distribution

variable {d d' : Distribution ℝ} {numStates : Nat}

/-! ### Rows and masses -/

/-- The row of a distribution lists the masses that are positive. -/
theorem mem_row_iff {e : Nat × ℝ} :
  e ∈ d.row ↔ d.get e.1 = e.2 ∧ 0 < e.2
  := by
  rw [mem_row, pairs, Table.mem_iff_lookup_eq_some d.masses.distinct]
  apply and_congr_left
  intro hpos
  rw [get, Table.get?, Option.getD_zero_eq_iff (ne_of_gt hpos)]

/-- Distributions with the same masses have the same row. -/
theorem row_congr (h : ∀ t, d.get t = d'.get t) :
  d.row = d'.row
  := by
  apply eq_of_mem_iff d.pairwise_row d'.pairwise_row
  intro e
  rw [mem_row_iff, mem_row_iff, h]

/-- Masses that are listed with different states are those of their states. -/
theorem get_ofPairs_of_nodup {pairs : List (Nat × ℝ)} (hdistinct : (pairs.map Prod.fst).Nodup)
    (t : Nat) :
  (ofPairs pairs).get t = (pairs.lookup t).getD 0
  := by
  rw [get, get?_ofPairs hdistinct]
  simp only [zero_add, Option.map_id']

/-- A row that lists positive masses in ascending order is that of the distribution which is made of
it. -/
theorem row_ofPairs {row : List (Nat × ℝ)} (hrow : row.Pairwise fun e e' => e.1 < e'.1)
    (hpos : ∀ e ∈ row, 0 < e.2) :
  (ofPairs row).row = row
  := by
  have hdistinct := nodup_of_ascending hrow
  apply eq_of_mem_iff (ofPairs row).pairwise_row hrow
  intro e
  rw [mem_row_iff, get_ofPairs_of_nodup hdistinct, Table.mem_iff_lookup_eq_some hdistinct]
  constructor
  · rintro ⟨hmass, he⟩
    apply (Option.getD_zero_eq_iff (ne_of_gt he)).mp hmass
  · intro hmass
    have he := hpos e ((Table.mem_iff_lookup_eq_some hdistinct).mpr hmass)
    exact ⟨(Option.getD_zero_eq_iff (ne_of_gt he)).mpr hmass, he⟩

/-- The distribution that is made of a row has the masses of the distribution whose row it is, if
these are not negative. -/
theorem Spread.get_ofPairs_row (h : d.Spread numStates) (t : Nat) :
  (ofPairs d.row).get t = d.get t
  := by
  have hdistinct := nodup_of_ascending d.pairwise_row
  rw [get_ofPairs_of_nodup hdistinct]
  cases hmass : d.row.lookup t with
  -- the row leaves out masses that are not positive, and so the mass must not be negative
  | none =>
      by_contra hne
      have hpos : 0 < d.get t := lt_of_le_of_ne (h.nonneg t) hne
      have hmem : (t, d.get t) ∈ d.row := mem_row_iff.mpr ⟨rfl, hpos⟩
      rw [(Table.mem_iff_lookup_eq_some hdistinct).mp hmem] at hmass
      cases hmass
  | some p =>
      have hmem : (t, p) ∈ d.row := (Table.mem_iff_lookup_eq_some hdistinct).mpr hmass
      apply (mem_row_iff.mp hmem).1.symm

/-! ### Masses that are scaled -/

/-- The distribution with all masses multiplied by `x`. -/
noncomputable def scaled (x : ℝ) (d : Distribution ℝ) : Distribution ℝ :=
  ofPairs (d.pairs.map fun (t, p) => (t, x * p))

/-- The masses of a scaled distribution. -/
theorem get_scaled (x : ℝ) (t : Nat) :
  (d.scaled x).get t = x * d.get t
  := by
  have hdistinct : ((d.pairs.map fun (t, p) => (t, x * p)).map Prod.fst).Nodup := by
    rw [List.map_map]
    exact d.masses.distinct
  rw [scaled, get_ofPairs_of_nodup hdistinct, Table.lookup_map fun p => x * p, get, Table.get?, pairs]
  cases d.masses.entries.lookup t with
  | none => rw [Option.map_none, Option.getD_none, mul_zero]
  | some p => rfl

/-- Masses that are multiplied by a number that is not negative stay on states of the model, and do
not become negative. -/
theorem Spread.scaled (h : d.Spread numStates) {x : ℝ} (hx : 0 ≤ x) :
  (d.scaled x).Spread numStates
  := by
  apply (sum_get_ofPairs _).1
  intro pair hpair
  obtain ⟨⟨t, p⟩, hp, rfl⟩ := List.mem_map.mp hpair
  have hmass : d.get t = p := get_of_mem_pairs hp
  constructor
  · apply h.lt_numStates t (List.mem_map_of_mem hp)
  · apply mul_nonneg hx
    rw [← hmass]
    apply h.nonneg

/-! ### Jumping or staying -/

/-- A distribution jumps as `d` with probability `jump` and stays in state `s` with probability
`stay`. -/
structure JumpsOrStays (d' d : Distribution ℝ) (numStates s : Nat) (jump stay : ℝ) : Prop where
  spread : d'.Spread numStates
  get : ∀ t, d'.get t = jump * d.get t + if t = s then stay else 0

/-- A mass may be added at a state to a scaled distribution. -/
theorem Spread.jumpsOrStays_add (h : d.Spread numStates) {s : Nat} (hs : s < numStates)
    {jump stay : ℝ} (hjump : 0 ≤ jump) (hstay : 0 ≤ stay) :
  ((d.scaled jump).add s stay).JumpsOrStays d numStates s jump stay
  := by
  constructor
  · apply (h.scaled hjump).add hs hstay
  · intro t
    rw [get_add]
    split
    · next hts => rw [get_scaled, hts]
    · rw [get_scaled, add_zero]

/-- A choice that stays put with probability `stay` jumps with the remaining probability. -/
theorem Spread.discretised (h : d.Spread numStates) {s : Nat} (hs : s < numStates) {stay : ℝ}
    (hstay : stay ∈ Set.Icc 0 1) :
  (Ctmdp.discretised stay s d).JumpsOrStays d numStates s (1 - stay) stay
  := h.jumpsOrStays_add hs (sub_nonneg.mpr hstay.2) hstay.1

/-- A choice that jumps with probability `jump` stays put with the remaining probability. -/
theorem Spread.uniformised (h : d.Spread numStates) {s : Nat} (hs : s < numStates) {jump : ℝ}
    (hjump : jump ∈ Set.Icc 0 1) :
  (Ctmdp.uniformised jump s d).JumpsOrStays d numStates s jump (1 - jump)
  := by
  unfold Ctmdp.uniformised
  split
  · apply h.jumpsOrStays_add hs hjump.1 (sub_nonneg.mpr hjump.2)
  -- a choice that always jumps is not given a mass for staying
  · next hone =>
      have hsame : 1 - jump = 0 := sub_eq_zero.mpr (le_antisymm (not_lt.mp hone) hjump.2)
      constructor
      · apply h.scaled hjump.1
      · intro t
        rw [hsame, ite_self, add_zero]
        apply get_scaled

namespace JumpsOrStays

variable {s : Nat} {jump stay : ℝ}

/-- The sum of values times masses is that of jumping or staying. -/
theorem sum_get (h : d'.JumpsOrStays d numStates s jump stay) (hs : s < numStates)
    (v : Nat → ℝ) :
  ∑ t ∈ Finset.range numStates, d'.get t * v t
    = jump * ∑ t ∈ Finset.range numStates, d.get t * v t + stay * v s
  := by
  simp only [h.get, add_mul, Finset.sum_add_distrib, mul_assoc, ← Finset.mul_sum, ite_mul, zero_mul,
    Finset.sum_ite_eq', Finset.mem_range, hs, if_true]

/-- A distribution that jumps or stays fits if the masses of the one that it jumps as sum to one
within the tolerance. -/
theorem validate_eq_ok {W : Type} (h : d'.JumpsOrStays d numStates s jump stay) (hs : s < numStates)
    (hjump : jump ∈ Set.Icc 0 1) (hone : jump + stay = 1)
    (hsum : |∑ t ∈ Finset.range numStates, d.get t - 1| ≤ 1 / 10 ^ 6) (t c : Nat) :
  (d'.validate t c numStates : Except (CheckError ℝ W) Unit) = .ok ()
  := by
  have htotal : (d'.pairs.map Prod.snd).sum
      = jump * ∑ t ∈ Finset.range numStates, d.get t + stay := by
    have hd := h.sum_get hs fun _ => 1
    rw [h.spread.sum_get] at hd
    simp only [mul_one] at hd
    apply hd
  apply validate_eq_ok_iff_abs_le.mpr
  constructor
  · intro pair hpair
    use h.spread.lt_numStates pair.1 (List.mem_map_of_mem hpair)
    rw [← get_of_mem_pairs hpair]
    apply h.spread.nonneg
  · calc |(d'.pairs.map Prod.snd).sum - 1|
        = |jump * (∑ t ∈ Finset.range numStates, d.get t - 1)| := by
          rw [htotal, eq_sub_of_add_eq' hone]
          congr 1
          ring
      _ = jump * |∑ t ∈ Finset.range numStates, d.get t - 1| := by
          rw [abs_mul, abs_of_nonneg hjump.1]
      _ ≤ |∑ t ∈ Finset.range numStates, d.get t - 1| :=
          mul_le_of_le_one_left (abs_nonneg _) hjump.2
      _ ≤ 1 / 10 ^ 6 := hsum

/-- A distribution that never stays has the row of the one that it jumps as. -/
theorem row_eq (h : d'.JumpsOrStays d numStates s 1 0) :
  d'.row = d.row
  := by
  apply row_congr
  intro t
  rw [h.get, one_mul, ite_self, add_zero]

end JumpsOrStays

end Distribution

/-! ### Processes whose choices stay put -/

namespace Mdp

variable {m : Mdp ℝ}

/-- The masses of a choice of a proper process are on its states and not negative. -/
theorem Proper.spread_distribution (h : m.Proper) (s c : Nat) :
  (m.distribution s c).Spread m.numStates
  := by
  apply (Distribution.sum_get_ofPairs _).1
  intro e he
  exact ⟨h.lt_numStates s c e he, (h.mass_pos s c e he).le⟩

/-- The row of a choice of a proper process is that of its distribution. -/
theorem Proper.row_distribution (h : m.Proper) (s c : Nat) :
  (m.distribution s c).row = m.successors s c
  := Distribution.row_ofPairs (h.pairwise s c) (h.mass_pos s c)

/-- The expected value of a choice of a proper process is the sum over all states. -/
theorem Proper.expectation_successors (h : m.Proper) (s c : Nat) (v : Nat → ℝ) :
  expectation (m.successors s c) v
    = ∑ t ∈ Finset.range m.numStates, (m.distribution s c).get t * v t
  := by
  rw [← h.row_distribution, (h.spread_distribution s c).expectation_row]

/-- The sum of the masses of a choice of a proper process is that over all states. -/
theorem Proper.totalMass_eq (h : m.Proper) (s c : Nat) :
  m.totalMass s c = ∑ t ∈ Finset.range m.numStates, (m.distribution s c).get t
  := by
  have hone := h.expectation_successors s c fun _ => 1
  simp only [expectation_real, mul_one] at hone
  apply hone

/-- A process has the frame of `m`, and each of its choices jumps as that of `m` with probability
`jump` and stays put with probability `stay`. -/
structure JumpsOrStays (m' m : Mdp ℝ) (jump stay : Nat → Nat → ℝ) : Prop where
  frame : m'.SameFrame m
  get : ∀ s < m.numStates, ∀ c < m.numChoices s, ∀ t, (m'.distribution s c).get t
    = jump s c * (m.distribution s c).get t + if t = s then stay s c else 0

/-- The expected value of a choice is that of jumping or staying. -/
theorem JumpsOrStays.expectation_successors {m' : Mdp ℝ} {jump stay : Nat → Nat → ℝ}
    (h : m'.JumpsOrStays m jump stay) (hm' : m'.Proper) (hm : m.Proper) {s c : Nat}
    (hs : s < m.numStates) (hc : c < m.numChoices s) (v : Nat → ℝ) :
  expectation (m'.successors s c) v
    = jump s c * expectation (m.successors s c) v + stay s c * v s
  := by
  have hjumps : (m'.distribution s c).JumpsOrStays (m.distribution s c) m.numStates s
      (jump s c) (stay s c) := by
    constructor
    · rw [← h.frame.numStates]
      apply hm'.spread_distribution s c
    · apply h.get s hs c hc
  rw [hm'.expectation_successors, hm.expectation_successors, h.frame.numStates, hjumps.sum_get hs]

end Mdp

/-- The choices of a finished model in continuous time may be replaced by choices that jump as
before or stay put.  If they never stay, then the result is the process of the jumps. -/
theorem Ctmdp.Built.exists_jumpsOrStays {W : Type} {m : Ctmdp ℝ} (hm : m.Built)
    (f : Nat → Nat → Distribution ℝ → Distribution ℝ) (jump stay : Nat → Nat → ℝ)
    (hjump : ∀ s < m.mdp.numStates, ∀ c < m.mdp.numChoices s,
      jump s c ∈ Set.Icc 0 1 ∧ jump s c + stay s c = 1)
    (hf : ∀ s < m.mdp.numStates, ∀ c < m.mdp.numChoices s, ∀ d : Distribution ℝ,
      d.Spread m.mdp.numStates →
      (f s c d).JumpsOrStays d m.mdp.numStates s (jump s c) (stay s c)) :
  ∃ mdp, (m.mdp.mapDistributions f : Except (CheckError ℝ W) (Mdp ℝ)) = .ok mdp
    ∧ mdp.Proper ∧ mdp.JumpsOrStays m.mdp jump stay
    ∧ ((∀ s < m.mdp.numStates, ∀ c < m.mdp.numChoices s, stay s c = 0) → mdp = m.mdp)
  := by
  have hproper : m.mdp.Proper := hm.model.proper
  have hmass : ∀ s, ∀ c < m.mdp.numChoices s, |m.mdp.totalMass s c - 1| ≤ 1 / 10 ^ 6 :=
    fun s c hc => hm.model.abs_totalMass_sub_one_le hc
  have hstep : ∀ s < m.mdp.numStates, ∀ c < m.mdp.numChoices s,
      (f s c (m.mdp.distribution s c)).JumpsOrStays (m.mdp.distribution s c) m.mdp.numStates s
        (jump s c) (stay s c) :=
    fun s hs c hc => hf s hs c hc _ (hproper.spread_distribution s c)
  -- the choices of the draft are replaced, for the process is made anew from a draft
  obtain ⟨b, hstarted, hnodup, hprocess⟩ : ∃ b : Mdp.Draft ℝ,
      b.Started ∧ b.initialStates.Nodup ∧ m.mdp = b.process := by
    obtain ⟨b, hb, rfl⟩ := hm.exists_made
    exact ⟨b.mdp, hb.consistent.initial, hb.regular.nodup, rfl⟩
  rw [hprocess] at hproper hmass hjump hstep ⊢
  obtain ⟨mdp, hok, hproper', hframe, hrows, hsame⟩ :=
    Mdp.Draft.exists_mapDistributions_process (W := W) hstarted hnodup (f := f) (by
      intro s hs c hc
      obtain ⟨hunit, hone⟩ := hjump s hs c hc
      apply (hstep s hs c hc).validate_eq_ok hs hunit hone
      rw [← hproper.totalMass_eq]
      apply hmass s c hc)
  refine ⟨mdp, hok, hproper', ⟨hframe, ?_⟩, ?_⟩
  · intro s hs c hc t
    rw [Mdp.distribution, hrows s hs c hc, (hstep s hs c hc).spread.get_ofPairs_row,
      (hstep s hs c hc).get]
  · intro hnever
    apply hsame
    intro s hs c hc
    have hjumps := hstep s hs c hc
    obtain ⟨-, hone⟩ := hjump s hs c hc
    rw [hnever s hs c hc, add_zero] at hone
    rw [hnever s hs c hc, hone] at hjumps
    rw [hjumps.row_eq, hproper.row_distribution]

end Reachability
