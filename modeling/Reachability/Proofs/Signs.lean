import Mathlib
import Reachability.Proofs.Choice
import Reachability.Proofs.Construction

/-!
# Signs of values

Rounding may change a value but not its sign.  `SignLaws` are the laws of signs that rounded and
exact arithmetic have in common: sums and products of values that are not negative are not
negative, and those of zeros are zero.  Exact numbers obey them.

Under these laws the expected value of a row that carries mass has the sign of the values
(`nonneg_expectation`, `expectation_eq_zero`), and every choice of a model that can be made carries
mass (`Model.Built.carriesMass_arena`).
-/

namespace Reachability

section Signs

variable {V : Type} [Arithmetic V]

/-- A value is not negative if it is zero or above zero.  A zero with a negative sign is
neither. -/
def Nonneg (x : V) : Prop := x = 0 ∨ 0 < x

/-- A mass is positive and finite. -/
structure IsMass (p : V) : Prop where
  pos : 0 < p
  isFinite : Arithmetic.isFinite p = true

/-- The laws of signs that do not depend on rounding.  Sums start from a zero of their own, which
may have a negative sign, and masses that are accepted are not all zero. -/
class SignLaws (V : Type) [Arithmetic V] : Prop where
  nonneg_one : Nonneg (1 : V)
  not_lt_zero : ∀ x : V, Nonneg x → ¬ x < 0
  zero_add_zero : (0 : V) + 0 = 0
  nonneg_add : ∀ x y : V, Nonneg x → Nonneg y → Nonneg (x + y)
  neg_zero_add_zero : (-0 : V) + 0 = 0
  nonneg_neg_zero_add : ∀ x : V, Nonneg x → Nonneg (-0 + x)
  mass_mul_zero : ∀ p : V, IsMass p → p * 0 = 0
  nonneg_mass_mul : ∀ p x : V, IsMass p → Nonneg x → Nonneg (p * x)
  exists_pos : ∀ masses : List V, (∀ p ∈ masses, Arithmetic.isFinite p = true ∧ ¬ p < 0) →
    ¬ Distribution.tolerance < Arithmetic.abs (Arithmetic.sum masses - 1) → ∃ p ∈ masses, 0 < p

/-- A row carries mass if it has entries and each of them is a mass. -/
structure CarriesMass (row : List (Nat × V)) : Prop where
  ne_nil : row ≠ []
  isMass : ∀ e ∈ row, IsMass e.2

/-- A process carries mass if each of its choices does. -/
def Mdp.CarriesMass (m : Mdp V) : Prop :=
  ∀ s, ∀ c < m.numChoices s, Reachability.CarriesMass (m.successors s c)

/-- Zero is not negative. -/
theorem nonneg_zero :
  Nonneg (0 : V)
  := Or.inl rfl

/-- What holds of the terms of a sum, and of what it starts from with the first of them, and is
kept by additions, holds of the sum. -/
theorem Arithmetic.sum_induction {p : V → Prop} (hfirst : ∀ x, p x → p (-0 + x))
    (hnext : ∀ x y, p x → p y → p (x + y)) {terms : List V} (hne : terms ≠ [])
    (h : ∀ x ∈ terms, p x) :
  p (sum terms)
  := by
  induction terms using List.reverseRecOn with
  | nil => exact absurd rfl hne
  | append_singleton terms x ih =>
      rw [sum_append_singleton]
      have hx := h x (List.mem_append_right terms List.mem_cons_self)
      by_cases hterms : terms = []
      · rw [hterms, sum_nil]
        apply hfirst x hx
      · apply hnext _ _ _ hx
        apply ih hterms fun y hy => h y (List.mem_append_left [x] hy)

/-- The best of a list with values is one of them. -/
theorem Direction.exists_mem_best (d : Direction) {values : List V} (hne : values ≠ []) :
  ∃ best, d.best values = some best ∧ best.1 ∈ values
  := by
  induction values using List.reverseRecOn with
  | nil => exact absurd rfl hne
  | append_singleton values x ih =>
      rw [best_concat]
      by_cases hvalues : values = []
      · subst hvalues
        exact ⟨(x, 0), rfl, List.mem_cons_self⟩
      · obtain ⟨best, hbest, hmem⟩ := ih hvalues
        rw [hbest, choose]
        split
        · exact ⟨_, rfl, List.mem_append_right values List.mem_cons_self⟩
        · exact ⟨_, rfl, List.mem_append_left [x] hmem⟩

/-- Where there are choices, the optimum is the value of one of them. -/
theorem Direction.exists_optimum_eq (d : Direction) {n : Nat} (hn : 0 < n) (f : Nat → V) :
  ∃ c < n, d.optimum n f = f c
  := by
  have hvalues : (List.range n).map f ≠ [] := by
    rw [Ne, List.map_eq_nil_iff, List.range_eq_nil]
    omega
  obtain ⟨best, hbest, hmem⟩ := d.exists_mem_best hvalues
  obtain ⟨c, hc, heq⟩ := List.mem_map.mp hmem
  use c, List.mem_range.mp hc
  rw [optimum, Arena.valueAndChoice, hbest, heq]

/-- The optimum of values that are not negative is not negative. -/
theorem Direction.nonneg_optimum {d : Direction} {n : Nat} {f : Nat → V}
    (h : ∀ c < n, Nonneg (f c)) :
  Nonneg (d.optimum n f)
  := by
  obtain rfl | hn := Nat.eq_zero_or_pos n
  · apply nonneg_zero
  · obtain ⟨c, hc, hopt⟩ := d.exists_optimum_eq hn f
    rw [hopt]
    apply h c hc

variable [SignLaws V]

/-! ### Sums -/

/-- A sum of values that are not negative is not negative. -/
theorem Arithmetic.nonneg_sum {terms : List V} (hne : terms ≠ []) (h : ∀ x ∈ terms, Nonneg x) :
  Nonneg (sum terms)
  := sum_induction SignLaws.nonneg_neg_zero_add SignLaws.nonneg_add hne h

/-- A sum of zeros is zero. -/
theorem Arithmetic.sum_eq_zero {terms : List V} (hne : terms ≠ []) (h : ∀ x ∈ terms, x = 0) :
  sum terms = 0
  := by
  apply sum_induction (p := fun x => x = 0) _ _ hne h
  · rintro x rfl
    apply SignLaws.neg_zero_add_zero
  · rintro x y rfl rfl
    apply SignLaws.zero_add_zero

/-! ### Expected values -/

section Row

variable {row : List (Nat × V)} (hrow : CarriesMass row) {v : Nat → V}

include hrow

/-- The expected value of values that are not negative is not negative. -/
theorem nonneg_expectation (h : ∀ e ∈ row, Nonneg (v e.1)) :
  Nonneg (expectation row v)
  := by
  apply Arithmetic.nonneg_sum
  · rw [Ne, List.map_eq_nil_iff]
    apply hrow.ne_nil
  · intro x hx
    obtain ⟨e, he, rfl⟩ := List.mem_map.mp hx
    apply SignLaws.nonneg_mass_mul _ _ (hrow.isMass e he) (h e he)

/-- The expected value of zeros is zero. -/
theorem expectation_eq_zero (h : ∀ e ∈ row, v e.1 = 0) :
  expectation row v = 0
  := by
  apply Arithmetic.sum_eq_zero
  · rw [Ne, List.map_eq_nil_iff]
    apply hrow.ne_nil
  · intro x hx
    obtain ⟨e, he, rfl⟩ := List.mem_map.mp hx
    change e.2 * v e.1 = 0
    rw [h e he]
    apply SignLaws.mass_mul_zero _ (hrow.isMass e he)

end Row

/-! ### Processes that carry mass -/

/-- The row of a distribution that fits carries mass. -/
theorem Distribution.carriesMass_row {W : Type} {d : Distribution V} {s c numStates : Nat}
    (h : (d.validate s c numStates : Except (CheckError V W) Unit) = .ok ()) :
  CarriesMass d.row
  := by
  obtain ⟨-, hpairs, htotal⟩ := validate_eq_ok_iff.mp h
  constructor
  · have hmasses : ∀ p ∈ d.pairs.map Prod.snd, Arithmetic.isFinite p = true ∧ ¬ p < 0 := by
      intro p hp
      obtain ⟨pair, hpair, rfl⟩ := List.mem_map.mp hp
      apply (hpairs pair hpair).2
    obtain ⟨p, hp, hpos⟩ := SignLaws.exists_pos _ hmasses htotal
    obtain ⟨pair, hpair, rfl⟩ := List.mem_map.mp hp
    apply List.ne_nil_of_mem (mem_row.mpr ⟨hpair, hpos⟩)
  · intro e he
    obtain ⟨hpair, hpos⟩ := mem_row.mp he
    exact ⟨hpos, (hpairs e hpair).2.1⟩

/-- The process of a valid draft carries mass. -/
theorem Mdp.Draft.carriesMass_process {W : Type} {b : Mdp.Draft V}
    (h : (b.validate : Except (CheckError V W) Unit) = .ok ()) :
  b.process.CarriesMass
  := by
  intro s c hc
  rw [numChoices_process] at hc
  obtain ⟨choice, hchoice⟩ := exists_choice hc
  rw [successors_process, hchoice]
  apply Distribution.carriesMass_row (validate_eq_ok_iff.mp h s c choice hchoice)

/-- What the analyses see of a model that can be made carries mass. -/
theorem Model.Built.carriesMass_arena {m : Model V} (h : m.Built) :
  m.arena.mdp.CarriesMass
  := by
  obtain ⟨W, b, hvalid, hprocess⟩ := h.exists_draft
  rw [m.mdp_arena, hprocess]
  apply Mdp.Draft.carriesMass_process hvalid

/-! ### The best of several values -/

namespace Direction

/-- The least of values that are not negative is zero if one of them is. -/
theorem exists_best_min {values : List V} (hnonneg : ∀ x ∈ values, Nonneg x)
    (hmem : 0 ∈ values) :
  ∃ c, min.best values = some (0, c)
  := by
  induction values using List.reverseRecOn with
  | nil => cases hmem
  | append_singleton values x ih =>
      have hvalues := fun y hy => hnonneg y (List.mem_append_left [x] hy)
      rw [best_concat]
      by_cases hzero : 0 ∈ values
      · -- no value that comes later improves on zero
        obtain ⟨c, hbest⟩ := ih hvalues hzero
        have hworse := SignLaws.not_lt_zero x (hnonneg x (by simp))
        rw [hbest, choose, improves, decide_eq_false hworse]
        exact ⟨c, rfl⟩
      · obtain rfl : 0 = x := by simpa [hzero] using hmem
        by_cases hne : values = []
        · subst hne
          exact ⟨0, rfl⟩
        · obtain ⟨best, hbest, hin⟩ := min.exists_mem_best hne
          obtain hbest' | hpos := hvalues best.1 hin
          · exact absurd (hbest' ▸ hin) hzero
          · rw [hbest, choose, improves, decide_eq_true hpos]
            exact ⟨_, rfl⟩

/-- The optimum of values that are not negative is zero unless all of them, or some of them, are
not zero, as the player minimises or maximises. -/
theorem optimum_eq_zero {d : Direction} {n : Nat} {f : Nat → V} (hnonneg : ∀ c < n, Nonneg (f c))
    (h : ¬ d.Quantify n fun c => f c ≠ 0) :
  d.optimum n f = 0
  := by
  cases d with
  | min =>
      obtain ⟨c, hc, hzero⟩ : ∃ c < n, f c = 0 := by
        by_contra hnone
        exact h fun c hc hzero => hnone ⟨c, hc, hzero⟩
      have hmem : 0 ∈ (List.range n).map f := List.mem_map.mpr ⟨c, List.mem_range.mpr hc, hzero⟩
      obtain ⟨best, hbest⟩ := exists_best_min (by
        intro x hx
        obtain ⟨c, hc, rfl⟩ := List.mem_map.mp hx
        apply hnonneg c (List.mem_range.mp hc)) hmem
      rw [optimum, Arena.valueAndChoice, hbest]
  | max =>
      obtain rfl | hn := Nat.eq_zero_or_pos n
      · rfl
      · obtain ⟨c, hc, hopt⟩ := max.exists_optimum_eq hn f
        by_contra hne
        rw [hopt] at hne
        exact h ⟨c, hc, hne⟩

end Direction

end Signs

/-! ### Exact values -/

/-- An exact value is not negative in the usual sense. -/
theorem nonneg_iff {x : ℝ} :
  Nonneg x ↔ 0 ≤ x
  := by
  rw [le_iff_eq_or_lt, Nonneg, eq_comm]

instance : SignLaws ℝ where
  nonneg_one := Or.inr zero_lt_one
  not_lt_zero x h := not_lt_of_ge (nonneg_iff.mp h)
  zero_add_zero := add_zero 0
  nonneg_add x y hx hy := nonneg_iff.mpr (add_nonneg (nonneg_iff.mp hx) (nonneg_iff.mp hy))
  neg_zero_add_zero := by rw [neg_zero, add_zero]
  nonneg_neg_zero_add x hx := by rwa [neg_zero, zero_add]
  mass_mul_zero p _ := mul_zero p
  nonneg_mass_mul p x hp hx := nonneg_iff.mpr (mul_nonneg hp.pos.le (nonneg_iff.mp hx))
  exists_pos masses hmasses htotal := by
    by_contra hnone
    apply htotal
    have hsum : Arithmetic.sum masses = 0 := by
      rw [Arithmetic.sum_real]
      apply List.sum_eq_zero
      intro p hp
      apply le_antisymm (le_of_not_gt fun hpos => hnone ⟨p, hp, hpos⟩)
      apply le_of_not_gt (hmasses p hp).2
    rw [hsum]
    change ((1 : ℕ) / 10 ^ 6 : ℝ) < |0 - 1|
    norm_num

end Reachability
