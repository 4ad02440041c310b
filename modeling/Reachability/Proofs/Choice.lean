import Mathlib
import Reachability.Bellman
import Reachability.Proofs.Exact

/-!
# The best choice

`Direction.best` picks the first of the best values of a list of numbers (`Direction.exists_best`),
in any arithmetic that ranks its numbers: two numbers that are not comparable have the same values
above and below them.  What is not a number compares with nothing and has no rank.

For exact values, `Direction.optimum` is the best of `n` values.  Whether it is above a bound is
asked of all values by a player that minimises, and of some value by one that maximises
(`Direction.Quantify`), so that what is shown of one direction is shown of the other.
-/

namespace Reachability

variable {V : Type} [Arithmetic V]

/-- The comparison of values ranks the numbers among them: it is asymmetric, and a number is above
the lower one or below the higher one of two values that differ.  Zero is a number, and so is what
is above another value. -/
class RanksNumbers (V : Type) [Arithmetic V] : Prop where
  lt_asymm : ∀ x y : V, x < y → ¬ y < x
  lt_or_lt : ∀ x y z : V, Arithmetic.isNaN y = false → x < z → x < y ∨ y < z
  isNaN_of_lt : ∀ x y : V, x < y → Arithmetic.isNaN y = false
  isNaN_zero : Arithmetic.isNaN (0 : V) = false

/-- All values are numbers, and the comparison ranks them. -/
class Ranked (V : Type) [Arithmetic V] : Prop extends RanksNumbers V where
  isNaN_eq_false : ∀ x : V, Arithmetic.isNaN x = false

instance : Ranked ℝ where
  lt_asymm _ _ h := not_lt_of_gt h
  lt_or_lt x y _ _ h := (lt_or_ge x y).imp_right fun hyx => lt_of_le_of_lt hyx h
  isNaN_of_lt _ y _ := Arithmetic.isNaN_real y
  isNaN_zero := Arithmetic.isNaN_real 0
  isNaN_eq_false := Arithmetic.isNaN_real

namespace Direction

section Ranked

section Numbers

variable [RanksNumbers V] (d : Direction)

/-- Of two values at most one improves on the other. -/
theorem improves_asymm {x y : V} (h : d.improves x y = true) :
  d.improves y x = false
  := by
  cases d with
  | min =>
      simp only [improves, decide_eq_true_eq, decide_eq_false_iff_not] at h ⊢
      apply RanksNumbers.lt_asymm _ _ h
  | max =>
      simp only [improves, decide_eq_true_eq, decide_eq_false_iff_not] at h ⊢
      apply RanksNumbers.lt_asymm _ _ h

/-- If a value improves on another one, then any number is improved on by the first or improves on
the second. -/
theorem improves_or {x y z : V} (hy : Arithmetic.isNaN y = false) (h : d.improves x z = true) :
  d.improves x y = true ∨ d.improves y z = true
  := by
  cases d with
  | min =>
      simp only [improves, decide_eq_true_eq] at h ⊢
      apply RanksNumbers.lt_or_lt _ _ _ hy h
  | max =>
      simp only [improves, decide_eq_true_eq] at h ⊢
      apply Or.symm
      apply RanksNumbers.lt_or_lt _ _ _ hy h

/-- No value improves on itself. -/
theorem improves_self (x : V) :
  d.improves x x = false
  := by
  cases h : d.improves x x with
  | false => rfl
  | true => rw [← h, d.improves_asymm h]

end Numbers

/-- A value that does not improve on a second one does not improve on a third one, either, if the
second does not. -/
theorem improves_trans [Ranked V] (d : Direction) {x y z : V} (h : d.improves x y = false)
    (h' : d.improves y z = false) :
  d.improves x z = false
  := by
  apply Bool.eq_false_iff.mpr
  intro hxz
  obtain hxy | hyz := d.improves_or (Ranked.isNaN_eq_false y) hxz
  · rw [h] at hxy
    cases hxy
  · rw [h'] at hyz
    cases hyz

end Ranked

/-- What improves for one direction is worse for the other. -/
theorem improves_swap {d d' : Direction} (h : d ≠ d') (x y : V) :
  d.improves x y = d'.improves y x
  := by
  cases d with
  | min =>
      cases d' with
      | min => exact absurd rfl h
      | max => rfl
  | max =>
      cases d' with
      | min => rfl
      | max => exact absurd rfl h

/-- A value of a list on which no other improves, at the first place that has such a value. -/
structure IsFirstBest (d : Direction) (values : List V) (best : V × Nat) : Prop where
  getElem? : values[best.2]? = some best.1
  unbeaten : ∀ y ∈ values, d.improves y best.1 = false
  first : ∀ i < best.2, ∀ y, values[i]? = some y → d.improves best.1 y = true

variable {d : Direction}

/-- The first best of a list stays so when a value is added that does not improve on it. -/
theorem IsFirstBest.append_worse {values : List V} {best : V × Nat} {x : V}
    (h : d.IsFirstBest values best) (hx : d.improves x best.1 = false) :
  d.IsFirstBest (values ++ [x]) best
  := by
  obtain ⟨hlt, -⟩ := List.getElem?_eq_some_iff.mp h.getElem?
  constructor
  · rw [List.getElem?_append_left hlt]
    apply h.getElem?
  · intro y hy
    obtain hy | rfl := List.mem_append.mp hy |>.imp_right List.mem_singleton.mp
    · apply h.unbeaten y hy
    · apply hx
  · intro i hi y hy
    rw [List.getElem?_append_left (lt_trans hi hlt)] at hy
    apply h.first i hi y hy

/-- A value that improves on the best of a list of numbers is the first best when it is added. -/
theorem IsFirstBest.append_better [RanksNumbers V] {values : List V} {best : V × Nat} {x : V}
    (hvalues : ∀ y ∈ values, Arithmetic.isNaN y = false) (h : d.IsFirstBest values best)
    (hx : d.improves x best.1 = true) :
  d.IsFirstBest (values ++ [x]) (x, values.length)
  := by
  have hbeats : ∀ y ∈ values, d.improves x y = true := by
    intro y hy
    apply (d.improves_or (hvalues y hy) hx).resolve_right
    rw [h.unbeaten y hy]
    exact Bool.false_ne_true
  constructor
  · apply List.getElem?_concat_length
  · intro y hy
    obtain hy | rfl := List.mem_append.mp hy |>.imp_right List.mem_singleton.mp
    · apply d.improves_asymm (hbeats y hy)
    · apply d.improves_self
  · intro i hi y hy
    rw [List.getElem?_append_left hi] at hy
    apply hbeats y (List.mem_of_getElem? hy)

/-- A value that is added at the end of a list is compared with the best one so far. -/
theorem best_concat (values : List V) (x : V) :
  d.best (values ++ [x]) = d.choose (d.best values) (x, values.length)
  := by
  simp only [best, List.zipIdx_append, List.foldl_append, Nat.zero_add, List.zipIdx_singleton,
    List.foldl_cons, List.foldl_nil]

/-- The best of a list of numbers is its first best. -/
theorem exists_best [RanksNumbers V] {values : List V} (h : values ≠ [])
    (hvalues : ∀ x ∈ values, Arithmetic.isNaN x = false) :
  ∃ best, d.best values = some best ∧ d.IsFirstBest values best
  := by
  induction values using List.reverseRecOn with
  | nil => exact absurd rfl h
  | append_singleton values x ih =>
      have hbefore := fun y hy => hvalues y (List.mem_append_left [x] hy)
      rw [best_concat]
      by_cases hempty : values = []
      · subst hempty
        use (x, 0), rfl
        constructor
        · rfl
        · intro y hy
          obtain rfl := List.mem_singleton.mp hy
          apply d.improves_self
        · intro i hi
          exact absurd hi (Nat.not_lt_zero i)
      · obtain ⟨best, hbest, hfirst⟩ := ih hempty hbefore
        rw [hbest, choose]
        by_cases hx : d.improves x best.1 = true
        · use (x, values.length), if_pos hx
          apply hfirst.append_better hbefore hx
        · use best, if_neg hx
          apply hfirst.append_worse (Bool.eq_false_iff.mpr hx)

/-! ### The optimum of exact values -/

/-- Whether all of `n` choices satisfy a condition, for a player that minimises, or some of them
does, for one that maximises. -/
def Quantify (d : Direction) (n : Nat) (p : Nat → Prop) : Prop :=
  match d with
  | min => ∀ c < n, p c
  | max => ∃ c < n, p c

/-- A condition that follows from another one is satisfied where that one is. -/
theorem Quantify.mono {n : Nat} {p q : Nat → Prop} (h : d.Quantify n p)
    (hpq : ∀ c < n, p c → q c) :
  d.Quantify n q
  := by
  cases d with
  | min =>
      intro c hc
      apply hpq c hc (h c hc)
  | max =>
      obtain ⟨c, hc, hp⟩ := h
      use c, hc
      apply hpq c hc hp

/-- A condition is quantified as an equivalent one is. -/
theorem quantify_congr {n : Nat} {p q : Nat → Prop} (hpq : ∀ c < n, (p c ↔ q c)) :
  d.Quantify n p ↔ d.Quantify n q
  := by
  constructor
  · intro h
    apply h.mono fun c hc => (hpq c hc).mp
  · intro h
    apply h.mono fun c hc => (hpq c hc).mpr

/-- The best of the values of `n` choices, or zero if there are none. -/
def optimum (d : Direction) (n : Nat) (f : Nat → V) : V :=
  (Arena.valueAndChoice d ((List.range n).map f)).1

/-- Without choices the optimum is zero. -/
@[simp]
theorem optimum_zero (f : Nat → V) :
  d.optimum 0 f = 0
  := rfl

/-- Where there are choices with numbers as their values, the optimum is the value of one of them,
on which no other improves, and that choice is the one that is taken. -/
theorem exists_optimum_of_numbers [RanksNumbers V] {n : Nat} (hn : 0 < n) {f : Nat → V}
    (hf : ∀ c < n, Arithmetic.isNaN (f c) = false) :
  ∃ c < n, Arena.valueAndChoice d ((List.range n).map f) = (f c, some c)
    ∧ (∀ c' < n, d.improves (f c') (f c) = false) ∧ ∀ c' < c, d.improves (f c) (f c') = true
  := by
  have hvalues : (List.range n).map f ≠ [] := by
    rw [Ne, List.map_eq_nil_iff, List.range_eq_nil]
    omega
  have hnumbers : ∀ x ∈ (List.range n).map f, Arithmetic.isNaN x = false := by
    intro x hx
    obtain ⟨c, hc, rfl⟩ := List.mem_map.mp hx
    apply hf c (List.mem_range.mp hc)
  have hget : ∀ c < n, ((List.range n).map f)[c]? = some (f c) := by
    intro c hc
    rw [List.getElem?_map, List.getElem?_range hc]
    rfl
  obtain ⟨⟨x, c⟩, hbest, hfirst⟩ := exists_best (d := d) hvalues hnumbers
  obtain ⟨hc, -⟩ := List.getElem?_eq_some_iff.mp hfirst.getElem?
  rw [List.length_map, List.length_range] at hc
  obtain rfl : f c = x := Option.some_inj.mp ((hget c hc).symm.trans hfirst.getElem?)
  use c, hc
  refine ⟨?_, ?_, ?_⟩
  · rw [Arena.valueAndChoice, hbest]
  · intro c' hc'
    apply hfirst.unbeaten _ (List.mem_of_getElem? (hget c' hc'))
  · intro c' hc'
    apply hfirst.first c' hc' _ (hget c' (lt_trans hc' hc))

/-- Where there are choices, the optimum is the value of one of them, on which no other
improves, and that choice is the one that is taken. -/
theorem exists_optimum [Ranked V] {n : Nat} (hn : 0 < n) (f : Nat → V) :
  ∃ c < n, Arena.valueAndChoice d ((List.range n).map f) = (f c, some c)
    ∧ (∀ c' < n, d.improves (f c') (f c) = false) ∧ ∀ c' < c, d.improves (f c) (f c') = true
  := exists_optimum_of_numbers hn fun c _ => Ranked.isNaN_eq_false (f c)

section Exact

variable {n : Nat} {f g : Nat → ℝ} {x : ℝ}

/-- What holds of a value and of all larger ones holds of the optimum if it holds of all values, or
of some value, as the player minimises or maximises. -/
theorem optimum_iff (hn : 0 < n) {p : ℝ → Prop} (hp : ∀ x y, x ≤ y → p x → p y) :
  p (d.optimum n f) ↔ d.Quantify n fun c => p (f c)
  := by
  obtain ⟨c, hc, hopt, hunbeaten, -⟩ := exists_optimum (d := d) hn f
  rw [optimum, hopt]
  cases d with
  | min =>
      constructor
      · intro hx c' hc'
        have h := hunbeaten c' hc'
        rw [improves, decide_eq_false_iff_not, not_lt] at h
        apply hp _ _ h hx
      · intro h
        apply h c hc
  | max =>
      constructor
      · intro hx
        use c, hc
      · rintro ⟨c', hc', hx⟩
        have h := hunbeaten c' hc'
        rw [improves, decide_eq_false_iff_not, not_lt] at h
        apply hp _ _ h hx

/-- The optimum is at least a bound if all values are, or some value is, as the player
minimises or maximises. -/
theorem le_optimum_iff (hn : 0 < n) :
  x ≤ d.optimum n f ↔ d.Quantify n fun c => x ≤ f c
  := optimum_iff hn fun _ _ h h' => le_trans h' h

/-- The optimum is above a bound if all values are, or some value is, as the player minimises
or maximises. -/
theorem lt_optimum_iff (hn : 0 < n) :
  x < d.optimum n f ↔ d.Quantify n fun c => x < f c
  := optimum_iff hn fun _ _ h h' => lt_of_lt_of_le h' h

/-- Larger values have a larger optimum. -/
theorem optimum_mono (h : ∀ c < n, f c ≤ g c) :
  d.optimum n f ≤ d.optimum n g
  := by
  obtain rfl | hn := Nat.eq_zero_or_pos n
  · apply le_refl
  · apply (le_optimum_iff hn).mpr
    apply ((le_optimum_iff hn).mp (le_refl (d.optimum n f))).mono
    intro c hc hx
    apply le_trans hx (h c hc)

/-- The optimum of values that are not negative is not negative. -/
theorem optimum_nonneg (h : ∀ c < n, 0 ≤ f c) :
  0 ≤ d.optimum n f
  := by
  obtain rfl | hn := Nat.eq_zero_or_pos n
  · apply le_refl
  · obtain ⟨c, hc, hopt, -⟩ := exists_optimum (d := d) hn f
    rw [optimum, hopt]
    apply h c hc

end Exact

end Direction

end Reachability
