import Mathlib
import Reachability.Proofs.Unbounded

/-!
# Progress of an iteration that maximises

The values of an iteration in which the owners of all states maximise are attained by progress:
every state that is iterated and has a positive value has a choice whose expected value is not
below that value, and which may lead to a state that is ahead, by a larger value or by an equal
one of lower rank (`Arena.Climbs`).

The rank of a state tells when its value was last raised.  A raised value is computed from values
that were there before, one of which is as large, so that its state is behind that one
(`Arena.Climbs.raise`).  Rounds of either kind raise values in this way (`Arena.Climbs.iterate`),
and so the values of every answer are attained by progress (`Arena.climbs_of_converge`).
-/

namespace Reachability

/-! ### Values of the best choice -/

namespace Direction

variable {d : Direction} {n : Nat} {f : Nat → ℝ} {x : ℝ}

/-- A positive optimum is the value of a choice. -/
theorem exists_eq_optimum (h : 0 < d.optimum n f) :
  ∃ c < n, d.optimum n f = f c
  := by
  obtain rfl | hn := Nat.eq_zero_or_pos n
  · rw [optimum_zero] at h
    exact absurd h (lt_irrefl 0)
  · obtain ⟨c, hc, hopt, -⟩ := exists_optimum (d := d) hn f
    use c, hc
    rw [optimum, hopt]

/-- If no value is negative, then the largest one is at least a bound that some value attains in
case it is positive. -/
theorem le_optimum_max (hf : ∀ c < n, 0 ≤ f c) (h : 0 < x → ∃ c < n, x ≤ f c) :
  x ≤ Direction.max.optimum n f
  := by
  obtain hx | hx := le_or_gt x 0
  · apply le_trans hx (optimum_nonneg hf)
  · obtain ⟨c, hc, hle⟩ := h hx
    apply (le_optimum_iff (Nat.zero_lt_of_lt hc)).mpr
    exact ⟨c, hc, hle⟩

end Direction

/-- An expected value that is at least a bound, times the mass of the row, has an entry whose value
is at least the bound. -/
theorem exists_le_of_le_expectation {row : List (Nat × ℝ)} {v : Nat → ℝ} {x : ℝ}
    (hrow : ∀ e ∈ row, 0 < e.2) (hne : row ≠ [])
    (h : (row.map Prod.snd).sum * x ≤ expectation row v) :
  ∃ e ∈ row, x ≤ v e.1
  := by
  by_contra hnone
  have hlt : ∀ e ∈ row, v e.1 < x := fun e he => lt_of_not_ge fun hle => hnone ⟨e, he, hle⟩
  apply not_lt_of_ge h
  rw [expectation_real, ← List.sum_map_mul_right]
  apply List.sum_lt_sum_of_ne_nil hne
  intro e he
  apply mul_lt_mul_of_pos_left (hlt e he) (hrow e he)

namespace Arena

/-! ### Progress -/

/-- A state is behind another one if that one has a larger value, or the same value and a lower
rank. -/
def Behind (v : Nat → ℝ) (rank : Nat → Nat) (s t : Nat) : Prop :=
  v s < v t ∨ v s = v t ∧ rank t < rank s

/-- No value is negative, and for some ranks of the states each positive value of a state that is
iterated is attained by a choice which may lead to a state that is ahead. -/
structure Climbs (a : Arena ℝ) (maybe : StateSet) (v : Nat → ℝ) : Prop where
  nonneg : ∀ s < a.numStates, 0 ≤ v s
  attained : ∃ rank, ∀ s < a.numStates, maybe.contains s = true → 0 < v s →
    ∃ c < a.mdp.numChoices s, v s ≤ expectation (a.mdp.successors s c) v
      ∧ ∃ e ∈ a.mdp.successors s c, Behind v rank s e.1

variable {a : Arena ℝ} {u : Until} {o : Objective} {maybe : StateSet} {v w : Nat → ℝ}

/-- Only the values at the states of the model matter. -/
theorem Climbs.congr (ha : a.mdp.Proper) (h : a.Climbs maybe v)
    (hv : ∀ s < a.numStates, w s = v s) :
  a.Climbs maybe w
  := by
  obtain ⟨hnonneg, rank, hattained⟩ := h
  constructor
  · intro s hs
    rw [hv s hs]
    apply hnonneg s hs
  · use rank
    intro s hs hin hpos
    rw [hv s hs] at hpos ⊢
    obtain ⟨c, hc, hle, e, he, hbehind⟩ := hattained s hs hin hpos
    refine ⟨c, hc, ?_, e, he, ?_⟩
    · rw [expectation_congr fun e he => hv e.1 (ha.lt_numStates s c e he)]
      apply hle
    · rw [Behind, hv s hs, hv e.1 (ha.lt_numStates s c e he)]
      apply hbehind

/-- Values may be raised, if every raised value is attained by a choice that may lead to a state
which had a value as large before. -/
theorem Climbs.raise (ha : a.mdp.Proper) (h : a.Climbs maybe v)
    (hle : ∀ s < a.numStates, v s ≤ w s)
    (hraised : ∀ s < a.numStates, maybe.contains s = true → v s < w s →
      ∃ c < a.mdp.numChoices s, w s ≤ expectation (a.mdp.successors s c) w
        ∧ ∃ e ∈ a.mdp.successors s c, w s ≤ v e.1) :
  a.Climbs maybe w
  := by
  obtain ⟨hnonneg, rank, hattained⟩ := h
  refine ⟨fun s hs => le_trans (hnonneg s hs) (hle s hs), ?_⟩
  -- A raised state gets a rank above all ranks so far.
  use fun s => if v s < w s then (Finset.range a.numStates).sup rank + 1 else rank s
  have hrank : ∀ s < a.numStates, rank s < (Finset.range a.numStates).sup rank + 1 :=
    fun s hs => Nat.lt_succ_of_le (Finset.le_sup (Finset.mem_range.mpr hs))
  intro s hs hin hpos
  obtain hlt | heq := (hle s hs).lt_or_eq
  · obtain ⟨c, hc, hexpected, e, he, hvalue⟩ := hraised s hs hin hlt
    refine ⟨c, hc, hexpected, e, he, ?_⟩
    have ht := ha.lt_numStates s c e he
    obtain hahead | hsame := (le_trans hvalue (hle e.1 ht)).lt_or_eq
    · exact Or.inl hahead
    · right
      use hsame
      simp only [if_pos hlt, if_neg (not_lt_of_ge (hsame ▸ hvalue))]
      apply hrank e.1 ht
  · rw [← heq] at hpos
    obtain ⟨c, hc, hexpected, e, he, hbehind⟩ := hattained s hs hin hpos
    have hgrown : ∀ e ∈ a.mdp.successors s c, v e.1 ≤ w e.1 :=
      fun e he => hle e.1 (ha.lt_numStates s c e he)
    refine ⟨c, hc, ?_, e, he, ?_⟩
    · rw [← heq]
      apply le_trans hexpected (expectation_mono (ha.mass_pos s c) hgrown)
    · rw [Behind, ← heq]
      obtain hahead | ⟨hsame, hlower⟩ := hbehind
      · exact Or.inl (lt_of_lt_of_le hahead (hgrown e he))
      · obtain hahead | hkept := (hgrown e he).lt_or_eq
        · exact Or.inl (hsame ▸ hahead)
        · right
          use hsame.trans hkept
          simp only [heq, if_neg (lt_irrefl _), if_neg (not_lt_of_ge hkept.ge)]
          apply hlower

section Rounds

variable (ha : a.mdp.Proper) (hsum : a.mdp.Stochastic) (hmax : ∀ s, a.direction o s = .max)

include ha hsum hmax

/-! ### Jacobi rounds -/

/-- If values are attained by progress, then so are their updates. -/
theorem Climbs.update (h : a.Climbs maybe v) :
  a.Climbs maybe fun s => if maybe.contains s = true then (a.update none o v s).1 else v s
  := by
  have hgrown : ∀ s < a.numStates,
      v s ≤ if maybe.contains s = true then (a.update none o v s).1 else v s := by
    intro s hs
    split
    · next hin =>
        rw [update_fst, hmax s]
        apply Direction.le_optimum_max
        · intro c _
          apply expectation_nonneg (ha.mass_pos s c)
          intro e he
          apply h.nonneg e.1 (ha.lt_numStates s c e he)
        · intro hpos
          obtain ⟨rank, hattained⟩ := h.attained
          obtain ⟨c, hc, hle, -⟩ := hattained s hs hin hpos
          exact ⟨c, hc, hle⟩
    · apply le_refl
  apply h.raise ha hgrown
  intro s hs hin hlt
  rw [if_pos hin, update_fst] at hlt ⊢
  obtain ⟨c, hc, hopt⟩ := Direction.exists_eq_optimum (lt_of_le_of_lt (h.nonneg s hs) hlt)
  rw [hopt]
  refine ⟨c, hc, ?_, ?_⟩
  · apply expectation_mono (ha.mass_pos s c)
    intro e he
    apply hgrown e.1 (ha.lt_numStates s c e he)
  · apply exists_le_of_le_expectation (ha.mass_pos s c)
    · intro hnil
      have hone := hsum s c hc
      rw [hnil, List.map_nil, List.sum_nil] at hone
      apply zero_ne_one hone
    · rw [hsum s c hc, one_mul]

/-! ### Gauss-Seidel rounds -/

omit ha hmax in
/-- A choice with mass that leads away attains its value with the loop solved for, if its state has
that value. -/
theorem expectation_set_loopFreeValue {s c : Nat} (hc : c < a.mdp.numChoices s)
    (hmass : 0 < a.escapeMass s c) :
  expectation (a.mdp.successors s c) (Function.update v s (a.loopFreeValue none v s c))
    = a.loopFreeValue none v s c
  := by
  have hgain : a.escapeValue none (Function.update v s (a.loopFreeValue none v s c)) s c
      = a.escapeMass s c * a.loopFreeValue none v s c := by
    have hcongr : ∀ e ∈ leaving s (a.mdp.successors s c),
        Function.update v s (a.loopFreeValue none v s c) e.1 = v e.1 :=
      fun e he => Function.update_of_ne (mem_leaving.mp he).2 _ _
    rw [escapeValue_eq, expectation_congr hcongr, ← escapeValue_eq, loopFreeValue, if_pos hmass,
      mul_div_cancel₀ _ hmass.ne']
  rw [expectation_eq_escape hsum hc, hgain, Function.update_self]
  ring

omit hmax in
/-- A choice whose value with the loop solved for is positive has mass that leads away, and an entry
there whose value is at least that. -/
theorem exists_leaving_of_loopFreeValue_pos {s c : Nat} (hc : c < a.mdp.numChoices s)
    (hpos : 0 < a.loopFreeValue none v s c) :
  0 < a.escapeMass s c
    ∧ ∃ e ∈ leaving s (a.mdp.successors s c), a.loopFreeValue none v s c ≤ v e.1
  := by
  have hmass : 0 < a.escapeMass s c := by
    by_contra hmass
    rw [loopFreeValue, if_neg hmass, (escapeValue_eq_zero ha hsum hc hmass v).1] at hpos
    apply lt_irrefl 0 hpos
  use hmass
  apply exists_le_of_le_expectation (mass_pos_leaving ha)
  · intro hnil
    rw [escapeMass_eq hsum hc, hnil, List.map_nil, List.sum_nil] at hmass
    apply lt_irrefl 0 hmass
  · rw [← escapeMass_eq hsum hc, ← escapeValue_eq, loopFreeValue, if_pos hmass,
      mul_div_cancel₀ _ hmass.ne']

/-- If values are attained by progress, then so they are after one of them is updated with the loops
solved for. -/
theorem Climbs.relax (h : a.Climbs maybe v) {s : Nat} (hs : s < a.numStates)
    (hin : maybe.contains s = true) :
  a.Climbs maybe (Function.update v s (a.loopFreeOptimum none v (a.direction o s) s))
  := by
  have hgrown : v s ≤ a.loopFreeOptimum none v (a.direction o s) s := by
    rw [hmax s]
    apply Direction.le_optimum_max
    · intro c _
      apply loopFreeValue_nonneg ha h.nonneg
    · intro hpos
      obtain ⟨rank, hattained⟩ := h.attained
      obtain ⟨c, hc, hle, e, he, hbehind⟩ := hattained s hs hin hpos
      have hleaves : e.1 ≠ s := by
        intro hes
        rw [Behind, hes] at hbehind
        apply hbehind.elim (lt_irrefl _) fun h => lt_irrefl _ h.2
      have hmass := escapeMass_pos ha hsum hc (mem_leaving.mpr ⟨he, hleaves⟩)
      refine ⟨c, hc, ?_⟩
      apply le_loopFreeValue_of_mass ha hsum hc hmass (fun t _ => le_refl (v t)) (le_refl _) hle
  apply h.raise ha
  · intro t _
    rw [Function.update_apply]
    split
    · next hts =>
        rw [hts]
        apply hgrown
    · apply le_refl
  · intro t ht _ hlt
    rw [Function.update_apply] at hlt
    split at hlt
    · next hts =>
        subst hts
        obtain ⟨c, hc, hopt⟩ := Direction.exists_eq_optimum (lt_of_le_of_lt (h.nonneg t ht) hlt)
        change a.loopFreeOptimum none v (a.direction o t) t = _ at hopt
        rw [hopt] at hlt ⊢
        obtain ⟨hmass, e, he, hvalue⟩ := exists_leaving_of_loopFreeValue_pos ha hsum hc
          (lt_of_le_of_lt (h.nonneg t ht) hlt)
        rw [Function.update_self]
        refine ⟨c, hc, ?_, e, mem_of_mem_leaving e he, hvalue⟩
        rw [expectation_set_loopFreeValue hsum hc hmass]
    · exact absurd hlt (lt_irrefl _)

/-- If values are attained by progress, then so they are after some of them are updated one after
the other with the loops solved for. -/
theorem Climbs.foldl_relaxState (measure : ChangeMeasure) (states : List Nat)
    (hstates : ∀ s ∈ states, s < a.numStates ∧ maybe.contains s = true) (acc : ℝ × Array ℝ)
    (hsize : acc.2.size = a.numStates) (h : a.Climbs maybe (valuation acc.2)) :
  (states.foldl (a.relaxState none o measure) acc).2.size = a.numStates
    ∧ a.Climbs maybe (valuation (states.foldl (a.relaxState none o measure) acc).2)
  := by
  induction states generalizing acc with
  | nil => exact ⟨hsize, h⟩
  | cons s states ih =>
      obtain ⟨⟨hs, hin⟩, hstates⟩ := List.forall_mem_cons.mp hstates
      rw [List.foldl_cons]
      apply ih hstates
      · rw [relaxState, Array.size_setIfInBounds, hsize]
      · rw [valuation_relaxState (hsize ▸ hs)]
        apply h.relax ha hsum hmax hs hin

/-! ### Rounds of either kind -/

/-- If the values of a vector of the right length are attained by progress, then so they are after
a round. -/
theorem Climbs.iterate {W : Type} (settings : Settings W) {i : Iterate ℝ}
    (hsize : i.values.size = a.numStates) (h : a.Climbs maybe (valuation i.values)) :
  (a.iterate settings o maybe i).values.size = a.numStates
    ∧ a.Climbs maybe (valuation (a.iterate settings o maybe i).values)
  := by
  rw [Arena.iterate]
  cases settings.iteration with
  | jacobi =>
      constructor
      · apply (a.size_round o settings.parallel maybe _).trans hsize
      · apply (h.update ha hsum hmax).congr ha
        intro s hs
        apply a.valuation_round o settings.parallel maybe _ s hs hsize
  | gaussSeidel =>
      apply h.foldl_relaxState ha hsum hmax settings.measure _
        (fun s hs => Selection.mem_filter_only.mp hs) (0, i.values) hsize

end Rounds

/-- The states that are iterated are not known to have probability one. -/
theorem not_yes_of_contains_maybe {W : Type} (settings : Settings W) {s : Nat}
    (hs : (a.decided settings u o).maybe.contains s = true) :
  (a.decided settings u o).yes.contains s = false
  := (Until.contains_unknown.mp hs).2.2.1

/-- The vector that an iteration starts from has no positive value at a state that is iterated. -/
theorem climbs_indicator {W : Type} (settings : Settings W) :
  a.Climbs (a.decided settings u o).maybe
    (valuation ((a.decided settings u o).yes.indicator a.numStates : Array ℝ))
  := by
  constructor
  · intro s hs
    rw [valuation_indicator _ hs]
    split
    · apply zero_le_one
    · apply le_refl
  · use fun _ => 0
    intro s hs hin hpos
    rw [valuation_indicator _ hs, not_yes_of_contains_maybe settings hin,
      if_neg Bool.false_ne_true] at hpos
    exact absurd hpos (lt_irrefl 0)

/-- If the owners of all states maximise, then the values of an iteration that converges are
attained by progress. -/
theorem climbs_of_converge {W : Type} [Precision ℝ W] (settings : Settings W)
    (ha : a.mdp.Proper) (hsum : a.mdp.Stochastic) (hmax : ∀ s, a.direction o s = .max)
    {solution : Solution ℝ}
    (h : a.converge settings o (a.decided settings u o) = .ok solution) :
  a.Climbs (a.decided settings u o).maybe (valuation solution.values)
  := by
  rw [converge] at h
  split at h
  · cases h
    apply (Iterate.run_induction (p := fun i => i.values.size = a.numStates
      ∧ a.Climbs (a.decided settings u o).maybe (valuation i.values)) _ _ _ _).2
    · rintro i ⟨hsize, hclimbs⟩
      apply hclimbs.iterate ha hsum hmax settings hsize
    · exact ⟨StateSet.size_indicator _ _, climbs_indicator settings⟩
  · cases h

end Arena

end Reachability
