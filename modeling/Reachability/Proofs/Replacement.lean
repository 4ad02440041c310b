import Mathlib
import Reachability.Proofs.Rates

/-!
# Processes with replaced distributions

Masses that are added to a distribution, one state after the other, add up: the sum over all states
of values times their masses grows by the value of the state times the mass that it is given
(`Distribution.sum_get_ofPairs`).

If the distributions of a process are replaced, then its states, its choices and its initial states
are added to a draft, which is finished (`Mdp.exists_draft_mapDistributions`).
-/

namespace Reachability

/-! ### Masses that are added -/

namespace Distribution

/-- The masses of a distribution are on states of the model and not negative. -/
structure Spread (d : Distribution ℝ) (numStates : Nat) : Prop where
  lt_numStates : ∀ s ∈ d.masses.keys, s < numStates
  nonneg : ∀ s, 0 ≤ d.get s

variable {d : Distribution ℝ} {numStates : Nat}

/-- The mass that is listed with a state is the one that it has. -/
theorem get_of_mem_pairs {pair : Nat × ℝ} (h : pair ∈ d.pairs) :
  d.get pair.1 = pair.2
  := by
  rw [get, Table.get?, Table.lookup_eq_some d.masses.distinct h, Option.getD_some]

/-- The sum of values times masses over all states is that over the states with a mass. -/
theorem Spread.sum_get (h : d.Spread numStates) (v : Nat → ℝ) :
  ∑ s ∈ Finset.range numStates, d.get s * v s = (d.pairs.map fun pair => pair.2 * v pair.1).sum
  := by
  have hlt : ∀ pair ∈ d.pairs, pair.1 < numStates :=
    fun pair hpair => h.lt_numStates pair.1 (List.mem_map_of_mem hpair)
  rw [← expectation_real]
  apply sum_lookup_mul hlt d.masses.distinct

/-- Nothing is spread over no states. -/
theorem spread_empty :
  (empty : Distribution ℝ).Spread numStates
  := by
  constructor
  · rintro s ⟨⟩
  · intro s
    apply le_refl

/-- A mass that is not negative may be added to a state of the model. -/
theorem Spread.add (h : d.Spread numStates) {s : Nat} (hs : s < numStates) {p : ℝ} (hp : 0 ≤ p) :
  (d.add s p).Spread numStates
  := by
  constructor
  · intro t ht
    rw [Distribution.add, set, Table.keys_insert] at ht
    split at ht
    · apply h.lt_numStates t ht
    · obtain ht | ht := List.mem_append.mp ht
      · apply h.lt_numStates t ht
      · obtain rfl := List.mem_singleton.mp ht
        apply hs
  · intro t
    rw [get_add]
    split
    · apply add_nonneg (h.nonneg s) hp
    · apply h.nonneg t

/-- A mass that is added to a state counts with the value of the state. -/
theorem sum_get_add {s : Nat} (hs : s < numStates) (p : ℝ) (v : Nat → ℝ) :
  ∑ t ∈ Finset.range numStates, (d.add s p).get t * v t
    = ∑ t ∈ Finset.range numStates, d.get t * v t + p * v s
  := by
  have hget : ∀ t, (d.add s p).get t = d.get t + if t = s then p else 0 := by
    intro t
    rw [get_add]
    split
    · next h => rw [h]
    · rw [add_zero]
  simp only [hget, add_mul, Finset.sum_add_distrib, ite_mul, zero_mul, Finset.sum_ite_eq',
    Finset.mem_range, hs, if_true]

/-- Listed masses that are not negative and on states of the model make a distribution in which they
count with the values of their states. -/
theorem sum_get_ofPairs {pairs : List (Nat × ℝ)}
    (h : ∀ pair ∈ pairs, pair.1 < numStates ∧ 0 ≤ pair.2) :
  (ofPairs pairs).Spread numStates
    ∧ ∀ v : Nat → ℝ, ∑ s ∈ Finset.range numStates, (ofPairs pairs).get s * v s
        = (pairs.map fun pair => pair.2 * v pair.1).sum
  := by
  induction pairs using List.reverseRecOn with
  | nil =>
      use spread_empty
      intro v
      apply Finset.sum_eq_zero
      intro s _
      apply zero_mul
  | append_singleton pairs pair ih =>
      obtain ⟨hspread, hsum⟩ := ih fun pair hpair => h pair (List.mem_append_left _ hpair)
      obtain ⟨hs, hp⟩ := h pair (List.mem_append_right _ (List.mem_singleton_self pair))
      rw [ofPairs_append_singleton]
      use hspread.add hs hp
      intro v
      rw [sum_get_add hs, hsum, List.map_append, List.sum_append, List.map_singleton,
        List.sum_singleton]

/-- Masses that are spread over the states are exact if they sum to one. -/
theorem Spread.exact (h : d.Spread numStates)
    (hsum : ∑ s ∈ Finset.range numStates, d.get s = 1) :
  d.Exact numStates
  := by
  constructor
  · intro pair hpair
    apply h.lt_numStates pair.1 (List.mem_map_of_mem hpair)
  · intro pair hpair
    rw [← get_of_mem_pairs hpair]
    apply h.nonneg
  · have hone := h.sum_get fun _ => 1
    simp only [mul_one] at hone
    rw [← hone, hsum]

/-- The expected value of the row of spread masses is the sum over all states. -/
theorem Spread.expectation_row (h : d.Spread numStates) (v : Nat → ℝ) :
  expectation d.row v = ∑ s ∈ Finset.range numStates, d.get s * v s
  := by
  rw [h.sum_get, Distribution.expectation_row]
  intro pair hpair
  rw [← get_of_mem_pairs hpair]
  apply h.nonneg

end Distribution

/-! ### Choices that are added in order -/

namespace Mdp.Draft

variable {V W : Type} {b : Mdp.Draft V}

/-- Choices that are added to states one after the other end up in their order. -/
theorem exists_foldlM_addChoice (choiceOf : Nat → Nat → Choice V) (places : List (Nat × Nat))
    (h : ∀ p ∈ places, p.1 < b.numStates) :
  ∃ b', places.foldlM
      (fun (b : Mdp.Draft V) (s, c) => do
        let (b', _) ← b.addChoice s (choiceOf s c)
        return b') b = (.ok b' : Except (CheckError V W) (Mdp.Draft V))
    ∧ b'.initialStates = b.initialStates
    ∧ ∀ s, b'.choices[s]? = b.choices[s]?.map fun choices => choices
        ++ ((places.filter fun p => p.1 = s).map fun p => choiceOf p.1 p.2).toArray
  := by
  induction places generalizing b with
  | nil =>
      refine ⟨b, rfl, rfl, ?_⟩
      intro s
      simp
  | cons p places ih =>
      obtain ⟨hp, hplaces⟩ := List.forall_mem_cons.mp h
      have hadd : (b.addChoice p.1 (choiceOf p.1 p.2) : Except (CheckError V W) _) = .ok _ :=
        addChoice_eq_ok_iff.mpr ⟨hp, rfl, rfl⟩
      obtain ⟨b', hfold, hinitial, hchoices⟩ := ih
        (b := { b with choices := b.choices.modify p.1 fun cs => cs.push (choiceOf p.1 p.2) })
        (by simpa [numStates] using hplaces)
      refine ⟨b', ?_, hinitial, ?_⟩
      · rw [List.foldlM_cons]
        simp only [hadd, bind, Except.bind]
        apply hfold
      · intro s
        rw [hchoices, Array.getElem?_modify, List.filter_cons]
        by_cases hs : p.1 = s
        · simp only [hs, if_true, decide_true, List.map_cons]
          cases b.choices[s]? with
          | none => rfl
          | some choices => simp
        · simp [hs]

/-- States of a draft may be marked as initial one after the other, which does not change its
choices.  They go to the end of the initial states if none of them is marked twice. -/
theorem exists_foldlM_addInitialState (states : List Nat) (h : ∀ s ∈ states, s < b.numStates) :
  ∃ b', states.foldlM (fun (b : Mdp.Draft V) s => b.addInitialState s) b
      = (.ok b' : Except (CheckError V W) (Mdp.Draft V))
    ∧ b'.choices = b.choices
    ∧ ((b.initialStates ++ states).Nodup → b'.initialStates = b.initialStates ++ states)
  := by
  induction states generalizing b with
  | nil => exact ⟨b, rfl, rfl, fun _ => (List.append_nil _).symm⟩
  | cons s states ih =>
      obtain ⟨hs, hstates⟩ := List.forall_mem_cons.mp h
      have hadd : (b.addInitialState s : Except (CheckError V W) _) = .ok _ :=
        addInitialState_eq_ok_iff.mpr ⟨hs, rfl⟩
      have hsame : (if s ∈ b.initialStates then b
          else { b with initialStates := b.initialStates ++ [s] }).choices = b.choices := by
        split <;> rfl
      obtain ⟨b', hfold, hchoices, hinitial⟩ := ih (b := if s ∈ b.initialStates then b
          else { b with initialStates := b.initialStates ++ [s] })
        (by simpa only [numStates, hsame] using hstates)
      refine ⟨b', ?_, hchoices.trans hsame, ?_⟩
      · rw [List.foldlM_cons]
        simp only [hadd, bind, Except.bind]
        apply hfold
      · intro hnodup
        have hnew : s ∉ b.initialStates := by
          intro hmem
          apply List.disjoint_of_nodup_append hnodup hmem List.mem_cons_self
        rw [List.append_cons] at hnodup ⊢
        rw [if_neg hnew] at hinitial
        apply hinitial hnodup

end Mdp.Draft

namespace Mdp

variable {V W : Type} {m : Mdp V}

/-- The choices of a state stand together among those of all states. -/
theorem filter_choicePairs {s : Nat} (hs : s < m.numStates) :
  m.choicePairs.filter (fun p => p.1 = s) = (List.range (m.numChoices s)).map fun c => (s, c)
  := by
  have hfilter : ∀ t, ((List.range (m.numChoices t)).map fun c => (t, c)).filter (fun p => p.1 = s)
      = if t = s then (List.range (m.numChoices s)).map fun c => (s, c) else [] := by
    intro t
    rw [List.filter_map]
    split
    · next h => simp [h, Function.comp_def]
    · next h => simp [h, Function.comp_def]
  have hrange : ∀ count, ((List.range count).flatMap fun t =>
      (List.range (m.numChoices t)).map fun c => (t, c)).filter (fun p => p.1 = s)
        = if s < count then (List.range (m.numChoices s)).map fun c => (s, c) else [] := by
    intro count
    induction count with
    | zero => rfl
    | succ count ih =>
        rw [List.range_succ, List.flatMap_append, List.filter_append, ih, List.flatMap_singleton,
          hfilter]
        obtain hlt | rfl | hgt := lt_trichotomy s count
        · rw [if_pos hlt, if_neg (Nat.ne_of_gt hlt), if_pos (Nat.lt_succ_of_lt hlt),
            List.append_nil]
        · rw [if_neg (lt_irrefl s), if_pos rfl, if_pos (Nat.lt_succ_self s), List.nil_append]
        · rw [if_neg (Nat.lt_asymm hgt), if_neg (Nat.ne_of_lt hgt), if_neg (by omega),
            List.append_nil]
  apply (hrange m.numStates).trans
  apply if_pos hs

/-- Replacing the distributions of a process whose initial states exist finishes a draft with the
same states, whose choices have the new distributions, and with the same initial states if none of
them is listed twice. -/
theorem exists_draft_mapDistributions [Arithmetic V]
    (hinitial : ∀ s ∈ m.initialStates, s < m.numStates)
    (f : Nat → Nat → Distribution V → Distribution V) :
  ∃ b : Draft V, (m.mapDistributions f : Except (CheckError V W) (Mdp V)) = b.build
    ∧ b.numStates = m.numStates
    ∧ (∀ s < m.numStates, b.choices[s]? = some ((List.range (m.numChoices s)).map
      fun c => (⟨f s c (m.distribution s c), (m.action? s c).join⟩ : Choice V)).toArray)
    ∧ (m.initialStates.Nodup → b.initialStates = m.initialStates)
  := by
  have hempty : ∀ s, (Draft.empty.addStates m.numStates : Draft V).choices[s]?
      = if s < m.numStates then some #[] else none := by
    intro s
    simp [Draft.empty, Draft.addStates, Array.getElem?_replicate]
  have hstates : (Draft.empty.addStates m.numStates : Draft V).numStates = m.numStates := by
    rw [Draft.numStates_addStates]
    apply Nat.zero_add
  obtain ⟨withChoices, haddChoices, hnone, hchoices⟩ := Draft.exists_foldlM_addChoice (W := W)
    (b := Draft.empty.addStates m.numStates)
    (fun s c => ⟨f s c (m.distribution s c), (m.action? s c).join⟩) m.choicePairs (by
      intro p hp
      rw [hstates]
      apply (mem_choicePairs.mp hp).1)
  have hsize : withChoices.numStates = m.numStates := by
    apply eq_of_forall_ge_iff
    intro s
    rw [Draft.numStates, ← Array.getElem?_eq_none_iff, hchoices, hempty]
    simp
  obtain ⟨b, haddInitial, hsame, hmarked⟩ := Draft.exists_foldlM_addInitialState (W := W)
    (b := withChoices) m.initialStates (by
      intro s hs
      rw [hsize]
      apply hinitial s hs)
  refine ⟨b, ?_, ?_, ?_, ?_⟩
  · rw [mapDistributions, haddChoices]
    change (m.initialStates.foldlM (fun (b : Draft V) s => b.addInitialState s) withChoices
      >>= fun b => b.build) = _
    rw [haddInitial]
    rfl
  · rw [Draft.numStates, hsame]
    apply hsize
  · intro s hs
    rw [hsame, hchoices, hempty, if_pos hs, filter_choicePairs hs]
    simp [Function.comp_def]
  · rw [show withChoices.initialStates = [] from hnone] at hmarked
    apply hmarked

end Mdp

/-- What holds of the start of a fold that may fail, and is kept by each step that does not, holds
of its result. -/
theorem Except.foldlM_induction {ε α β : Type} {p : β → Prop} {step : β → α → Except ε β}
    (hstep : ∀ b x b', p b → step b x = .ok b' → p b') {members : List α} {b b' : β} (hb : p b)
    (h : members.foldlM step b = .ok b') :
  p b'
  := by
  induction members generalizing b with
  | nil =>
      cases h
      apply hb
  | cons x members ih =>
      rw [List.foldlM_cons] at h
      obtain ⟨next, hnext, h⟩ := bind_eq_ok_iff.mp h
      apply ih (hstep b x next hb hnext) h

/-- If the distributions of a process can be replaced, then the result is the process of a valid
draft with as many states, whose initial states exist. -/
theorem Mdp.exists_draft_of_mapDistributions {V W : Type} [Arithmetic V] {m m' : Mdp V}
    {f : Nat → Nat → Distribution V → Distribution V}
    (h : (m.mapDistributions f : Except (CheckError V W) (Mdp V)) = .ok m') :
  ∃ b : Draft V, (b.validate : Except (CheckError V W) Unit) = .ok ()
    ∧ b.numStates = m.numStates ∧ b.Started ∧ m' = b.process
  := by
  have hstart : (Draft.empty.addStates m.numStates : Draft V).numStates = m.numStates := by
    rw [Draft.numStates_addStates]
    apply Nat.zero_add
  obtain ⟨withChoices, hchoices, h⟩ := Except.bind_eq_ok_iff.mp h
  obtain ⟨b, hinitial, h⟩ := Except.bind_eq_ok_iff.mp h
  obtain ⟨hvalid, hm'⟩ := Draft.build_eq_ok_iff.mp h
  let Sound (b : Draft V) : Prop := b.numStates = m.numStates ∧ b.Started
  have hsound : Sound withChoices := by
    apply Except.foldlM_induction _ ⟨hstart, Draft.started_empty.addStates _⟩ hchoices
    rintro b ⟨s, c⟩ b' ⟨hcount, hstarted⟩ hadd
    obtain ⟨⟨next, added⟩, hadd, hsame⟩ := Except.bind_eq_ok_iff.mp hadd
    cases hsame
    refine ⟨?_, hstarted.addChoice hadd⟩
    obtain ⟨-, rfl, -⟩ := Draft.addChoice_eq_ok_iff.mp hadd
    simpa [Draft.numStates] using hcount
  obtain ⟨hcount, hstarted⟩ : Sound b := by
    apply Except.foldlM_induction _ hsound hinitial
    rintro b s b' ⟨hcount, hstarted⟩ hadd
    refine ⟨?_, hstarted.addInitialState hadd⟩
    obtain ⟨-, rfl⟩ := Draft.addInitialState_eq_ok_iff.mp hadd
    split
    · apply hcount
    · apply hcount
  exact ⟨b, hvalid, hcount, hstarted, hm'⟩

/-- A choice of a draft is one of the choices of one of its states. -/
theorem Mdp.Draft.lt_of_choice?_eq_some {V : Type} {b : Mdp.Draft V} {s c : Nat} {choice : Choice V}
    (h : b.choice? s c = some choice) :
  s < b.numStates ∧ c < b.numChoices s
  := by
  obtain ⟨choices, hchoices, hchoice⟩ := Option.bind_eq_some_iff.mp h
  constructor
  · apply (Array.getElem?_eq_some_iff.mp hchoices).1
  · rw [numChoices, hchoices]
    apply (Array.getElem?_eq_some_iff.mp hchoice).1

end Reachability
