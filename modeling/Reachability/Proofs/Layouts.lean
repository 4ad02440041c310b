import Mathlib
import Reachability.Proofs.ChoiceSets
import Reachability.Proofs.Replacement
import Reachability.Proofs.SideTables

/-!
# Layouts of models

Calls on a draft ask for states, for their owners and for distributions.  What those that succeed
ask for is a `Layout`, which lists the distributions of each state in the order of the calls but
forgets how they are interleaved with those of other states.  A model that calls make represents
their layout (`Model.MadeBy.representsLayout`).

Two layouts are for the same choices (`Layout.SameChoices`) if at each state their lists have the
same members, seen as mappings from successors to positive masses.  Then a checker computes the same
numbers for the models (`Checker.sameNumbers_of_sameChoices`).
-/

namespace Reachability

variable {V W : Type} [Arithmetic V]

/-- What calls ask for, whatever the kind of the model: states, their owners, and the distributions
of the choices of each state. -/
structure Layout (V : Type) where
  numStates : Nat
  owner : Nat → Player
  distributions : Nat → List (Distribution V)

namespace Layout

/-- The layout of calls on the draft of a process. -/
def ofMdp (accepted : List (Mdp.Draft.Call V × Reply)) : Layout V where
  numStates := Mdp.Draft.numStatesAdded accepted
  owner _ := .one
  distributions s := (Mdp.Draft.choicesAdded accepted s).map Choice.distribution

/-- The layout of calls on the draft of a game. -/
def ofGame (accepted : List (Game.Draft.Call V × Reply)) : Layout V :=
  { ofMdp (Game.Draft.processCalls accepted) with owner := Game.Draft.ownerAdded accepted }

/-- The layout of calls on the draft of a model in continuous time. -/
def ofCtmdp (accepted : List (Ctmdp.Draft.Call V × Reply)) : Layout V :=
  ofMdp (Ctmdp.Draft.processCalls accepted)

/-- The choices of a state, each as the mapping of successors to their positive masses. -/
def masses (layout : Layout V) (s : Nat) : Set (Nat → Option V) :=
  {mass | ∃ d ∈ layout.distributions s, mass = d.positiveMass}

/-- Two layouts are for the same choices if they ask for as many states with the same owners, and
for the same set of mappings at each of them. -/
structure SameChoices (layout layout' : Layout V) : Prop where
  numStates : layout.numStates = layout'.numStates
  owner : ∀ s < layout.numStates, layout.owner s = layout'.owner s
  masses : ∀ s < layout.numStates, layout.masses s = layout'.masses s

end Layout

/-- The models that calls on a draft without states make, with what the calls that succeeded ask
for. -/
inductive Model.MadeBy : Model V → Layout V → Prop where
  | mdp {W : Type} {calls : List (Mdp.Draft.Call V)} {m : Mdp V}
      (h : (Mdp.Draft.journal W calls).state.build = (.ok m : Except (CheckError V W) (Mdp V))) :
      MadeBy (.mdp m) (.ofMdp (Mdp.Draft.journal W calls).accepted)
  | game {W : Type} {calls : List (Game.Draft.Call V)} {g : Game V}
      (h : (Game.Draft.journal W calls).state.build = (.ok g : Except (CheckError V W) (Game V))) :
      MadeBy (.game g) (.ofGame (Game.Draft.journal W calls).accepted)
  | ctmdp {W : Type} {calls : List (Ctmdp.Draft.Call V)} {m : Ctmdp V}
      (h : (Ctmdp.Draft.journal W calls).state.build
        = (.ok m : Except (CheckError V W) (Ctmdp V))) :
      MadeBy (.ctmdp m) (.ofCtmdp (Ctmdp.Draft.journal W calls).accepted)

omit [Arithmetic V] in
/-- The successors of a choice that the model has are those of its row. -/
theorem Mdp.successors_eq {m : Mdp V} {s c : Nat} {row : List (Nat × V)}
    (h : m.successors? s c = some row) :
  m.successors s c = row
  := by
  obtain ⟨r, hr, rfl⟩ := Option.map_eq_some_iff.mp h
  rw [rowIndex?] at hr
  split at hr
  · rw [successors, ChoiceMatrix.successors, hr]
  · cases hr

/-- A process that represents what calls add has the distributions of their layout. -/
theorem Mdp.Represents.distributions {m : Mdp V} {accepted : List (Mdp.Draft.Call V × Reply)}
    (h : m.Represents accepted) {s : Nat} (hs : s < m.numStates) :
  m.distributions s = (Layout.ofMdp accepted).masses s
  := by
  have hnumChoices : m.numChoices s = (Mdp.Draft.choicesAdded accepted s).length := by
    have hsome := h.numChoices s hs
    rw [Mdp.numChoices?, if_pos hs] at hsome
    apply Option.some_inj.mp hsome
  have hmass : ∀ c choice, (Mdp.Draft.choicesAdded accepted s)[c]? = some choice →
      (fun t => (m.successors s c).lookup t) = choice.distribution.positiveMass := by
    intro c choice hchoice
    obtain ⟨row, hrow, hlists⟩ := h.successors s c choice hchoice
    funext t
    rw [Mdp.successors_eq hrow]
    apply hlists.lookup_eq
  apply Set.ext
  intro mass
  constructor
  · rintro ⟨c, hc, rfl⟩
    rw [hnumChoices] at hc
    have hchoice := List.getElem?_eq_getElem hc
    refine ⟨_, List.mem_map_of_mem (List.getElem_mem hc), hmass c _ hchoice⟩
  · rintro ⟨d, hd, rfl⟩
    obtain ⟨choice, hchoice, rfl⟩ := List.mem_map.mp hd
    obtain ⟨c, hc⟩ := List.mem_iff_getElem?.mp hchoice
    refine ⟨c, ?_, (hmass c choice hc).symm⟩
    rw [hnumChoices]
    apply (List.getElem?_eq_some_iff.mp hc).1

/-- A model represents a layout if it can be made and has the states, the owners and the
distributions of the layout. -/
structure Model.RepresentsLayout (m : Model V) (layout : Layout V) : Prop where
  built : m.Built
  numStates : m.arena.numStates = layout.numStates
  owner : ∀ s < m.arena.numStates, m.arena.owner s = layout.owner s
  distributions : ∀ s < m.arena.numStates, m.arena.mdp.distributions s = layout.masses s

/-- A model that calls make represents what they ask for. -/
theorem Model.MadeBy.representsLayout {m : Model V} {layout : Layout V} (h : m.MadeBy layout) :
  m.RepresentsLayout layout
  := by
  cases h with
  | @mdp W calls m h =>
      have hholds := Mdp.Draft.holds_journal (W := W) calls
      obtain ⟨e, -, herror⟩ | ⟨-, hbuild⟩ := hholds.build (W := W)
      · rw [herror] at h
        cases h
      · rw [hbuild] at h
        cases h
        have hm := hholds.represents
        exact ⟨.mdp hbuild, hm.numStates, fun _ _ => rfl, fun s hs => hm.distributions hs⟩
  | @game W calls g h =>
      obtain ⟨e, -, herror⟩ | ⟨-, g', hbuild, hg⟩ :=
        (Game.Draft.inStep_journal (W := W) calls).build
      · rw [herror] at h
        cases h
      · rw [hbuild] at h
        cases h
        refine ⟨.game hbuild, hg.mdp.numStates, ?_, fun s hs => hg.mdp.distributions hs⟩
        intro s hs
        change g.owner s = _
        rw [Game.owner, hg.owner s hs]
        rfl
  | @ctmdp W calls m h =>
      obtain ⟨e, -, herror⟩ | ⟨-, m', hbuild, hm⟩ :=
        (Ctmdp.Draft.inStep_journal (W := W) calls).build
      · rw [herror] at h
        cases h
      · rw [hbuild] at h
        cases h
        exact ⟨.ctmdp hbuild, hm.mdp.numStates, fun _ _ => rfl, fun s hs => hm.mdp.distributions hs⟩

/-- Models that represent layouts for the same choices have the same choices. -/
theorem Model.RepresentsLayout.sameChoices {m m' : Model V} {layout layout' : Layout V}
    (hm : m.RepresentsLayout layout) (hm' : m'.RepresentsLayout layout')
    (h : layout.SameChoices layout') :
  m.arena.SameChoices m'.arena
  := by
  have hnum : m.arena.numStates = m'.arena.numStates := by
    rw [hm.numStates, hm'.numStates, h.numStates]
  refine ⟨hnum, ?_, ?_⟩
  · intro s hs
    rw [hm.owner s hs, hm'.owner s (hnum ▸ hs), h.owner s (hm.numStates ▸ hs)]
  · intro s hs
    rw [hm.distributions s hs, hm'.distributions s (hnum ▸ hs), h.masses s (hm.numStates ▸ hs)]

/-- For exact values, all numbers that a checker computes are the same for two models with the same
states and owners and, at each state, the same set of distributions.  The models may be made in any
way: by calls that add choices in another order, more than once, or interleaved with those of other
states, with masses that are listed in another order, in several parts, or next to masses of zero,
since a distribution gives each state the total mass that was listed for it, if that is positive. -/
theorem Checker.sameNumbers_of_sameChoices [Wide W] [Precision ℝ W] (checker : Checker W) :
  (∀ (pairs : List (Nat × ℝ)) (t : Nat), (Distribution.ofPairs pairs).positiveMass t
      = if 0 < Distribution.listedMass pairs t then some (Distribution.listedMass pairs t)
        else none)
    ∧ (∀ m m' : Model ℝ, m.Built → m'.Built → m.arena.SameChoices m'.arena →
      ∀ o, checker.SameNumbers m.arena m'.arena o)
    ∧ ∀ (m m' : Model ℝ) (layout layout' : Layout ℝ), m.MadeBy layout → m'.MadeBy layout' →
      layout.SameChoices layout' → ∀ o, checker.SameNumbers m.arena m'.arena o
  := by
  have hbuilt : ∀ m m' : Model ℝ, m.Built → m'.Built → m.arena.SameChoices m'.arena →
      ∀ o, checker.SameNumbers m.arena m'.arena o :=
    fun m m' hm hm' h => (h.sameRows hm.proper_arena hm'.proper_arena).sameNumbers checker
  refine ⟨Distribution.positiveMass_ofPairs, hbuilt, ?_⟩
  intro m m' layout layout' hm hm' h
  have hlayout := hm.representsLayout
  have hlayout' := hm'.representsLayout
  apply hbuilt m m' hlayout.built hlayout'.built (hlayout.sameChoices hlayout' h)

/-! ### Two layouts for the same choices -/

namespace Distribution

/-- Masses that are listed for states of the model, are not negative, and sum to one make an exact
distribution. -/
theorem exact_ofPairs {pairs : List (Nat × ℝ)} {numStates : Nat}
    (h : ∀ pair ∈ pairs, pair.1 < numStates ∧ 0 ≤ pair.2) (hsum : (pairs.map Prod.snd).sum = 1) :
  (ofPairs pairs).Exact numStates
  := by
  obtain ⟨hspread, hget⟩ := sum_get_ofPairs h
  apply hspread.exact
  have hone := hget fun _ => 1
  simp only [mul_one] at hone
  rw [hone, hsum]

/-- Both of the states `1` and `2` with probability one half. -/
noncomputable def toss : Distribution ℝ := .ofPairs [(1, 1 / (2 : Nat)), (2, 1 / (2 : Nat))]

/-- The same with state `2` in two parts and no mass on state `0`. -/
noncomputable def tossInParts : Distribution ℝ :=
  .ofPairs [(2, 1 / (4 : Nat)), (1, 1 / (2 : Nat)), (0, 0), (2, 1 / (4 : Nat))]

/-- Both are the same mapping. -/
theorem positiveMass_tossInParts :
  tossInParts.positiveMass = toss.positiveMass
  := by
  funext t
  have hlisted : listedMass
        [(2, 1 / (4 : Nat)), (1, 1 / (2 : Nat)), (0, 0), (2, 1 / (4 : Nat))] t
      = listedMass [(1, 1 / (2 : Nat)), (2, 1 / (2 : Nat))] t := by
    obtain rfl | rfl | rfl | ht : t = 0 ∨ t = 1 ∨ t = 2 ∨ 2 < t := by omega
    · norm_num [listedMass]
    · norm_num [listedMass]
    · norm_num [listedMass]
    · have h0 : ¬ 0 = t := by omega
      have h1 : ¬ 1 = t := by omega
      have h2 : ¬ 2 = t := by omega
      simp [listedMass, h0, h1, h2]
  rw [tossInParts, toss, positiveMass_ofPairs, positiveMass_ofPairs, hlisted]

end Distribution

namespace Game.Draft

/-- If the distributions that calls leave behind are exact, then the calls make the game of the draft
that they leave behind. -/
theorem madeBy_of_exact {calls : List (Call ℝ)}
    (h : ∀ choices ∈ (journal ℝ calls).state.mdp.choices, ∀ choice ∈ choices,
      choice.distribution.Exact (journal ℝ calls).state.mdp.numStates) :
  (Model.game ⟨(journal ℝ calls).state.mdp.process, (journal ℝ calls).state.players⟩).MadeBy
    (.ofGame (journal ℝ calls).accepted)
  := by
  have hexact : ∀ s c choice, (journal ℝ calls).state.mdp.choice? s c = some choice →
      choice.distribution.Exact (journal ℝ calls).state.mdp.numStates := by
    intro s c choice hchoice
    obtain ⟨choices, hchoices, hmem⟩ :=
      List.mem_flatMap.mp (Mdp.Draft.mem_of_choice?_eq_some hchoice)
    apply h choices (Array.mem_toList_iff.mp hchoices) choice (Array.mem_toList_iff.mp hmem)
  have hbuild := (Mdp.Draft.build_of_exact (W := ℝ) hexact).1
  apply Model.MadeBy.game (W := ℝ)
  rw [build, hbuild]
  rfl

/-- Calls that add the choices state by state. -/
noncomputable def ordered : List (Call ℝ) :=
  [.addStatesFor [1, 2, 1], .addChoice 0 ⟨.toss, none⟩, .addChoice 0 ⟨.dirac 0, some "stay"⟩,
    .addChoice 1 ⟨.dirac 2, none⟩]

/-- Calls that add the same choices in another order, one of them twice and one in parts.  The call
for a state that does not exist fails. -/
noncomputable def shuffled : List (Call ℝ) :=
  [.addStates 3, .addChoice 0 ⟨.dirac 0, none⟩, .addChoice 1 ⟨.dirac 2, none⟩,
    .addChoice 7 ⟨.dirac 2, none⟩, .setPlayer 1 2, .addChoice 0 ⟨.tossInParts, none⟩,
    .addChoice 0 ⟨.dirac 0, none⟩]

/-- The ordered calls make a game. -/
theorem exists_madeBy_ordered :
  ∃ m : Model ℝ, m.MadeBy (.ofGame (journal ℝ ordered).accepted)
  := by
  refine ⟨_, madeBy_of_exact ?_⟩
  have hchoices : (journal ℝ ordered).state.mdp.choices
      = #[#[⟨.toss, none⟩, ⟨.dirac 0, some "stay"⟩], #[⟨.dirac 2, none⟩], #[]] := rfl
  have hnum : (journal ℝ ordered).state.mdp.numStates = 3 := rfl
  rw [hchoices, hnum]
  simp only [List.mem_toArray, List.forall_mem_cons, List.not_mem_nil, false_implies, implies_true,
    and_true]
  refine ⟨⟨?_, ?_⟩, ?_⟩
  · apply Distribution.exact_ofPairs <;> norm_num
  · apply Distribution.exact_dirac (by decide)
  · apply Distribution.exact_dirac (by decide)

/-- The shuffled calls make the game of the draft that they leave behind. -/
theorem madeBy_shuffled :
  (Model.game ⟨(journal ℝ shuffled).state.mdp.process, (journal ℝ shuffled).state.players⟩).MadeBy
    (.ofGame (journal ℝ shuffled).accepted)
  := by
  apply madeBy_of_exact
  have hchoices : (journal ℝ shuffled).state.mdp.choices
      = #[#[⟨.dirac 0, none⟩, ⟨.tossInParts, none⟩, ⟨.dirac 0, none⟩], #[⟨.dirac 2, none⟩],
        #[]] := rfl
  have hnum : (journal ℝ shuffled).state.mdp.numStates = 3 := rfl
  rw [hchoices, hnum]
  simp only [List.mem_toArray, List.forall_mem_cons, List.not_mem_nil, false_implies, implies_true,
    and_true]
  refine ⟨⟨?_, ?_, ?_⟩, ?_⟩
  · apply Distribution.exact_dirac (by decide)
  · apply Distribution.exact_ofPairs <;> norm_num
  · apply Distribution.exact_dirac (by decide)
  · apply Distribution.exact_dirac (by decide)

/-- The shuffled calls make a game. -/
theorem exists_madeBy_shuffled :
  ∃ m : Model ℝ, m.MadeBy (.ofGame (journal ℝ shuffled).accepted)
  := ⟨_, madeBy_shuffled⟩

/-- The ordered and the shuffled calls ask for the same choices. -/
theorem sameChoices_shuffled :
  (Layout.ofGame (journal ℝ ordered).accepted).SameChoices (.ofGame (journal ℝ shuffled).accepted)
  := by
  have hcases : ∀ s < 3, s = 0 ∨ s = 1 ∨ s = 2 := by omega
  constructor
  · rfl
  · intro s hs
    obtain rfl | rfl | rfl := hcases s hs
    · rfl
    · rfl
    · rfl
  · intro s hs
    obtain rfl | rfl | rfl := hcases s hs
    · have hordered : (Layout.ofGame (journal ℝ ordered).accepted).distributions 0
          = [.toss, .dirac 0] := rfl
      have hshuffled : (Layout.ofGame (journal ℝ shuffled).accepted).distributions 0
          = [.dirac 0, .tossInParts, .dirac 0] := rfl
      apply Set.ext
      intro mass
      simp only [Layout.masses, hordered, hshuffled, Set.mem_ofPred_eq, List.mem_cons,
        List.not_mem_nil, or_false, exists_eq_or_imp, exists_eq_left,
        Distribution.positiveMass_tossInParts]
      rw [or_left_comm, or_self]
    · rfl
    · rfl

end Game.Draft

/-- The checker computes the same numbers for the games that the ordered and the shuffled calls
make, in whichever order they are compared. -/
theorem Checker.sameNumbers_of_sameChoices_shuffled :
  ∃ m m' : Model ℝ, m.MadeBy (.ofGame (Game.Draft.journal ℝ Game.Draft.ordered).accepted)
    ∧ m'.MadeBy (.ofGame (Game.Draft.journal ℝ Game.Draft.shuffled).accepted)
    ∧ (∀ o, sample.SameNumbers m.arena m'.arena o) ∧ ∀ o, sample.SameNumbers m'.arena m.arena o
  := by
  obtain ⟨m, hm⟩ := Game.Draft.exists_madeBy_ordered
  obtain ⟨m', hm'⟩ := Game.Draft.exists_madeBy_shuffled
  obtain ⟨-, hbuilt, hlayouts⟩ := sample.sameNumbers_of_sameChoices
  have hsame := hm.representsLayout.sameChoices hm'.representsLayout Game.Draft.sameChoices_shuffled
  refine ⟨m, m', hm, hm', hlayouts m m' _ _ hm hm' Game.Draft.sameChoices_shuffled, ?_⟩
  apply hbuilt m' m hm'.representsLayout.built hm.representsLayout.built hsame.symm

end Reachability
