import Mathlib
import Reachability.Proofs.Layouts

/-!
# Initial states

A call marks a state as initial only if the draft has that state, and no later call takes a state
away.  So the initial states of a model exist if it is made by calls, or is made from such models by
the operations on finished ones (`Model.Made`).  If it has states at all, then it starts in one of
them (`Model.Made.initialState_lt`).
-/

namespace Reachability

variable {V W : Type}

/-! ### Drafts that calls leave behind -/

/-- A call that succeeds leaves a draft whose initial states exist. -/
theorem Mdp.Draft.Started.apply {b b' : Mdp.Draft V} (h : b.Started) {call : Call V} {reply : Reply}
    (happly : (call.apply b : Except (CheckError V W) _) = .ok (b', reply)) :
  b'.Started
  := by
  cases call with
  | addStates count =>
      cases happly
      apply h.addStates
  | addInitialState s =>
      obtain ⟨added, hadd, hsame⟩ := Except.map_eq_ok_iff.mp happly
      cases hsame
      apply h.addInitialState hadd
  | addChoice s choice =>
      obtain ⟨⟨added, c⟩, hadd, hsame⟩ := Except.map_eq_ok_iff.mp happly
      cases hsame
      apply h.addChoice hadd

/-- The initial states of the draft of a process exist after any calls. -/
theorem Mdp.Draft.started_journal (calls : List (Call V)) :
  (journal W calls).state.Started
  := Journal.ofCalls_induction (p := fun b _ => b.Started) Call.run_perform started_empty
    (fun _ _ _ _ _ h happly => h.apply happly) calls

/-- A call that succeeds on the draft of a game leaves one whose initial states exist. -/
theorem Mdp.Draft.Started.applyGame {b b' : Game.Draft V} (h : b.mdp.Started)
    {call : Game.Draft.Call V} {reply : Reply}
    (happly : (call.apply b : Except (CheckError V W) _) = .ok (b', reply)) :
  b'.mdp.Started
  := by
  cases call with
  | addStates count =>
      cases happly
      apply h.addStates
  | addStatesFor tags =>
      obtain ⟨added, hadd, hsame⟩ := Except.map_eq_ok_iff.mp happly
      cases hsame
      obtain ⟨players, -, hsame⟩ := Except.bind_eq_ok_iff.mp hadd
      cases hsame
      apply h.addStates
  | setPlayer s tag =>
      obtain ⟨added, hset, hsame⟩ := Except.map_eq_ok_iff.mp happly
      cases hsame
      obtain ⟨players, -, hsame⟩ := Except.bind_eq_ok_iff.mp hset
      cases hsame
      exact h
  | addInitialState s =>
      obtain ⟨added, hadd, hsame⟩ := Except.map_eq_ok_iff.mp happly
      cases hsame
      obtain ⟨mdp, hmdp, hsame⟩ := Except.bind_eq_ok_iff.mp hadd
      cases hsame
      apply h.addInitialState hmdp
  | addChoice s choice =>
      obtain ⟨⟨added, c⟩, hadd, hsame⟩ := Except.map_eq_ok_iff.mp happly
      cases hsame
      obtain ⟨⟨mdp, c⟩, hmdp, hsame⟩ := Except.bind_eq_ok_iff.mp hadd
      cases hsame
      apply h.addChoice hmdp

/-- The initial states of the draft of a game exist after any calls. -/
theorem Game.Draft.started_journal (calls : List (Call V)) :
  (journal W calls).state.mdp.Started
  := Journal.ofCalls_induction (p := fun b _ => b.mdp.Started) Call.run_perform
    Mdp.Draft.started_empty (fun _ _ _ _ _ h happly => h.applyGame happly) calls

variable [Arithmetic V]

/-- A call that succeeds on a draft that is made in continuous time leaves one. -/
theorem Ctmdp.Draft.Made.apply {b b' : Ctmdp.Draft V} (h : b.Made) {call : Call V} {reply : Reply}
    (happly : (call.apply b : Except (CheckError V W) _) = .ok (b', reply)) :
  b'.Made
  := by
  cases call with
  | addStates count =>
      cases happly
      apply h.addStates
  | addInitialState s =>
      obtain ⟨added, hadd, hsame⟩ := Except.map_eq_ok_iff.mp happly
      cases hsame
      apply h.addInitialState hadd
  | addChoice s d rate =>
      obtain ⟨⟨added, c⟩, hadd, hsame⟩ := Except.map_eq_ok_iff.mp happly
      cases hsame
      apply h.addChoice hadd
  | addRateChoice s rates =>
      obtain ⟨⟨added, c⟩, hadd, hsame⟩ := Except.map_eq_ok_iff.mp happly
      cases hsame
      apply h.addChoice hadd

/-- Calls in continuous time leave a draft that is made. -/
theorem Ctmdp.Draft.made_journal (calls : List (Call V)) :
  (journal W calls).state.Made
  := Journal.ofCalls_induction (p := fun b _ => b.Made) Call.run_perform .empty
    (fun _ _ _ _ _ h happly => h.apply happly) calls

/-! ### Models -/

namespace Model

/-- The models that calls make, and those that are made from such models: the games of processes,
games after a change of owner, the embedded processes, and processes with their distributions
replaced. -/
inductive Made : Model V → Prop where
  | calls {m : Model V} {layout : Layout V} (h : m.MadeBy layout) : Made m
  | ofMdp {m : Mdp V} (h : Made (.mdp m)) : Made (.game (.ofMdp m))
  | setPlayer {W : Type} {g g' : Game V} {s : Nat} {tag : Int} (h : Made (.game g))
      (hset : (g.setPlayer s tag : Except (CheckError V W) (Game V)) = .ok g') : Made (.game g')
  | process {m : Model V} (h : Made m) : Made (.mdp m.process)
  | mapDistributions {W : Type} {m m' : Mdp V} {f : Nat → Nat → Distribution V → Distribution V}
      (h : Made (.mdp m))
      (hmap : (m.mapDistributions f : Except (CheckError V W) (Mdp V)) = .ok m') :
      Made (.mdp m')

/-- The process of a model that calls make is that of a draft whose initial states exist. -/
theorem MadeBy.exists_started {m : Model V} {layout : Layout V} (h : m.MadeBy layout) :
  ∃ b : Mdp.Draft V, b.Started ∧ m.process = b.process
  := by
  cases h with
  | @mdp W calls m h =>
      exact ⟨_, Mdp.Draft.started_journal (W := W) calls, (Mdp.Draft.build_eq_ok_iff.mp h).2⟩
  | @game W calls g h =>
      obtain ⟨mdp, hmdp, hsame⟩ := Except.bind_eq_ok_iff.mp h
      cases hsame
      exact ⟨_, Game.Draft.started_journal (W := W) calls, (Mdp.Draft.build_eq_ok_iff.mp hmdp).2⟩
  | @ctmdp W calls m h =>
      obtain ⟨mdp, hmdp, hsame⟩ := Except.bind_eq_ok_iff.mp h
      cases hsame
      exact ⟨_, (Ctmdp.Draft.made_journal (W := W) calls).consistent.initial,
        (Mdp.Draft.build_eq_ok_iff.mp hmdp).2⟩

/-- The initial states of a model exist. -/
theorem Made.started {m : Model V} (h : m.Made) :
  ∀ s ∈ m.process.initialStates, s < m.numStates
  := by
  induction h with
  | calls h =>
      obtain ⟨b, hb, hprocess⟩ := h.exists_started
      rw [numStates, hprocess]
      apply hb.process
  | ofMdp _ ih => exact ih
  | @setPlayer W g g' s tag _ hset ih =>
      rw [numStates, Model.process, Game.mdp_of_setPlayer hset]
      exact ih
  | process _ ih => exact ih
  | @mapDistributions W m m' f _ hmap ih =>
      obtain ⟨b, -, -, hb, rfl⟩ := Mdp.exists_draft_of_mapDistributions hmap
      apply hb.process

/-- A model with states starts in one of them. -/
theorem Made.initialState_lt {m : Model V} (h : m.Made) (hn : 0 < m.numStates) :
  m.process.initialState < m.numStates
  := by
  rw [Mdp.initialState]
  cases hstates : m.process.initialStates.head? with
  | none => exact hn
  | some s => apply h.started s (List.mem_of_mem_head? hstates)

end Model

end Reachability
