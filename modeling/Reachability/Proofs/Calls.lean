import Mathlib
import Reachability.Proofs.Rates

/-!
# Calls on a draft in place

A draft may be kept in one place, where calls change it step by step.  `Mdp.Draft.Call.perform` says
which steps a call takes, and what it leaves behind if it fails on the way.  It does what the
operations on drafts do (`Mdp.Draft.Call.run_perform`), so that a call that fails leaves the draft
as it was.  Steps answer (`InPlace.Answers`) if they fail for a given cause without changing
anything, or succeed if there is no cause.

A `Journal` is what calls leave behind: the thing that they were made on, and those of them that
succeeded, in order and with their replies.
-/

namespace Reachability

/-- What a call on a draft replies. -/
inductive Reply where
  /-- New states have been added, from the first one up to before the second one. -/
  | states (start stop : Nat)
  /-- A choice has been added as the one with this number. -/
  | choice (c : Nat)
  /-- The call is done. -/
  | done

/-- The image of a computation succeeds if the computation does. -/
theorem Except.map_eq_ok_iff {ε α β : Type} {f : α → β} {x : Except ε α} {y : β} :
  x.map f = .ok y ↔ ∃ a, x = .ok a ∧ f a = y
  := by
  cases x with
  | error e => simp [Except.map]
  | ok a => simp [Except.map]

/-! ### Steps in place -/

namespace InPlace

variable {ε α β γ : Type}

/-- The steps that a computation takes in one part of something. -/
def within (part : β → γ) (replace : β → γ → β) (x : EStateM ε γ α) : EStateM ε β α := fun b =>
  match x.run (part b) with
  | .ok a c => .ok a (replace b c)
  | .error e c => .error e (replace b c)

/-- The outcome in place of an operation that gives a changed thing or fails: after a failure there
is what was there before. -/
def outcome (b : β) : Except ε (β × α) → EStateM.Result ε β α
  | .ok (b', a) => .ok a b'
  | .error e => .error e b

/-- A failure in place comes from an operation that fails, and changes nothing. -/
theorem outcome_eq_error_iff {b b' : β} {x : Except ε (β × α)} {e : ε} :
  outcome b x = .error e b' ↔ x = .error e ∧ b' = b
  := by
  obtain e' | ⟨b'', a⟩ := x
  · constructor
    · rintro ⟨⟩
      exact ⟨rfl, rfl⟩
    · rintro ⟨⟨⟩, rfl⟩
      rfl
  · constructor
    · rintro ⟨⟩
    · rintro ⟨⟨⟩, -⟩

/-- A success in place comes from an operation that succeeds with what it leaves. -/
theorem outcome_eq_ok_iff {b b' : β} {x : Except ε (β × α)} {a : α} :
  outcome b x = .ok a b' ↔ x = .ok (b', a)
  := by
  obtain e' | ⟨b'', a'⟩ := x
  · constructor
    · rintro ⟨⟩
    · rintro ⟨⟩
  · constructor
    · rintro ⟨⟩
      rfl
    · rintro ⟨⟩
      rfl

/-- The answer of steps in place: if there is a cause to refuse them, then they fail with it and
change nothing, and otherwise they succeed with a reply. -/
structure Answers (x : EStateM ε β α) (b : β) (refusal : Option ε) (reply : α) : Prop where
  refuse : ∀ e, refusal = some e → x.run b = .error e b
  accept : refusal = none → ∃ b', x.run b = .ok reply b'

/-- Steps that answer change nothing if they fail. -/
theorem Answers.eq_of_error {x : EStateM ε β α} {b b' : β} {refusal : Option ε} {reply : α} {e : ε}
    (h : Answers x b refusal reply) (herror : x.run b = .error e b') :
  b' = b
  := by
  cases hrefusal : refusal with
  | none =>
      obtain ⟨b'', hok⟩ := h.accept hrefusal
      rw [herror] at hok
      cases hok
  | some e' =>
      rw [h.refuse e' hrefusal] at herror
      cases herror
      rfl

/-- Steps in one part give what they give there, and leave it in its place. -/
theorem run_within (part : β → γ) (replace : β → γ → β) (x : EStateM ε γ α) (b : β) :
  (within part replace x).run b = match x.run (part b) with
    | .ok a c => .ok a (replace b c)
    | .error e c => .error e (replace b c)
  := rfl

/-- Steps in one part answer for the whole. -/
theorem Answers.within {part : β → γ} {replace : β → γ → β} {x : EStateM ε γ α} {b : β}
    {refusal : Option ε} {reply : α} (h : Answers x (part b) refusal reply)
    (hreplace : replace b (part b) = b) :
  Answers (within part replace x) b refusal reply
  := by
  constructor
  · intro e he
    rw [run_within, h.refuse e he]
    dsimp only
    rw [hreplace]
  · intro hnone
    obtain ⟨c, hok⟩ := h.accept hnone
    use replace b c
    rw [run_within, hok]

/-- Steps that are followed by a change answer as they do without it. -/
theorem Answers.modify {x : EStateM ε β α} {b : β} {refusal : Option ε} {reply : α}
    (h : Answers x b refusal reply) (f : β → β) :
  Answers (do let a ← x; modify f; return a) b refusal reply
  := by
  constructor
  · intro e he
    rw [EStateM.run_bind, h.refuse e he]
  · intro hnone
    obtain ⟨b', hok⟩ := h.accept hnone
    use f b'
    rw [EStateM.run_bind, hok]
    rfl

end InPlace

/-! ### Journals -/

/-- What calls leave behind: the thing that they were made on, and the calls that succeeded with
their replies. -/
structure Journal (κ β : Type) where
  state : β
  accepted : List (κ × Reply)

namespace Journal

variable {ε κ β : Type}

/-- The journal after one more call. -/
def record (perform : κ → EStateM ε β Reply) (j : Journal κ β) (call : κ) : Journal κ β :=
  match (perform call).run j.state with
  | .ok reply state => ⟨state, j.accepted ++ [(call, reply)]⟩
  | .error _ state => ⟨state, j.accepted⟩

/-- The journal of calls that are made one after the other, whether they fail or not. -/
def ofCalls (perform : κ → EStateM ε β Reply) (start : β) (calls : List κ) : Journal κ β :=
  calls.foldl (record perform) ⟨start, []⟩

/-- One more call is recorded after those before it. -/
theorem ofCalls_concat (perform : κ → EStateM ε β Reply) (start : β) (calls : List κ) (call : κ) :
  ofCalls perform start (calls ++ [call]) = (ofCalls perform start calls).record perform call
  := List.foldl_concat _ _ _ _

/-- If calls do in place what an operation does, then what holds before any call, and is kept
whenever the operation succeeds, holds of what calls leave behind. -/
theorem ofCalls_induction {perform : κ → EStateM ε β Reply} {apply : β → κ → Except ε (β × Reply)}
    (hperform : ∀ call b, (perform call).run b = InPlace.outcome b (apply b call))
    {p : β → List (κ × Reply) → Prop} {start : β} (hstart : p start [])
    (hstep : ∀ b accepted call b' reply, p b accepted → apply b call = .ok (b', reply) →
      p b' (accepted ++ [(call, reply)])) (calls : List κ) :
  p (ofCalls perform start calls).state (ofCalls perform start calls).accepted
  := by
  -- each call is made on what those before it leave, so the last one is taken off
  induction calls using List.reverseRecOn with
  | nil => exact hstart
  | append_singleton calls call ih =>
      rw [ofCalls_concat, record, hperform]
      cases happly : apply (ofCalls perform start calls).state call with
      | error e => exact ih
      | ok result => exact hstep _ _ call result.1 result.2 ih happly

end Journal

/-! ### Calls on the draft of a process -/

namespace Mdp.Draft

variable {V W : Type}

/-- The calls that change the draft of a process. -/
inductive Call (V : Type) where
  | addStates (count : Nat)
  | addInitialState (s : Nat)
  | addChoice (s : Nat) (choice : Choice V)

/-- In place, a state must be one of those so far. -/
def requireState (s : Nat) : EStateM (CheckError V W) (Draft V) Unit := do
  let b ← get
  if b.numStates ≤ s then
    throw (.stateOutOfRange s b.numStates)

/-- The steps of a call. -/
def Call.perform : Call V → EStateM (CheckError V W) (Draft V) Reply
  | .addStates count => do
    let start := (← get).choices.size
    modify fun b => { b with choices := b.choices ++ Array.replicate count #[] }
    return .states start (start + count)
  | .addInitialState s => do
    requireState s
    if s ∉ (← get).initialStates then
      modify fun b => { b with initialStates := b.initialStates ++ [s] }
    return .done
  | .addChoice s choice => do
    requireState s
    modify fun b => { b with choices := b.choices.modify s fun choices => choices.push choice }
    return .choice (((← get).choices[s]?.getD #[]).size - 1)

/-- The operation of a call. -/
def Call.apply (b : Draft V) : Call V → Except (CheckError V W) (Draft V × Reply)
  | .addStates count => .ok (b.addStates count, .states b.numStates (b.numStates + count))
  | .addInitialState s => (b.addInitialState s).map fun b' => (b', .done)
  | .addChoice s choice => (b.addChoice s choice).map fun (b', c) => (b', .choice c)

/-- In place, a state that exists passes. -/
theorem run_requireState_of_lt {s : Nat} {b : Draft V} (h : s < b.numStates) :
  (requireState s : EStateM (CheckError V W) (Draft V) Unit).run b = .ok () b
  := by
  rw [requireState, EStateM.run_bind, EStateM.run_get]
  dsimp only
  rw [if_neg (Nat.not_le_of_lt h), EStateM.run_pure]

/-- In place, a state that does not exist fails. -/
theorem run_requireState_of_le {s : Nat} {b : Draft V} (h : b.numStates ≤ s) :
  (requireState s : EStateM (CheckError V W) (Draft V) Unit).run b
    = .error (.stateOutOfRange s b.numStates) b
  := by
  rw [requireState, EStateM.run_bind, EStateM.run_get]
  dsimp only
  rw [if_pos h]
  rfl

/-- The steps of a call do what its operation does. -/
theorem Call.run_perform (call : Call V) (b : Draft V) :
  (call.perform : EStateM (CheckError V W) (Draft V) Reply).run b
    = InPlace.outcome b (call.apply b)
  := by
  cases call with
  | addStates count => rfl
  | addInitialState s =>
      rw [perform, apply, Draft.addInitialState, checkState, EStateM.run_bind]
      by_cases hs : b.numStates ≤ s
      · rw [run_requireState_of_le hs, if_pos hs]
        rfl
      · rw [run_requireState_of_lt (Nat.lt_of_not_le hs), if_neg hs]
        by_cases hnew : s ∈ b.initialStates
        · simp only [EStateM.run_bind, EStateM.run_get, hnew, not_true_eq_false, if_false, if_true]
          rfl
        · simp only [EStateM.run_bind, EStateM.run_get, hnew, not_false_eq_true, if_false, if_true]
          rfl
  | addChoice s choice =>
      rw [perform, apply, Draft.addChoice, checkState, EStateM.run_bind]
      by_cases hs : b.numStates ≤ s
      · rw [run_requireState_of_le hs, if_pos hs]
        rfl
      · rw [run_requireState_of_lt (Nat.lt_of_not_le hs), if_neg hs]
        have hlast : ((b.choices.modify s fun choices => choices.push choice)[s]?.getD #[]).size - 1
            = b.numChoices s := by
          rw [Array.getElem?_modify, if_pos rfl, numChoices]
          cases b.choices[s]? with
          | none => rfl
          | some choices => simp
        simp only [EStateM.run_bind, EStateM.run_modify, EStateM.run_get, EStateM.run_pure, hlast]
        rfl

end Mdp.Draft

end Reachability
