import Mathlib
import Reachability.Proofs.Owners

/-!
# Exit rates that calls give

The draft of a model in continuous time is the draft of a process with a table of exit rates beside
it.  The calls on it change both (`Ctmdp.Draft.Call.perform`), and a call is refused before it has
changed either of them (`Ctmdp.Draft.Holds.answers`).

The calls that succeed on a state return the numbers of its choices one after the other, and a
finished model has for each choice the exit rate and the masses of the call that returned its number
(`Ctmdp.Represents`).  `sideTables_inStep` states this together with what holds of the owners of
games.
-/

namespace Reachability

variable {V W : Type} [Arithmetic V]

/-! ### Rates that are divided -/

omit [Arithmetic V] in
/-- The value under a key is changed with all values. -/
theorem Table.lookup_map {α β : Type} (f : α → β) (entries : List (Nat × α)) (key : Nat) :
  (entries.map fun (k, x) => (k, f x)).lookup key = (entries.lookup key).map f
  := by
  induction entries with
  | nil => rfl
  | cons entry entries ih =>
      rw [List.map_cons, List.lookup_cons, List.lookup_cons, ih]
      split <;> rfl

namespace Distribution

/-- Masses that are listed with different states are found under their states, each added to
zero. -/
theorem get?_ofPairs {pairs : List (Nat × V)} (hdistinct : (pairs.map Prod.fst).Nodup) (t : Nat) :
  (ofPairs pairs).masses.get? t = (pairs.lookup t).map fun p => 0 + p
  := by
  induction pairs using List.reverseRecOn generalizing t with
  | nil => rfl
  | append_singleton pairs pair ih =>
      obtain ⟨s, p⟩ := pair
      rw [List.map_append, List.nodup_append] at hdistinct
      obtain ⟨hdistinct, -, hne⟩ := hdistinct
      have hnew : s ∉ pairs.map Prod.fst := fun hs => hne s hs s (List.mem_singleton_self s) rfl
      have hzero : (ofPairs pairs).get s = 0 := by
        have hnone : pairs.lookup s = none := by
          rw [List.lookup_eq_none_iff]
          intro pair hpair
          rw [bne_iff_ne]
          rintro rfl
          apply hnew (List.mem_map_of_mem hpair)
        rw [get, ih hdistinct, hnone]
        rfl
      rw [ofPairs_append_singleton, add, set, Table.get?_insert, hzero,
        Table.lookup_append_new s t p pairs hnew]
      split
      · rfl
      · apply ih hdistinct

/-- The distribution of a choice that is given by the rates of its successors: the rates divided by
their sum. -/
def shares (rates : Distribution V) : Distribution V :=
  ofPairs (rates.pairs.map fun (t, rate) => (t, rate / rates.total))

/-- The share of a state is its rate divided by the sum of the rates. -/
theorem get?_shares (rates : Distribution V) (t : Nat) :
  rates.shares.masses.get? t = (rates.masses.get? t).map fun rate => 0 + rate / rates.total
  := by
  rw [shares, get?_ofPairs, Table.lookup_map fun rate => rate / rates.total, Option.map_map]
  · rfl
  · rw [List.map_map]
    exact rates.masses.distinct

end Distribution

namespace Ctmdp

namespace Draft

/-! ### Calls on the draft of a model in continuous time -/

/-- The calls that change the draft of a model in continuous time. -/
inductive Call (V : Type) where
  | addStates (count : Nat)
  | addInitialState (s : Nat)
  | addChoice (s : Nat) (d : Distribution V) (rate : V)
  | addRateChoice (s : Nat) (rates : Distribution V)

/-- The call on the draft of the process that a call makes. -/
def Call.onProcess : Call V → Mdp.Draft.Call V
  | .addStates count => .addStates count
  | .addInitialState s => .addInitialState s
  | .addChoice s d _ => .addChoice s ⟨d, none⟩
  | .addRateChoice s rates => .addChoice s ⟨rates.shares, none⟩

/-- The steps of a call on the draft of the process. -/
def performOnProcess (call : Mdp.Draft.Call V) : EStateM (CheckError V W) (Draft V) Reply :=
  InPlace.within Draft.mdp (fun b mdp => { b with mdp := mdp }) call.perform

/-- The steps in which a choice is added with its exit rate. -/
def performChoice (s : Nat) (d : Distribution V) (rate : V) :
    EStateM (CheckError V W) (Draft V) Reply := do
  if Arithmetic.isFinite rate = false ∨ rate ≤ 0 then
    throw (.invalidRate s rate)
  let reply ← performOnProcess (.addChoice s ⟨d, none⟩)
  modify fun b => { b with rates := b.rates.modify s fun rates => rates.push rate }
  return reply

/-- The steps of a call. -/
def Call.perform : Call V → EStateM (CheckError V W) (Draft V) Reply
  | .addStates count => do
    modify fun b => { b with rates := b.rates ++ Array.replicate count #[] }
    performOnProcess (.addStates count)
  | .addInitialState s => performOnProcess (.addInitialState s)
  | .addChoice s d rate => performChoice s d rate
  | .addRateChoice s rates => performChoice s rates.shares rates.total

/-- The operation of a call. -/
def Call.apply (b : Draft V) : Call V → Except (CheckError V W) (Draft V × Reply)
  | .addStates count =>
    .ok (b.addStates count, .states b.mdp.numStates (b.mdp.numStates + count))
  | .addInitialState s => (b.addInitialState s).map fun b' => (b', .done)
  | .addChoice s d rate => (b.addChoice s d rate).map fun (b', c) => (b', .choice c)
  | .addRateChoice s rates => (b.addRateChoice s rates).map fun (b', c) => (b', .choice c)

/-- The steps in which a choice is added do what the operation does. -/
theorem run_performChoice (s : Nat) (d : Distribution V) (rate : V) (b : Draft V) :
  (performChoice s d rate : EStateM (CheckError V W) (Draft V) Reply).run b
    = InPlace.outcome b ((b.addChoice s d rate).map fun (b', c) => (b', .choice c))
  := by
  rw [performChoice, addChoice]
  by_cases hrate : Arithmetic.isFinite rate = false ∨ rate ≤ 0
  · rw [if_pos hrate, if_pos hrate]
    rfl
  · rw [if_neg hrate, if_neg hrate, EStateM.run_bind, performOnProcess, InPlace.run_within,
      Mdp.Draft.Call.run_perform, Mdp.Draft.Call.apply]
    cases (b.mdp.addChoice s ⟨d, none⟩ : Except (CheckError V W) (Mdp.Draft V × Nat)) with
    | error e => rfl
    | ok added => rfl

/-- The steps of a call do what its operation does. -/
theorem Call.run_perform (call : Call V) (b : Draft V) :
  (call.perform : EStateM (CheckError V W) (Draft V) Reply).run b
    = InPlace.outcome b (call.apply b)
  := by
  cases call with
  | addStates count => rfl
  | addInitialState s =>
      rw [perform, apply, performOnProcess, InPlace.run_within, Mdp.Draft.Call.run_perform,
        Mdp.Draft.Call.apply, Draft.addInitialState]
      cases (b.mdp.addInitialState s : Except (CheckError V W) (Mdp.Draft V)) with
      | error e => rfl
      | ok mdp => rfl
  | addChoice s d rate => apply run_performChoice
  | addRateChoice s rates => apply run_performChoice

/-- The cause to refuse an exit rate, which must be finite and positive. -/
def rateRefusal? (s : Nat) (rate : V) : Option (CheckError V W) :=
  if Arithmetic.isFinite rate = false ∨ rate ≤ 0 then some (.invalidRate s rate) else none

/-- The cause to refuse a call on a draft with `numStates` states. -/
def Call.refusal? (numStates : Nat) : Call V → Option (CheckError V W)
  | .addStates _ => none
  | .addInitialState s => Mdp.Draft.stateRefusal? numStates s
  | .addChoice s _ rate => (rateRefusal? s rate).or (Mdp.Draft.stateRefusal? numStates s)
  | .addRateChoice s rates =>
    (rateRefusal? s rates.total).or (Mdp.Draft.stateRefusal? numStates s)

/-- The steps in which a choice is added answer for the exit rate first, and then as those on the
process. -/
theorem answers_performChoice {s : Nat} {d : Distribution V} {rate : V} {b : Draft V}
    {refusal : Option (CheckError V W)} {reply : Reply}
    (h : InPlace.Answers (performOnProcess (.addChoice s ⟨d, none⟩)
      : EStateM (CheckError V W) (Draft V) Reply) b refusal reply) :
  InPlace.Answers (performChoice s d rate) b ((rateRefusal? s rate).or refusal) reply
  := by
  rw [performChoice, rateRefusal?]
  by_cases hrate : Arithmetic.isFinite rate = false ∨ rate ≤ 0
  · rw [if_pos hrate, if_pos hrate]
    constructor
    · rintro e ⟨⟩
      rfl
    · rintro ⟨⟩
  · rw [if_neg hrate, if_neg hrate]
    apply h.modify

/-! ### What calls add to models in continuous time -/

/-- How a choice leaves its state: with an exit rate, to successors with masses. -/
structure Departure (V : Type) where
  exitRate : V
  mass : Nat → Option V

/-- How the choice that a call adds to a state leaves it.  Rates are divided by their sum, and each
share is added to zero, as all masses are. -/
def Call.departure? (s : Nat) : Call V → Option (Departure V)
  | .addStates _ => none
  | .addInitialState _ => none
  | .addChoice t d rate => if t = s then some ⟨rate, d.masses.get?⟩ else none
  | .addRateChoice t rates =>
    if t = s then
      some ⟨rates.total, fun u => (rates.masses.get? u).map fun rate => 0 + rate / rates.total⟩
    else none

/-- The calls on the draft of the process that calls make, with their replies. -/
def processCalls (accepted : List (Call V × Reply)) : List (Mdp.Draft.Call V × Reply) :=
  accepted.map fun (call, reply) => (call.onProcess, reply)

/-- How the choices that calls add to a state leave it, with the replies to the calls. -/
def departures (accepted : List (Call V × Reply)) (s : Nat) : List (Departure V × Reply) :=
  accepted.filterMap fun (call, reply) =>
    (call.departure? s).map fun departure => (departure, reply)

/-- The reply to a call that succeeds after others. -/
def Call.replyAfter (accepted : List (Call V × Reply)) (call : Call V) : Reply :=
  call.onProcess.replyAfter (processCalls accepted)

section Concat

variable (accepted : List (Call V × Reply)) (call : Call V) (reply : Reply)

/-- One more call makes its call on the draft of the process. -/
theorem processCalls_concat :
  processCalls (accepted ++ [(call, reply)])
    = processCalls accepted ++ [(call.onProcess, reply)]
  := by
  rw [processCalls, List.map_append]
  rfl

/-- The choice of one more call comes last. -/
theorem departures_concat (s : Nat) :
  departures (accepted ++ [(call, reply)]) s
    = departures accepted s
      ++ ((call.departure? s).map fun departure => (departure, reply)).toList
  := by
  rw [departures, List.filterMap_append]
  cases hdeparture : call.departure? s <;> simp [departures, hdeparture]

end Concat

/-- The masses of the distributions that calls add to the process are those with which their choices
leave. -/
theorem map_mass_departures (accepted : List (Call V × Reply)) (s : Nat) :
  (departures accepted s).map (fun entry => entry.1.mass)
    = (Mdp.Draft.choicesAdded (processCalls accepted) s).map
      fun choice => choice.distribution.masses.get?
  := by
  induction accepted using List.reverseRecOn with
  | nil => rfl
  | append_singleton accepted entry ih =>
      obtain ⟨call, reply⟩ := entry
      rw [departures_concat, processCalls_concat, Mdp.Draft.choicesAdded_concat, List.map_append,
        List.map_append, ih]
      congr 1
      cases call with
      | addStates count => rfl
      | addInitialState t => rfl
      | addChoice t d rate =>
          rw [Call.departure?, Call.onProcess, Mdp.Draft.Call.choiceFor?]
          split <;> rfl
      | addRateChoice t rates =>
          have hshares : rates.shares.masses.get?
              = fun u => (rates.masses.get? u).map fun rate => 0 + rate / rates.total :=
            funext rates.get?_shares
          rw [Call.departure?, Call.onProcess, Mdp.Draft.Call.choiceFor?, ← hshares]
          split <;> rfl

/-- The draft of a model in continuous time holds what calls add. -/
structure Holds (b : Draft V) (accepted : List (Call V × Reply)) : Prop where
  process : b.mdp.Holds (processCalls accepted)
  size_rates : b.rates.size = b.mdp.numStates
  rates : ∀ s, (b.rates[s]?.getD #[]).toList
    = (departures accepted s).map fun entry => entry.1.exitRate
  numbers : ∀ s, (departures accepted s).map Prod.snd
    = (List.range (departures accepted s).length).map Reply.choice

/-- The draft without states holds what no calls add. -/
theorem holds_empty :
  (empty : Draft V).Holds []
  := ⟨Mdp.Draft.holds_empty, rfl, fun _ => rfl, fun _ => rfl⟩

namespace Holds

variable {b : Draft V} {accepted : List (Call V × Reply)} (h : b.Holds accepted)

include h

/-- As many choices are added to a state as have departures. -/
theorem length_departures (s : Nat) :
  (departures accepted s).length = b.mdp.numChoices s
  := by
  rw [h.process.numChoices_eq, ← List.length_map, map_mass_departures, List.length_map]

/-- There are as many exit rates of each state as choices. -/
theorem sizes :
  b.rates.map Array.size = b.mdp.choices.map Array.size
  := by
  apply Array.ext
  · rw [Array.size_map, Array.size_map, h.size_rates]
    rfl
  · intro s hs hs'
    rw [Array.size_map] at hs hs'
    rw [Array.getElem_map, Array.getElem_map]
    have hlength := congrArg List.length (h.rates s)
    rw [List.length_map, h.length_departures, Array.length_toList, Mdp.Draft.numChoices,
      Array.getElem?_eq_getElem hs, Array.getElem?_eq_getElem hs'] at hlength
    exact hlength

/-- A call that adds no choice and succeeds on the process adds to what the draft holds, if it adds
as many lists of exit rates as states. -/
theorem concat_states (call : Call V) {mdp : Mdp.Draft V} {reply : Reply} (count : Nat)
    (hcount : call.onProcess.stateCount = count) (hnone : ∀ s, call.departure? s = none)
    (happly : (call.onProcess.apply b.mdp : Except (CheckError V W) _) = .ok (mdp, reply)) :
  (⟨mdp, b.rates ++ Array.replicate count #[]⟩ : Draft V).Holds (accepted ++ [(call, reply)])
  := by
  have hmdp := h.process.concat happly
  have hsame : ∀ s, departures (accepted ++ [(call, reply)]) s = departures accepted s := by
    intro s
    rw [departures_concat, hnone]
    apply List.append_nil
  constructor
  · rw [processCalls_concat]
    exact hmdp
  · rw [hmdp.numStates, Mdp.Draft.numStatesAdded_concat, hcount, Array.size_append, h.size_rates,
      h.process.numStates, Array.size_replicate]
  · intro s
    rw [Mdp.Draft.getD_append_replicate, hsame, h.rates]
  · intro s
    rw [hsame, h.numbers]

/-- A call that adds a choice with a departure adds to what the draft holds. -/
theorem concat_choice {call : Call V} {s : Nat} {d : Distribution V} (departure : Departure V)
    {b' : Draft V} {c : Nat} (hcall : call.onProcess = .addChoice s ⟨d, none⟩)
    (hdeparture : ∀ t, call.departure? t = if s = t then some departure else none)
    (hadd : (b.addChoice s d departure.exitRate : Except (CheckError V W) _) = .ok (b', c)) :
  b'.Holds (accepted ++ [(call, .choice c)])
  := by
  rw [addChoice] at hadd
  split at hadd
  · cases hadd
  · obtain ⟨⟨mdp, c'⟩, hmdp, hsame⟩ := Except.bind_eq_ok_iff.mp hadd
    cases hsame
    obtain ⟨hs, -, hc⟩ := Mdp.Draft.addChoice_eq_ok_iff.mp hmdp
    have hprocess : (call.onProcess.apply b.mdp : Except (CheckError V W) _)
        = .ok (mdp, .choice c) := by
      rw [hcall]
      exact Except.map_eq_ok_iff.mpr ⟨(mdp, c), hmdp, rfl⟩
    have hholds := h.process.concat hprocess
    constructor
    · rw [processCalls_concat]
      exact hholds
    · rw [hholds.numStates, Mdp.Draft.numStatesAdded_concat, hcall, Array.size_modify, h.size_rates,
        h.process.numStates]
      rfl
    · intro t
      rw [Mdp.Draft.toList_getD_modify_push _ (h.size_rates ▸ hs), departures_concat, hdeparture,
        h.rates, List.map_append]
      split <;> rfl
    · intro t
      rw [departures_concat, hdeparture, List.map_append, h.numbers, List.length_append]
      split
      · next ht =>
          subst ht
          rw [hc, ← h.length_departures]
          simp [List.range_succ]
      · simp

/-- A call that succeeds adds to what a draft holds. -/
theorem concat {call : Call V} {b' : Draft V} {reply : Reply}
    (happly : (call.apply b : Except (CheckError V W) _) = .ok (b', reply)) :
  b'.Holds (accepted ++ [(call, reply)])
  := by
  cases call with
  | addStates count =>
      cases happly
      apply h.concat_states (W := W) (.addStates count) count rfl (fun _ => rfl) rfl
  | addInitialState s =>
      obtain ⟨added, hadd, hsame⟩ := Except.map_eq_ok_iff.mp happly
      cases hsame
      obtain ⟨mdp, hmdp, hsame⟩ := Except.bind_eq_ok_iff.mp hadd
      cases hsame
      have hprocess : (Mdp.Draft.Call.apply b.mdp (.addInitialState s) : Except (CheckError V W) _)
          = .ok (mdp, .done) := Except.map_eq_ok_iff.mpr ⟨mdp, hmdp, rfl⟩
      have hholds := h.concat_states (.addInitialState s) 0 rfl (fun _ => rfl) hprocess
      rw [Array.replicate_zero, Array.append_empty] at hholds
      exact hholds
  | addChoice s d rate =>
      obtain ⟨⟨added, c⟩, hadd, hsame⟩ := Except.map_eq_ok_iff.mp happly
      cases hsame
      apply h.concat_choice ⟨rate, d.masses.get?⟩ rfl (fun _ => rfl) hadd
  | addRateChoice s rates =>
      obtain ⟨⟨added, c⟩, hadd, hsame⟩ := Except.map_eq_ok_iff.mp happly
      cases hsame
      apply h.concat_choice ⟨rates.total, _⟩ rfl (fun _ => rfl) hadd

/-- A draft refuses calls for exit rates that are not finite or not positive and for states that do
not exist. -/
theorem answers (call : Call V) :
  InPlace.Answers (call.perform : EStateM (CheckError V W) (Draft V) Reply) b
    (call.refusal? b.mdp.numStates) (call.replyAfter accepted)
  := by
  cases call with
  | addStates count =>
      constructor
      · rintro e ⟨⟩
      · rintro -
        use b.addStates count
        rw [Call.run_perform, InPlace.outcome_eq_ok_iff, Call.apply, h.process.numStates]
        rfl
  | addInitialState s => exact h.process.answers_within rfl (.addInitialState s)
  | addChoice s d rate =>
      apply answers_performChoice (h.process.answers_within rfl (.addChoice s ⟨d, none⟩))
  | addRateChoice s rates =>
      apply answers_performChoice (h.process.answers_within rfl (.addChoice s ⟨rates.shares, none⟩))

end Holds

variable (W) in
/-- The journal of calls on the draft without states. -/
def journal (calls : List (Call V)) : Journal (Call V) (Draft V) :=
  .ofCalls (Call.perform (W := W)) empty calls

/-- What calls leave behind holds what the calls that succeeded add. -/
theorem holds_journal (calls : List (Call V)) :
  (journal W calls).state.Holds (journal W calls).accepted
  := Journal.ofCalls_induction Call.run_perform holds_empty
    (fun _ _ _ _ _ h happly => h.concat happly) calls

end Draft

/-! ### What models in continuous time represent -/

/-- A model in continuous time represents what calls add: each choice leaves its state as the call
that returned its number says, and there is one such call for each choice. -/
structure Represents (m : Ctmdp V) (accepted : List (Draft.Call V × Reply)) : Prop where
  mdp : m.mdp.Represents (Draft.processCalls accepted)
  numbers : ∀ s < m.mdp.numStates, (Draft.departures accepted s).map Prod.snd
    = (List.range (m.mdp.numChoices s)).map Reply.choice
  exitRate : ∀ call s c departure, (call, Reply.choice c) ∈ accepted →
    call.departure? s = some departure → m.exitRate? s c = some departure.exitRate
  successors : ∀ call s c departure, (call, Reply.choice c) ∈ accepted →
    call.departure? s = some departure →
    ∃ row, m.mdp.successors? s c = some row ∧ Distribution.Lists row departure.mass

namespace Draft

namespace Holds

variable {b : Draft V} {accepted : List (Call V × Reply)} (h : b.Holds accepted)

include h

/-- The number that a call returns is the place of its choice. -/
theorem getElem?_departures {call : Call V} {s c : Nat} {departure : Departure V}
    (hcall : (call, Reply.choice c) ∈ accepted) (hdeparture : call.departure? s = some departure) :
  (departures accepted s)[c]? = some (departure, .choice c)
  := by
  have hmem : (departure, Reply.choice c) ∈ departures accepted s :=
    List.mem_filterMap.mpr ⟨_, hcall, Option.map_eq_some_iff.mpr ⟨_, hdeparture, rfl⟩⟩
  obtain ⟨i, hi⟩ := List.mem_iff_getElem?.mp hmem
  -- the reply at place `i` is the number `i`, so that place is `c`
  have hnumber := congrArg (fun replies => replies[i]?) (h.numbers s)
  simp only [List.getElem?_map] at hnumber
  rw [hi, List.getElem?_range (List.getElem?_eq_some_iff.mp hi).1] at hnumber
  cases hnumber
  exact hi

/-- The exit rate of a choice is that of its departure. -/
theorem exitRate?_process (s c : Nat) :
  (⟨b.mdp.process, b.rates.flatten⟩ : Ctmdp V).exitRate? s c
    = (departures accepted s)[c]?.map fun entry => entry.1.exitRate
  := by
  have hsizes : (b.rates.toList.map Array.toList).map List.length
      = b.mdp.choices.toList.map Array.size := by
    have hlists := congrArg Array.toList h.sizes
    rw [Array.toList_map, Array.toList_map] at hlists
    rw [List.map_map, ← hlists]
    rfl
  have hfound := b.mdp.bind_rowIndex?_process hsizes s c
  rw [← Array.toList_flatten] at hfound
  simp only [Array.getElem?_toList] at hfound
  rw [exitRate?, hfound, ← List.getElem?_map, ← h.rates, List.getElem?_map]
  have hstate : b.rates.toList[s]? = b.rates[s]? := Array.getElem?_toList
  rw [hstate]
  cases b.rates[s]? with
  | none => rfl
  | some rates => rfl

/-- The model of a draft represents what calls add if the draft holds it. -/
theorem represents :
  (⟨b.mdp.process, b.rates.flatten⟩ : Ctmdp V).Represents accepted
  where
  mdp := h.process.represents
  numbers s hs := by
    rw [h.numbers, h.length_departures, Mdp.Draft.numChoices_process]
  exitRate call s c departure hcall hdeparture := by
    rw [h.exitRate?_process, h.getElem?_departures hcall hdeparture]
    rfl
  successors call s c departure hcall hdeparture := by
    have hmass := congrArg (fun masses => masses[c]?) (map_mass_departures accepted s)
    simp only [List.getElem?_map, h.getElem?_departures hcall hdeparture] at hmass
    obtain ⟨choice, hchoice, hmasses⟩ := Option.map_eq_some_iff.mp hmass.symm
    obtain ⟨row, hrow, hlists⟩ := h.process.represents.successors s c choice hchoice
    rw [hmasses] at hlists
    exact ⟨row, hrow, hlists⟩

/-- A draft that holds what calls add is refused for the first fault among the choices, or they all
fit, and it is finished as a model that represents what calls add. -/
theorem build :
  (∃ e, Mdp.Draft.FirstFault W (processCalls accepted) e ∧ b.build = .error e)
    ∨ Mdp.Draft.AllFit W (processCalls accepted)
      ∧ ∃ m, (b.build : Except (CheckError V W) (Ctmdp V)) = .ok m ∧ m.Represents accepted
  := by
  refine h.process.build_of (fun m => ⟨m, b.rates.flatten⟩) ?_ h.represents
  rw [Draft.build]
  cases (b.mdp.build : Except (CheckError V W) (Mdp V)) with
  | error e => rfl
  | ok m => rfl

end Holds

variable (W) in
/-- The draft of a model in continuous time is in step with the calls that succeeded: it has as many
exit rates of each state as choices, a call that fails changes nothing, and the draft is refused for
the first fault among the choices, or these all fit, and it is finished as a model that represents
the calls. -/
structure InStep (j : Journal (Call V) (Draft V)) : Prop where
  sizes : j.state.rates.map Array.size = j.state.mdp.choices.map Array.size
  answers : ∀ call : Call V, InPlace.Answers
    (call.perform : EStateM (CheckError V W) (Draft V) Reply) j.state
    (call.refusal? j.state.mdp.numStates) (call.replyAfter j.accepted)
  unchanged : ∀ (call : Call V) (e : CheckError V W) (b' : Draft V),
    call.perform.run j.state = .error e b' → b' = j.state
  build : (∃ e, Mdp.Draft.FirstFault W (processCalls j.accepted) e ∧ j.state.build = .error e)
    ∨ Mdp.Draft.AllFit W (processCalls j.accepted)
      ∧ ∃ m, (j.state.build : Except (CheckError V W) (Ctmdp V)) = .ok m ∧ m.Represents j.accepted

/-- Calls on the draft without states leave a draft that is in step with those that succeeded. -/
theorem inStep_journal (calls : List (Call V)) :
  InStep W (journal W calls)
  where
  sizes := (holds_journal calls).sizes
  answers := (holds_journal calls).answers
  unchanged call _ _ herror := ((holds_journal calls).answers call).eq_of_error herror
  build := (holds_journal calls).build

end Draft

end Ctmdp

/-! ### Tables beside processes -/

/-- The drafts of games and of models in continuous time are in step with any calls on them. -/
theorem sideTables_inStep :
  (∀ calls : List (Game.Draft.Call V), Game.Draft.InStep W (Game.Draft.journal W calls))
    ∧ ∀ calls : List (Ctmdp.Draft.Call V), Ctmdp.Draft.InStep W (Ctmdp.Draft.journal W calls)
  := ⟨Game.Draft.inStep_journal, Ctmdp.Draft.inStep_journal⟩

end Reachability
