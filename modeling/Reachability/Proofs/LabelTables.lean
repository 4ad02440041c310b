import Mathlib
import Reachability.Proofs.Labels

/-!
# Labels in place

A labelling may be kept in two tables beside each other: the names with the numbers of states, and
the sets (`Labelling.Tables`).  A call changes them step by step (`Labelling.Call.perform`), and
does what its operation does on the labelling (`Labelling.Call.run_perform`).

Hence the tables account for the calls that succeeded (`Labelling.Accounts`).  A call that is
refused leaves them as they are, and all further calls keep the indices of names.
`Labelling.inStep_withInitial` states this for the labelling that starts with the initial states of
a model.
-/

namespace Reachability

variable {V W : Type}

/-! ### Journals -/

namespace Journal

variable {ε κ β γ : Type}

/-- If calls on the image of a thing do what they do on the thing, then they leave its image
behind, and the same of them succeed. -/
theorem ofCalls_map {perform : κ → EStateM ε β Reply} {perform' : κ → EStateM ε γ Reply}
    (f : β → γ)
    (h : ∀ call b, (perform' call).run (f b) = match (perform call).run b with
      | .ok reply b' => .ok reply (f b')
      | .error e b' => .error e (f b'))
    (start : β) (calls : List κ) :
  ofCalls perform' (f start) calls
    = ⟨f (ofCalls perform start calls).state, (ofCalls perform start calls).accepted⟩
  := by
  induction calls using List.reverseRecOn with
  | nil => rfl
  | append_singleton calls call ih =>
      rw [ofCalls_concat, ofCalls_concat, ih, record, record, h]
      cases (perform call).run (ofCalls perform start calls).state with
      | ok reply b' => rfl
      | error e b' => rfl

/-- More calls are made on what the first ones leave behind. -/
theorem ofCalls_append (perform : κ → EStateM ε β Reply) (start : β) (calls more : List κ) :
  ofCalls perform start (calls ++ more)
    = ⟨(ofCalls perform (ofCalls perform start calls).state more).state,
        (ofCalls perform start calls).accepted
          ++ (ofCalls perform (ofCalls perform start calls).state more).accepted⟩
  := by
  induction more using List.reverseRecOn with
  | nil => simp [ofCalls]
  | append_singleton more call ih =>
      rw [← List.append_assoc, ofCalls_concat, ofCalls_concat, ih, record, record]
      dsimp only
      split
      · rw [List.append_assoc]
      · rfl

end Journal

/-! ### Two tables -/

/-- If a member of an array is changed, then so is its image. -/
theorem map_modify {α β : Type} {f : α → α} {f' : β → β} {g : α → β} {xs : Array α} {i : Nat}
    (h : ∀ x, xs[i]? = some x → g (f x) = f' (g x)) :
  (xs.modify i f).map g = (xs.map g).modify i f'
  := by
  apply Array.ext_getElem?
  intro j
  rw [Array.getElem?_map, Array.getElem?_modify, Array.getElem?_modify, Array.getElem?_map]
  split
  · next hij =>
      subst hij
      rw [Option.map_map, Option.map_map]
      apply Option.map_congr h
  · rfl

/-- A change that leaves a member of an array as it is leaves the array as it is. -/
theorem modify_eq_self {α : Type} {f : α → α} {xs : Array α} {i : Nat}
    (h : ∀ x, xs[i]? = some x → f x = x) :
  xs.modify i f = xs
  := by
  apply Array.ext_getElem?
  intro j
  rw [Array.getElem?_modify]
  split
  · next hij =>
      subst hij
      apply (Option.map_congr h).trans Option.map_id'
  · rfl

namespace Labelling

/-- The names of labels, each with a number of states, and beside them the sets. -/
structure Tables where
  numStates : Nat
  names : Array (String × Nat)
  sets : Array StateSet

/-- The tables of a labelling. -/
def tables (l : Labelling) : Tables where
  numStates := l.numStates
  names := l.labels.map fun label => (label.name, label.count)
  sets := l.labels.map Label.states

/-- There is a name for each label. -/
theorem size_names_tables (l : Labelling) :
  l.tables.names.size = l.size
  := Array.size_map

/-- The set of a label is found at its index. -/
theorem getElem?_sets_tables (l : Labelling) (i : Nat) :
  l.tables.sets[i]? = l.labels[i]?.map Label.states
  := Array.getElem?_map

/-- A state that carries a label already changes no table. -/
theorem tables_addState_of_mem {l : Labelling} {i s : Nat} {label : Label}
    (hlabel : l.labels[i]? = some label) (hin : label.states.contains s = true) :
  ({ l with labels := l.labels.modify i fun label => label.addState s } : Labelling).tables
    = l.tables
  := by
  rw [modify_eq_self]
  intro label' hlabel'
  rw [hlabel, Option.some_inj] at hlabel'
  rw [← hlabel', Label.addState, if_pos hin]

/-- A state that did not carry a label is added to the set and to the number beside the name. -/
theorem tables_addState_of_not_mem {l : Labelling} {i s : Nat} {label : Label}
    (hlabel : l.labels[i]? = some label) (hout : label.states.contains s = false) :
  ({ l with labels := l.labels.modify i fun label => label.addState s } : Labelling).tables
    = { l.tables with
        names := l.tables.names.modify i fun entry => (entry.1, entry.2 + 1)
        sets := l.tables.sets.modify i fun set => set.insert s }
  := by
  have hadd : ∀ label' : Label, l.labels[i]? = some label' →
      label'.addState s = ⟨label'.name, label'.count + 1, label'.states.insert s⟩ := by
    intro label' hlabel'
    rw [hlabel, Option.some_inj] at hlabel'
    rw [← hlabel', Label.addState, if_neg (Bool.eq_false_iff.mp hout)]
  simp only [tables, Tables.mk.injEq, true_and]
  constructor
  · apply map_modify
    intro label' hlabel'
    rw [hadd label' hlabel']
  · apply map_modify
    intro label' hlabel'
    rw [hadd label' hlabel']

/-- A set that is stored takes the place of the set and of the number beside the name. -/
theorem tables_stored (l : Labelling) (i : Nat) (states : StateSet) :
  (l.stored i states).tables
    = { l.tables with
        names := l.tables.names.modify i fun entry => (entry.1, states.size)
        sets := l.tables.sets.modify i fun _ => states }
  := by
  simp only [tables, stored, Tables.mk.injEq, true_and]
  constructor
  · apply map_modify
    intro _ _
    rfl
  · apply map_modify
    intro _ _
    rfl

/-! ### Steps in place -/

/-- In place, a label is added for a name unless there is one: first the name and then the set. -/
def addLabelInPlace (name : String) : EStateM (CheckError V W) Tables Nat := do
  match (← get).names.findIdx? fun entry => entry.1 == name with
  | some i => return i
  | none =>
    modify fun t => { t with names := t.names.push (name, 0) }
    modify fun t => { t with sets := t.sets.push (.empty t.numStates) }
    return (← get).names.size - 1

/-- The steps of a call.  The states of a set are looked at before anything is changed. -/
def Call.perform : Call → EStateM (CheckError V W) Tables (Option Nat)
  | .addLabel name => do
    return some (← addLabelInPlace name)
  | .addState i s => do
    let t ← get
    if i < t.names.size ∧ s < t.numStates then
      if t.sets[i]?.any fun set => !set.contains s then
        modify fun t => { t with sets := t.sets.modify i fun set => set.insert s }
        modify fun t => { t with names := t.names.modify i fun entry => (entry.1, entry.2 + 1) }
      return none
    else throw .indexOutOfRange
  | .insertSet name states => do
    let t ← get
    match states.toList.find? fun s => decide (t.numStates ≤ s) with
    | some s => throw (.stateOutOfRange s t.numStates)
    | none =>
      let i ← addLabelInPlace name
      modify fun t => { t with names := t.names.modify i fun entry => (entry.1, states.size) }
      modify fun t => { t with sets := t.sets.modify i fun _ => states }
      return some i

/-- In place, a label is added as by the operation. -/
theorem run_addLabelInPlace (l : Labelling) (name : String) :
  (addLabelInPlace name : EStateM (CheckError V W) Tables Nat).run l.tables
    = .ok (l.addLabel name).2 (l.addLabel name).1.tables
  := by
  have hindex : l.tables.names.findIdx? (fun entry => entry.1 == name) = l.index? name := by
    rw [tables, Array.findIdx?_map]
    rfl
  rw [addLabelInPlace, EStateM.run_bind, EStateM.run_get]
  dsimp only
  rw [hindex, addLabel]
  cases l.index? name with
  | some i => rfl
  | none =>
      simp only [EStateM.run_bind, EStateM.run_modify, EStateM.run_get, EStateM.run_pure]
      simp [tables, size]

/-- The steps of a call do what its operation does. -/
theorem Call.run_perform (call : Call) (l : Labelling) :
  (call.perform : EStateM (CheckError V W) Tables (Option Nat)).run l.tables
    = InPlace.outcome l.tables ((call.apply l).map fun (l', reply) => (l'.tables, reply))
  := by
  cases call with
  | addLabel name =>
      rw [perform, EStateM.run_bind, run_addLabelInPlace]
      rfl
  | addState i s =>
      rw [perform, apply, addLabelToState?, EStateM.run_bind, EStateM.run_get]
      dsimp only
      rw [size_names_tables, getElem?_sets_tables]
      by_cases h : i < l.size ∧ s < l.numStates
      · obtain ⟨label, hlabel⟩ : ∃ label, l.labels[i]? = some label :=
          ⟨_, Array.getElem?_eq_getElem h.1⟩
        rw [if_pos h, if_pos (show i < l.size ∧ s < l.tables.numStates from h), hlabel,
          Option.map_some, Option.any_some]
        cases hin : label.states.contains s with
        | true =>
            rw [Bool.not_true, if_neg Bool.false_ne_true]
            exact congrArg (EStateM.Result.ok none) (tables_addState_of_mem hlabel hin).symm
        | false =>
            rw [Bool.not_false, if_pos rfl]
            exact congrArg (EStateM.Result.ok none) (tables_addState_of_not_mem hlabel hin).symm
      · rw [if_neg h, if_neg (show ¬ (i < l.size ∧ s < l.tables.numStates) from h)]
        rfl
  | insertSet name states =>
      rw [perform, apply, insertSet_eq, EStateM.run_bind, EStateM.run_get]
      have hfind : states.toList.find? (fun s => decide (l.tables.numStates ≤ s))
          = states.toList.find? fun s => decide (l.numStates ≤ s) := rfl
      dsimp only
      rw [hfind]
      cases states.toList.find? fun s => decide (l.numStates ≤ s) with
      | some s => rfl
      | none =>
          dsimp only
          rw [EStateM.run_bind, run_addLabelInPlace]
          exact congrArg (EStateM.Result.ok _) (tables_stored _ _ states).symm

/-! ### Refusals and replies -/

/-- The cause to refuse a call: a label or a state that there is not, or the first state of a set
that is not one of the model. -/
def Call.refusal? (l : Labelling) : Call → Option (CheckError V W)
  | .addLabel _ => none
  | .addState i s => if i < l.size ∧ s < l.numStates then none else some .indexOutOfRange
  | .insertSet _ states =>
    (states.toList.find? fun s => decide (l.numStates ≤ s)).map fun s =>
      .stateOutOfRange s l.numStates

/-- The reply to a call that is not refused: the index of the label for the name. -/
def Call.replyAfter (l : Labelling) (call : Call) : Option Nat :=
  call.name?.map fun name => (l.addLabel name).2

/-- A call is refused for its cause without changing anything, or else it succeeds. -/
theorem Call.answers (call : Call) (l : Labelling) :
  InPlace.Answers (call.perform : EStateM (CheckError V W) Tables (Option Nat)) l.tables
    (call.refusal? l) (call.replyAfter l)
  := by
  constructor
  · intro e he
    rw [run_perform, InPlace.outcome_eq_error_iff]
    refine ⟨?_, rfl⟩
    cases call with
    | addLabel name => cases he
    | addState i s =>
        rw [refusal?] at he
        split at he
        · cases he
        · next h =>
            cases he
            rw [apply, addLabelToState?, if_neg h]
            rfl
    | insertSet name states =>
        obtain ⟨s, hs, rfl⟩ := Option.map_eq_some_iff.mp he
        rw [apply, insertSet_eq, hs]
        rfl
  · intro hnone
    simp only [run_perform, InPlace.outcome_eq_ok_iff]
    cases call with
    | addLabel name => exact ⟨_, rfl⟩
    | addState i s =>
        rw [refusal?] at hnone
        split at hnone
        · next h =>
            rw [apply, addLabelToState?, if_pos h]
            exact ⟨_, rfl⟩
        · cases hnone
    | insertSet name states =>
        rw [apply, insertSet_eq, Option.map_eq_none_iff.mp hnone]
        exact ⟨_, rfl⟩

/-- A call that succeeds adds to what a labelling holds, and if it is about a name then it returns
the index of the label for the name. -/
theorem Holds.apply {l l' : Labelling} {n : Nat} {called : List Call} (h : l.Holds n called)
    {call : Call} {reply : Option Nat}
    (happly : (call.apply l : Except (CheckError V W) _) = .ok (l', reply)) :
  l'.Holds n (called ++ [call])
    ∧ ∀ name, call.name? = some name → ∃ i, reply = some i ∧ l'.index? name = some i
  := by
  cases call with
  | addLabel name =>
      cases happly
      obtain ⟨hadd, hindex⟩ := h.addLabel name
      use hadd
      rintro name' ⟨⟩
      exact ⟨_, rfl, hindex⟩
  | addState i s =>
      have hrange : i < l.size ∧ s < l.numStates := by
        by_contra hout
        rw [Call.apply, addLabelToState?, if_neg hout] at happly
        cases happly
      obtain ⟨l'', hadd, hholds⟩ := h.addState hrange.1 (h.numStates ▸ hrange.2)
      rw [Call.apply, hadd] at happly
      cases happly
      use hholds
      rintro name ⟨⟩
  | insertSet name states =>
      have hwithin : states.Within n := by
        intro s hs
        by_contra hout
        cases hfind : states.toList.find? fun s => decide (l.numStates ≤ s) with
        | none =>
            apply List.find?_eq_none.mp hfind s (StateSet.mem_toList.mpr hs)
            rw [h.numStates, decide_eq_true_eq]
            apply Nat.le_of_not_lt hout
        | some t =>
            rw [Call.apply, insertSet_eq, hfind] at happly
            cases happly
      obtain ⟨l'', i, hinsert, hholds, hindex⟩ := h.insertSet (V := V) (W := W) name hwithin
      rw [Call.apply, hinsert] at happly
      cases happly
      use hholds
      rintro name' ⟨⟩
      exact ⟨i, rfl, hindex⟩

/-! ### What calls leave behind -/

/-- The operation of a call, whatever index it returns. -/
def Call.applyDone (l : Labelling) (call : Call) : Except (CheckError V W) (Labelling × Reply) :=
  (call.apply l).map fun (l', _) => (l', .done)

/-- The steps of a call, whatever index they return. -/
def Call.performDone (call : Call) : EStateM (CheckError V W) Tables Reply := do
  let _ ← call.perform
  return .done

/-- Whatever is returned, the steps of a call do what its operation does. -/
theorem Call.run_performDone (call : Call) (l : Labelling) :
  (call.performDone : EStateM (CheckError V W) Tables Reply).run l.tables
    = InPlace.outcome l.tables ((call.applyDone l).map fun (l', reply) => (l'.tables, reply))
  := by
  rw [performDone, applyDone, EStateM.run_bind, run_perform]
  cases (call.apply l : Except (CheckError V W) (Labelling × Option Nat)) with
  | error e => rfl
  | ok result => rfl

/-- A call on a labelling in one step, by its operation. -/
def Call.operate (call : Call) : EStateM (CheckError V W) Labelling Reply :=
  fun l => InPlace.outcome l (call.applyDone l)

/-- A call in one step does what its operation does. -/
theorem Call.run_operate (call : Call) (l : Labelling) :
  (call.operate : EStateM (CheckError V W) Labelling Reply).run l
    = InPlace.outcome l (call.applyDone l)
  := rfl

variable (V W) in
/-- The journal of calls on a labelling, by their operations. -/
def journal (l : Labelling) (calls : List Call) : Journal Call Labelling :=
  .ofCalls (Call.operate (V := V) (W := W)) l calls

variable (V W) in
/-- The journal of calls on tables, in steps. -/
def journalInPlace (t : Tables) (calls : List Call) : Journal Call Tables :=
  .ofCalls (Call.performDone (V := V) (W := W)) t calls

/-- In place, calls leave the tables of what their operations leave, and the same of them
succeed. -/
theorem journalInPlace_eq (l : Labelling) (calls : List Call) :
  journalInPlace V W l.tables calls
    = ⟨(journal V W l calls).state.tables, (journal V W l calls).accepted⟩
  := by
  apply Journal.ofCalls_map tables
  intro call l
  rw [Call.run_performDone, Call.run_operate]
  cases (call.applyDone l : Except (CheckError V W) (Labelling × Reply)) with
  | error e => rfl
  | ok result => rfl

/-- What calls leave behind holds what the calls before and those of them that succeed give. -/
theorem Holds.journal {l : Labelling} {n : Nat} {called : List Call} (h : l.Holds n called)
    (calls : List Call) :
  (Labelling.journal V W l calls).state.Holds n
    (called ++ (Labelling.journal V W l calls).accepted.map Prod.fst)
  := by
  apply Journal.ofCalls_induction Call.run_operate
    (p := fun l accepted => l.Holds n (called ++ accepted.map Prod.fst))
  · rw [List.map_nil, List.append_nil]
    apply h
  · intro l accepted call l' reply hl happly
    obtain ⟨⟨l'', i⟩, hcall, hsame⟩ := Except.map_eq_ok_iff.mp happly
    cases hsame
    rw [List.map_append, ← List.append_assoc]
    apply (hl.apply hcall).1

/-- Calls on what other calls leave behind leave what all of them do. -/
theorem state_journal_append (l : Labelling) (calls more : List Call) :
  (journal V W l (calls ++ more)).state = (journal V W (journal V W l calls).state more).state
  := by
  rw [journal, Journal.ofCalls_append]
  rfl

/-- More calls keep the names that were mentioned before at their places. -/
theorem namesCalled_append (called more : List Call) :
  ∃ rest, namesCalled (called ++ more) = namesCalled called ++ rest
  := by
  rw [namesCalled, List.filterMap_append, List.eraseDups_append]
  exact ⟨_, rfl⟩

/-- Calls keep the index of every name. -/
theorem Holds.index?_journal {l : Labelling} {n : Nat} {called : List Call} (h : l.Holds n called)
    {name : String} {i : Nat} (hi : l.index? name = some i) (calls : List Call) :
  (Labelling.journal V W l calls).state.index? name = some i
  := by
  have hafter := h.journal (V := V) (W := W) calls
  obtain ⟨rest, hrest⟩ := namesCalled_append called
    ((Labelling.journal V W l calls).accepted.map Prod.fst)
  rw [index?_eq_some_iff h.nodup_names, name?_eq, h.names] at hi
  rw [index?_eq_some_iff hafter.nodup_names, name?_eq, hafter.names, hrest,
    List.getElem?_append_left (List.getElem?_eq_some_iff.mp hi).1, hi]

/-! ### Labellings in step -/

variable (V W) in
/-- A labelling and its tables account for the calls that changed them. -/
structure Accounts (l : Labelling) (t : Tables) (n : Nat) (called : List Call) : Prop where
  /-- The tables are those of the labelling. -/
  tables : t = l.tables
  /-- The names are those that calls mention. -/
  names : l.names = namesCalled called
  /-- No name occurs twice. -/
  distinct : l.names.Nodup
  /-- There are as many names as sets. -/
  sizes : t.names.size = t.sets.size
  /-- The sets have states of the model only. -/
  within : ∀ (i : Nat) (states : StateSet), t.sets[i]? = some states → states.Within n
  /-- The number beside a name is that of the states in the set. -/
  count : ∀ (i : Nat) (name : String) (count : Nat), t.names[i]? = some (name, count) →
    ∃ states, t.sets[i]? = some states ∧ count = states.size
  /-- The number that is shown for a label is that of the states in its set. -/
  shown : l.text = "State labelling with " ++ toString l.size ++ " labels:\n - "
    ++ "\n - ".intercalate (l.labels.toList.map fun label =>
      "\"" ++ label.name ++ "\": " ++ toString label.states.size ++ " states")
  /-- The look-ups of names and of indices are inverse to each other. -/
  inverse : ∀ (name : String) (i : Nat), l.index? name = some i ↔ l.name? i = some name
  /-- The states of a label are those of the set that was stored last for its name, and those that
  were added to it since. -/
  states : ∀ (i : Nat) (name : String), l.name? i = some name →
    ∃ states, (l.statesFor name : Except (CheckError V W) StateSet) = .ok states
      ∧ ∀ s, states.contains s = true ↔ Carried called i name s

/-- What is shown of a labelling names the number of states in each set. -/
theorem Holds.text {l : Labelling} {n : Nat} {called : List Call} (h : l.Holds n called) :
  l.text = "State labelling with " ++ toString l.size ++ " labels:\n - "
    ++ "\n - ".intercalate (l.labels.toList.map fun label =>
      "\"" ++ label.name ++ "\": " ++ toString label.states.size ++ " states")
  := by
  apply congrArg fun shown => "State labelling with " ++ toString l.size ++ " labels:\n - "
    ++ "\n - ".intercalate shown
  apply List.map_congr_left
  intro label hlabel
  obtain ⟨i, hi⟩ := List.getElem?_of_mem hlabel
  rw [Array.getElem?_toList] at hi
  rw [Label.text, (h.labels i label hi).count]

/-- A labelling and its tables account for the calls that the labelling holds. -/
theorem Holds.accounts {l : Labelling} {n : Nat} {called : List Call} (h : l.Holds n called) :
  l.Accounts V W l.tables n called
  where
  tables := rfl
  names := h.names
  distinct := h.nodup_names
  sizes := by rw [Labelling.tables, Array.size_map, Array.size_map]
  within := by
    intro i states hstates
    rw [getElem?_sets_tables] at hstates
    obtain ⟨label, hlabel, rfl⟩ := Option.map_eq_some_iff.mp hstates
    apply (h.labels i label hlabel).within
  count := by
    intro i name count hcount
    rw [Labelling.tables, Array.getElem?_map] at hcount
    obtain ⟨label, hlabel, hpair⟩ := Option.map_eq_some_iff.mp hcount
    cases hpair
    use label.states
    rw [getElem?_sets_tables, hlabel]
    exact ⟨rfl, (h.labels i label hlabel).count⟩
  shown := h.text
  inverse name i := index?_eq_some_iff h.nodup_names
  states := by
    intro i name hname
    obtain ⟨label, hlabel, rfl⟩ := Option.map_eq_some_iff.mp hname
    use label.states
    have hindex := (index?_eq_some_iff h.nodup_names).mpr hname
    rw [statesFor, hindex, Option.bind_some, hlabel]
    exact ⟨rfl, (h.labels i label hlabel).states⟩

variable (V W) in
/-- Calls on the tables of a labelling, which earlier calls made, keep them in step. -/
structure InStep (start : Labelling) (n : Nat) (earlier calls : List Call) : Prop where
  /-- What they leave behind accounts for the earlier calls and those of them that succeed. -/
  accounts : (journal V W start calls).state.Accounts V W
    (journalInPlace V W start.tables calls).state n
    (earlier ++ (journalInPlace V W start.tables calls).accepted.map Prod.fst)
  /-- One more call is refused for its cause without changing anything, or else it succeeds. -/
  answers : ∀ call : Call,
    InPlace.Answers (call.perform : EStateM (CheckError V W) Tables (Option Nat))
      (journalInPlace V W start.tables calls).state
      (call.refusal? (journal V W start calls).state)
      (call.replyAfter (journal V W start calls).state)
  /-- One more call that fails changes nothing. -/
  unchanged : ∀ (call : Call) (e : CheckError V W) (t : Tables),
    (call.perform : EStateM (CheckError V W) Tables (Option Nat)).run
      (journalInPlace V W start.tables calls).state = .error e t →
    t = (journalInPlace V W start.tables calls).state
  /-- One more call about a name returns the index that the name has after it. -/
  given : ∀ (call : Call) (name : String) (i : Nat) (t : Tables), call.name? = some name →
    (call.perform : EStateM (CheckError V W) Tables (Option Nat)).run
      (journalInPlace V W start.tables calls).state = .ok (some i) t →
    (journal V W start (calls ++ [call])).state.index? name = some i
  /-- An index that a name has is kept by all further calls. -/
  kept : ∀ (more : List Call) (name : String) (i : Nat),
    (journal V W start calls).state.index? name = some i →
    (journal V W start (calls ++ more)).state.index? name = some i

/-- If one more call succeeds, then what it leaves is what all calls leave. -/
theorem state_journal_concat {l l' : Labelling} {calls : List Call} {call : Call}
    {reply : Option Nat}
    (h : (call.apply (journal V W l calls).state : Except (CheckError V W) _) = .ok (l', reply)) :
  (journal V W l (calls ++ [call])).state = l'
  := by
  rw [journal] at h ⊢
  rw [Journal.ofCalls_concat, Journal.record, Call.run_operate, Call.applyDone, h]
  rfl

/-- Calls on a labelling that holds what earlier calls give keep its tables in step. -/
theorem Holds.inStep {l : Labelling} {n : Nat} {earlier : List Call} (h : l.Holds n earlier)
    (calls : List Call) :
  l.InStep V W n earlier calls
  := by
  have hafter := h.journal (V := V) (W := W) calls
  have htables := congrArg Journal.state (journalInPlace_eq (V := V) (W := W) l calls)
  have haccepted := congrArg Journal.accepted (journalInPlace_eq (V := V) (W := W) l calls)
  constructor
  case accounts =>
    rw [htables, haccepted]
    apply hafter.accounts
  case answers =>
    rw [htables]
    intro call
    apply call.answers
  case unchanged =>
    rw [htables]
    intro call e t herror
    apply (call.answers _).eq_of_error herror
  case given =>
    rw [htables]
    intro call name i t hname hok
    rw [Call.run_perform, InPlace.outcome_eq_ok_iff] at hok
    obtain ⟨⟨l', reply⟩, happly, hsame⟩ := Except.map_eq_ok_iff.mp hok
    cases hsame
    obtain ⟨j, hj, hindex⟩ := (hafter.apply happly).2 name hname
    cases hj
    rw [state_journal_concat happly, hindex]
  case kept =>
    intro more name i hi
    rw [state_journal_append]
    apply hafter.index?_journal hi

/-! ### Initial states -/

/-- The calls that label initial states. -/
def initialCalls (initial : List Nat) : List Call :=
  .addLabel "init" :: initial.map (.addState 0)

/-- A label that there is may be added to any states of the model, one after the other. -/
theorem Holds.addStates {l : Labelling} {n : Nat} {called : List Call} (h : l.Holds n called)
    {i : Nat} (hi : i < l.size) {states : List Nat} (hstates : ∀ s ∈ states, s < n) :
  ∃ l', states.foldlM (fun (l : Labelling) s => l.addLabelToState? i s) l = some l'
    ∧ l'.Holds n (called ++ states.map (.addState i))
  := by
  induction states generalizing l called with
  | nil => exact ⟨l, rfl, by rwa [List.map_nil, List.append_nil]⟩
  | cons s states ih =>
      obtain ⟨l', hadd, hholds⟩ := h.addState hi (hstates s List.mem_cons_self)
      have hsize : i < l'.size := by
        apply hholds.lt_size i s
        apply List.mem_append_right _ List.mem_cons_self
      obtain ⟨l'', hfold, hall⟩ :=
        ih hholds hsize fun t ht => hstates t (List.mem_cons_of_mem s ht)
      refine ⟨l'', ?_, ?_⟩
      · rw [List.foldlM_cons, hadd]
        apply hfold
      · rwa [List.map_cons, List.append_cons]

/-- If all initial states are states of the model, then the labelling that starts with them exists,
and all calls on its tables keep them in step. -/
theorem inStep_withInitial (n : Nat) (initial : List Nat) (h : ∀ s ∈ initial, s < n) :
  ∃ start, withInitial? n initial = some start
    ∧ ∀ calls, start.InStep V W n (initialCalls initial) calls
  := by
  have hindex : (empty n).index? "init" = none := index?_eq_none_iff.mpr List.not_mem_nil
  have hadd : (empty n).addLabel "init" = (⟨n, #[⟨"init", 0, .empty n⟩]⟩, 0) := by
    rw [addLabel, hindex]
    rfl
  have hinit := ((holds_empty n).addLabel "init").1
  rw [hadd] at hinit
  obtain ⟨start, hstart, hholds⟩ := hinit.addStates Nat.one_pos h
  rw [withInitial?, hadd]
  exact ⟨start, hstart, hholds.inStep⟩

/-- With the second of two states as the initial one, adding a label to a state twice counts it
once, and a set that is refused adds no label. -/
theorem inStep_withInitial_goal :
  (∀ s ∈ [1], s < 2)
    ∧ (∃ start, withInitial? 2 [1] = some start
      ∧ ∀ calls, start.InStep Rat Rat 2 (initialCalls [1]) calls)
    ∧ ((withInitial? 2 [1]).map fun start =>
        (journalInPlace Rat Rat start.tables
          [.addLabel "goal", .addState 1 1, .addState 1 1,
            .insertSet "far" ((StateSet.empty 6).insert 5)]).state.names)
      = some #[("init", 1), ("goal", 1)]
  := by
  have hwithin : ∀ s ∈ [1], s < 2 := by decide
  exact ⟨hwithin, inStep_withInitial 2 [1] hwithin, by decide +kernel⟩

end Labelling

end Reachability
