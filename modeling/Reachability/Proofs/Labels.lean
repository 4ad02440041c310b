import Mathlib
import Reachability.Labelling
import Reachability.Proofs.Assembly
import Reachability.Proofs.Formula

/-!
# Labels that calls give

Calls on a labelling add labels, add states to them, and store whole sets.  Which labels there are
is read off the calls: a name gets a label where it is mentioned first (`Labelling.namesCalled`),
and a state carries a label if it is in the set that was stored last for the name, or was added to
the label since (`Labelling.Carried`).

A labelling holds this after any calls (`Labelling.Holds`), and the number that it keeps with each
name is that of the states in the set.
-/

namespace Reachability

/-! ### Sizes of sets -/

namespace StateSet

/-- No state is listed twice. -/
theorem nodup_toList (set : StateSet) :
  set.toList.Nodup
  := List.nodup_range.filter _

/-- An empty set has no states. -/
@[simp]
theorem size_empty (count : Nat) :
  (empty count).size = 0
  := by
  rw [size, List.length_eq_zero_iff, List.eq_nil_iff_forall_not_mem]
  intro s
  rw [mem_toList, contains_empty]
  apply Bool.false_ne_true

/-- A state that is not in a set makes it larger by one. -/
theorem size_insert {set : StateSet} {s : Nat} (h : set.contains s = false) :
  (set.insert s).size = set.size + 1
  := by
  have hnew : s ∉ set.toList := by
    rw [mem_toList, h]
    apply Bool.false_ne_true
  have hperm : (set.insert s).toList.Perm (s :: set.toList) := by
    apply (List.perm_ext_iff_of_nodup (nodup_toList _) (set.nodup_toList.cons hnew)).mpr
    intro t
    rw [mem_toList, contains_insert, List.mem_cons, mem_toList, Bool.or_eq_true, beq_iff_eq]
  rw [size, hperm.length_eq, List.length_cons, size]

end StateSet

namespace Labelling

variable {V W : Type}

/-! ### Calls -/

/-- The calls that change a labelling. -/
inductive Call where
  | addLabel (name : String)
  | addState (i s : Nat)
  | insertSet (name : String) (states : StateSet)

/-- The operation of a call.  A call that is about a name returns the index of the label. -/
def Call.apply (l : Labelling) : Call → Except (CheckError V W) (Labelling × Option Nat)
  | .addLabel name => .ok ((l.addLabel name).1, some (l.addLabel name).2)
  | .addState i s =>
    match l.addLabelToState? i s with
    | some l' => .ok (l', none)
    | none => .error .indexOutOfRange
  | .insertSet name states => (l.insertSet name states).map fun (l', i) => (l', some i)

/-- The name that a call mentions. -/
def Call.name? : Call → Option String
  | .addLabel name => some name
  | .addState _ _ => none
  | .insertSet name _ => some name

/-- The set that a call stores for a name. -/
def Call.storedFor? (name : String) : Call → Option StateSet
  | .insertSet name' states => if name' = name then some states else none
  | _ => none

/-- The names that calls mention, each where it is mentioned first. -/
def namesCalled (called : List Call) : List String := (called.filterMap Call.name?).eraseDups

/-- The set that was stored last for a name. -/
def lastStored? (called : List Call) (name : String) : Option StateSet :=
  (called.filterMap (Call.storedFor? name)).getLast?

/-- The calls since a set was stored last for a name, which are all calls if none was. -/
def sinceStored (called : List Call) (name : String) : List Call :=
  called.rtakeWhile fun call => (call.storedFor? name).isNone

/-- After calls, a state carries the label with an index and a name if it is in the set that was
stored last for the name, or was added to the label since. -/
def Carried (called : List Call) (i : Nat) (name : String) (s : Nat) : Prop :=
  (∃ states ∈ lastStored? called name, states.contains s = true)
    ∨ .addState i s ∈ sinceStored called name

section Concat

variable (called : List Call) {call : Call}

/-- One more call that mentions no name adds no name. -/
theorem namesCalled_concat_of_none (h : call.name? = none) :
  namesCalled (called ++ [call]) = namesCalled called
  := by
  simp [namesCalled, h]

/-- One more call that mentions a name adds it at the end unless it is there. -/
theorem namesCalled_concat_of_some {name : String} (h : call.name? = some name) :
  namesCalled (called ++ [call])
    = if name ∈ namesCalled called then namesCalled called else namesCalled called ++ [name]
  := by
  rw [namesCalled, List.filterMap_append, List.filterMap_cons_some h, List.filterMap_nil]
  apply Mdp.Draft.eraseDups_concat

/-- After one more call that stores no set for a name, the states that carry the label are those
before, and the one that the call adds. -/
theorem carried_concat_of_none {i : Nat} {name : String} {s : Nat}
    (h : call.storedFor? name = none) :
  Carried (called ++ [call]) i name s ↔ Carried called i name s ∨ call = .addState i s
  := by
  have hlast : lastStored? (called ++ [call]) name = lastStored? called name := by
    simp [lastStored?, h]
  have hsince : sinceStored (called ++ [call]) name = sinceStored called name ++ [call] := by
    rw [sinceStored, List.rtakeWhile_concat, h]
    rfl
  rw [Carried, Carried, hlast, hsince, List.mem_append, List.mem_singleton, or_assoc,
    eq_comm (a := Call.addState i s)]

/-- After one more call that stores a set for a name, the states that carry the label are those of
the set. -/
theorem carried_concat_of_some {i : Nat} {name : String} {s : Nat} {states : StateSet}
    (h : call.storedFor? name = some states) :
  Carried (called ++ [call]) i name s ↔ states.contains s = true
  := by
  have hlast : lastStored? (called ++ [call]) name = some states := by
    simp [lastStored?, h]
  have hsince : sinceStored (called ++ [call]) name = [] := by
    rw [sinceStored, List.rtakeWhile_concat, h]
    rfl
  rw [Carried, hlast, hsince]
  simp

/-- One more call that is not about a label does not change which states carry it. -/
theorem carried_concat_of_other {i : Nat} {name : String} {s : Nat}
    (hstored : call.storedFor? name = none) (hadded : ∀ t, call ≠ .addState i t) :
  Carried (called ++ [call]) i name s ↔ Carried called i name s
  := by
  rw [carried_concat_of_none called hstored]
  apply or_iff_left (hadded s)

end Concat

/-- No state carries a label that no call is about. -/
theorem not_carried {called : List Call} {i : Nat} {name : String} (s : Nat)
    (hname : name ∉ namesCalled called) (hindex : ∀ t, .addState i t ∉ called) :
  ¬ Carried called i name s
  := by
  rintro (⟨states, hstates, -⟩ | hadded)
  · obtain ⟨call, hcall, hstored⟩ := List.mem_filterMap.mp (List.mem_of_getLast? hstates)
    apply hname
    rw [namesCalled, List.mem_eraseDups, List.mem_filterMap]
    use call, hcall
    cases call with
    | addLabel _ => cases hstored
    | addState _ _ => cases hstored
    | insertSet name' _ =>
        rw [Call.storedFor?] at hstored
        split at hstored
        · next hsame => rw [Call.name?, hsame]
        · cases hstored
  · apply hindex s
    apply (List.rtakeWhile_suffix _ _).subset hadded

/-! ### Names and indices -/

/-- The names of all labels, in the order of their indices. -/
def names (l : Labelling) : List String := l.labels.toList.map Label.name

/-- The name of a label is found at its index. -/
theorem name?_eq (l : Labelling) (i : Nat) :
  l.name? i = l.names[i]?
  := by
  rw [name?, names, List.getElem?_map, Array.getElem?_toList]

/-- If no name occurs twice, then the index of a name is where the name is found. -/
theorem index?_eq_some_iff {l : Labelling} (h : l.names.Nodup) {name : String} {i : Nat} :
  l.index? name = some i ↔ l.name? i = some name
  := by
  have hname : ∀ j, l.index? name = some j → l.name? j = some name := by
    intro j hj
    obtain ⟨hlt, hsame, -⟩ := Array.findIdx?_eq_some_iff_getElem.mp hj
    rw [name?, Array.getElem?_eq_getElem hlt, Option.map_some, eq_of_beq hsame]
  constructor
  · apply hname
  · intro hi
    cases hindex : l.index? name with
    | none =>
        obtain ⟨label, hlabel, hsame⟩ := Option.map_eq_some_iff.mp hi
        have hne := Array.findIdx?_eq_none_iff.mp hindex label (Array.mem_of_getElem? hlabel)
        rw [hsame, beq_self_eq_true] at hne
        cases hne
    | some j =>
        have hj := hname j hindex
        rw [name?_eq] at hi hj
        obtain ⟨hlt, hget⟩ := List.getElem?_eq_some_iff.mp hi
        obtain ⟨hlt', hget'⟩ := List.getElem?_eq_some_iff.mp hj
        rw [Option.some_inj]
        apply h.getElem_inj_iff.mp (hget'.trans hget.symm)

/-- A name without an index is that of no label. -/
theorem index?_eq_none_iff {l : Labelling} {name : String} :
  l.index? name = none ↔ name ∉ l.names
  := by
  rw [index?, Array.findIdx?_eq_none_iff, names, List.mem_map]
  constructor
  · rintro h ⟨label, hlabel, rfl⟩
    have hne := h label (Array.mem_toList_iff.mp hlabel)
    rw [beq_self_eq_true] at hne
    cases hne
  · intro h label hlabel
    rw [beq_eq_false_iff_ne]
    rintro rfl
    apply h ⟨label, Array.mem_toList_iff.mpr hlabel, rfl⟩

/-- A change of a label that keeps its name changes no name. -/
theorem names_modify (l : Labelling) (i : Nat) {f : Label → Label}
    (hf : ∀ label, (f label).name = label.name) :
  ({ l with labels := l.labels.modify i f } : Labelling).names = l.names
  := by
  apply List.ext_getElem?
  intro j
  rw [names, names, List.getElem?_map, List.getElem?_map, Array.getElem?_toList,
    Array.getElem?_toList, Array.getElem?_modify]
  split
  · cases l.labels[j]? with
    | none => rfl
    | some label => exact congrArg some (hf label)
  · rfl

/-- The labelling with a set in place of that of a label. -/
def stored (l : Labelling) (i : Nat) (states : StateSet) : Labelling :=
  { l with labels := l.labels.modify i fun label =>
    { label with count := states.size, states := states } }

/-- Storing a set changes no name. -/
theorem names_stored (l : Labelling) (i : Nat) (states : StateSet) :
  (l.stored i states).names = l.names
  := l.names_modify i fun _ => rfl

/-- The first state of a set that is not one of the model is refused, and otherwise the set is
stored for the label that is added for the name. -/
theorem insertSet_eq (l : Labelling) (name : String) (states : StateSet) :
  (l.insertSet name states : Except (CheckError V W) (Labelling × Nat))
    = match states.toList.find? fun s => decide (l.numStates ≤ s) with
      | some s => .error (.stateOutOfRange s l.numStates)
      | none => .ok ((l.addLabel name).1.stored (l.addLabel name).2 states, (l.addLabel name).2)
  := rfl

end Labelling

/-! ### What a labelling holds -/

/-- A label keeps the number of the states in its set, which are states of the model and carry
it. -/
structure Label.Holds (label : Label) (n : Nat) (called : List Labelling.Call) (i : Nat) :
    Prop where
  count : label.count = label.states.size
  within : label.states.Within n
  states : ∀ s, label.states.contains s = true ↔ Labelling.Carried called i label.name s

namespace Label.Holds

variable {label : Label} {n : Nat} {called : List Labelling.Call} {i : Nat}

/-- One more call that is not about the label leaves it as it is. -/
theorem concat (h : label.Holds n called i) {call : Labelling.Call}
    (hstored : call.storedFor? label.name = none) (hadded : ∀ s, call ≠ .addState i s) :
  label.Holds n (called ++ [call]) i
  where
  count := h.count
  within := h.within
  states s := by rw [h.states, Labelling.carried_concat_of_other called hstored hadded]

/-- One more state is added to the label. -/
theorem addState (h : label.Holds n called i) {s : Nat} (hs : s < n) :
  (label.addState s).Holds n (called ++ [.addState i s]) i
  := by
  have hcarried : ∀ t, Labelling.Carried (called ++ [.addState i s]) i label.name t
      ↔ label.states.contains t = true ∨ t = s := by
    intro t
    rw [Labelling.carried_concat_of_none called rfl, h.states, Labelling.Call.addState.injEq,
      and_iff_right rfl, eq_comm]
  rw [Label.addState]
  split
  · next hin =>
      refine ⟨h.count, h.within, ?_⟩
      intro t
      rw [hcarried]
      symm
      apply or_iff_left_of_imp
      rintro rfl
      apply hin
  · next hout =>
      constructor
      · rw [StateSet.size_insert (Bool.eq_false_iff.mpr hout), ← h.count]
      · intro t ht
        rw [StateSet.contains_insert, Bool.or_eq_true, beq_iff_eq] at ht
        obtain rfl | ht := ht
        · apply hs
        · apply h.within t ht
      · intro t
        rw [hcarried, StateSet.contains_insert, Bool.or_eq_true, beq_iff_eq, or_comm]

end Label.Holds

namespace Labelling

/-- A labelling for `n` states holds what calls give. -/
structure Holds (l : Labelling) (n : Nat) (called : List Call) : Prop where
  numStates : l.numStates = n
  names : l.names = namesCalled called
  lt_size : ∀ i s, .addState i s ∈ called → i < l.size
  labels : ∀ (i : Nat) (label : Label), l.labels[i]? = some label → label.Holds n called i

/-- The labelling without labels holds what no calls give. -/
theorem holds_empty (n : Nat) :
  (empty n).Holds n []
  := by
  refine ⟨rfl, rfl, ?_, ?_⟩
  · rintro i s ⟨⟩
  · rintro i label ⟨⟩

/-- A list that keeps each member where it is first has no member twice. -/
theorem nodup_eraseDups {α : Type} [BEq α] [LawfulBEq α] (members : List α) :
  members.eraseDups.Nodup
  := by
  induction members using List.reverseRecOn with
  | nil => exact List.nodup_nil
  | append_singleton members x ih =>
      rw [Mdp.Draft.eraseDups_concat]
      split
      · apply ih
      · next hx =>
          rw [← List.concat_eq_append]
          apply ih.concat hx

namespace Holds

variable {l : Labelling} {n : Nat} {called : List Call} (h : l.Holds n called)

include h

/-- No name occurs twice. -/
theorem nodup_names :
  l.names.Nodup
  := by
  rw [h.names]
  apply nodup_eraseDups

/-- A label is added unless it is there, and has the index that is returned. -/
theorem addLabel (name : String) :
  (l.addLabel name).1.Holds n (called ++ [.addLabel name])
    ∧ (l.addLabel name).1.index? name = some (l.addLabel name).2
  := by
  have hadded : ∀ i s, Call.addState i s ∈ called ++ [.addLabel name] → i < l.size := by
    intro i s hmem
    obtain hmem | hmem := List.mem_append.mp hmem
    · apply h.lt_size i s hmem
    · cases List.mem_singleton.mp hmem
  have hlabels : ∀ (i : Nat) (label : Label), l.labels[i]? = some label →
      label.Holds n (called ++ [.addLabel name]) i := by
    intro i label hlabel
    apply (h.labels i label hlabel).concat rfl
    rintro s ⟨⟩
  rw [Labelling.addLabel]
  cases hindex : l.index? name with
  | some i =>
      have hin : name ∈ namesCalled called := by
        rw [← h.names]
        by_contra hout
        rw [index?_eq_none_iff.mpr hout] at hindex
        cases hindex
      refine ⟨⟨h.numStates, ?_, hadded, hlabels⟩, hindex⟩
      rw [namesCalled_concat_of_some called rfl, if_pos hin, h.names]
  | none =>
      have hout : name ∉ namesCalled called := by
        rw [← h.names]
        apply index?_eq_none_iff.mp hindex
      have hholds : Holds { l with labels := l.labels.push ⟨name, 0, .empty l.numStates⟩ } n
          (called ++ [.addLabel name]) := by
        refine ⟨h.numStates, ?_, ?_, ?_⟩
        · rw [namesCalled_concat_of_some called rfl, if_neg hout, ← h.names]
          simp [Labelling.names]
        · intro i s hmem
          rw [Labelling.size, Array.size_push]
          apply Nat.lt_succ_of_lt (hadded i s hmem)
        · intro i label hlabel
          rw [Array.getElem?_push] at hlabel
          split at hlabel
          · next hi =>
              cases hlabel
              -- the label is new, so no call before was about it
              have hnone : ∀ s, ¬ Carried (called ++ [.addLabel name]) i name s := by
                intro s
                rw [carried_concat_of_other called rfl (by rintro t ⟨⟩)]
                apply not_carried s hout
                intro t hmem
                apply Nat.lt_irrefl i
                conv_rhs => rw [hi]
                apply h.lt_size i t hmem
              refine ⟨(StateSet.size_empty _).symm, ?_, ?_⟩
              · intro s hs
                rw [StateSet.contains_empty] at hs
                cases hs
              · intro s
                rw [StateSet.contains_empty]
                exact iff_of_false Bool.false_ne_true (hnone s)
          · apply hlabels i label hlabel
      refine ⟨hholds, ?_⟩
      rw [index?_eq_some_iff hholds.nodup_names, name?, Labelling.size, Array.getElem?_push_size]
      rfl

/-- A label that there is may be added to a state of the model. -/
theorem addState {i s : Nat} (hi : i < l.size) (hs : s < n) :
  ∃ l', l.addLabelToState? i s = some l' ∧ l'.Holds n (called ++ [.addState i s])
  := by
  refine ⟨_, if_pos ⟨hi, by rwa [h.numStates]⟩, h.numStates, ?_, ?_, ?_⟩
  · rw [namesCalled_concat_of_none called rfl, ← h.names]
    apply l.names_modify
    intro label
    rw [Label.addState]
    split <;> rfl
  · intro j t hmem
    rw [size, Array.size_modify]
    obtain hmem | hmem := List.mem_append.mp hmem
    · apply h.lt_size j t hmem
    · cases List.mem_singleton.mp hmem
      apply hi
  · intro j label hlabel
    rw [Array.getElem?_modify] at hlabel
    split at hlabel
    · next hij =>
        subst hij
        obtain ⟨label, hold, rfl⟩ := Option.map_eq_some_iff.mp hlabel
        apply (h.labels i label hold).addState hs
    · next hij =>
        apply (h.labels j label hlabel).concat rfl
        rintro t ⟨⟩
        apply hij rfl

omit h in
/-- A set of states of the model may be stored for a label that was added for it. -/
theorem store {name : String} (hadd : l.Holds n (called ++ [.addLabel name])) {i : Nat}
    (hindex : l.index? name = some i) {states : StateSet} (hstates : states.Within n) :
  (l.stored i states).Holds n (called ++ [.insertSet name states])
  := by
  refine ⟨hadd.numStates, ?_, ?_, ?_⟩
  · rw [names_stored, hadd.names, namesCalled_concat_of_some called rfl,
      namesCalled_concat_of_some called rfl]
  · intro j t hmem
    rw [size, stored, Array.size_modify]
    apply hadd.lt_size j t
    obtain hmem | hmem := List.mem_append.mp hmem
    · apply List.mem_append_left _ hmem
    · cases List.mem_singleton.mp hmem
  · intro j label hlabel
    have hname : ∀ (j : Nat) (label : Label), l.labels[j]? = some label →
        (l.index? name = some j ↔ label.name = name) := by
      intro j label hlabel
      rw [index?_eq_some_iff hadd.nodup_names, name?, hlabel, Option.map_some, Option.some_inj]
    rw [hindex] at hname
    rw [stored, Array.getElem?_modify] at hlabel
    split at hlabel
    · next hij =>
        subst hij
        obtain ⟨label, hold, rfl⟩ := Option.map_eq_some_iff.mp hlabel
        have hstored : Call.storedFor? label.name (.insertSet name states) = some states :=
          if_pos ((hname i label hold).mp rfl).symm
        refine ⟨rfl, hstates, ?_⟩
        intro t
        rw [carried_concat_of_some called hstored]
    · next hij =>
        have hold := hadd.labels j label hlabel
        have hstored : Call.storedFor? label.name (.insertSet name states) = none := by
          apply if_neg
          intro hsame
          apply hij
          apply Option.some_inj.mp ((hname j label hlabel).mpr hsame.symm)
        refine ⟨hold.count, hold.within, ?_⟩
        intro t
        rw [hold.states, carried_concat_of_other called rfl (by rintro u ⟨⟩),
          carried_concat_of_other called hstored (by rintro u ⟨⟩)]

/-- A set of states of the model may be stored under any name, and the index of its label is
returned. -/
theorem insertSet (name : String) {states : StateSet} (hstates : states.Within n) :
  ∃ l' i, (l.insertSet name states : Except (CheckError V W) _) = .ok (l', i)
    ∧ l'.Holds n (called ++ [.insertSet name states]) ∧ l'.index? name = some i
  := by
  have hnone : states.toList.find? (fun s => decide (l.numStates ≤ s)) = none := by
    rw [List.find?_eq_none]
    intro s hs
    rw [h.numStates, decide_eq_true_eq, not_le]
    apply hstates s (StateSet.mem_toList.mp hs)
  obtain ⟨hadd, hindex⟩ := h.addLabel name
  have hstore := hadd.store hindex hstates
  refine ⟨_, _, by rw [insertSet_eq, hnone], hstore, ?_⟩
  rw [index?_eq_some_iff hstore.nodup_names, name?_eq, names_stored, ← name?_eq]
  apply (index?_eq_some_iff hadd.nodup_names).mp hindex

end Holds

end Labelling

end Reachability
