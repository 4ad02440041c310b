import Mathlib
import Reachability.Proofs.Assembly

/-!
# Owners that calls give

The draft of a game is the draft of a process with a table of owners beside it.  The calls on it
change both (`Game.Draft.Call.perform`), and a call is refused before it has changed either of
them (`Game.Draft.Holds.answers`).

After any calls there is one owner for each state, and it is the last one that a call gave to the
state, or the first player if none did (`Game.Draft.holds_journal`).  The finished game has these
owners (`Game.Represents`).
-/

namespace Reachability

variable {V W : Type}

/-! ### Tags of players -/

namespace Player

/-- The cause to refuse a tag that is that of no player. -/
def tagRefusal? (tag : Int) : Option (CheckError V W) :=
  match ofTag? tag with
  | some _ => none
  | none => some (.invalidPlayer tag)

/-- A tag that is refused is that of no player. -/
theorem ofTag_eq_error {tag : Int} {e : CheckError V W} (h : tagRefusal? tag = some e) :
  ofTag tag = .error e
  := by
  rw [tagRefusal?] at h
  rw [ofTag]
  cases htag : ofTag? tag with
  | none =>
      rw [htag] at h
      cases h
      rfl
  | some p =>
      rw [htag] at h
      cases h

/-- A tag that is not refused is that of a player. -/
theorem exists_ofTag {tag : Int} (h : (tagRefusal? tag : Option (CheckError V W)) = none) :
  ∃ p, (ofTag tag : Except (CheckError V W) Player) = .ok p
  := by
  rw [tagRefusal?] at h
  cases htag : ofTag? tag with
  | none =>
      rw [htag] at h
      cases h
  | some p =>
      use p
      rw [ofTag, htag]

/-- The player of a tag. -/
theorem ofTag_eq_ok_iff {tag : Int} {p : Player} :
  (ofTag tag : Except (CheckError V W) Player) = .ok p ↔ ofTag? tag = some p
  := by
  rw [ofTag]
  cases ofTag? tag with
  | none =>
      constructor
      · rintro ⟨⟩
      · rintro ⟨⟩
  | some q =>
      rw [Except.ok.injEq, Option.some_inj]

/-- The owner of a state that exists is changed to the player of a tag. -/
theorem relabel_of_ofTag {players : Array Player} {s : Nat} {tag : Int} {p : Player}
    (hp : (ofTag tag : Except (CheckError V W) Player) = .ok p) :
  (relabel players s tag : Except (CheckError V W) (Array Player))
    = if s < players.size then .ok (players.setIfInBounds s p)
      else .error (.stateOutOfRange s players.size)
  := by
  rw [relabel, hp]
  rfl

/-- An owner is changed if the tag is that of a player and the state exists. -/
theorem relabel_eq_ok_iff {players players' : Array Player} {s : Nat} {tag : Int} :
  (relabel players s tag : Except (CheckError V W) (Array Player)) = .ok players'
    ↔ ∃ p, ofTag? tag = some p ∧ s < players.size ∧ players' = players.setIfInBounds s p
  := by
  simp only [← ofTag_eq_ok_iff (V := V) (W := W)]
  cases hp : (ofTag tag : Except (CheckError V W) Player) with
  | error e =>
      rw [relabel, hp]
      simp [bind, Except.bind]
  | ok p =>
      rw [relabel_of_ofTag hp]
      split
      · next hs => simp [hs, eq_comm]
      · next hs => simp [hs]

/-- The first tag that is that of no player is the one that is refused. -/
theorem mapM_ofTag_eq_error {tags : List Int} {e : CheckError V W}
    (h : tags.findSome? tagRefusal? = some e) :
  tags.mapM ofTag = .error e
  := by
  induction tags with
  | nil => cases h
  | cons tag tags ih =>
      rw [List.mapM_cons]
      rw [List.findSome?_cons] at h
      split at h
      · next e' hrefusal =>
          cases h
          rw [ofTag_eq_error hrefusal]
          rfl
      · next hrefusal =>
          obtain ⟨p, hp⟩ := exists_ofTag hrefusal
          rw [hp, ih h]
          rfl

/-- Tags of which none is refused are those of players. -/
theorem exists_mapM_ofTag {tags : List Int}
    (h : tags.findSome? (tagRefusal? : Int → Option (CheckError V W)) = none) :
  ∃ players, (tags.mapM ofTag : Except (CheckError V W) (List Player)) = .ok players
  := by
  induction tags with
  | nil => exact ⟨[], rfl⟩
  | cons tag tags ih =>
      rw [List.findSome?_cons] at h
      split at h
      · cases h
      · next hrefusal =>
          obtain ⟨p, hp⟩ := exists_ofTag hrefusal
          obtain ⟨players, hplayers⟩ := ih h
          use p :: players
          rw [List.mapM_cons, hp, hplayers]
          rfl

/-- The players of tags. -/
theorem map_ofTag?_of_mapM {tags : List Int} {players : List Player}
    (h : (tags.mapM ofTag : Except (CheckError V W) (List Player)) = .ok players) :
  tags.map ofTag? = players.map some
  := by
  induction tags generalizing players with
  | nil =>
      cases h
      rfl
  | cons tag tags ih =>
      rw [List.mapM_cons] at h
      obtain ⟨p, hp, h⟩ := Except.bind_eq_ok_iff.mp h
      obtain ⟨rest, hrest, h⟩ := Except.bind_eq_ok_iff.mp h
      cases h
      rw [List.map_cons, List.map_cons, ofTag_eq_ok_iff.mp hp, ih hrest]

/-- The player of one of several tags. -/
theorem getElem?_of_mapM {tags : List Int} {players : List Player}
    (h : (tags.mapM ofTag : Except (CheckError V W) (List Player)) = .ok players) (i : Nat) :
  players[i]? = tags[i]?.bind ofTag?
  := by
  have hplace := congrArg (fun owners => owners[i]?) (map_ofTag?_of_mapM h)
  simp only [List.getElem?_map] at hplace
  cases htag : tags[i]? with
  | none =>
      rw [htag] at hplace
      apply Option.map_eq_none_iff.mp hplace.symm
  | some tag =>
      rw [htag] at hplace
      obtain ⟨p, hp, howner⟩ := Option.map_eq_some_iff.mp hplace.symm
      rw [hp, Option.bind_some, ← howner]

end Player

/-! ### Calls on the draft of a game -/

namespace Game.Draft

/-- The calls that change the draft of a game. -/
inductive Call (V : Type) where
  | addStates (count : Nat)
  | addStatesFor (tags : List Int)
  | setPlayer (s : Nat) (tag : Int)
  | addInitialState (s : Nat)
  | addChoice (s : Nat) (choice : Choice V)

/-- The call on the draft of the process that a call makes. -/
def Call.onProcess? : Call V → Option (Mdp.Draft.Call V)
  | .addStates count => some (.addStates count)
  | .addStatesFor tags => some (.addStates tags.length)
  | .setPlayer _ _ => none
  | .addInitialState s => some (.addInitialState s)
  | .addChoice s choice => some (.addChoice s choice)

/-- The steps of a call on the draft of the process. -/
def performOnProcess (call : Mdp.Draft.Call V) : EStateM (CheckError V W) (Draft V) Reply :=
  InPlace.within Draft.mdp (fun b mdp => { b with mdp := mdp }) call.perform

/-- The steps of a call. -/
def Call.perform : Call V → EStateM (CheckError V W) (Draft V) Reply
  | .addStates count => do
    modify fun b => { b with players := b.players ++ Array.replicate count .one }
    performOnProcess (.addStates count)
  | .addStatesFor tags => do
    let players ← MonadExcept.ofExcept (tags.mapM Player.ofTag)
    modify fun b => { b with players := b.players ++ players.toArray }
    performOnProcess (.addStates tags.length)
  | .setPlayer s tag => do
    let p ← MonadExcept.ofExcept (Player.ofTag tag)
    let b ← get
    if s < b.players.size then
      modify fun b => { b with players := b.players.setIfInBounds s p }
      return .done
    else throw (.stateOutOfRange s b.players.size)
  | .addInitialState s => performOnProcess (.addInitialState s)
  | .addChoice s choice => performOnProcess (.addChoice s choice)

/-- The operation of a call. -/
def Call.apply (b : Draft V) : Call V → Except (CheckError V W) (Draft V × Reply)
  | .addStates count =>
    .ok (b.addStates count, .states b.mdp.numStates (b.mdp.numStates + count))
  | .addStatesFor tags => (b.addStatesFor tags).map fun b' =>
    (b', .states b.mdp.numStates (b.mdp.numStates + tags.length))
  | .setPlayer s tag => (b.setPlayer s tag).map fun b' => (b', .done)
  | .addInitialState s => (b.addInitialState s).map fun b' => (b', .done)
  | .addChoice s choice => (b.addChoice s choice).map fun (b', c) => (b', .choice c)

/-- The steps of a call do what its operation does. -/
theorem Call.run_perform (call : Call V) (b : Draft V) :
  (call.perform : EStateM (CheckError V W) (Draft V) Reply).run b
    = InPlace.outcome b (call.apply b)
  := by
  cases call with
  | addStates count => rfl
  | addStatesFor tags =>
      rw [perform, apply, Draft.addStatesFor]
      cases (tags.mapM Player.ofTag : Except (CheckError V W) (List Player)) with
      | error e => rfl
      | ok players => rfl
  | setPlayer s tag =>
      rw [perform, apply, Draft.setPlayer]
      cases hp : (Player.ofTag tag : Except (CheckError V W) Player) with
      | error e =>
          rw [Player.relabel, hp]
          rfl
      | ok p =>
          have htag : (MonadExcept.ofExcept (.ok p) :
              EStateM (CheckError V W) (Draft V) Player).run b = .ok p b := rfl
          rw [Player.relabel_of_ofTag hp, EStateM.run_bind, htag]
          dsimp only
          rw [EStateM.run_bind, EStateM.run_get]
          dsimp only
          by_cases hs : s < b.players.size
          · rw [if_pos hs, if_pos hs]
            rfl
          · rw [if_neg hs, if_neg hs]
            rfl
  | addInitialState s =>
      rw [perform, apply, performOnProcess, InPlace.run_within, Mdp.Draft.Call.run_perform,
        Mdp.Draft.Call.apply, Draft.addInitialState]
      cases (b.mdp.addInitialState s : Except (CheckError V W) (Mdp.Draft V)) with
      | error e => rfl
      | ok mdp => rfl
  | addChoice s choice =>
      rw [perform, apply, performOnProcess, InPlace.run_within, Mdp.Draft.Call.run_perform,
        Mdp.Draft.Call.apply, Draft.addChoice]
      cases (b.mdp.addChoice s choice : Except (CheckError V W) (Mdp.Draft V × Nat)) with
      | error e => rfl
      | ok added => rfl

/-- The cause to refuse a call on a draft with `numStates` states. -/
def Call.refusal? (numStates : Nat) : Call V → Option (CheckError V W)
  | .addStates _ => none
  | .addStatesFor tags => tags.findSome? Player.tagRefusal?
  | .setPlayer s tag => (Player.tagRefusal? tag).or (Mdp.Draft.stateRefusal? numStates s)
  | .addInitialState s => Mdp.Draft.stateRefusal? numStates s
  | .addChoice s _ => Mdp.Draft.stateRefusal? numStates s

/-! ### What calls add to games -/

/-- The calls on the draft of the process that calls make, with their replies. -/
def processCalls (accepted : List (Call V × Reply)) : List (Mdp.Draft.Call V × Reply) :=
  accepted.filterMap fun (call, reply) => call.onProcess?.map fun onProcess => (onProcess, reply)

/-- The owner that a call gives to a state, which may be one of those that it adds. -/
def ownerFor? (s : Nat) : Call V × Reply → Option Player
  | (.addStatesFor tags, .states start _) =>
    if start ≤ s then tags[s - start]?.bind Player.ofTag? else none
  | (.setPlayer t tag, _) => if t = s then Player.ofTag? tag else none
  | _ => none

/-- The owner that calls give to a state: the last one, or the first player if they give none. -/
def ownerAdded (accepted : List (Call V × Reply)) (s : Nat) : Player :=
  (accepted.filterMap (ownerFor? s)).getLast?.getD .one

/-- The reply to a call that succeeds after others. -/
def Call.replyAfter (accepted : List (Call V × Reply)) (call : Call V) : Reply :=
  match call.onProcess? with
  | some onProcess => onProcess.replyAfter (processCalls accepted)
  | none => .done

section Concat

variable (accepted : List (Call V × Reply)) (call : Call V) (reply : Reply)

/-- One more call makes its call on the draft of the process. -/
theorem processCalls_concat :
  processCalls (accepted ++ [(call, reply)])
    = processCalls accepted ++ (call.onProcess?.map fun onProcess => (onProcess, reply)).toList
  := by
  rw [processCalls, List.filterMap_append]
  cases hprocess : call.onProcess? <;> simp [processCalls, hprocess]

/-- The owner that one more call gives takes the place of the one before. -/
theorem ownerAdded_concat (s : Nat) :
  ownerAdded (accepted ++ [(call, reply)]) s
    = (ownerFor? s (call, reply)).getD (ownerAdded accepted s)
  := by
  rw [ownerAdded, List.filterMap_append]
  cases howner : ownerFor? s (call, reply) <;> simp [ownerAdded, howner]

end Concat

/-- The draft of a game holds what calls add. -/
structure Holds (b : Draft V) (accepted : List (Call V × Reply)) : Prop where
  process : b.mdp.Holds (processCalls accepted)
  size_players : b.players.size = b.mdp.numStates
  owner : ∀ s, b.players[s]?.getD .one = ownerAdded accepted s

/-- The draft without states holds what no calls add. -/
theorem holds_empty :
  (empty : Draft V).Holds []
  := ⟨Mdp.Draft.holds_empty, rfl, fun _ => rfl⟩

namespace Holds

variable {b : Draft V} {accepted : List (Call V × Reply)} (h : b.Holds accepted)

include h

/-- A call that gives no owner and adds no states, and succeeds on the process, adds to what the
draft holds. -/
theorem concat_onProcess {call : Call V} {onProcess : Mdp.Draft.Call V} {mdp : Mdp.Draft V}
    {reply : Reply} (hcall : call.onProcess? = some onProcess) (hstates : onProcess.stateCount = 0)
    (howner : ∀ s, ownerFor? s (call, reply) = none)
    (happly : (onProcess.apply b.mdp : Except (CheckError V W) _) = .ok (mdp, reply)) :
  ({ b with mdp := mdp } : Draft V).Holds (accepted ++ [(call, reply)])
  := by
  have hmdp := h.process.concat happly
  constructor
  · rw [processCalls_concat, hcall]
    exact hmdp
  · rw [hmdp.numStates, Mdp.Draft.numStatesAdded_concat, hstates, h.size_players,
      h.process.numStates]
    rfl
  · intro s
    rw [ownerAdded_concat, howner, ← h.owner]
    rfl

/-- A call that succeeds adds to what a draft holds. -/
theorem concat {call : Call V} {b' : Draft V} {reply : Reply}
    (happly : (call.apply b : Except (CheckError V W) _) = .ok (b', reply)) :
  b'.Holds (accepted ++ [(call, reply)])
  := by
  have hstates : ∀ count,
      (Mdp.Draft.Call.apply b.mdp (.addStates count) : Except (CheckError V W) _)
        = .ok (b.mdp.addStates count, .states b.mdp.numStates (b.mdp.numStates + count)) :=
    fun _ => rfl
  cases call with
  | addStates count =>
      cases happly
      constructor
      · rw [processCalls_concat]
        apply h.process.concat (hstates count)
      · simp [Draft.addStates, h.size_players]
      · intro s
        rw [ownerAdded_concat, addStates, Mdp.Draft.getD_append_replicate, h.owner]
        rfl
  | addStatesFor tags =>
      obtain ⟨added, hadd, hsame⟩ := Except.map_eq_ok_iff.mp happly
      cases hsame
      obtain ⟨players, hplayers, hsame⟩ := Except.bind_eq_ok_iff.mp hadd
      cases hsame
      constructor
      · rw [processCalls_concat]
        apply h.process.concat (hstates tags.length)
      · have hlength := congrArg List.length (Player.map_ofTag?_of_mapM hplayers)
        rw [List.length_map, List.length_map] at hlength
        simp [h.size_players, hlength]
      · intro s
        rw [ownerAdded_concat, ownerFor?, ← h.owner, ← h.size_players, Array.getElem?_append]
        by_cases hs : s < b.players.size
        · rw [if_pos hs, if_neg (Nat.not_le_of_gt hs)]
          rfl
        · rw [if_neg hs, if_pos (Nat.le_of_not_lt hs), Array.getElem?_eq_none (Nat.le_of_not_lt hs),
            ← Player.getElem?_of_mapM hplayers, List.getElem?_toArray]
          cases players[s - b.players.size]? with
          | none => rfl
          | some p => rfl
  | setPlayer s tag =>
      obtain ⟨added, hset, hsame⟩ := Except.map_eq_ok_iff.mp happly
      cases hsame
      obtain ⟨players, hrelabel, hsame⟩ := Except.bind_eq_ok_iff.mp hset
      cases hsame
      obtain ⟨p, hp, hs, rfl⟩ := Player.relabel_eq_ok_iff.mp hrelabel
      constructor
      · rw [processCalls_concat, Call.onProcess?, Option.map_none, Option.toList_none,
          List.append_nil]
        exact h.process
      · rw [Array.size_setIfInBounds, h.size_players]
      · intro t
        rw [ownerAdded_concat, ownerFor?, ← h.owner, Array.getElem?_setIfInBounds]
        by_cases ht : s = t
        · rw [if_pos ht, if_pos ht, if_pos hs, hp]
          rfl
        · rw [if_neg ht, if_neg ht]
          rfl
  | addInitialState s =>
      obtain ⟨added, hadd, hsame⟩ := Except.map_eq_ok_iff.mp happly
      cases hsame
      obtain ⟨mdp, hmdp, hsame⟩ := Except.bind_eq_ok_iff.mp hadd
      cases hsame
      have hprocess : (Mdp.Draft.Call.apply b.mdp (.addInitialState s) : Except (CheckError V W) _)
          = .ok (mdp, .done) := Except.map_eq_ok_iff.mpr ⟨mdp, hmdp, rfl⟩
      apply h.concat_onProcess rfl rfl (fun _ => rfl) hprocess
  | addChoice s choice =>
      obtain ⟨added, hadd, hsame⟩ := Except.map_eq_ok_iff.mp happly
      cases hsame
      obtain ⟨⟨mdp, c⟩, hmdp, hsame⟩ := Except.bind_eq_ok_iff.mp hadd
      cases hsame
      have hprocess : (Mdp.Draft.Call.apply b.mdp (.addChoice s choice) : Except (CheckError V W) _)
          = .ok (mdp, .choice c) := Except.map_eq_ok_iff.mpr ⟨(mdp, c), hmdp, rfl⟩
      apply h.concat_onProcess rfl rfl (fun _ => rfl) hprocess

/-- A draft refuses calls for tags that are those of no player and for states that do not
exist. -/
theorem answers (call : Call V) :
  InPlace.Answers (call.perform : EStateM (CheckError V W) (Draft V) Reply) b
    (call.refusal? b.mdp.numStates) (call.replyAfter accepted)
  := by
  cases call with
  | addStates count =>
      constructor
      · rintro e ⟨⟩
      · rintro -
        use b.addStates count
        rw [Call.run_perform, InPlace.outcome_eq_ok_iff, Call.apply, h.process.numStates]
        rfl
  | addStatesFor tags =>
      constructor
      · intro e he
        rw [Call.run_perform, InPlace.outcome_eq_error_iff, Call.apply, addStatesFor,
          Player.mapM_ofTag_eq_error he]
        exact ⟨rfl, rfl⟩
      · intro hnone
        obtain ⟨players, hplayers⟩ := Player.exists_mapM_ofTag hnone
        simp only [Call.run_perform, InPlace.outcome_eq_ok_iff, Call.apply, addStatesFor, hplayers,
          h.process.numStates]
        exact ⟨_, rfl⟩
  | setPlayer s tag =>
      constructor
      · intro e he
        rw [Call.run_perform, InPlace.outcome_eq_error_iff, Call.apply, setPlayer]
        rw [Call.refusal?] at he
        cases htag : (Player.tagRefusal? tag : Option (CheckError V W)) with
        | none =>
            obtain ⟨p, hp⟩ := Player.exists_ofTag htag
            rw [htag] at he
            obtain ⟨hs, rfl⟩ := Mdp.Draft.stateRefusal?_eq_some_iff.mp he
            rw [Player.relabel_of_ofTag hp, h.size_players, if_neg (Nat.not_lt_of_ge hs)]
            exact ⟨rfl, rfl⟩
        | some e' =>
            rw [htag] at he
            cases he
            rw [Player.relabel, Player.ofTag_eq_error htag]
            exact ⟨rfl, rfl⟩
      · intro hnone
        obtain ⟨htag, hstate⟩ := Option.or_eq_none_iff.mp hnone
        obtain ⟨p, hp⟩ := Player.exists_ofTag htag
        have hs := Mdp.Draft.stateRefusal?_eq_none_iff.mp hstate
        rw [← h.size_players] at hs
        simp only [Call.run_perform, InPlace.outcome_eq_ok_iff, Call.apply, setPlayer,
          Player.relabel_of_ofTag hp, if_pos hs]
        exact ⟨_, rfl⟩
  | addInitialState s => exact h.process.answers_within rfl (.addInitialState s)
  | addChoice s choice => exact h.process.answers_within rfl (.addChoice s choice)

end Holds

variable (W) in
/-- The journal of calls on the draft without states. -/
def journal (calls : List (Call V)) : Journal (Call V) (Draft V) :=
  .ofCalls (Call.perform (W := W)) empty calls

/-- What calls leave behind holds what the calls that succeeded add. -/
theorem holds_journal (calls : List (Call V)) :
  (journal W calls).state.Holds (journal W calls).accepted
  := Journal.ofCalls_induction Call.run_perform holds_empty
    (fun _ _ _ _ _ h happly => h.concat happly) calls

end Game.Draft

/-! ### What games represent -/

namespace Game

variable [Arithmetic V]

/-- A game represents what calls add. -/
structure Represents (g : Game V) (accepted : List (Draft.Call V × Reply)) : Prop where
  mdp : g.mdp.Represents (Draft.processCalls accepted)
  owner : ∀ s < g.mdp.numStates, g.owner? s = some (Draft.ownerAdded accepted s)

namespace Draft

variable {b : Draft V} {accepted : List (Draft.Call V × Reply)}

/-- The game of a draft represents what calls add if the draft holds it. -/
theorem Holds.represents (h : b.Holds accepted) :
  (⟨b.mdp.process, b.players⟩ : Game V).Represents accepted
  where
  mdp := h.process.represents
  owner s hs := by
    have hlt : s < b.players.size := by
      rw [h.size_players]
      exact hs
    rw [owner?, ← h.owner, Array.getElem?_eq_getElem hlt]
    rfl

/-- A draft that holds what calls add is refused for the first fault among the choices, or they all
fit, and it is finished as a game that represents what calls add. -/
theorem Holds.build (h : b.Holds accepted) :
  (∃ e, Mdp.Draft.FirstFault W (processCalls accepted) e ∧ b.build = .error e)
    ∨ Mdp.Draft.AllFit W (processCalls accepted)
      ∧ ∃ g, (b.build : Except (CheckError V W) (Game V)) = .ok g ∧ g.Represents accepted
  := by
  refine h.process.build_of (fun m => ⟨m, b.players⟩) ?_ h.represents
  rw [Draft.build]
  cases (b.mdp.build : Except (CheckError V W) (Mdp V)) with
  | error e => rfl
  | ok m => rfl

variable (W) in
/-- The draft of a game is in step with the calls that succeeded: it has one owner for each state, a
call that fails changes nothing, and the draft is refused for the first fault among the choices, or
these all fit, and it is finished as a game that represents the calls. -/
structure InStep (j : Journal (Draft.Call V) (Draft V)) : Prop where
  size_players : j.state.players.size = j.state.mdp.numStates
  answers : ∀ call : Draft.Call V, InPlace.Answers
    (call.perform : EStateM (CheckError V W) (Draft V) Reply) j.state
    (call.refusal? j.state.mdp.numStates) (call.replyAfter j.accepted)
  unchanged : ∀ (call : Draft.Call V) (e : CheckError V W) (b' : Draft V),
    call.perform.run j.state = .error e b' → b' = j.state
  build : (∃ e, Mdp.Draft.FirstFault W (processCalls j.accepted) e ∧ j.state.build = .error e)
    ∨ Mdp.Draft.AllFit W (processCalls j.accepted)
      ∧ ∃ g, (j.state.build : Except (CheckError V W) (Game V)) = .ok g ∧ g.Represents j.accepted

/-- Calls on the draft without states leave a draft that is in step with those that succeeded. -/
theorem inStep_journal (calls : List (Draft.Call V)) :
  InStep W (journal W calls)
  where
  size_players := (holds_journal calls).size_players
  answers := (holds_journal calls).answers
  unchanged call _ _ herror := ((holds_journal calls).answers call).eq_of_error herror
  build := (holds_journal calls).build

end Draft

end Game

end Reachability
