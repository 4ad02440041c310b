/-!
# Tables in order of insertion

A `Table` maps natural numbers to values and remembers the order in which its keys were first
inserted.  Inserting under a key that is present replaces its value and moves nothing; no key
occurs twice.
-/

namespace Reachability

/-- Keys with their values, the key inserted first at the front. -/
structure Table (α : Type) where
  entries : List (Nat × α)
  distinct : (entries.map Prod.fst).Nodup

namespace Table

variable {α : Type}

/-- The table without keys. -/
def empty : Table α := ⟨[], List.nodup_nil⟩

/-- The value under a key. -/
def get? (t : Table α) (key : Nat) : Option α := t.entries.lookup key

/-- The keys in order of insertion. -/
def keys (t : Table α) : List Nat := t.entries.map Prod.fst

/-- The number of keys. -/
def size (t : Table α) : Nat := t.entries.length

/-- The entries with the value under a key replaced. -/
def replace (key : Nat) (value : α) (entries : List (Nat × α)) : List (Nat × α) :=
  entries.map fun entry => if entry.1 = key then (key, value) else entry

theorem map_fst_replace (key : Nat) (value : α) (entries : List (Nat × α)) :
  (replace key value entries).map Prod.fst = entries.map Prod.fst
  := by
  induction entries with
  | nil => rfl
  | cons entry entries ih =>
    simp only [replace, List.map_cons] at ih ⊢
    rw [ih]
    split <;> simp_all

/-- The table with a value under a key. -/
def insert (t : Table α) (key : Nat) (value : α) : Table α :=
  if h : key ∈ t.keys then
    ⟨replace key value t.entries, by rw [map_fst_replace]; exact t.distinct⟩
  else
    ⟨t.entries ++ [(key, value)], by
      rw [List.map_append, List.map_singleton, List.nodup_append]
      refine ⟨t.distinct, by simp, ?_⟩
      intro a ha b hb
      obtain rfl := List.mem_singleton.1 hb
      exact fun hab => h (hab ▸ ha)⟩

/-- A key that is present keeps its place, and a new key goes to the end. -/
theorem keys_insert (t : Table α) (key : Nat) (value : α) :
  (t.insert key value).keys = if key ∈ t.keys then t.keys else t.keys ++ [key]
  := by
  unfold insert
  split
  · simpa [keys] using map_fst_replace key value t.entries
  · simp [keys]

theorem lookup_replace (key k : Nat) (value : α) (entries : List (Nat × α)) :
  (replace key value entries).lookup k
    = if k = key then (if key ∈ entries.map Prod.fst then some value else none)
      else entries.lookup k
  := by
  induction entries with
  | nil => simp [replace]
  | cons entry entries ih =>
    obtain ⟨j, x⟩ := entry
    have step : replace key value ((j, x) :: entries)
        = (if j = key then (key, value) else (j, x)) :: replace key value entries := rfl
    rw [step]
    by_cases hj : j = key
    · subst hj
      by_cases hk : k = j
      · simp [hk]
      · have : (k == j) = false := by simp [hk]
        simp [List.lookup_cons, this, ih, hk]
    · by_cases hk : k = key
      · subst hk
        have : (k == j) = false := by simp [Ne.symm hj]
        have hne : ¬ k = j := fun h => hj h.symm
        simp only [hj, if_false, List.lookup_cons, this, ih, if_true, List.map_cons,
          List.mem_cons, hne, false_or]
      · simp only [hj, if_false, List.lookup_cons, ih, hk]

theorem lookup_append_new (key k : Nat) (value : α) (entries : List (Nat × α))
    (h : key ∉ entries.map Prod.fst) :
  (entries ++ [(key, value)]).lookup k = if k = key then some value else entries.lookup k
  := by
  induction entries with
  | nil =>
    by_cases hk : k = key
    · simp [hk]
    · have : (k == key) = false := by simp [hk]
      simp [List.lookup_cons, this, hk]
  | cons entry entries ih =>
    obtain ⟨j, x⟩ := entry
    simp only [List.map_cons, List.mem_cons, not_or] at h
    rw [List.cons_append, List.lookup_cons, List.lookup_cons, ih h.2]
    by_cases hk : k = key
    · have : (key == j) = false := by simp [h.1]
      simp [hk, this]
    · simp [hk]

/-- The value inserted last under a key is the one that is found. -/
@[simp]
theorem get?_insert (t : Table α) (key k : Nat) (value : α) :
  (t.insert key value).get? k = if k = key then some value else t.get? k
  := by
  unfold insert
  split
  · next h =>
    have h' : key ∈ t.entries.map Prod.fst := h
    simp only [get?, lookup_replace, h', if_true]
  · next h => exact lookup_append_new key k value t.entries h

end Table

end Reachability
