import ReflectedSchema.Number.Shortest

/-!
# JSON values

An object keeps its fields in the order in which they were first written.  Integers and doubles are
different numbers, as they are in JSON text.  `Json.set` is the one way to add a field: an existing
name keeps its place and takes the new value.
-/

namespace ReflectedSchema

/-- A JSON value. -/
inductive Json where
  | null
  | bool (b : Bool)
  | int (n : Int)
  | float (x : Binary64)
  | str (s : String)
  | arr (items : List Json)
  | obj (fields : List (String × Json))
  deriving Inhabited, Repr

namespace Json

/-- The value of the first entry with a key. -/
def lookup {κ α : Type} [DecidableEq κ] (key : κ) : List (κ × α) → Option α
  | [] => none
  | (k, v) :: rest => if k = key then some v else lookup key rest

/-- Replace the value of a key in place, or add the key at the end. -/
def set {κ α : Type} [DecidableEq κ] (key : κ) (value : α) : List (κ × α) → List (κ × α)
  | [] => [(key, value)]
  | (k, v) :: rest => if k = key then (k, value) :: rest else (k, v) :: set key value rest

/-- The entries without a key. -/
def erase {κ α : Type} [DecidableEq κ] (key : κ) (entries : List (κ × α)) : List (κ × α) :=
  entries.filter (·.1 ≠ key)

/-- Entries with each key once, at its first place and with its last value. -/
def merge {α : Type} (entries : List (String × α)) : List (String × α) :=
  entries.foldl (fun merged (k, v) => set k v merged) []

/-- The field of an object. -/
def field? (key : String) : Json → Option Json
  | .obj fields => lookup key fields
  | _ => none

/-- The text of a string value. -/
def str? : Json → Option String
  | .str s => some s
  | _ => none

/-- The items of an array. -/
def arr? : Json → Option (List Json)
  | .arr items => some items
  | _ => none

/-- The fields of an object. -/
def obj? : Json → Option (List (String × Json))
  | .obj fields => some fields
  | _ => none

mutual

/-- How many arrays and objects lie inside each other. -/
def depth : Json → Nat
  | .arr items => depthOfItems items + 1
  | .obj fields => depthOfFields fields + 1
  | _ => 0

/-- The depth of the deepest item. -/
def depthOfItems : List Json → Nat
  | [] => 0
  | item :: rest => max item.depth (depthOfItems rest)

/-- The depth of the deepest field. -/
def depthOfFields : List (String × Json) → Nat
  | [] => 0
  | (_, value) :: rest => max value.depth (depthOfFields rest)

end

mutual

/-- The number of values inside a value, itself included. -/
def size : Json → Nat
  | .arr items => sizeOfItems items + 1
  | .obj fields => sizeOfFields fields + 1
  | _ => 1

/-- The number of values inside the items. -/
def sizeOfItems : List Json → Nat
  | [] => 0
  | item :: rest => item.size + sizeOfItems rest

/-- The number of values inside the fields. -/
def sizeOfFields : List (String × Json) → Nat
  | [] => 0
  | (_, value) :: rest => value.size + sizeOfFields rest

end

/-- An induction principle over the values inside a value. -/
theorem inductionOn {P : Json → Prop} (v : Json) (null : P .null) (bool : ∀ b, P (.bool b))
    (int : ∀ n, P (.int n)) (float : ∀ x, P (.float x)) (str : ∀ s, P (.str s))
    (arr : ∀ items, (∀ item ∈ items, P item) → P (.arr items))
    (obj : ∀ fields, (∀ f ∈ fields, P f.2) → P (.obj fields)) : P v :=
  match v with
  | .null => null
  | .bool b => bool b
  | .int n => int n
  | .float x => float x
  | .str s => str s
  | .arr items => arr items fun item _ => inductionOn item null bool int float str arr obj
  | .obj fields => obj fields fun f _ => inductionOn f.2 null bool int float str arr obj
termination_by v
decreasing_by
  · simp only [Json.arr.sizeOf_spec]
    have := List.sizeOf_lt_of_mem ‹item ∈ items›
    omega
  · simp only [Json.obj.sizeOf_spec]
    have h := List.sizeOf_lt_of_mem ‹f ∈ fields›
    have : sizeOf f.2 < sizeOf f := by cases f; simp +arith
    omega

/-- Nothing is found among no entries. -/
@[simp] theorem lookup_nil {κ α : Type} [DecidableEq κ] (key : κ) :
    lookup key ([] : List (κ × α)) = none := rfl

/-- Looking a key up after setting one. -/
theorem lookup_set {κ α : Type} [DecidableEq κ] (key other : κ) (value : α)
    (entries : List (κ × α)) :
    lookup other (set key value entries) = if other = key then some value else lookup other entries := by
  induction entries with
  | nil => simp [set, lookup, eq_comm]
  | cons e rest ih =>
    obtain ⟨k, v⟩ := e
    by_cases hk : k = key
    · subst hk
      by_cases ho : other = k <;> simp [set, lookup, ho, eq_comm]
    · by_cases ho : k = other
      · subst ho; simp [set, lookup, hk]
      · simp [set, lookup, hk, ho, ih]

/-- The keys after setting one: an old key keeps its place, a new one comes last. -/
theorem keys_set {κ α : Type} [DecidableEq κ] (key : κ) (value : α) (entries : List (κ × α)) :
    (set key value entries).map (·.1) =
      if key ∈ entries.map (·.1) then entries.map (·.1) else entries.map (·.1) ++ [key] := by
  induction entries with
  | nil => simp [set]
  | cons e rest ih =>
    obtain ⟨k, v⟩ := e
    by_cases hk : k = key
    · subst hk; simp [set]
    · have hk' : key ≠ k := fun h => hk h.symm
      simp only [set, hk, if_false, List.map_cons, ih, List.mem_cons, hk', false_or]
      split <;> simp

/-- An erased key is not found again, and no other is lost. -/
theorem lookup_erase {κ α : Type} [DecidableEq κ] (key other : κ) (entries : List (κ × α)) :
    lookup other (erase key entries) = if other = key then none else lookup other entries := by
  induction entries with
  | nil => simp [erase, lookup]
  | cons e rest ih =>
    obtain ⟨k, v⟩ := e
    simp only [erase] at ih ⊢
    by_cases hk : k = key
    · subst hk
      rw [List.filter_cons_of_neg (by simp), ih]
      by_cases ho : other = k
      · rw [if_pos ho, if_pos ho]
      · rw [if_neg ho, if_neg ho, lookup, if_neg (Ne.symm ho)]
    · rw [List.filter_cons_of_pos (by simpa using hk), lookup, lookup, ih]
      by_cases ho : k = other
      · subst ho; rw [if_pos rfl, if_neg hk, if_pos rfl]
      · rw [if_neg ho, if_neg ho]

/-- A key is not found exactly if it is not among the keys. -/
theorem lookup_eq_none_iff {κ α : Type} [DecidableEq κ] (key : κ) (entries : List (κ × α)) :
    lookup key entries = none ↔ key ∉ entries.map (·.1) := by
  induction entries with
  | nil => simp
  | cons e rest ih =>
    obtain ⟨k, v⟩ := e
    by_cases hk : k = key
    · simp [lookup, hk]
    · rw [lookup, if_neg hk, ih]
      simp [Ne.symm hk]

/-- What is found stands among the entries. -/
theorem mem_of_lookup {κ α : Type} [DecidableEq κ] {key : κ} {value : α} {entries : List (κ × α)}
    (h : lookup key entries = some value) : (key, value) ∈ entries := by
  induction entries with
  | nil => cases h
  | cons e rest ih =>
    obtain ⟨k, v⟩ := e
    by_cases hk : k = key
    · rw [lookup, if_pos hk] at h
      cases h
      exact hk ▸ List.mem_cons_self
    · rw [lookup, if_neg hk] at h
      exact List.mem_cons_of_mem _ (ih h)

/-- With distinct keys, what is found is what stands there. -/
theorem lookup_eq_some_iff {κ α : Type} [DecidableEq κ] {entries : List (κ × α)}
    (hd : (entries.map (·.1)).Nodup) {key : κ} {value : α} :
    lookup key entries = some value ↔ (key, value) ∈ entries := by
  refine ⟨mem_of_lookup, fun h => ?_⟩
  induction entries with
  | nil => cases h
  | cons e rest ih =>
    obtain ⟨k, v⟩ := e
    rw [List.map_cons, List.nodup_cons] at hd
    rw [lookup]
    rcases List.mem_cons.mp h with he | hm
    · cases he
      rw [if_pos rfl]
    · rw [if_neg fun hk => hd.1 (List.mem_map.mpr ⟨_, hm, hk.symm⟩), ih hd.2 hm]

/-- A key is found exactly if it is among the keys. -/
theorem isSome_lookup_iff {κ α : Type} [DecidableEq κ] {key : κ} {entries : List (κ × α)} :
    (lookup key entries).isSome ↔ key ∈ entries.map (·.1) := by
  rw [Option.isSome_iff_ne_none, ne_eq, lookup_eq_none_iff, Decidable.not_not]

/-- Keys stay distinct when one is set. -/
theorem nodup_keys_set {κ α : Type} [DecidableEq κ] (key : κ) (value : α) {entries : List (κ × α)}
    (h : (entries.map (·.1)).Nodup) : ((set key value entries).map (·.1)).Nodup := by
  rw [keys_set]
  split
  · exact h
  · rename_i hk
    refine List.nodup_append.mpr ⟨h, by simp, ?_⟩
    intro a ha b hb
    rw [List.mem_singleton.mp hb]
    exact fun hab => hk (hab ▸ ha)

/-- Keys stay distinct when one is erased. -/
theorem nodup_keys_erase {κ α : Type} [DecidableEq κ] (key : κ) {entries : List (κ × α)}
    (h : (entries.map (·.1)).Nodup) : ((erase key entries).map (·.1)).Nodup :=
  h.sublist (List.filter_sublist.map _)

end Json

end ReflectedSchema
