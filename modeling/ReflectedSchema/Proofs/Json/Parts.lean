import Mathlib
import ReflectedSchema.Decode

/-!
# The parts of a value

Checking and decoding go down a value in the same way: what is said of a value is computed from what
is said of the items or fields directly inside it.  `Json.inside` is that step for any function of the
parts, and `Json.inductionOnParts` the induction that follows it.
-/

namespace ReflectedSchema.Json

/-- The values directly inside a value. -/
def parts : Json → List Json
  | .arr items => items
  | .obj fields => fields.map (·.2)
  | _ => []

/-- What a function says of the values directly inside a value. -/
def inside {α : Type} (child : Json → α) : Json → Inside α
  | .arr items => .items (items.map child)
  | .obj fields => .fields (fields.map fun (name, value) => (name, child value))
  | _ => .nothing

/-- Induction over a value by way of its parts. -/
theorem inductionOnParts {P : Json → Prop} (v : Json) (step : ∀ v, (∀ w ∈ v.parts, P w) → P v) :
    P v := by
  refine inductionOn v (step _ ?_) (fun _ => step _ ?_) (fun _ => step _ ?_) (fun _ => step _ ?_)
    (fun _ => step _ ?_) (fun items ih => step _ ih) (fun fields ih => step _ ?_)
  case refine_6 =>
    intro w hw
    obtain ⟨f, hf, rfl⟩ := List.mem_map.mp hw
    exact ih f hf
  all_goals simp [parts]

/-- What is found under a key is a part. -/
theorem mem_parts_of_lookup {key : String} {value : Json} {fields : List (String × Json)}
    (h : lookup key fields = some value) : value ∈ (Json.obj fields).parts :=
  List.mem_map.mpr ⟨_, mem_of_lookup h, rfl⟩

/-- Looking a key up after a change of the values. -/
theorem lookup_map {α β : Type} (f : α → β) (key : String) (entries : List (String × α)) :
    lookup key (entries.map fun (k, v) => (k, f v)) = (lookup key entries).map f := by
  induction entries with
  | nil => rfl
  | cons e rest ih =>
    obtain ⟨k, v⟩ := e
    by_cases hk : k = key
    · simp [lookup, hk]
    · simpa [lookup, hk] using ih

/-- A key is found under any value exactly if it is found. -/
theorem isNone_lookup_map {α β : Type} (f : α → β) (key : String) (entries : List (String × α)) :
    (lookup key (entries.map fun (k, v) => (k, f v))).isNone = (lookup key entries).isNone := by
  rw [lookup_map, Option.isNone_map]

/-- A key is looked up in two lists of entries one after the other. -/
theorem lookup_append {α : Type} (key : String) (front back : List (String × α)) :
    lookup key (front ++ back) = (lookup key front).or (lookup key back) := by
  induction front with
  | nil => rfl
  | cons e rest ih =>
    obtain ⟨k, v⟩ := e
    by_cases hk : k = key <;> simp [lookup, hk, ih]

/-- A key that is absent is set behind the others. -/
theorem set_of_not_mem {α : Type} {key : String} {value : α} {entries : List (String × α)}
    (h : key ∉ entries.map (·.1)) : set key value entries = entries ++ [(key, value)] := by
  induction entries with
  | nil => rfl
  | cons entry rest ih =>
    rw [set, if_neg (List.ne_of_not_mem_cons h).symm, ih (List.not_mem_of_not_mem_cons h)]
    rfl

/-! ## The recursions as one step -/

/-- Items are checked one by one. -/
theorem checkItems_eq_map (c : Checker) (references : Nat) (items : List Json) :
    checkItems c references items = items.map (·.check c references) := by
  induction items with
  | nil => rfl
  | cons item rest ih => rw [checkItems, ih, List.map_cons]

/-- Fields are checked one by one, under their names. -/
theorem checkFields_eq_map (c : Checker) (references : Nat) (fields : List (String × Json)) :
    checkFields c references fields =
      fields.map fun (name, value) => (name, value.check c references) := by
  induction fields with
  | nil => rfl
  | cons f rest ih => rw [checkFields, ih, List.map_cons]

/-- A value is checked with the checkers of its parts. -/
theorem check_eq_visit (c : Checker) (references : Nat) (v : Json) :
    v.check c references = c.visit v (v.inside (·.check c references)) references := by
  cases v with
  | arr items => rw [check, checkItems_eq_map]; rfl
  | obj fields => rw [check, checkFields_eq_map]; rfl
  | _ => rfl

/-- Items are decoded one by one. -/
theorem decodeItems_eq_map {σ : Type} (d : Decoding σ) (items : List Json) :
    decodeItems d items = items.map (·.decode d) := by
  induction items with
  | nil => rfl
  | cons item rest ih => rw [decodeItems, ih, List.map_cons]

/-- Fields are decoded one by one, under their names. -/
theorem decodeFields_eq_map {σ : Type} (d : Decoding σ) (fields : List (String × Json)) :
    decodeFields d fields = fields.map fun (name, value) => (name, value.decode d) := by
  induction fields with
  | nil => rfl
  | cons f rest ih => rw [decodeFields, ih, List.map_cons]

/-- A value is decoded with the decoders of its parts. -/
theorem decode_eq_visit {σ : Type} (d : Decoding σ) (v : Json) :
    v.decode d = d.visit v (v.inside (·.decode d)) := by
  cases v with
  | arr items => rw [decode, decodeItems_eq_map]; rfl
  | obj fields => rw [decode, decodeFields_eq_map]; rfl
  | _ => rfl

end ReflectedSchema.Json
