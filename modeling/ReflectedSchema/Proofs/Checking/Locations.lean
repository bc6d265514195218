import ReflectedSchema.Proofs.Arrays.Findings
import ReflectedSchema.Proofs.Json.Order

/-!
# Locations and their pointers

The pointer of a location has a slash for each step, and it is read back into the texts of the steps,
whatever the names of fields are.  So locations with different texts have different pointers.  Locations
with the same texts may differ, as an index and a key of the same digits do, but not inside one value:
a place that a value has, or that a key would have which one of its objects lacks (`Json.Bears`), is known
by its texts.
-/

namespace ReflectedSchema

/-! ## The pointer of a location -/

namespace Pointer

/-- Tildes are replaced before slashes, so that the tildes of replaced slashes stay. -/
theorem escape_eq_replace (cs : List Char) :
    escape cs = (cs.flatMap fun c => if c = '~' then ['~', '0'] else [c]).flatMap
      fun c => if c = '/' then ['~', '1'] else [c] := by
  rw [List.flatMap_assoc, escape]
  refine List.flatMap_congr fun c _ => ?_
  rw [escapeChar]
  split
  · rfl
  · exact (List.flatMap_singleton _ _).symm

/-- A pointer has a slash for each name. -/
theorem depth_ofNames (names : List String) : depth (ofNames names) = names.length := by
  rw [depth, ofNames, String.toList_ofList]
  induction names with
  | nil => rfl
  | cons name names ih =>
    rw [encodeChars, List.flatMap_cons, ← encodeChars, List.cons_append, List.count_cons_self,
      List.count_append, ih, List.count_eq_zero_of_not_mem (slash_not_mem_escape _), Nat.zero_add,
      List.length_cons]

/-- Pointers of names one after the other stand one after the other. -/
theorem ofNames_append (front back : List String) :
    ofNames (front ++ back) = ofNames front ++ ofNames back := by
  rw [ofNames, encodeChars_append, String.ofList_append, ofNames, ofNames]

end Pointer

namespace Location

/-- A pointer is as deep as its location is long. -/
theorem depth_pointer (location : Location) : Pointer.depth location.pointer = location.length := by
  rw [pointer, Pointer.depth_ofNames, List.length_map]

/-- A pointer is read back as the texts of its steps. -/
theorem decode_pointer (location : Location) :
    Pointer.decode location.pointer = some (location.map Step.text) :=
  Pointer.decode_ofNames _

/-- Slashes and tildes inside names are told apart from those of the pointer. -/
example : Location.pointer [.key "a/b", .index 0, .key "~1", .key ""] = "/a~1b/0/~01/" := by decide

/-- Pointers tell locations apart by the texts of their steps. -/
theorem pointer_eq_iff {location other : Location} :
    location.pointer = other.pointer ↔ location.map Step.text = other.map Step.text :=
  ⟨Pointer.ofNames_injective, congrArg Pointer.ofNames⟩

/-- The pointers of two locations stand one after the other. -/
theorem pointer_append (front back : Location) :
    (front ++ back).pointer = front.pointer ++ back.pointer := by
  rw [pointer, List.map_append, Pointer.ofNames_append, pointer, pointer]

end Location

/-! ## The places of a value -/

namespace Json

/-- A value has a place at a location, or an object in it could have a key there. -/
inductive Bears : Json → Location → Prop
  | here (v : Json) : Bears v []
  | inside {v w : Json} {step : Step} {rest : Location} (h : v.part? step = some w)
      (hr : Bears w rest) : Bears v (step :: rest)
  | key (fields : List (String × Json)) (name : String) : Bears (.obj fields) [.key name]

variable {v w a b : Json} {location other : Location}

/-- The steps into an array are indexes, and the steps into an object are keys. -/
theorem step_unique {step step' : Step} (h : v.part? step = some a) (h' : v.part? step' = some b)
    (text : step.text = step'.text) : step = step' := by
  cases v with
  | arr items =>
    cases step with
    | key => cases h
    | index i =>
      cases step' with
      | key => cases h'
      | index j => rw [Step.index_text_injective text]
  | obj fields =>
    cases step with
    | index => cases h
    | key name =>
      cases step' with
      | index => cases h'
      | key name' => exact congrArg Step.key text
  | _ => cases step <;> cases h

/-- **A place of a value is known by its pointer.** -/
theorem Bears.eq_of_texts (h : v.Bears location) (ho : v.Bears other)
    (texts : location.map Step.text = other.map Step.text) : location = other := by
  induction h generalizing other with
  | here => exact (List.map_eq_nil_iff.mp texts.symm).symm
  | @inside v w step rest h _ ih =>
    cases ho with
    | here => cases texts
    | inside h' ho =>
      obtain ⟨text, further⟩ := List.cons.inj texts
      obtain rfl := step_unique h h' text
      obtain rfl := Option.some.inj (h.symm.trans h')
      rw [ih ho further]
    | key fields name =>
      obtain ⟨text, texts⟩ := List.cons.inj texts
      obtain rfl := List.map_eq_nil_iff.mp texts
      cases step with
      | index => cases h
      | key name' => exact congrArg (fun n => [Step.key n]) text
  | key fields name =>
    cases ho with
    | here => cases texts
    | @inside _ _ step' rest' h' _ =>
      obtain ⟨text, texts⟩ := List.cons.inj texts
      obtain rfl := List.map_eq_nil_iff.mp texts.symm
      cases step' with
      | index => cases h'
      | key name' => exact congrArg (fun n => [Step.key n]) text
    | key _ name' => exact congrArg (fun n => [Step.key n]) (List.cons.inj texts).1

/-- What one step leads to is a part. -/
theorem mem_parts_of_part? {step : Step} (h : v.part? step = some w) : w ∈ v.parts := by
  unfold part? at h
  split at h
  · exact List.mem_of_getElem? h
  · exact mem_parts_of_lookup h
  · cases h

end Json

end ReflectedSchema
