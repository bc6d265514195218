import ReflectedSchema.Check
import ReflectedSchema.Proofs.Building.Graph

/-!
# Values that conform to a kind

`Source.Conforms` says which JSON values a kind stands for, by the source alone: no schema document and
no definition takes part.  An object is known by what is found under its names, so it has exactly the
declared names, and what is found under each conforms to the kind declared for it.
-/

namespace ReflectedSchema

/-! ## Integers among the numbers -/

/-- The integer that a value is: a truth value is none, and a double of integral value is one. -/
def Json.integer? : Json → Option Int
  | .int n => some n
  | .float x => x.toInt?
  | _ => none

namespace Binary64

/-- Comparing does not see a positive factor. -/
theorem compare_mul_right {factor : Int} (h : 0 < factor) (m n : Int) :
    compare (m * factor) (n * factor) = compare m n := by
  have lt : m * factor < n * factor ↔ m < n := Int.mul_lt_mul_right h
  have eq : m * factor = n * factor ↔ m = n := Int.mul_eq_mul_right_iff (by omega)
  show compareOfLessAndEq _ _ = compareOfLessAndEq _ _
  rw [compareOfLessAndEq, compareOfLessAndEq]
  simp only [lt, eq]

/-- A double of integral value compares as its value does. -/
theorem compareInt_of_toInt? {x : Binary64} {m : Int} (h : x.toInt? = some m) (n : Int) :
    x.compareInt n = some (compare m n) := by
  cases x with
  | nan => cases h
  | infinite negative => cases h
  | finite negative mantissa exponent =>
    simp only [toInt?] at h
    simp only [compareInt]
    generalize Nat.pow 2 exponent.toNat = scale at h ⊢
    -- The double is a multiple of the scale or a fraction by the part; one of the two is 1.
    have positive : 0 < Nat.pow 2 (-exponent).toNat := Nat.two_pow_pos _
    generalize Nat.pow 2 (-exponent).toNat = part at h positive ⊢
    split at h
    · rename_i he
      have value : (if negative then -(mantissa : Int) else mantissa) * (scale : Nat) = m := by
        rw [← Option.some.inj h]
        cases negative with
        | false => rfl
        | true => exact Int.neg_mul ..
      rw [if_pos he, value]
    · rename_i he
      split at h
      · rename_i hm
        have value : (if negative then -(mantissa : Int) else mantissa) = m * (part : Nat) := by
          have exact : ((mantissa / part : Nat) : Int) * part = mantissa := by
            exact_mod_cast Nat.div_mul_cancel (Nat.dvd_of_mod_eq_zero hm)
          rw [← Option.some.inj h]
          cases negative with
          | false => exact exact.symm
          | true => rw [if_pos rfl, if_pos rfl, Int.neg_mul, exact]
        rw [if_neg he, value, compare_mul_right (by exact_mod_cast positive)]
      · cases h

end Binary64

/-- An integer is smaller than a bound exactly if its value is. -/
theorem Json.lessThan_of_integer? {v : Json} {m : Int} (h : v.integer? = some m) (n : Int) :
    v.lessThan n = decide (m < n) := by
  cases v with
  | int k => cases h; rfl
  | float x =>
    rw [lessThan, Binary64.compareInt_of_toInt? h]
    simp [Int.compare_eq_lt]
  | _ => cases h

/-- An integer is larger than a bound exactly if its value is. -/
theorem Json.greaterThan_of_integer? {v : Json} {m : Int} (h : v.integer? = some m) (n : Int) :
    v.greaterThan n = decide (n < m) := by
  cases v with
  | int k => cases h; rfl
  | float x =>
    rw [greaterThan, Binary64.compareInt_of_toInt? h]
    simp [Int.compare_eq_gt]
  | _ => cases h

/-! ## Conformance -/

/-- A list has the length that is fixed, if there is one. -/
def HasLength {α : Type} (length : Option Int) (items : List α) : Prop :=
  ∀ n, length = some n → (items.length : Int) = n

/-- Any list has a length that is not fixed. -/
theorem HasLength.none {α : Type} (items : List α) : HasLength none items :=
  fun _ h => nomatch h

/-- An integer item of a packed array lies inside the range of the array, if there is one. -/
def PackedTag.InRange (tag : PackedTag) (item : Json) : Prop :=
  ∀ least most, tag.range = some (least, most) → ∀ n, item.integer? = some n → least ≤ n ∧ n ≤ most

/-- An object has exactly some names. -/
def HasKeys (names : List String) (fields : List (String × Json)) : Prop :=
  ∀ name, (Json.lookup name fields).isSome ↔ name ∈ names

/-- An object has exactly the names that it has. -/
theorem HasKeys.self (fields : List (String × Json)) : HasKeys (fields.map (·.1)) fields := by
  intro name
  rw [Option.isSome_iff_ne_none, ne_eq, Json.lookup_eq_none_iff, not_not]

/-- A value conforms to a kind. -/
inductive Source.Conforms (source : Source) : Kind → Json → Prop
  | boolean (b : Bool) : Conforms source .boolean (.bool b)
  | integer {v : Json} {n : Int} (h : v.integer? = some n) : Conforms source .integer v
  | numberInt (n : Int) : Conforms source .number (.int n)
  | numberFloat (x : Binary64) : Conforms source .number (.float x)
  | string (text : String) : Conforms source .string (.str text)
  | dictionary (fields : List (String × Json)) : Conforms source .dictionary (.obj fields)
  | anyArray {length : Option Int} {items : List Json} (hl : HasLength length items) :
      Conforms source (.anyArray length) (.arr items)
  | array {element : Kind} {length : Option Int} {items : List Json} (hl : HasLength length items)
      (h : ∀ item ∈ items, Conforms source element item) :
      Conforms source (.array element length) (.arr items)
  | packed {tag : PackedTag} {items : List Json}
      (h : ∀ item ∈ items, Conforms source tag.element item) (hr : ∀ item ∈ items, tag.InRange item) :
      Conforms source (.packed tag) (.arr items)
  /-- A value of an enumeration is exactly one of its member names. -/
  | enum {owner name text : String} {members : List (String × EnumValue)}
      (hm : source.members owner name = .ok members) (ht : text ∈ members.map (·.1)) :
      Conforms source (.enum owner name false) (.str text)
  /-- A set of flags is a list of member names. -/
  | flags {owner name : String} {members : List (String × EnumValue)} {names : List Json}
      (hm : source.members owner name = .ok members)
      (hn : ∀ item ∈ names, ∃ text ∈ members.map (·.1), item = .str text) :
      Conforms source (.enum owner name true) (.arr names)
  | struct {tag : StructTag} {fields : List (String × Json)}
      (keys : HasKeys (tag.layout.map (·.1)) fields)
      (h : ∀ component ∈ tag.layout, ∀ value, Json.lookup component.1 fields = some value →
        Conforms source component.2 value) :
      Conforms source (.struct tag) (.obj fields)
  | object {c : ClassDescriptor} {fields : List (String × Json)}
      (hc : describeClass source c.name = .ok c) (keys : HasKeys c.propertyNames fields)
      (h : ∀ p ∈ c.properties, ∀ value, Json.lookup p.name fields = some value →
        Conforms source p.kind value) :
      Conforms source (.object c.name) (.obj fields)

/-- A value conforms to a bare kind that stands under the property `value` of an object. -/
def Source.ConformsWrapped (source : Source) (kind : Kind) (v : Json) : Prop :=
  ∃ fields, v = .obj fields ∧ HasKeys ["value"] fields ∧
    ∀ value, Json.lookup "value" fields = some value → source.Conforms kind value

/-- A value conforms to a kind at the root of a schema, which may be wrapped. -/
def Source.ConformsAtRoot (source : Source) (kind : Kind) (wrapped : Bool) (v : Json) : Prop :=
  if wrapped then source.ConformsWrapped kind v else source.Conforms kind v

/-! ## What conforms, kind by kind -/

namespace Source

variable {source : Source} {v : Json}

/-- The truth values conform to the kind of these. -/
theorem conforms_boolean_iff : source.Conforms .boolean v ↔ v.isOfType "boolean" = true := by
  refine ⟨fun h => by cases h; rfl, fun h => ?_⟩
  cases v with
  | bool b => exact .boolean b
  | _ => simp [Json.isOfType] at h

/-- Integers conform to their kind, also doubles of integral value. -/
theorem conforms_integer_iff : source.Conforms .integer v ↔ v.isOfType "integer" = true := by
  have isOfType : v.isOfType "integer" = v.integer?.isSome := by
    cases v with
    | float x => simp [Json.isOfType, Json.integer?, Binary64.isIntegral]
    | _ => simp [Json.isOfType, Json.integer?]
  rw [isOfType, Option.isSome_iff_exists]
  exact ⟨fun h => by cases h with | integer h => exact ⟨_, h⟩, fun ⟨n, h⟩ => .integer h⟩

/-- All numbers conform to the kind of numbers. -/
theorem conforms_number_iff : source.Conforms .number v ↔ v.isOfType "number" = true := by
  refine ⟨fun h => by cases h <;> simp [Json.isOfType], fun h => ?_⟩
  cases v with
  | int n => exact .numberInt n
  | float x => exact .numberFloat x
  | _ => simp [Json.isOfType] at h

/-- Texts conform to their kind. -/
theorem conforms_string_iff : source.Conforms .string v ↔ v.isOfType "string" = true := by
  refine ⟨fun h => by cases h; rfl, fun h => ?_⟩
  cases v with
  | str text => exact .string text
  | _ => simp [Json.isOfType] at h

/-- Objects of any fields are dictionaries. -/
theorem conforms_dictionary_iff : source.Conforms .dictionary v ↔ v.isOfType "object" = true := by
  refine ⟨fun h => by cases h; rfl, fun h => ?_⟩
  cases v with
  | obj fields => exact .dictionary fields
  | _ => simp [Json.isOfType] at h

/-- An array of anything conforms if it has the length. -/
theorem conforms_anyArray_iff {length : Option Int} :
    source.Conforms (.anyArray length) v ↔ ∃ items, v = .arr items ∧ HasLength length items := by
  refine ⟨fun h => by cases h with | anyArray hl => exact ⟨_, rfl, hl⟩, ?_⟩
  rintro ⟨items, rfl, hl⟩
  exact .anyArray hl

/-- An array conforms if it has the length and its items conform. -/
theorem conforms_array_iff {element : Kind} {length : Option Int} :
    source.Conforms (.array element length) v ↔
      ∃ items, v = .arr items ∧ HasLength length items ∧ ∀ item ∈ items, source.Conforms element item := by
  refine ⟨fun h => by cases h with | array hl h => exact ⟨_, rfl, hl, h⟩, ?_⟩
  rintro ⟨items, rfl, hl, h⟩
  exact .array hl h

/-- A packed array conforms if its items do and are in range. -/
theorem conforms_packed_iff {tag : PackedTag} :
    source.Conforms (.packed tag) v ↔ ∃ items, v = .arr items ∧
      ∀ item ∈ items, source.Conforms tag.element item ∧ tag.InRange item := by
  refine ⟨fun h => ?_, ?_⟩
  · cases h with
    | packed h hr => exact ⟨_, rfl, fun item hi => ⟨h item hi, hr item hi⟩⟩
  · rintro ⟨items, rfl, h⟩
    exact .packed (fun item hi => (h item hi).1) fun item hi => (h item hi).2

/-- A struct conforms if it has exactly the components of its layout and each conforms. -/
theorem conforms_struct_iff {tag : StructTag} :
    source.Conforms (.struct tag) v ↔ ∃ fields, v = .obj fields ∧
      HasKeys (tag.layout.map (·.1)) fields ∧ ∀ component ∈ tag.layout, ∀ value,
        Json.lookup component.1 fields = some value → source.Conforms component.2 value := by
  refine ⟨fun h => by cases h with | struct keys h => exact ⟨_, rfl, keys, h⟩, ?_⟩
  rintro ⟨fields, rfl, keys, h⟩
  exact .struct keys h

/-- An object conforms if it has exactly the properties of its class and each conforms. -/
theorem conforms_object_iff {c : ClassDescriptor} (hc : describeClass source c.name = .ok c) :
    source.Conforms (.object c.name) v ↔ ∃ fields, v = .obj fields ∧
      HasKeys c.propertyNames fields ∧ ∀ p ∈ c.properties, ∀ value,
        Json.lookup p.name fields = some value → source.Conforms p.kind value := by
  constructor
  · intro h
    -- The kind is an index that is no variable, so it is generalized before the cases are split.
    generalize hk : Kind.object c.name = kind at h
    cases h with
    | object hc' keys h =>
      obtain rfl := Except.ok.inj (hc.symm.trans (Kind.object.inj hk ▸ hc'))
      exact ⟨_, rfl, keys, h⟩
    | _ => cases hk
  · rintro ⟨fields, rfl, keys, h⟩
    exact .object hc keys h

/-- A member conforms by its name, and a set of flags if all its items do. -/
theorem conforms_enum_iff {owner name : String} {flags : Bool} {members : List (String × EnumValue)}
    (hm : source.members owner name = .ok members) :
    source.Conforms (.enum owner name flags) v ↔
      if flags then ∃ items, v = .arr items ∧ ∀ item ∈ items, ∃ text ∈ members.map (·.1), item = .str text
      else ∃ text ∈ members.map (·.1), v = .str text := by
  constructor
  · intro h
    cases h with
    | enum hm' ht =>
      obtain rfl := Except.ok.inj (hm.symm.trans hm')
      exact ⟨_, ht, rfl⟩
    | flags hm' hn =>
      obtain rfl := Except.ok.inj (hm.symm.trans hm')
      exact ⟨_, rfl, hn⟩
  · intro h
    cases flags with
    | false =>
      obtain ⟨text, ht, rfl⟩ := h
      exact .enum hm ht
    | true =>
      obtain ⟨items, rfl, hi⟩ := h
      exact .flags hm hi

end Source

end ReflectedSchema
