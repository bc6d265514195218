import ReflectedSchema.Log
import ReflectedSchema.Schema.Compiled

/-!
# Checking values against schema documents

A document is interpreted as it stands: every keyword of a schema object is checked in the order of
the document, and a reference is resolved when it is reached.  `Json.check` goes down the value, so
that each place is checked with the checkers of what lies inside it; a chain of references that stays
at one place is followed at most as often as the document has values, after which it must repeat
itself.

`Checker.findings` lists what was found, each place and wording once, shallowest first.
-/

namespace ReflectedSchema

/-- A violation and the place of the value that it concerns. -/
structure Finding where
  location : Location
  violation : Violation

namespace Finding

/-- The same violation, seen from a value one step further out. -/
def under (step : Step) (f : Finding) : Finding :=
  { f with location := step :: f.location }

/-- The pointer of the place. -/
def path (f : Finding) : String := f.location.pointer

/-- A finding as a failure. -/
def toFailure (f : Finding) : Failure :=
  { cause := .violation f.path f.violation }

/-- What a finding says about which place, in words. -/
def key (f : Finding) : String × Reason × String :=
  (f.path, f.violation.reason, f.violation.message)

/-- The order of findings: by the depth of the place, then by its pointer. -/
def before (f g : Finding) : Bool :=
  let m := Pointer.depth f.path
  let n := Pointer.depth g.path
  m < n || (m = n && f.path ≤ g.path)

/-- The findings for the names that an object lacks.  Each of them is an error of its own, and each of
these errors tells of all absent names, so there is a finding for every pair of them. -/
def absent {α : Type} (names : List String) (children : List (String × α)) : List Finding :=
  let missing := names.filter fun name => (Json.lookup name children).isNone
  missing.flatMap fun _ => missing.map fun name => ⟨[.key name], .missing name⟩

end Finding

/-- The findings of a check, which may instead end in a fault. -/
abbrev Checked := Except Fault (List Finding)

namespace Checked

/-- A single finding at the checked value itself. -/
def one (v : Violation) : Checked := .ok [⟨[], v⟩]

/-- A finding at the checked value if a condition holds. -/
def oneIf (condition : Bool) (v : Violation) : Checked :=
  if condition then one v else .ok []

/-- All findings, in order; the first fault ends the check. -/
def all : List Checked → Checked
  | [] => .ok []
  | first :: rest =>
    match first with
    | .error e => .error e
    | .ok found =>
      match all rest with
      | .error e => .error e
      | .ok more => .ok (found ++ more)

/-- The findings seen from one step further out. -/
def under (step : Step) (c : Checked) : Checked :=
  c.map fun found => found.map (Finding.under step)

end Checked

/-- The checkers of what lies directly inside a value. -/
inductive Inside (α : Type) where
  | nothing
  | items (children : List α)
  | fields (children : List (String × α))

/-- A document to check against, and the enumerations that its member lists may belong to. -/
structure Checker where
  document : Json
  enums : List EnumDescriptor := []

namespace Checker

/-- The name of the enumeration with a list of members. -/
def enumNameOf (c : Checker) (members : List String) : String :=
  match c.enums.find? fun e => e.memberNames = members with
  | some e => e.name
  | none => "enum"

end Checker

namespace Json

/-- Whether a value is of a type that a schema names.  A double of integral value is an integer, and
the truth values are no numbers. -/
def isOfType (v : Json) (type : String) : Bool :=
  match v with
  | .null => type = "null"
  | .bool _ => type = "boolean"
  | .int _ => type = "integer" || type = "number"
  | .float x => type = "number" || (type = "integer" && x.isIntegral)
  | .str _ => type = "string"
  | .arr _ => type = "array"
  | .obj _ => type = "object"

/-- Whether a number is smaller than an integer. -/
def lessThan (v : Json) (n : Int) : Bool :=
  match v with
  | .int m => m < n
  | .float x => x.compareInt n = some .lt
  | _ => false

/-- Whether a number is larger than an integer. -/
def greaterThan (v : Json) (n : Int) : Bool :=
  match v with
  | .int m => n < m
  | .float x => x.compareInt n = some .gt
  | _ => false

/-- The types that a `type` keyword allows. -/
def typeNames : Json → List String
  | .str s => [s]
  | .arr names => names.filterMap str?
  | _ => []

end Json

namespace Checker

/-- The findings for declared properties that are present. -/
def declared (inside : Inside (Json → Checked)) (properties : List (String × Json)) : Checked :=
  match inside with
  | .fields children =>
    .all (properties.map fun (name, sub) =>
      match Json.lookup name children with
      | some child => (child sub).under (.key name)
      | none => .ok [])
  | _ => .ok []

/-- The findings for required properties that are absent. -/
def required (inside : Inside (Json → Checked)) (names : List String) : Checked :=
  match inside with
  | .fields children => .ok (Finding.absent names children)
  | _ => .ok []

/-- The findings for properties that are not declared. -/
def undeclared (inside : Inside (Json → Checked)) (properties : List (String × Json)) : Checked :=
  match inside with
  | .fields children =>
    .ok ((children.filter fun child => (Json.lookup child.1 properties).isNone).map
      fun child => ⟨[.key child.1], .unexpected child.1⟩)
  | _ => .ok []

/-- The findings for the items of an array, from an index on. -/
def itemsFrom (sub : Json) : (index : Nat) → List (Json → Checked) → List Checked
  | _, [] => []
  | index, child :: rest => (child sub).under (.index index) :: itemsFrom sub (index + 1) rest

/-- The findings for a member list. -/
def member (c : Checker) (value : Json) (members : List Json) : Checked :=
  let isMember := match value with
    | .str s => members.any fun m => m.str? = some s
    | _ => false
  if isMember then .ok []
  else
    match memberTexts members with
    | .ok names => .one (.unknownMember (c.enumNameOf names) value names)
    | .error (.fault e) => .error e
    | .error (.failure _) => .ok []

/-- The findings for one keyword of a schema object at a value. -/
def keyword (c : Checker) (value : Json) (inside : Inside (Json → Checked))
    (follow : Json → Checked) (schema : List (String × Json)) (name : String) (argument : Json) :
    Checked :=
  match name, argument with
  | "$ref", .str reference =>
    match c.document.follow? reference with
    | some target => follow target
    | none => .error (.unresolvedReference reference)
  | "type", types =>
    .oneIf (!(types.typeNames.any value.isOfType)) (.wrongType value types.typeNames)
  | "properties", .obj properties => declared inside properties
  | "required", .arr names => required inside (names.filterMap Json.str?)
  | "additionalProperties", .bool false =>
    undeclared inside ((Json.lookup "properties" schema).bind Json.obj? |>.getD [])
  | "items", sub =>
    match inside with
    | .items children => .all (itemsFrom sub 0 children)
    | _ => .ok []
  | "minItems", .int least =>
    match value with
    | .arr items => .oneIf (items.length < least) (.tooShort value least)
    | _ => .ok []
  | "maxItems", .int most =>
    match value with
    | .arr items => .oneIf (most < items.length) (.tooLong value most)
    | _ => .ok []
  | "minimum", .int least => .oneIf (value.lessThan least) (.tooSmall value least)
  | "maximum", .int most => .oneIf (value.greaterThan most) (.tooLarge value most)
  | "enum", .arr members => c.member value members
  | _, _ => .ok []

/-- The findings for a schema at a value, with a number of references left to follow. -/
def visit (c : Checker) (value : Json) (inside : Inside (Json → Checked)) :
    (references : Nat) → Json → Checked
  | references, schema =>
    match schema with
    | .obj keywords =>
      let follow : Json → Checked :=
        match references with
        | 0 => fun _ => .error .endlessReference
        | references + 1 => visit c value inside references
      .all (keywords.map fun (name, argument) =>
        c.keyword value inside follow keywords name argument)
    | .bool true => .ok []
    | .bool false => .one (.stated .constraint ("False schema does not allow " ++ value.literal))
    | _ => .error (.unresolvedReference "")

end Checker

mutual

/-- The findings for a schema at a value. -/
def Json.check (c : Checker) (references : Nat) : Json → Json → Checked
  | .arr items => c.visit (.arr items) (.items (checkItems c references items)) references
  | .obj fields => c.visit (.obj fields) (.fields (checkFields c references fields)) references
  | value => c.visit value .nothing references

/-- The checkers of items. -/
def Json.checkItems (c : Checker) (references : Nat) : List Json → List (Json → Checked)
  | [] => []
  | item :: rest => item.check c references :: checkItems c references rest

/-- The checkers of fields. -/
def Json.checkFields (c : Checker) (references : Nat) :
    List (String × Json) → List (String × (Json → Checked))
  | [] => []
  | (name, value) :: rest => (name, value.check c references) :: checkFields c references rest

end

/-- Values without those whose key was seen before. -/
def distinctFrom {α β : Type} [DecidableEq α] (seen : List α) : List (α × β) → List β
  | [] => []
  | (key, value) :: rest =>
    if key ∈ seen then distinctFrom seen rest else value :: distinctFrom (key :: seen) rest

/-- The findings without those that say the same as an earlier one. -/
def Finding.distinct (found : List Finding) : List Finding :=
  distinctFrom [] (found.map fun f => (f.key, f))

namespace Checker

/-- What is found in a value, in the order of the check. -/
def raw (c : Checker) (value : Json) : Checked :=
  value.check c c.document.size c.document

/-- What is found in a value, each finding once, shallowest first. -/
def findings (c : Checker) (value : Json) : Checked :=
  (c.raw value).map fun found => (Finding.distinct found).mergeSort Finding.before

/-- What is logged about findings. -/
def records (found : List Finding) : List LogRecord :=
  match found with
  | [] => []
  | first :: _ =>
    [⟨.debug, .validation, "Validation found " ++ toString found.length ++ " errors, first: " ++
      first.toFailure.describe⟩]

end Checker

namespace Schema

/-- The checker of a schema. -/
def checker (schema : Schema) : Checker := ⟨schema.document, schema.enums⟩

/-- Whether a value has no findings. -/
def accepts (schema : Schema) (value : Json) : Prop :=
  schema.checker.findings value = .ok []

end Schema

end ReflectedSchema
