import ReflectedSchema.Json.Literal
import ReflectedSchema.Kind.Basic

/-!
# Violations

A violation says why a value does not fit where it stands.  Checking a document against a schema and
decoding it both report violations; each has a reason, by which callers tell missing and undeclared
fields, wrong types, unknown members and other constraints apart, and a wording.
-/

namespace ReflectedSchema

/-- The sort of a violation. -/
inductive Reason where
  | missingRequired
  | unexpectedProperty
  | typeMismatch
  | enumMismatch
  | constraint
  deriving DecidableEq, Repr, Inhabited

namespace Reason

/-- The word for a reason. -/
def text : Reason → String
  | .missingRequired => "missing_required"
  | .unexpectedProperty => "unexpected_property"
  | .typeMismatch => "type_mismatch"
  | .enumMismatch => "enum_mismatch"
  | .constraint => "constraint"

/-- All reasons. -/
def all : List Reason :=
  [.missingRequired, .unexpectedProperty, .typeMismatch, .enumMismatch, .constraint]

/-- The reason with a word. -/
def ofText? (s : String) : Option Reason :=
  all.find? (·.text = s)

end Reason

/-- Why a value does not fit. -/
inductive Violation where
  /-- A declared field is absent. -/
  | missing (name : String)
  /-- A field is not declared. -/
  | unexpected (name : String)
  /-- A value is of none of the types that the schema allows. -/
  | wrongType (given : Json) (allowed : List String)
  /-- A value cannot be decoded as what is expected. -/
  | expected (what : String) (given : Json)
  | tooShort (given : Json) (least : Int)
  | tooLong (given : Json) (most : Int)
  | tooSmall (given : Json) (least : Int)
  | tooLarge (given : Json) (most : Int)
  /-- An array to be decoded has not the fixed length. -/
  | itemCount (length : Int) (given : Nat)
  /-- An item lies outside the range of a packed array. -/
  | itemRange (item : Int) (tag : PackedTag) (least most : Int)
  /-- A value is no member of an enumeration. -/
  | unknownMember (enumName : String) (given : Json) (members : List String)
  /-- A value nests too deeply. -/
  | tooDeep
  /-- A violation in the words of whoever found it. -/
  | stated (reason : Reason) (message : String)

namespace Violation

/-- The sort of a violation. -/
def reason : Violation → Reason
  | .missing _ => .missingRequired
  | .unexpected _ => .unexpectedProperty
  | .wrongType .. | .expected .. => .typeMismatch
  | .unknownMember .. => .enumMismatch
  | .stated reason _ => reason
  | _ => .constraint

/-- The wording of a violation. -/
def message : Violation → String
  | .missing name => "Missing required property '" ++ name ++ "'"
  | .unexpected name => "Unexpected property '" ++ name ++ "'"
  | .wrongType given allowed =>
    given.literal ++ " is not of type " ++ ", ".intercalate (allowed.map Text.quoted)
  | .expected what given => "Expected " ++ what ++ ", got " ++ given.typeName
  | .tooShort given least =>
    given.literal ++ if least = 1 then " should be non-empty" else " is too short"
  | .tooLong given most =>
    given.literal ++ if most = 0 then " is expected to be empty" else " is too long"
  | .tooSmall given least => given.literal ++ " is less than the minimum of " ++ toString least
  | .tooLarge given most => given.literal ++ " is greater than the maximum of " ++ toString most
  | .itemCount length given =>
    "Expected exactly " ++ toString length ++ " items, got " ++ toString given
  | .itemRange item tag least most =>
    toString item ++ " is outside the " ++ tag.name ++ " item range [" ++ toString least ++ ", " ++
      toString most ++ "]"
  | .unknownMember enumName given members =>
    "Unknown member " ++ given.literal ++ " for enum '" ++ enumName ++ "'. Expected one of: " ++
      ", ".intercalate members
  | .tooDeep => "JSON value nests too deeply to validate"
  | .stated _ message => message

/-- Whether a violation concerns the members of an enumeration. -/
def isUnknownMember : Violation → Bool
  | .unknownMember .. => true
  | _ => false

end Violation

end ReflectedSchema
