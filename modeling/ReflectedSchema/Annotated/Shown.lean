import ReflectedSchema.Annotated.Form
import ReflectedSchema.Annotated.Program

/-!
# How evaluated types are shown

A type is shown in three ways.  `shown` is its text among the arguments of another type, where a class
has the name of its module in front; `display` is its text as a value; `typeName` is its short name.
-/

namespace ReflectedSchema.Annotated

/-- The qualified name of a declaration behind the name of its module. -/
def Program.fullName (p : Program) (number : Nat) : String :=
  match p.type? number with
  | some d => d.module ++ "." ++ d.qualifiedName
  | none => ""

namespace Form

/-- The word for a union of some members. -/
def unionWord (args : List Form) : String :=
  if args.length = 2 && args.contains noneType then "Optional" else "Union"

mutual

/-- A type among the arguments of another. -/
def shown (p : Program) : Form → String
  | .atom (.builtin name) => name
  | .atom .none => "None"
  | .atom .any => "typing.Any"
  | .atom (.enumBase name) => "enum." ++ name
  | .atom (.struct tag) => p.structModule ++ "." ++ tag.name
  | .atom (.declared number) => p.fullName number
  | .atom .rid => p.structModule ++ ".Rid"
  | .atom (.special name) | .atom (.container name) => "typing." ++ name
  | .atom .annotatedWord => "typing.Annotated"
  | .atom (.literal "ellipsis" _) => "..."
  | .atom (.literal _ text) | .atom (.member _ text _) => text
  -- The text of a property also holds an address, which no two runs share.
  | .atom (.descriptor owner name slot) =>
    if slot then
      "<member '" ++ name ++ "' of '" ++ ((p.type? owner).map (·.name)).getD "" ++ "' objects>"
    else "<property object>"
  | .atom (.quoted source) => "ForwardRef(" ++ Text.quoted source ++ ")"
  | .generic name args => name ++ "[" ++ ", ".intercalate (shownAll p args) ++ "]"
  | .applied number args =>
    p.fullName number ++ "[" ++ ", ".intercalate (shownAll p args) ++ "]"
  | .alias name args => "typing." ++ name ++ "[" ++ ", ".intercalate (shownAll p args) ++ "]"
  | .union args =>
    if unionWord args = "Optional" then
      "typing.Optional[" ++ ", ".intercalate ((shownAll p args).filter (· ≠ "NoneType")) ++ "]"
    else "typing.Union[" ++ ", ".intercalate (shownAll p args) ++ "]"
  | .either args =>
    " | ".intercalate ((shownAll p args).map fun text => if text = "NoneType" then "None" else text)
  | .annotated inner metadata =>
    "typing.Annotated[" ++ ", ".intercalate (inner.shown p :: metadata.map Metadata.source) ++ "]"

/-- Types among the arguments of another. -/
def shownAll (p : Program) : List Form → List String
  | [] => []
  | form :: rest => form.shown p :: shownAll p rest

end

/-- An enumeration as a value. -/
def enumDisplay (flags : Bool) (name : String) : String :=
  (if flags then "<flag '" else "<enum '") ++ name ++ "'>"

/-- A type as a value. -/
def display (p : Program) (form : Form) : String :=
  match form with
  | .atom (.enumBase name) => enumDisplay (name = "IntFlag") name
  | .atom (.declared number) =>
    match p.type? number with
    | some { name, body := .enum base _, .. } => enumDisplay (base = .flags) name
    | _ => "<class '" ++ form.shown p ++ "'>"
  | .atom (.builtin _) | .atom (.struct _) | .atom .annotatedWord => "<class '" ++ form.shown p ++ "'>"
  | .atom (.quoted source) => Text.quoted source
  | .atom (.literal _ text) => text
  | form => form.shown p

/-- The short name of a type. -/
def typeName (p : Program) (form : Form) : String :=
  match form with
  | .atom (.builtin name) | .atom (.enumBase name) | .atom (.special name) | .atom (.container name)
  | .generic name _ | .alias name _ => name
  | .atom .any => "Any"
  | .atom (.struct tag) => tag.name
  | .atom (.declared number) | .applied number _ => ((p.type? number).map (·.name)).getD ""
  | .atom .rid => "Rid"
  | .atom (.literal _ text) | .atom (.member _ _ text) | .atom (.descriptor _ text true) => text
  | .atom .annotatedWord | .annotated .. => "Annotated"
  | .union args => unionWord args
  | form => form.shown p

end Form

end ReflectedSchema.Annotated
