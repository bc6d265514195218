import ReflectedSchema.Annotated.Expr
import ReflectedSchema.Kind.Tag

/-!
# Evaluated types

What an annotation evaluates to: a class or one of the special words, a type with arguments, a union,
or a type with metadata.  The classes of a module are known by number.  Two spellings of a container
with arguments, `list[T]` and `List[T]`, stay apart, and so do two spellings of a union, because they
are named differently in messages.
-/

namespace ReflectedSchema.Annotated

/-- A type without parts. -/
inductive Atom where
  /-- A built-in class. -/
  | builtin (name : String)
  /-- The absent value, where it stands among arguments. -/
  | none
  | any
  /-- A base class of enumerations: `Enum`, `IntEnum` or `IntFlag`. -/
  | enumBase (name : String)
  | struct (tag : StructTag)
  /-- A class or an enumeration of the module. -/
  | declared (number : Nat)
  /-- The type of resource numbers. -/
  | rid
  /-- A word that is no type by itself. -/
  | special (name : String)
  /-- The word that gives a type metadata. -/
  | annotatedWord
  /-- A container word without arguments: `List`, `Dict`, `Set` or `Tuple`. -/
  | container (name : String)
  /-- A value that is no type: the name of its class, and its text. -/
  | literal (sort text : String)
  /-- A member of an enumeration: the name of the enumeration, how the member is shown, and its text. -/
  | member (sort shown text : String)
  /-- What a class keeps an attribute of its instances in: the place of a slot, or else a property. -/
  | descriptor (owner : Nat) (name : String) (slot : Bool)
  /-- A quoted expression that is not evaluated yet. -/
  | quoted (source : String)
  deriving DecidableEq, Repr, Inhabited

/-- An evaluated type. -/
inductive Form where
  | atom (a : Atom)
  /-- A built-in container with arguments. -/
  | generic (name : String) (args : List Form)
  /-- A class of the module that derives from a built-in container, with arguments. -/
  | applied (number : Nat) (args : List Form)
  /-- A word with arguments. -/
  | alias (name : String) (args : List Form)
  /-- A union that is spelled with a word. -/
  | union (args : List Form)
  /-- A union that is spelled with a bar. -/
  | either (args : List Form)
  | annotated (inner : Form) (metadata : List Metadata)
  deriving Inhabited, BEq, Repr

namespace Form

/-- The class of the absent value. -/
def noneType : Form := .atom (.builtin "NoneType")

/-- A form as an argument of a word: the absent value stands for its class. -/
def asArgument : Form → Form
  | .atom .none => noneType
  | form => form

/-- The forms without those that repeat an earlier one. -/
def distinct : List Form → List Form
  | [] => []
  | form :: rest => form :: (distinct rest).filter (· != form)

/-- The members of a union that is spelled with a word. -/
def members : Form → List Form
  | .union args | .either args => args
  | form => [form]

/-- The union of some forms, spelled with a word. -/
def unionOf (args : List Form) : Form :=
  match distinct ((args.map asArgument).flatMap members) with
  | [single] => single
  | many => .union many

/-- The union of some forms, spelled with a bar. -/
def eitherOf (args : List Form) : Form :=
  match distinct ((args.map asArgument).flatMap members) with
  | [single] => single
  | many => .either many

/-- The name of the class of a value that is no type. -/
def valueSort? : Form → Option String
  | .atom (.literal sort _) | .atom (.member sort _ _) => some sort
  | .atom (.descriptor _ _ slot) => some (if slot then "member_descriptor" else "property")
  | _ => none

/-- Whether a form turns a union beside a bar into one that is spelled with a word. -/
def isWordLike : Form → Bool
  | .atom .rid | .atom (.special _) | .atom (.container _) | .alias .. | .union _ | .annotated .. => true
  | _ => false

/-- The first text among metadata. -/
def firstText : List Metadata → Option String
  | [] => none
  | .text s :: _ => some s
  | _ :: rest => firstText rest

/-- A form without its metadata, and the first text among them. -/
def withoutMetadata : Form → Form × Option String
  | .annotated inner metadata => (inner, firstText metadata)
  | form => (form, none)

/-- A type with metadata; metadata of metadata join into one list. -/
def withMetadata (form : Form) (metadata : List Metadata) : Form :=
  match form with
  | .annotated inner before => .annotated inner (before ++ metadata)
  | form => .annotated form metadata

end Form

end ReflectedSchema.Annotated
