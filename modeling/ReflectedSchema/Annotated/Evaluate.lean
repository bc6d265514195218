import ReflectedSchema.Annotated.Shown

/-!
# Evaluating annotations

A name in an annotation is looked for among the outermost names of the module of its class, then among the special
words and the value structs, then among the types declared in the class itself, and last among the
built-in names.  What is written without quotes is evaluated at once, from left to right; the quoted
parts follow when that has succeeded, in the same order.  A word refuses arguments that are no types,
and a union with a bar refuses operands that cannot form one.
-/

namespace ReflectedSchema.Annotated

/-- How a type is misused. -/
inductive Misuse where
  /-- A word stands where a type is needed. -/
  | plain (word : String)
  /-- A type with arguments stands where it has no meaning. -/
  | argument (shown : String)
  | notSubscriptable (what : String)
  | notGeneric (shown : String)
  /-- A word that takes one argument is given several. -/
  | single (word verb : String) (given : String)
  | argumentCount (word : String) (actual expected : Nat)
  | noMetadata
  | operands (left right : String)
  deriving DecidableEq, Repr

/-- The wording of a misuse. -/
def Misuse.message : Misuse → String
  | .plain word => "Plain typing." ++ word ++ " is not valid as type argument"
  | .argument shown => shown ++ " is not valid as type argument"
  | .notSubscriptable what => what ++ " is not subscriptable"
  | .notGeneric shown => shown ++ " is not a generic class"
  | .single word verb given => "typing." ++ word ++ " " ++ verb ++ " single type. Got " ++ given ++ "."
  | .argumentCount word actual expected =>
    "Too " ++ (if actual < expected then "few" else "many") ++ " arguments for typing." ++ word ++
      "; actual " ++ toString actual ++ ", expected " ++ toString expected
  | .noMetadata =>
    "Annotated[...] should be used with at least two arguments (a type and an annotation)."
  | .operands left right =>
    "unsupported operand type(s) for |: '" ++ left ++ "' and '" ++ right ++ "'"

/-- Why an annotation has no value. -/
inductive Trouble where
  | undefined (name : String)
  | misused (misuse : Misuse)
  /-- Something has no attribute of a name. -/
  | missingAttribute (holder : Option String) (name : String)
  /-- An enumeration has no member of a name, which is shown as a value. -/
  | missingMember (shown : String)
  deriving DecidableEq, Repr

/-- What an expression evaluates to: its form with the quoted parts left as they are, and its final
form.  The final form depends on whether a word that marks a whole property may stand there. -/
structure Evaluated where
  now : Form
  final : (whole : Bool) → Except Trouble Form

/-- An expression without quoted parts. -/
def Evaluated.of (form : Form) : Evaluated := ⟨form, fun _ => .ok form⟩

/-- Where the names of an annotation are looked for. -/
structure Scope where
  program : Program
  /-- The module of the class of the annotation. -/
  module : String
  /-- What the attributes stand for that the class of the annotation declares. -/
  own : List (String × Form) := []

namespace Scope

/-- The special words and the value structs. -/
def word? (name : String) : Option Atom :=
  match name with
  | "Any" => some .any
  | "Annotated" => some .annotatedWord
  | "Enum" | "IntEnum" | "IntFlag" => some (.enumBase name)
  | "ClassVar" | "Final" | "Literal" | "Optional" | "Union" => some (.special name)
  | "Dict" | "List" | "Set" | "Tuple" => some (.container name)
  | "Rid" => some .rid
  | _ => (StructTag.ofName? name).map .struct

/-- The built-in classes. -/
def builtins : List String :=
  ["bool", "bytearray", "bytes", "classmethod", "complex", "dict", "enumerate", "filter", "float",
   "frozenset", "int", "list", "map", "memoryview", "object", "property", "range", "reversed", "set",
   "slice", "staticmethod", "str", "super", "tuple", "type", "zip", "BaseException", "Exception",
   "ArithmeticError", "AssertionError", "AttributeError", "KeyError", "IndexError", "LookupError",
   "NameError", "OSError", "RuntimeError", "TypeError", "ValueError"]

/-- The built-in classes that take arguments. -/
def generics : List String := ["dict", "frozenset", "list", "set", "tuple", "type"]

/-- The values that are written as a word of their own, with the names of their classes. -/
def constants : List (String × String) :=
  [("True", "bool"), ("False", "bool"), ("Ellipsis", "ellipsis"),
   ("NotImplemented", "NotImplementedType")]

/-- What a name stands for. -/
def lookup (s : Scope) (name : String) : Except Trouble Form :=
  match Json.lookup name (s.program.globals s.module), word? name, Json.lookup name s.own with
  | some number, _, _ => .ok (.atom (.declared number))
  | none, some atom, _ => .ok (.atom atom)
  | none, none, some form => .ok form
  | none, none, none =>
    if name = "None" then .ok (.atom .none)
    else if builtins.contains name then .ok (.atom (.builtin name))
    else
      match Json.lookup name constants with
      | some sort => .ok (.atom (.literal sort name))
      | none =>
        if name.all Char.isDigit then .ok (.atom (.literal "int" name)) else .error (.undefined name)

/-- What carries the attributes of a form, in words; an enumeration and a special word are not named. -/
def holder (p : Program) : Form → Option String
  | .atom (.special _) | .alias .. | .union _ => none
  | .atom .none => some "'NoneType' object"
  | .atom .rid => some "'NewType' object"
  | .atom (.container name) => some ("type object '" ++ name.toLower ++ "'")
  | form =>
    match form.valueSort? with
    | some sort => some ("'" ++ sort ++ "' object")
    | none => some ("type object '" ++ form.typeName p ++ "'")

/-- The members of an enumeration and what they stand for; the bases of enumerations have none.  A member
that repeats a value is the first one with that value. -/
def memberForms? (p : Program) (form : Form) : Option (List (String × Form)) :=
  match form with
  | .atom (.enumBase _) => some []
  | .atom (.declared number) => (p.enum? number).map fun (base, members) =>
    members.map fun (name, value) =>
      let first := ((members.find? (·.2 = value)).map (·.1)).getD name
      let qualified := form.typeName p ++ "." ++ first
      (name, .atom (.member (form.typeName p) ("<" ++ qualified ++ ": " ++ toString value ++ ">")
        (if base = .plain then qualified else toString value)))
  | _ => none

/-- An attribute of a form. -/
def attributeOf (s : Scope) (form : Form) (name : String) : Except Trouble Form :=
  match memberForms? s.program form, form with
  | some members, _ =>
    match Json.lookup name members with
    | some member => .ok member
    | none => .error (.missingAttribute none name)
  | none, .atom (.declared number) =>
    match s.program.attributeForm? number name with
    | some found => .ok found
    | none => .error (.missingAttribute (holder s.program form) name)
  | none, form => .error (.missingAttribute (holder s.program form) name)

/-- Check that a form can stand where a type is needed.  The words that mark a whole property can do so
only there. -/
def check (s : Scope) (whole : Bool) (form : Form) : Except Trouble Unit :=
  match form with
  | .atom (.special word) =>
    if whole && (word = "ClassVar" || word = "Final") then .ok () else .error (.misused (.plain word))
  | .alias word _ | .annotated (.atom (.special word)) _ =>
    if !whole && (word = "ClassVar" || word = "Final") then
      .error (.misused (.argument (form.shown s.program)))
    else .ok ()
  | _ => .ok ()

/-- The name of the sort of an operand. -/
def operand (p : Program) : Form → String
  | .atom .none => "NoneType"
  | .atom .any => "_AnyMeta"
  | .atom (.enumBase _) => "EnumType"
  | .atom (.declared number) => if (p.enum? number).isSome then "EnumType" else "type"
  | .atom (.quoted _) => "str"
  | .generic .. | .applied .. => "types.GenericAlias"
  | .either _ => "types.UnionType"
  | form => form.valueSort?.getD "type"

/-- Whether a form can stand beside a bar: a value cannot, and the absent value only beside a type. -/
def isOperand : Form → Bool
  | .atom (.quoted _) => false
  | form => form.valueSort?.isNone

/-- The number of arguments of a container word that has a fixed one. -/
def arity? : String → Option Nat
  | "List" | "Set" => some 1
  | "Dict" => some 2
  | _ => none

/-- The final forms of arguments. -/
def finals (args : List Evaluated) : Except Trouble (List Form) :=
  args.mapM (·.final false)

/-- A type with arguments, built from the forms of the arguments before and after their quoted parts
are evaluated. -/
def rebuilt (args : List Evaluated) (build : List Form → Form) : Evaluated :=
  ⟨build (args.map (·.now)), fun _ => (finals args).map build⟩

/-- A union that is spelled with a word: it refuses members that are no types also when their quoted
parts have been evaluated. -/
def union (s : Scope) (args : List Evaluated) (build : List Form → Form) : Except Trouble Evaluated := do
  args.forM fun arg => s.check false arg.now
  return ⟨build (args.map (·.now)), fun _ => do
    let forms ← finals args
    forms.forM (s.check false)
    return build forms⟩

/-- Check that a word has one argument and that it is a type. -/
def single (s : Scope) (word verb : String) (args : List Evaluated) : Except Trouble Unit :=
  match args with
  | [arg] => s.check false arg.now
  | many =>
    let given := "(" ++ ", ".intercalate (many.map (·.now.display s.program)) ++ ")"
    .error (.misused (.single word verb (String.ofList (given.toList.take 100))))

/-- A type with metadata.  It takes the module of what it is made of, which is to have one: every type and
every member of an enumeration does. -/
def withMetadata (metadata : List Metadata) (form : Form) : Except Trouble Form :=
  match form, form.valueSort? with
  | .atom (.member ..), _ | _, none => .ok (form.asArgument.withMetadata metadata)
  | _, some sort => .error (.missingAttribute (some ("'" ++ sort ++ "' object")) "__module__")

/-- A type with metadata, before and after its quoted parts are evaluated. -/
def annotate (s : Scope) (arg : Evaluated) (metadata : List Metadata) : Except Trouble Evaluated := do
  s.check true arg.now
  return ⟨← withMetadata metadata arg.now, fun _ => do withMetadata metadata (← arg.final true)⟩

/-- A member of an enumeration by its name in brackets, which has to be quoted. -/
def memberAt (s : Scope) (members : List (String × Form)) (args : List Evaluated) :
    Except Trouble Evaluated :=
  match args with
  | [⟨.atom (.quoted name), _⟩] =>
    match Json.lookup name members with
    | some member => .ok (.of member)
    | none => .error (.missingMember (Text.quoted name))
  | [key] => .error (.missingMember (key.now.display s.program))
  | keys =>
    .error (.missingMember ("(" ++ ", ".intercalate (keys.map (·.now.display s.program)) ++ ")"))

/-- A form with arguments in brackets. -/
def apply (s : Scope) (head : Form) (args : List Evaluated) : Except Trouble Evaluated := do
  match memberForms? s.program head, head with
  | some members, _ => s.memberAt members args
  | none, .atom (.builtin name) =>
    if generics.contains name then return rebuilt args (.generic name)
    else throw (.misused (.notSubscriptable ("type '" ++ name ++ "'")))
  | none, .atom (.container word) =>
    args.forM fun arg => s.check false arg.now
    match arity? word with
    | some expected =>
      if args.length ≠ expected then throw (.misused (.argumentCount word args.length expected))
    | none => pure ()
    return rebuilt args fun forms => .alias word (forms.map Form.asArgument)
  | none, .atom (.special "Optional") =>
    s.single "Optional" "requires a" args
    s.union args fun forms => .unionOf (forms ++ [.atom .none])
  | none, .atom (.special "Union") => s.union args .unionOf
  | none, .atom (.special word) =>
    s.single word "accepts only" args
    return rebuilt args fun forms => .alias word (forms.map Form.asArgument)
  | none, .atom .annotatedWord =>
    match args with
    | arg :: data :: more =>
      s.annotate arg <| (data :: more).map fun
        | ⟨.atom (.quoted source), _⟩ => .text source
        | _ => .number 0
    | _ => throw (.misused .noMetadata)
  | none, .atom (.declared number) =>
    if s.program.isContainer number then return rebuilt args (.applied number)
    else throw (.misused (.notSubscriptable ("type '" ++ head.typeName s.program ++ "'")))
  | none, .atom .none => throw (.misused (.notSubscriptable "'NoneType' object"))
  | none, .atom .rid => throw (.misused (.notSubscriptable "'NewType' object"))
  | none, .atom (.quoted _) => throw (.misused (.notSubscriptable "'str' object"))
  | none, .atom _ =>
    match head.valueSort? with
    | some sort => throw (.misused (.notSubscriptable ("'" ++ sort ++ "' object")))
    | none => throw (.misused (.notSubscriptable ("type '" ++ head.typeName s.program ++ "'")))
  | none, form => throw (.misused (.notGeneric (form.shown s.program)))

/-- One form or another. -/
def either (s : Scope) (left right : Evaluated) : Except Trouble Evaluated := do
  if left.now.isWordLike || right.now.isWordLike then s.union [left, right] .unionOf
  else if !isOperand left.now || !isOperand right.now ||
      (left.now matches .atom .none && right.now matches .atom .none) then
    throw (.misused (.operands (operand s.program left.now) (operand s.program right.now)))
  else return rebuilt [left, right] .eitherOf

mutual

/-- The value of an expression. -/
def evaluate (s : Scope) : Expr → Except Trouble Evaluated
  | .name head path => do
    return .of (← path.foldlM s.attributeOf (← s.lookup head))
  | .apply head args => do
    let head ← evaluate s head
    if head.now matches .atom (.special "Literal") then
      return .of (.alias "Literal" (← literals s args))
    s.apply head.now (← evaluateAll s args)
  | .annotated type metadata => do
    s.annotate (← evaluate s type) metadata
  | .either left right => do
    let left ← evaluate s left
    s.either left (← evaluate s right)
  | .quoted inner =>
    return ⟨.atom (.quoted inner.source), fun whole => do
      let inner ← evaluate s inner
      s.check whole inner.now
      return (← inner.final whole).asArgument⟩

/-- The values of expressions. -/
def evaluateAll (s : Scope) : List Expr → Except Trouble (List Evaluated)
  | [] => return []
  | e :: rest => do
    let first ← evaluate s e
    return first :: (← evaluateAll s rest)

/-- The arguments of a literal type, of which the quoted ones are texts. -/
def literals (s : Scope) : List Expr → Except Trouble (List Form)
  | [] => return []
  | .quoted inner :: rest =>
    return .atom (.literal "str" (Text.quoted inner.source)) :: (← literals s rest)
  | e :: rest => do
    let first ← evaluate s e
    return first.now :: (← literals s rest)

end

/-- The type that an annotation of a property names. -/
def typeOf (s : Scope) (e : Expr) : Except Trouble Form := do
  let value ← s.evaluate e
  s.check true value.now
  return (← value.final true).asArgument

end Scope

end ReflectedSchema.Annotated
