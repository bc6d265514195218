import ReflectedSchema.Exception
import ReflectedSchema.Json.Parser
import ReflectedSchema.Json.Pointer
import ReflectedSchema.Property
import ReflectedSchema.Violation

/-!
# Failures

A failure is what the library reports to its callers: a cause, and the properties that were being
handled when it arose, innermost first.  Everything a caller can be told stands in the cause as data;
`Cause.message` and `Failure.describe` are the only places with wording.

A fault is outside that contract.  It is not annotated with properties and passes through the library
to its caller as it is.
-/

namespace ReflectedSchema

/-- What a name in a schema's definitions stands for. -/
inductive Entity where
  | class (name : String)
  | enum (path : String)
  | struct (tag : StructTag)
  deriving DecidableEq, Repr, Inhabited

namespace Entity

/-- The word for the sort of an entity. -/
def sort : Entity → String
  | .class _ => "class"
  | .enum _ => "enum"
  | .struct _ => "struct"

/-- The name of an entity among those of its sort. -/
def id : Entity → String
  | .class name => name
  | .enum path => path
  | .struct tag => tag.name

end Entity

/-- Why a property, a class or an enumeration has no place in a schema. -/
inductive Unsupported where
  | propertyType (tag : TypeTag) (className : String) (hint : Hint) (hintText : String)
  | unnamedObject
  | unknownObject (className : String)
  | elementHint (hintText : String)
  | globalEnum (path : String)
  | enumPath (path : String)
  | enumOwner (path owner : String)
  | structName (className : String)
  | clash (className : String) (holder : Entity)
  | emptyEnum (path : String)
  /-- The named attribute of a class is no enumeration of integers. -/
  | notEnum (path : String)
  /-- A host has no enumeration of that name. -/
  | missingEnum (path : String)
  | notStruct (tag : TypeTag)
  | annotations (className problem : String)
  /-- In the words of a host. -/
  | stated (message : String)
  deriving DecidableEq, Repr

/-- The wording of an unsupported construct. -/
def Unsupported.message : Unsupported → String
  | .propertyType tag className hint hintText =>
    "Unsupported property type " ++ tag.name ++ " (class_name=" ++ Text.quoted className ++
      ", hint=" ++ hint.name ++ ", hint_string=" ++ Text.quoted hintText ++ ")"
  | .unnamedObject => "Object property does not name a class"
  | .unknownObject className => "Object property references unknown class '" ++ className ++ "'"
  | .elementHint hintText =>
    "Array element hint '" ++ hintText ++
      "' is neither a primitive type, a known class nor a 'Class.Enum' path"
  | .globalEnum path =>
    "Cannot resolve enum '" ++ path ++ "': global enums are not supported, " ++
      "the enum must be declared inside a user class"
  | .enumPath path => "Expected enum path of the form 'ClassName.EnumName', got '" ++ path ++ "'"
  | .enumOwner path owner => "Enum '" ++ path ++ "' is owned by unknown class '" ++ owner ++ "'"
  | .structName className => "Class '" ++ className ++ "' has the name of a built-in value struct"
  | .clash className holder =>
    "Class '" ++ className ++ "' clashes with the " ++ holder.sort ++ " definition '" ++ holder.id ++ "'"
  | .emptyEnum path => "Enum '" ++ path ++ "' has no members"
  | .notEnum path => "'" ++ path ++ "' is not an IntEnum or IntFlag declared in the class"
  | .missingEnum path => "no enum " ++ path
  | .notStruct tag => tag.name ++ " is not a value struct"
  | .annotations className problem =>
    "Cannot resolve the annotations of class '" ++ className ++ "': " ++ problem
  | .stated message => message

/-- Why a text is not a JSON document. -/
inductive Malformed where
  | utf8 (position : Nat) (defect : Text.Utf8.Defect)
  | notText (typeName : String)
  | grammar (position : Json.Position) (defect : Json.Defect)
  | tooDeep
  | stated (message : String)
  deriving DecidableEq, Repr

/-- The wording of a malformed text. -/
def Malformed.message : Malformed → String
  | .utf8 position defect =>
    "JSON bytes are not valid UTF-8 at position " ++ toString position ++ ": " ++ defect.message
  | .notText typeName => "Expected JSON text, got " ++ typeName
  | .grammar position defect =>
    "Invalid JSON at line " ++ toString position.line ++ " column " ++ toString position.column ++
      ": " ++ defect.message
  | .tooDeep => "JSON nesting too deep"
  | .stated message => message

/-- The cause of a failure. -/
inductive Cause where
  | general (message : String)
  /-- A class is unknown to the host, which may say so in its own words. -/
  | unknownClass (className : String) (stated : Option String)
  | unknownProperty (className property : String)
  | unsupported (u : Unsupported)
  | schemaNotFound (className : String)
  /-- A value does not fit at the place with the pointer `path`. -/
  | violation (path : String) (v : Violation)
  | malformed (m : Malformed)
  | assignment (className property problem : String)
  | construction (className problem : String)

namespace Cause

/-- The code of a cause. -/
def code : Cause → String
  | .general _ => "error"
  | .unknownClass .. => "unknown_class"
  | .unknownProperty .. => "unknown_property"
  | .unsupported _ => "unsupported_type"
  | .schemaNotFound _ => "schema_not_found"
  | .violation _ v => if v.isUnknownMember then "unknown_enum_member" else "validation_failed"
  | .malformed _ => "malformed_json"
  | .assignment .. => "property_assignment_failed"
  | .construction .. => "construction_failed"

/-- The wording of a cause. -/
def message : Cause → String
  | .general message => message
  | .unknownClass className stated =>
    match stated with
    | none | some "" => "Class '" ++ className ++ "' is not registered with the reflection source"
    | some message => message
  | .unknownProperty className property =>
    "Class '" ++ className ++ "' has no property '" ++ property ++ "'"
  | .unsupported u => u.message
  | .schemaNotFound className =>
    "No schema found for class '" ++ className ++ "'. Generate it before instantiating."
  | .violation _ v => v.message
  | .malformed m => m.message
  | .assignment className property problem =>
    "Could not assign property '" ++ property ++ "' on '" ++ className ++ "': " ++ problem
  | .construction className problem =>
    "Could not construct an instance of '" ++ className ++ "': " ++ problem

end Cause

/-- A property that was being handled when a failure arose. -/
structure Frame where
  owner : String
  property : String
  deriving DecidableEq, Repr, Inhabited

/-- The text of a frame. -/
def Frame.text (f : Frame) : String := f.owner ++ "." ++ f.property

/-- A failure: its cause, and the frames around it, innermost first. -/
structure Failure where
  cause : Cause
  context : List Frame := []

namespace Failure

/-- Record that a failure arose while a property was being handled. -/
def annotate (f : Failure) (owner property : String) : Failure :=
  { f with context := f.context ++ [⟨owner, property⟩] }

/-- The wording of the cause. -/
def message (f : Failure) : String := f.cause.message

/-- The frames in words. -/
def trail (f : Failure) : String :=
  " <- ".intercalate (f.context.map Frame.text)

/-- A failure in words: a violation is located by its pointer, any other cause by its frames. -/
def describe (f : Failure) : String :=
  match f.cause with
  | .violation path v =>
    let located := "[" ++ f.cause.code ++ ":" ++ v.reason.text ++ "] " ++
      (if path.isEmpty then "/" else path) ++ ": " ++ v.message
    if v.isUnknownMember && !f.context.isEmpty then located ++ " (at " ++ f.trail ++ ")" else located
  | cause =>
    if f.context.isEmpty then "[" ++ cause.code ++ "] " ++ cause.message
    else "[" ++ cause.code ++ "] " ++ f.trail ++ ": " ++ cause.message

/-- The innermost frame, read back from its text: what stands before and after its last dot. -/
def innermost (f : Failure) : Option (String × String) :=
  f.context.head?.map fun frame =>
    let reversed := frame.text.toList.reverse
    let property := reversed.takeWhile (· ≠ '.')
    (String.ofList (reversed.drop (property.length + 1)).reverse, String.ofList property.reverse)

end Failure

/-- What is outside the contract of the library. -/
inductive Fault where
  /-- An integer is too large for a double. -/
  | floatOverflow
  /-- An integer in a text has too many digits. -/
  | digitLimit (digits : Nat)
  /-- An item of a byte array is an integer but no byte. -/
  | byteRange
  /-- An item of a byte array is no integer. -/
  | byteType (typeName : String)
  /-- A document lacks a field that its schema promised. -/
  | missingField (name : String)
  /-- A reference leads nowhere. -/
  | unresolvedReference (reference : String)
  /-- References lead to each other without end. -/
  | endlessReference
  /-- A schema requires the same field twice. -/
  | invalidSchema
  /-- A value that is no object stands for a document. -/
  | notDocument (typeName : String)
  | reservedName (className : String)
  | reservedDefinition (name : String)
  | invalidTag (given : String)
  | invalidHint (given : String)
  | invalidReason (given : String)
  | notStructTag (tag : TypeTag)
  | notPackedTag (tag : TypeTag)
  /-- Something has no attribute of a name. -/
  | missingAttribute (holder : Option String) (name : String)
  /-- A value struct has no component of a name. -/
  | unknownComponent (tag : StructTag) (component : String)
  /-- A member name is not a text. -/
  | memberNotText (position : Nat) (typeName : String)
  /-- An exception of another class, with its message. -/
  | raised (sort : ExceptionClass) (text : String)
  deriving DecidableEq, Repr

/-- A list has no item at an index. -/
def Fault.outOfRange : Fault := .raised (.builtIn "IndexError") "list index out of range"

/-- Whether a fault says that calls are nested too deep. -/
def Fault.isRecursion : Fault → Bool
  | .endlessReference => true
  | .raised sort _ => sort.isA "RecursionError"
  | _ => false

/-- The wording of a fault, where it has one. -/
def Fault.message : Fault → Option String
  | .floatOverflow => some "int too large to convert to float"
  | .digitLimit digits => some <|
    "Exceeds the limit (4300 digits) for integer string conversion: value has " ++ toString digits ++
      " digits; use sys.set_int_max_str_digits() to increase the limit"
  | .byteRange => some "bytes must be in range(0, 256)"
  | .byteType typeName => some ("'" ++ typeName ++ "' object cannot be interpreted as an integer")
  | .missingField name => some (Text.quoted name)
  | .unresolvedReference _ | .endlessReference | .invalidSchema => none
  | .notDocument typeName => some <|
    "schema must be a CompiledSchema or a dict, got " ++ typeName
  | .reservedName className => some <|
    "Class name '" ++ className ++ "' is reserved for the built-in value struct"
  | .reservedDefinition name => some ("Definition '" ++ name ++ "' is already reserved")
  | .invalidTag given => some (given ++ " is not a valid TypeTag")
  | .invalidHint given => some (given ++ " is not a valid PropertyHint")
  | .invalidReason given => some (given ++ " is not a valid ValidationReason")
  | .notStructTag tag => some <|
    "<TypeTag." ++ tag.name ++ ": " ++ toString tag.toNat ++ "> is not a struct type"
  | .notPackedTag tag => some <|
    "<TypeTag." ++ tag.name ++ ": " ++ toString tag.toNat ++ "> is not a packed array type"
  | .missingAttribute holder name => some <|
    match holder with
    | some holder => holder ++ " has no attribute '" ++ name ++ "'"
    | none => name
  | .unknownComponent tag component => some <|
    tag.name ++ ".__init__() got an unexpected keyword argument '" ++ component ++ "'"
  | .memberNotText position typeName => some <|
    "sequence item " ++ toString position ++ ": expected str instance, " ++ typeName ++ " found"
  | .raised _ text => some text

/-- How an operation ends when it does not return: with a failure or with a fault. -/
inductive Raised where
  | failure (f : Failure)
  | fault (f : Fault)

namespace Raised

/-- A failure without frames. -/
def ofCause (cause : Cause) : Raised := .failure { cause }

/-- Something unsupported, without frames. -/
def unsupported (u : Unsupported) : Raised := ofCause (.unsupported u)

/-- A violation at a location, without frames. -/
def violation (location : Location) (v : Violation) : Raised :=
  ofCause (.violation location.pointer v)

/-- What is reported where calls that nest too deep count as a violation. -/
def settled : Raised → Raised
  | .fault f => if f.isRecursion then violation [] .tooDeep else .fault f
  | .failure f => .failure f

/-- Calls that nest too deep are told as a violation. -/
theorem settled_of_recursion {f : Fault} (h : f.isRecursion = true) :
    (fault f).settled = violation [] .tooDeep :=
  if_pos h

/-- Any other fault is told as it is. -/
theorem settled_of_not_recursion {f : Fault} (h : f.isRecursion = false) : (fault f).settled = .fault f :=
  if_neg (Bool.eq_false_iff.mp h)

/-- Record that it arose while a property was being handled; a fault carries no frames. -/
def annotate (owner property : String) : Raised → Raised
  | .failure f => .failure (f.annotate owner property)
  | .fault f => .fault f

end Raised

/-- The members of an enumeration as texts. -/
def memberTexts (members : List Json) : Except Raised (List String) :=
  match members.findIdx? fun m => m.str?.isNone with
  | some position => .error (.fault (.memberNotText position ((members[position]?.getD .null).typeName)))
  | none => .ok (members.filterMap Json.str?)

end ReflectedSchema
