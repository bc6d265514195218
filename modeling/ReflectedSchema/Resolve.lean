import ReflectedSchema.Description
import ReflectedSchema.Log
import ReflectedSchema.Source
import ReflectedSchema.Text.Split

/-!
# Kinds of reflected properties

`resolve` decides the kind of a property from its tag, class name, hint and usage bits:

- an integer whose usage says so is an enumeration, or a set of flags, named `Owner.Enum` by its class
  name; the owner must be a class;
- an object has the class of its class name or, when that is empty, of its hint text;
- an array with an element hint has the element kind that its hint text names: first a primitive type,
  a value struct or a packed array, then a class, then an enumeration `Owner.Enum`;
- an array without one has any items, and every other tag but `nil` stands for its own kind.

Everything else is unsupported.
-/

namespace ReflectedSchema

/-- The kinds that an element hint can name without a class. -/
def primitiveHint? (hintText : String) : Option Kind :=
  if hintText = "bool" then some .boolean
  else if hintText = "int" then some .integer
  else if hintText = "float" then some .number
  else if hintText = "String" then some .string
  else if hintText = "Dictionary" then some .dictionary
  else if hintText = "Array" then some (.anyArray none)
  else
    match StructTag.ofName? hintText with
    | some tag => some (.struct tag)
    | none => (PackedTag.ofName? hintText).map .packed

/-- The enumeration that a path `Owner.Enum` names. -/
def resolveEnum (known : String → Bool) (path : String) (flags : Bool) : Except Unsupported Kind :=
  match (Text.split '.' path.toList).map String.ofList with
  | [] | [_] => .error (.globalEnum path)
  | [owner, name] =>
    if owner.isEmpty || name.isEmpty then .error (.enumPath path)
    else if known owner then .ok (.enum owner name flags)
    else .error (.enumOwner path owner)
  | _ => .error (.enumPath path)

/-- The class that an object property references. -/
def resolveObject (known : String → Bool) (info : PropertyInfo) : Except Unsupported Kind :=
  let named := if info.className.isEmpty then info.hintText else info.className
  if named.isEmpty then .error .unnamedObject
  else if known named then .ok (.object named)
  else .error (.unknownObject named)

/-- The kind that an element hint names. -/
def resolveElement (known : String → Bool) (hintText : String) : Except Unsupported Kind :=
  match primitiveHint? hintText with
  | some kind => .ok kind
  | none =>
    if known hintText then .ok (.object hintText)
    else if hintText.toList.contains '.' then resolveEnum known hintText false
    else .error (.elementHint hintText)

/-- The kind of a reflected property, where `known` tells the names of classes. -/
def resolve (known : String → Bool) (info : PropertyInfo) : Except Unsupported Kind :=
  match info.type with
  | .int =>
    if info.usage.hasEnum || info.usage.hasBitfield then
      resolveEnum known info.className info.usage.hasBitfield
    else .ok .integer
  | .object => resolveObject known info
  | .array =>
    if info.hint = .arrayType && !info.hintText.isEmpty then
      (resolveElement known info.hintText).map (.array · none)
    else .ok (.anyArray none)
  | .bool => .ok .boolean
  | .float => .ok .number
  | .string => .ok .string
  | .dictionary => .ok .dictionary
  | .rid => .ok .integer
  | .struct tag => .ok (.struct tag)
  | .packed tag => .ok (.packed tag)
  | .nil => .error (.propertyType .nil info.className info.hint info.hintText)

/-- The descriptor of a reflected property of a class. -/
def describeProperty (known : String → Bool) (className : String) (info : PropertyInfo) :
    Except Raised PropertyDescriptor :=
  match resolve known info with
  | .ok kind => .ok ⟨info.name, kind, info.description.bind Description.clean⟩
  | .error u => .error ((Raised.unsupported u).annotate className info.name)

/-- The descriptor of a class.  The names of the value structs are not available to classes. -/
def describeClass (source : Source) (className : String) : Except Raised ClassDescriptor := do
  if !source.hasClass className then
    throw (.ofCause (.unknownClass className none))
  if StructTag.names.contains className then
    throw (.unsupported (.structName className))
  let infos ← source.properties className
  let properties ← infos.mapM (describeProperty source.hasClass className)
  return ⟨className, properties⟩

/-- What is logged when a class was described. -/
def ClassDescriptor.described (c : ClassDescriptor) : LogRecord :=
  ⟨.debug, .classes,
    "Described class '" ++ c.name ++ "' with " ++ toString c.properties.length ++ " properties"⟩

end ReflectedSchema
