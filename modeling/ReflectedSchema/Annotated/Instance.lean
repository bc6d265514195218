import ReflectedSchema.Annotated.Registry
import ReflectedSchema.Host

/-!
# Instances of annotated classes

A new instance is made by the constructor of its class, the nearest one among the ancestors, which is
called without arguments.  An attribute is set by the rules of its class: a setter may refuse it, and a
class whose ancestors all list the attributes of their instances admits no others.
-/

namespace ReflectedSchema

namespace Annotated

/-- Names in quotes, as a list in words. -/
def inWords : List String → String
  | [] => ""
  | [name] => "'" ++ name ++ "'"
  | [first, second] => "'" ++ first ++ "' and '" ++ second ++ "'"
  | names =>
    ", ".intercalate ((names.dropLast).map fun name => "'" ++ name ++ "'") ++ ", and '" ++
      (names.getLast?.getD "") ++ "'"

/-- What is said of required parameters that are missing. -/
def missingParameters (constructorName sort : String) (names : List String) : String :=
  constructorName ++ "() missing " ++ toString names.length ++ " required " ++ sort ++
    (if names.length = 1 then " argument: " else " arguments: ") ++ inWords names

/-- Why parameters cannot go without arguments: the required ones are those without a default, and those
behind a star are passed by keyword. -/
def unbound? (constructorName : String) (parameters : List String) : Option String :=
  let required := fun (parameter : String) => !parameter.toList.contains '='
  let positional := (parameters.takeWhile (· ≠ "*")).filter required
  let keyword := ((parameters.dropWhile (· ≠ "*")).drop 1).filter required
  if !positional.isEmpty then some (missingParameters constructorName "positional" positional)
  else if !keyword.isEmpty then some (missingParameters constructorName "keyword-only" keyword)
  else none

namespace Program

/-- The nearest constructor of a class, with the number of the class that declares it.  The built-in
containers have constructors of their own, which need no arguments and hide those behind them. -/
def constructor? (p : Program) (number : Nat) : Option (Nat × List String × Option Thrown) :=
  let nearest := (p.ancestors number).findSome? fun
    | .declared n => (p.classBody? n).bind fun body => body.constructor.map fun c => some (n, c)
    | .dictionary | .list => some none
  nearest.join

/-- A new instance of a class, or the exception that its constructor ends with. -/
def newInstance (p : Program) (number : Nat) : Except Thrown HostValue :=
  match p.type? number with
  | some { body := .enum .., .. } =>
    .error ⟨.builtIn "TypeError", missingParameters "EnumType.__call__" "positional" ["value"]⟩
  | some d =>
    let ancestors := p.ancestors number
    let form : ReflectedSchema.Form :=
      if ancestors.contains .dictionary then .dictionary
      else if ancestors.contains .list then .list else .plain
    let new := HostValue.instance ⟨number, d.name, form⟩ []
    match p.constructor? number with
    | none => .ok new
    | some (owner, parameters, thrown) =>
      let ownerName := ((p.type? owner).map (·.qualifiedName)).getD ""
      match unbound? (ownerName ++ ".__init__") parameters, thrown with
      | some message, _ => .error ⟨.builtIn "TypeError", message⟩
      | none, some thrown => .error thrown
      | none, none => .ok new
  | none => .error ⟨.builtIn "TypeError", ""⟩

/-- Set an attribute of an instance. -/
def assign (p : Program) (c : ClassId) (attributes : List (String × HostValue)) (name : String)
    (value : HostValue) : Except Thrown HostValue :=
  let stored : HostValue := .instance c (Json.set name value attributes)
  let isOpen := (p.bodies c.number).any fun (_, body) => !body.hasSlots
  match p.attribute? c.number name with
  | some .readOnly =>
    let owner := ((p.type? c.number).map (·.qualifiedName)).getD ""
    .error ⟨.builtIn "AttributeError", "property '" ++ name ++ "' of '" ++ owner ++ "' object has no setter"⟩
  | some (.rejects thrown) => .error thrown
  | some .slot => .ok stored
  | some (.type _) =>
    if isOpen then .ok stored
    else .error ⟨.builtIn "AttributeError", "'" ++ c.name ++ "' object attribute '" ++ name ++ "' is read-only"⟩
  | none =>
    if isOpen then .ok stored
    else .error ⟨.builtIn "AttributeError", "'" ++ c.name ++ "' object has no attribute '" ++ name ++ "'"⟩

end Program

end Annotated

namespace Thrown

/-- The fault of an exception that is not caught. -/
def fault (t : Thrown) : Fault := .raised t.sort t.message

/-- Whether an exception says that a call does not take its arguments. -/
def isTypeError (t : Thrown) : Bool := t.sort.isA "TypeError"

/-- Whether an exception says that an attribute does not take a value. -/
def isRefusal (t : Thrown) : Bool :=
  ["AttributeError", "TypeError", "ValueError"].any t.sort.isA

end Thrown

namespace Annotated.Registry

/-- An empty instance of the class with a name. -/
def construct (r : Registry) (name : String) : Except Raised HostValue := do
  match r.program.newInstance (← r.class? name) with
  | .ok object => return object
  | .error thrown =>
    if thrown.isTypeError then throw (.ofCause (.construction name thrown.message))
    else throw (.fault thrown.fault)

/-- An instance after one of its annotated properties was set. -/
def setProperty (r : Registry) (object : HostValue) (property : String) (value : HostValue) :
    Except Raised HostValue := do
  match object with
  | .instance c attributes =>
    match r.name? c.number with
    | none => throw (.ofCause (.unknownClass c.name none))
    | some name =>
      let declared ← r.annotatedProperties c.number
      if !(declared.any (·.1 = property)) then throw (.ofCause (.unknownProperty name property))
      match r.program.assign c attributes property value with
      | .ok changed => return changed
      | .error thrown =>
        if thrown.isRefusal then throw (.ofCause (.assignment name property thrown.message))
        else throw (.fault thrown.fault)
  | other => throw (.ofCause (.unknownClass other.typeName none))

/-- A packed array of its items: bytes are kept as such, and other items as a list. -/
def constructPacked (type : TypeTag) (items : List HostValue) : Except Raised HostValue :=
  match type with
  | .packed .byte => (HostValue.toBytes items).map .bytes
  | _ => .ok (.list items)

/-- The objects of a registry. -/
def host (r : Registry) : PureHost where
  construct name := HostM.ofExcept (r.construct name)
  setProperty object property value := HostM.ofExcept (r.setProperty object property value)
  constructStruct type components := HostM.ofExcept (HostValue.ofComponents type components)
  constructPacked type items := HostM.ofExcept (constructPacked type items)

end Annotated.Registry

end ReflectedSchema
