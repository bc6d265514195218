import ReflectedSchema.Annotated.Form
import ReflectedSchema.Exception
import ReflectedSchema.Kind.Basic
import ReflectedSchema.Json.Basic

/-!
# Programs of annotated classes

A program consists of modules.  A module declares classes and enumerations, which may be declared inside
classes, and takes names from other modules.  The declarations of all modules are numbered in the order in
which they are finished, so the bases of a class always have smaller numbers; each of them belongs to the
module that declares it, and each module has outermost names of its own.  The linearisation of a class lists
it and its ancestors, of whatever modules, each class before its bases and the bases of a class in their
order.
-/

namespace ReflectedSchema.Annotated

/-- The bases of enumerations. -/
inductive EnumBase where
  | plain | int | flags
  deriving DecidableEq, Repr, Inhabited

/-- An item of a class body. -/
inductive Item where
  | property (name : String) (type : Expr)
  | enum (name : String) (base : EnumBase) (members : List (String × Int))
  | class (name : String) (bases : List String) (body : List Item)
  /-- An attribute that cannot be set. -/
  | readOnly (name : String)
  /-- An attribute whose setter raises. -/
  | rejects (name : String) (thrown : Thrown)
  /-- The only attributes that instances may have. -/
  | slots (names : List String)
  /-- A constructor with parameters, which may raise. -/
  | constructor (parameters : List String) (thrown : Option Thrown)
  deriving Inhabited

/-- An ancestor of a class. -/
inductive Ancestor where
  | declared (number : Nat)
  | dictionary
  | list
  deriving DecidableEq, Repr, Inhabited

/-- An attribute of a class. -/
inductive Attribute where
  | readOnly
  | rejects (thrown : Thrown)
  | slot
  /-- A class or an enumeration declared inside. -/
  | type (number : Nat)
  deriving DecidableEq, Repr, Inhabited

/-- What an attribute of a class stands for in an annotation. -/
def Attribute.form (owner : Nat) (name : String) : Attribute → Form
  | .type number => .atom (.declared number)
  | .slot => .atom (.descriptor owner name true)
  | .readOnly | .rejects _ => .atom (.descriptor owner name false)

/-- The body of a class. -/
structure ClassBody where
  bases : List Ancestor := []
  annotations : List (String × Expr) := []
  attributes : List (String × Attribute) := []
  hasSlots : Bool := false
  constructor : Option (List String × Option Thrown) := none
  deriving Inhabited

/-- The body of a class or an enumeration. -/
inductive Body where
  | class (body : ClassBody)
  | enum (base : EnumBase) (members : List (String × Int))
  deriving Inhabited

/-- A declared class or enumeration. -/
structure Declared where
  name : String
  /-- The name with the names of the classes around it. -/
  qualifiedName : String
  /-- The name of the module that declares it. -/
  module : String
  body : Body
  /-- The class and its ancestors, each before its bases. -/
  linearization : List Ancestor
  deriving Inhabited

/-- What a declaration is known by: its module and its qualified name. -/
def Declared.place (d : Declared) : String × String := (d.module, d.qualifiedName)

/-- A program: its declarations by number, and the numbers of the outermost names of each module.  Messages
show the name of the module in front of the name of a class; that of the value structs is one of its own. -/
structure Program where
  structModule : String := ""
  types : List Declared := []
  namespaces : List (String × List (String × Nat)) := []
  deriving Inhabited

namespace Program

/-- The outermost names of a module. -/
def globals (p : Program) (module : String) : List (String × Nat) :=
  (Json.lookup module p.namespaces).getD []

/-- The declaration with a number. -/
def type? (p : Program) (number : Nat) : Option Declared :=
  p.types[number]?

/-- The class body with a number. -/
def classBody? (p : Program) (number : Nat) : Option ClassBody :=
  match p.type? number with
  | some { body := .class body, .. } => some body
  | _ => none

/-- The classes that a class inherits from, itself first. -/
def ancestors (p : Program) (number : Nat) : List Ancestor :=
  ((p.type? number).map (·.linearization)).getD []

/-- The bodies of a class and of its declared ancestors, each before its bases. -/
def bodies (p : Program) (number : Nat) : List (Nat × ClassBody) :=
  (p.ancestors number).filterMap fun
    | .declared n => (p.classBody? n).map (n, ·)
    | _ => none

/-- The enumeration with a number. -/
def enum? (p : Program) (number : Nat) : Option (EnumBase × List (String × Int)) :=
  match p.type? number with
  | some { body := .enum base members, .. } => some (base, members)
  | _ => none

/-- Whether a class derives from a built-in container. -/
def isContainer (p : Program) (number : Nat) : Bool :=
  (p.ancestors number).any (· matches .dictionary | .list)

/-- The attribute of a class: that of the first class of its linearisation that has one. -/
def attribute? (p : Program) (number : Nat) (name : String) : Option Attribute :=
  (p.bodies number).findSome? fun (_, body) => Json.lookup name body.attributes

/-- What an attribute of a class stands for in an annotation. -/
def attributeForm? (p : Program) (number : Nat) (name : String) : Option Form :=
  (p.bodies number).findSome? fun (owner, body) =>
    (Json.lookup name body.attributes).map fun a => a.form owner name

end Program

/-- Merge linearisations: take the first head that stands in no tail, as often as there are entries. -/
def mergeLinear : (bound : Nat) → List (List Ancestor) → List Ancestor
  | 0, _ => []
  | bound + 1, lists =>
    let pending := lists.filter (!·.isEmpty)
    match pending.findSome? fun list => list.head?.filter fun a => !(pending.any (·.tail.contains a)) with
    | none => []
    | some next =>
      next :: mergeLinear bound (pending.map fun list => if list.head? = some next then list.tail else list)

namespace Program

/-- The module of a class or of an ancestor; the containers are built in. -/
def moduleOf (p : Program) : Ancestor → String
  | .declared number => ((p.type? number).map (·.module)).getD ""
  | .dictionary | .list => "builtins"

/-- The linearisation of a class with a number and bases. -/
def linearize (p : Program) (number : Nat) (bases : List Ancestor) : List Ancestor :=
  let lists := bases.map (fun
    | .declared n => p.ancestors n
    | other => [other]) ++ [bases]
  .declared number :: mergeLinear lists.flatten.length lists

/-- The base class with a name: one declared in the same body, an outermost one of the module, or a built-in
container. -/
def base? (p : Program) (module : String) (inside : List (String × Attribute)) (name : String) :
    Option Ancestor :=
  match Json.lookup name inside with
  | some (.type n) => some (.declared n)
  | _ =>
    match Json.lookup name (p.globals module) with
    | some n => some (.declared n)
    | none => if name = "dict" then some .dictionary else if name = "list" then some .list else none

/-- Add a finished declaration; its number is the last one. -/
def add (p : Program) (d : Declared) : Program :=
  { p with types := p.types ++ [d] }

mutual

/-- Declare an item of a module inside the classes whose names stand in front of its own, given the body so
far. -/
def declareItem (module outer : String) (p : Program) (body : ClassBody) : Item → Program × ClassBody
  | .property name type => (p, { body with annotations := Json.set name type body.annotations })
  | .enum name base members =>
    let number := p.types.length
    (p.add ⟨name, outer ++ name, module, .enum base members, [.declared number]⟩,
      { body with attributes := Json.set name (.type number) body.attributes })
  | .class name bases items =>
    let (p, inner) := declareItems module (outer ++ name ++ ".") p
      { bases := bases.filterMap (p.base? module body.attributes) } items
    let number := p.types.length
    (p.add ⟨name, outer ++ name, module, .class inner, p.linearize number inner.bases⟩,
      { body with attributes := Json.set name (.type number) body.attributes })
  | .readOnly name => (p, { body with attributes := Json.set name .readOnly body.attributes })
  | .rejects name thrown =>
    (p, { body with attributes := Json.set name (.rejects thrown) body.attributes })
  | .slots names =>
    (p, { body with
      hasSlots := true
      attributes := names.foldl (fun attributes name => Json.set name .slot attributes) body.attributes })
  | .constructor parameters thrown => (p, { body with constructor := some (parameters, thrown) })

/-- Declare items, one after the other. -/
def declareItems (module outer : String) (p : Program) (body : ClassBody) :
    List Item → Program × ClassBody
  | [] => (p, body)
  | item :: rest =>
    let (p, body) := declareItem module outer p body item
    declareItems module outer p body rest

end

end Program

/-- A statement of a module outside of all classes. -/
inductive Statement where
  | item (i : Item)
  /-- An outermost name of another module is taken over under a name of one's own. -/
  | take (source name called : String)
  deriving Inhabited

namespace Program

/-- Enter declarations under outermost names of a module. -/
def enter (p : Program) (module : String) (names : List (String × Nat)) : Program :=
  let globals := names.foldl (fun globals (n, k) => Json.set n k globals) (p.globals module)
  { p with namespaces := Json.set module globals p.namespaces }

/-- The declarations that a body names. -/
def declaredIn (body : ClassBody) : List (String × Nat) :=
  body.attributes.filterMap fun
    | (name, .type number) => some (name, number)
    | _ => none

/-- Execute a statement of a module, whose names become known to all that follows in the module. -/
def execute (p : Program) (module : String) : Statement → Program
  | .item i =>
    let (p, body) := declareItem module "" p {} i
    p.enter module (declaredIn body)
  | .take source name called =>
    match Json.lookup name (p.globals source) with
    | some number => p.enter module [(called, number)]
    | none => p

/-- The program of statements in the order in which they are executed, each with the name of its module. -/
def ofStatements (structModule : String) (statements : List (String × Statement)) : Program :=
  statements.foldl (fun p (module, statement) => p.execute module statement) { structModule }

/-- The program of a single module. -/
def ofItems (name structModule : String) (items : List Item) : Program :=
  ofStatements structModule (items.map fun i => (name, .item i))

/-- The declaration that a path of names leads to, from a module. -/
def find? (p : Program) (module : String) : List String → Option Nat
  | [] => none
  | name :: path => do
    let number ← Json.lookup name (p.globals module)
    path.foldlM (fun number name =>
      match p.attribute? number name with
      | some (.type inner) => some inner
      | _ => none) number

end Program

end ReflectedSchema.Annotated
