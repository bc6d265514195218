import ReflectedSchema.Source
import ReflectedSchema.Value

/-!
# Hosts

A host makes objects: it constructs an empty instance of a class, sets a property of an object, and
makes value structs and packed arrays.  Each of these may fail.  The calls run in a state of the
host's own, so that a host can keep a record of what it was asked for.
-/

namespace ReflectedSchema

/-- A call to a host with state `σ`. -/
abbrev HostM (σ : Type) (α : Type) := ExceptT Raised (StateM σ) α

/-- What a host can be asked to make. -/
structure Host (σ : Type) where
  /-- A new, empty object of a class. -/
  construct : (className : String) → HostM σ HostValue
  /-- An object after one of its properties was set. -/
  setProperty : (object : HostValue) → (property : String) → (value : HostValue) → HostM σ HostValue
  /-- A value struct of its components. -/
  constructStruct : (type : TypeTag) → (components : List (String × HostValue)) → HostM σ HostValue
  /-- A packed array of its items. -/
  constructPacked : (type : TypeTag) → (items : List HostValue) → HostM σ HostValue

namespace HostM

variable {σ : Type}

/-- A result that needs no state. -/
def ofExcept {α : Type} (e : Except Raised α) : HostM σ α := ExceptT.mk (pure e)

/-- A call during which a property is being handled. -/
def within {α : Type} (owner property : String) (call : HostM σ α) : HostM σ α :=
  tryCatch call fun e => throw (e.annotate owner property)

end HostM

/-- A host whose calls have no state. -/
abbrev PureHost := Host Unit

end ReflectedSchema
