import ReflectedSchema.Failure
import ReflectedSchema.Kind.Descriptor

/-!
# Reflection sources

A source answers questions about the classes of a host: which names are classes, what properties a
class has, and what members an enumeration declared in a class has.  The classes are finitely many.
An answer may be a failure, or a fault of the host.
-/

namespace ReflectedSchema

/-- What the library knows of a host's classes. -/
structure Source where
  /-- The names of the classes. -/
  classNames : List String
  /-- The properties of a class and its ancestors, in order. -/
  properties : String → Except Raised (List PropertyInfo)
  /-- The members of an enumeration declared in a class, in order. -/
  members : (owner name : String) → Except Raised (List (String × EnumValue))

/-- Whether a name is that of a class. -/
def Source.hasClass (source : Source) (name : String) : Bool :=
  source.classNames.contains name

end ReflectedSchema
