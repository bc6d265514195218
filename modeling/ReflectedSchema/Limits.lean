/-!
# Limits

Reading, checking and decoding go into arrays and objects as deep as these nest, and somewhere they are given
up.  How deep that is belongs to the machine and not to the library, so everything that goes into values takes the
limits as an argument.
-/

namespace ReflectedSchema

/-- How deep values may nest. -/
structure Limits where
  /-- How many levels of arrays and objects are read. -/
  nesting : Nat
  /-- How many levels are checked and decoded. -/
  depth : Nat
  deriving DecidableEq, Repr, Inhabited

end ReflectedSchema
