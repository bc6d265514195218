import ReflectedSchema.Text.Quoted

/-!
# Annotations

An annotation is an expression that names a type.  Expressions are kept as they were written and
evaluated late, so that a class may be annotated with classes that are declared after it.  A quoted
expression is evaluated later still.
-/

namespace ReflectedSchema.Annotated

/-- What an annotated type carries besides the type. -/
inductive Metadata where
  | text (s : String)
  | number (n : Int)
  deriving DecidableEq, Repr, Inhabited

/-- The expression of an annotation. -/
inductive Expr where
  /-- A name, followed by the names of attributes. -/
  | name (head : String) (path : List String)
  /-- A type with arguments in brackets. -/
  | apply (head : Expr) (args : List Expr)
  | annotated (type : Expr) (metadata : List Metadata)
  /-- One type or another. -/
  | either (left right : Expr)
  | quoted (inner : Expr)
  deriving Inhabited, Repr

/-- The text of an item of metadata. -/
def Metadata.source : Metadata → String
  | .text s => Text.quoted s
  | .number n => toString n

mutual

/-- The text of an expression. -/
def Expr.source : Expr → String
  | .name head path => ".".intercalate (head :: path)
  | .apply head args => head.source ++ "[" ++ ", ".intercalate (sources args) ++ "]"
  | .annotated type metadata =>
    "Annotated[" ++ ", ".intercalate (type.source :: metadata.map Metadata.source) ++ "]"
  | .either left right => left.source ++ " | " ++ right.source
  | .quoted inner => Text.quoted inner.source

/-- The texts of expressions. -/
def sources : List Expr → List String
  | [] => []
  | e :: rest => e.source :: sources rest

end

end ReflectedSchema.Annotated
