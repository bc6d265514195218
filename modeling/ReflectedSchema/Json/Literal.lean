import ReflectedSchema.Json.Basic
import ReflectedSchema.Text.Quoted

/-!
# Values in messages

Messages show a JSON value as a literal: `None`, `True` and `False` for the three words, strings in
quotes, and containers with one space after every separator.
-/

namespace ReflectedSchema.Json

mutual

/-- The literal of a value, as characters. -/
def literalChars : Json → List Char
  | .null => "None".toList
  | .bool true => "True".toList
  | .bool false => "False".toList
  | .int n => (toString n).toList
  | .float x => x.text.toList
  | .str s => (Text.quoted s).toList
  | .arr [] => ['[', ']']
  | .arr (item :: rest) => '[' :: (literalChars item ++ literalItems rest ++ [']'])
  | .obj [] => ['\x7b', '\x7d']
  | .obj ((name, value) :: rest) =>
    '\x7b' :: ((Text.quoted name).toList ++ ':' :: ' ' :: literalChars value ++
      literalFields rest ++ ['\x7d'])

/-- The literals of the items after the first. -/
def literalItems : List Json → List Char
  | [] => []
  | item :: rest => ',' :: ' ' :: (literalChars item ++ literalItems rest)

/-- The literals of the fields after the first. -/
def literalFields : List (String × Json) → List Char
  | [] => []
  | (name, value) :: rest =>
    ',' :: ' ' :: ((Text.quoted name).toList ++ ':' :: ' ' :: literalChars value ++ literalFields rest)

end

/-- The literal of a value. -/
def literal (v : Json) : String :=
  String.ofList v.literalChars

/-- A value as plain text: a string is itself, any other value is its literal. -/
def plain : Json → String
  | .str s => s
  | v => v.literal

/-- The name of a value's type. -/
def typeName : Json → String
  | .null => "NoneType"
  | .bool _ => "bool"
  | .int _ => "int"
  | .float _ => "float"
  | .str _ => "str"
  | .arr _ => "list"
  | .obj _ => "dict"

end ReflectedSchema.Json
