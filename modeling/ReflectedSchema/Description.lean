import ReflectedSchema.Json.Literal
import ReflectedSchema.Text.Blank

/-!
# Property descriptions

A description is embedded in a schema without markup: tags are removed, control characters become
blanks, and the words that are left are joined by single spaces.  A tag is a `<`, at least one
character that is not `>`, and a `>`.
-/

namespace ReflectedSchema.Description

/-- Remove tags after a possible beginning of one, whose characters after `<` are kept in reverse. -/
def withoutTagsFrom (started : Option (List Char)) : List Char → List Char
  | [] =>
    match started with
    | none => []
    | some inside => '<' :: inside.reverse
  | c :: rest =>
    match started with
    | none => if c = '<' then withoutTagsFrom (some []) rest else c :: withoutTagsFrom none rest
    | some inside =>
      if c = '>' then
        if inside.isEmpty then '<' :: '>' :: withoutTagsFrom none rest else withoutTagsFrom none rest
      else withoutTagsFrom (some (c :: inside)) rest

/-- A text without its tags. -/
def withoutTags (cs : List Char) : List Char :=
  withoutTagsFrom none cs

/-- Whether a character is a control character. -/
def isControl (c : Char) : Bool :=
  c.toNat < 0x20 || (0x7F ≤ c.toNat && c.toNat < 0xA0)

/-- A text with spaces for its control characters. -/
def withoutControls (cs : List Char) : List Char :=
  cs.map fun c => if isControl c then ' ' else c

/-- Words joined by single spaces. -/
def joinWords : List (List Char) → List Char
  | [] => []
  | [word] => word
  | word :: rest => word ++ ' ' :: joinWords rest

/-- The cleaned characters of a description. -/
def cleanChars (cs : List Char) : List Char :=
  joinWords (Text.words (withoutControls (withoutTags cs)))

/-- The cleaned text of a description, or nothing if no word is left. -/
def clean (text : String) : Option String :=
  let cleaned := cleanChars text.toList
  if cleaned.isEmpty then none else some (String.ofList cleaned)

/-- The cleaned text of a description given as any value; no value has none. -/
def cleanValue : Json → Option String
  | .null => none
  | v => clean v.plain

end ReflectedSchema.Description
