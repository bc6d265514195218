import ReflectedSchema.Failure
import ReflectedSchema.Text.Blank

/-!
# Payloads

A JSON document arrives as text or as UTF-8 bytes, with blanks around it and often inside a Markdown
code fence: three backticks and a language word before it, three backticks after it.  Blanks and fence
are taken off, and what is left has to be one JSON value.  Positions in messages refer to what is left.
-/

namespace ReflectedSchema

/-- What is handed over as a JSON document. -/
inductive Payload where
  | text (s : String)
  | bytes (content : List UInt8)
  /-- Something that is neither, by the name of its type. -/
  | other (typeName : String)
  deriving DecidableEq, Repr

namespace Payload

/-- The characters inside a fence, if the characters are fenced. -/
def fenced? : List Char → Option (List Char)
  | '`' :: '`' :: '`' :: rest =>
    match rest.reverse with
    | '`' :: '`' :: '`' :: body =>
      some (Text.trimEnd ((body.reverse.dropWhile Char.isAlpha).dropWhile Text.isBlank))
    | _ => none
  | _ => none

/-- The characters without the blanks around them and without a fence. -/
def unwrapped (cs : List Char) : List Char :=
  let trimmed := Text.trim cs
  (fenced? trimmed).getD trimmed

/-- The value of a text. -/
def readChars (levels : Nat) (cs : List Char) : Except Raised Json :=
  let document := unwrapped cs
  match Json.read levels document with
  | .ok v => .ok v
  | .error (.defect d remaining) =>
    .error (.ofCause (.malformed (.grammar (Json.Position.of document remaining) d)))
  | .error .tooDeep => .error (.ofCause (.malformed .tooDeep))
  | .error (.tooLong digits) => .error (.fault (.digitLimit digits))

/-- The value of a payload, which nests a number of levels at most. -/
def read (payload : Payload) (levels : Nat) : Except Raised Json :=
  match payload with
  | .text s => readChars levels s.toList
  | .bytes content =>
    match Text.Utf8.decode content with
    | .ok cs => readChars levels cs
    | .error (position, defect) => .error (.ofCause (.malformed (.utf8 position defect)))
  | .other typeName => .error (.ofCause (.malformed (.notText typeName)))

end Payload

end ReflectedSchema
