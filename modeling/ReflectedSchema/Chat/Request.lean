import ReflectedSchema.Chat.Message
import ReflectedSchema.Library
import ReflectedSchema.ResponseFormat

/-!
# Structured requests

A structured request asks a chat provider for a value of a schema: the schema is looked up, or
generated for a class that has none; its document is sent in an envelope along with the prompts; and
the answer is instantiated by the same schema.  The provider is a function from what is sent to an
answer, so that a request shows what was sent and how often.
-/

namespace ReflectedSchema.Chat

/-- What is asked for. -/
inductive Target where
  | class (name : String)
  | schema (s : Schema)

/-- The wording of a request. -/
structure Prompt where
  user : String
  system : Option String := none
  /-- The name of the response format; without one, it is made of the name of the schema. -/
  formatName : Option String := none

/-- What a provider is sent. -/
structure Sent where
  messages : List Message
  format : Json

/-- A chat provider. -/
abbrev Provider := Sent → Except Refusal String

/-- How a request ends when there is no value. -/
inductive Rejection where
  | raised (r : Raised)
  | noPrompt
  | refused (r : Refusal)

/-- How a request ends, what it sent, and what text it received. -/
structure Reply where
  result : Except Rejection HostValue
  sent : List Sent := []
  received : List String := []
  records : List LogRecord := []

/-- The schema of a target, which is generated for a class that has none. -/
def resolve (library : Library) (source : Source) : Target → Outcome Schema × Library
  | .schema s => (⟨.ok s, []⟩, library)
  | .class name =>
    match library.get? name with
    | some s => (⟨.ok s, []⟩, library)
    | none => library.generate source name

/-- The name of the response format of a request. -/
def formatName (schema : Schema) (given : Option String) : String :=
  match given with
  | none | some "" => ResponseFormat.derivedName schema.name
  | some name => name

/-- Ask a provider for a value of a target. -/
def request {σ : Type} (limits : Limits) (library : Library) (source : Source) (host : Host σ)
    (provider : Provider) (target : Target) (prompt : Prompt) : StateM σ (Reply × Library) := do
  let (resolved, library) := resolve library source target
  match resolved.result with
  | .error e => return ({ result := .error (.raised e), records := resolved.records }, library)
  | .ok schema =>
    let name := some (formatName schema prompt.formatName)
    let records := resolved.records ++ ResponseFormat.records name
    match messages? prompt.user prompt.system with
    | none => return ({ result := .error .noPrompt, records }, library)
    | some messages =>
      let sent : Sent := ⟨messages, ResponseFormat.envelope schema.document name⟩
      match provider sent with
      | .error refusal =>
        return ({ result := .error (.refused refusal), sent := [sent], records }, library)
      | .ok text =>
        let outcome ← schema.instantiate limits host (.text text)
        return ({ result := outcome.result.mapError .raised, sent := [sent], received := [text]
                  records := records ++ outcome.records }, library)

end ReflectedSchema.Chat
