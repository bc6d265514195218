import ReflectedSchema.Json.Basic

/-!
# Chat messages

A request opens with a system message, which has a default, and goes on with the user's prompt, which
must not be empty.
-/

namespace ReflectedSchema.Chat

/-- A message of a conversation. -/
structure Message where
  role : String
  content : String
  deriving DecidableEq, Repr, Inhabited

/-- A message as a provider takes it. -/
def Message.toJson (m : Message) : Json :=
  .obj [("role", .str m.role), ("content", .str m.content)]

/-- The system message of a request that names none. -/
def defaultSystemPrompt : String :=
  "You are an expert filling json objects according to the provided json schema."

/-- The messages of a request, if it has a prompt. -/
def messages? (prompt : String) (system : Option String) : Option (List Message) :=
  if prompt.isEmpty then none
  else
    let opening := match system with
      | some text => if text.isEmpty then defaultSystemPrompt else text
      | none => defaultSystemPrompt
    some [⟨"system", opening⟩, ⟨"user", prompt⟩]

/-- Why a provider's answer is of no use. -/
structure Refusal where
  message : String
  finishReason : Option String := none
  deriving DecidableEq, Repr, Inhabited

end ReflectedSchema.Chat
