import ReflectedSchema.Chat.Client
import ReflectedSchema.Chat.Request

/-!
# Structured requests to clients

A client is the provider of a structured request: it sends the messages with the envelope of the schema and
takes the text of the first choice.  The caller waits for the client, or it does not, and then a callback may be
called with the text as soon as there is one, before the text is instantiated.
-/

namespace ReflectedSchema.Chat

/-- How a client is called: the caller waits, or it does not and may have a callback for the text. -/
inductive Mode where
  | waiting
  | async (callback : Bool)
  deriving DecidableEq, Repr

namespace Mode

/-- Whether the caller does not wait. -/
def isAsync : Mode → Bool
  | waiting => false
  | async _ => true

/-- Whether there is a callback. -/
def hasCallback : Mode → Bool
  | waiting => false
  | async callback => callback

end Mode

/-- The refusal that an exchange without a text shows of.  Structured requests always have messages. -/
def ExchangeError.refusal : ExchangeError → Refusal
  | noMessages => { message := "messages are required" }
  | refused r => r

/-- How a structured request to a client ends, and what the client did for it. -/
structure Delivery where
  reply : Reply
  exchanges : List Exchange
  client : Client
  /-- The texts that the callback was called with. -/
  called : List String

namespace Client

/-- Send what a structured request sends, and take the text of the first of the choices that come back. -/
def deliver (c : Client) (mode : Mode) (choices : List Choice) (sent : Sent) : Exchange × Client :=
  c.complete mode.isAsync (.arr (sent.messages.map Message.toJson)) sent.format choices

/-- A client as a provider. -/
def provider (c : Client) (mode : Mode) (choices : List Choice) : Provider := fun sent =>
  (c.deliver mode choices sent).1.result.mapError ExchangeError.refusal

/-- Ask a client for a value of a target. -/
def request {σ : Type} (c : Client) (mode : Mode) (limits : Limits) (library : Library) (source : Source)
    (host : Host σ) (choices : List Choice) (target : Target) (prompt : Prompt) :
    StateM σ (Delivery × Library) := do
  let (reply, library) ← Chat.request limits library source host (c.provider mode choices) target prompt
  return ({ reply
            exchanges := reply.sent.map fun sent => (c.deliver mode choices sent).1
            client := reply.sent.foldl (fun c sent => (c.deliver mode choices sent).2) c
            called := if mode.hasCallback then reply.received else [] }, library)

end Client

end ReflectedSchema.Chat
