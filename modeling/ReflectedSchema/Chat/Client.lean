import ReflectedSchema.Chat.Message
import ReflectedSchema.Chat.Settings
import ReflectedSchema.Json.Literal
import ReflectedSchema.Log
import ReflectedSchema.Text.Blank

/-!
# Chat clients

A client sends conversations to a provider and takes the text of the first choice in the response.  It
keeps one connection for calls that wait and one for calls that do not, each opened when it is first
needed.  An exchange shows what was called, what came of it, and what was logged.
-/

namespace ReflectedSchema.Chat

/-- What is given for a client besides its settings; what is empty or zero counts as not given, but for
the temperature. -/
structure ClientOptions where
  provider : String := "openai"
  model : Option String := none
  apiKey : Option String := none
  baseUrl : Option String := none
  temperature : Option Json := none
  maxTokens : Option Json := none
  settings : Option Settings := none

/-- A client with its settings, and the connections that are open. -/
structure Client where
  settings : Settings
  connected : Bool := false
  connectedAsync : Bool := false

/-- What a client does at its provider. -/
inductive Call where
  /-- Open a connection. -/
  | connect (apiKey baseUrl : Option String)
  /-- Send a request with named arguments. -/
  | create (arguments : List (String × Json))

/-- A choice of a response. -/
structure Choice where
  finishReason : Option String
  content : Option String

/-- Why an exchange yields no text. -/
inductive ExchangeError where
  | noMessages
  | refused (r : Refusal)

/-- How an exchange ends, what was called and what was logged. -/
structure Exchange where
  result : Except ExchangeError String
  calls : List Call := []
  records : List LogRecord := []

/-- A text that is given and not empty, or else another. -/
def orElse (given other : Option String) : Option String :=
  match given with
  | none | some "" => other
  | some text => some text

/-- Whether a number is zero. -/
def isZero : Json → Bool
  | .int n => n = 0
  | .float x => x.toInt? = some 0
  | _ => false

namespace Client

/-- A client with options.  Settings for another provider than that of the options give way to those in
the environment. -/
def ofOptions (e : ReflectedSchema.Settings.Environment) (o : ClientOptions) :
    Except SettingsError Client := do
  let provider := Text.lower o.provider
  if (vendor? provider).isNone then throw (.unknownProvider provider)
  let settings ← match o.settings with
    | some s => if s.provider = provider then pure s else Settings.ofEnvironment e (some provider)
    | none => Settings.ofEnvironment e (some provider)
  return { settings := { settings with
    provider
    model := (orElse o.model (some settings.model)).getD ""
    temperature := o.temperature.getD settings.temperature
    maxTokens := match o.maxTokens with
      | some n => if isZero n then settings.maxTokens else n
      | none => settings.maxTokens
    apiKey := orElse o.apiKey settings.apiKey
    baseUrl := orElse o.baseUrl settings.baseUrl } }

/-- A client with nothing but settings. -/
def ofSettings (e : ReflectedSchema.Settings.Environment) (s : Settings) :
    Except SettingsError Client :=
  ofOptions e { provider := s.provider, settings := some s }

/-- A response format as it is sent: a word stands for the format of that type. -/
def sentFormat : Json → Option Json
  | .null => none
  | .str word => some (.obj [("type", .str word)])
  | format => some format

/-- The arguments of a request.  One provider has a name of its own for the limit of tokens. -/
def arguments (s : Settings) (messages : Json) (format : Option Json) : List (String × Json) :=
  [("model", .str s.model), ("messages", messages), ("temperature", s.temperature),
    (if s.provider = "gemini" then "max_tokens" else "max_completion_tokens", s.maxTokens)] ++
    (match format with
      | some f => [("response_format", f)]
      | none => [])

/-- What is logged about a request. -/
def requestRecords (s : Settings) (messages : Json) (format : Option Json) : List LogRecord :=
  [⟨.info, .chat, "Calling " ++ s.provider ++ " model '" ++ s.model ++ "', temperature '" ++
      s.temperature.plain ++ "', max_completion_tokens '" ++ s.maxTokens.plain ++ "'"⟩,
    ⟨.debug, .chat, "Messages: " ++ messages.literal⟩,
    ⟨.debug, .chat, "Response format: " ++ (format.getD .null).literal⟩]

/-- The text of the first choice, which must have finished by itself. -/
def firstText (s : Settings) : List Choice → Except ExchangeError String × List LogRecord
  | [] => (.error (.refused ⟨s.provider ++ " response has no choices", none⟩), [])
  | choice :: _ =>
    if choice.finishReason = some "stop" then
      let content := Text.trimText (choice.content.getD "")
      (.ok content, [⟨.info, .chat, s.provider ++ " done"⟩,
        ⟨.debug, .chat, "Response content: " ++ content⟩])
    else
      let message := s.provider ++ " response finished with finish_reason: " ++
        choice.finishReason.getD "None"
      (.error (.refused ⟨message, choice.finishReason⟩), [⟨.error, .chat, message⟩])

/-- Send a conversation and take the text of the first of the choices that come back. -/
def complete (c : Client) (async : Bool) (messages : Json) (format : Json) (choices : List Choice) :
    Exchange × Client :=
  let s := c.settings
  let isOpen := if async then c.connectedAsync else c.connected
  let connect := if isOpen then [] else [Call.connect s.apiKey s.baseUrl]
  let c := if async then { c with connectedAsync := true } else { c with connected := true }
  if messages.arr?.any List.isEmpty then ({ result := .error .noMessages, calls := connect }, c)
  else
    let format := sentFormat format
    let (result, records) := firstText s choices
    ({ result
       calls := connect ++ [.create (arguments s messages format)]
       records := requestRecords s messages format ++ records }, c)

end Client

end ReflectedSchema.Chat
