import ReflectedSchema.Failure
import ReflectedSchema.Number.Read
import ReflectedSchema.Settings.Environment
import ReflectedSchema.Text.Case

/-!
# Settings of a chat

A chat is held with one of three providers.  What is not set in the environment has a default, which
for the model and the address depends on the provider.
-/

namespace ReflectedSchema.Chat

/-- A chat provider: the variables that configure it, and its defaults. -/
structure Vendor where
  name : String
  modelVariable : String
  defaultModel : String
  keyVariable : String
  urlVariable : String
  defaultUrl : Option String

/-- The providers. -/
def vendors : List Vendor :=
  [⟨"openai", "OPENAI_MODEL", "gpt-4o-mini-2024-07-18", "OPENAI_API_KEY", "OPENAI_BASE_URL", none⟩,
   ⟨"gemini", "GEMINI_MODEL", "gemini-2.0-flash", "GEMINI_API_KEY", "GEMINI_BASE_URL",
    some "https://generativelanguage.googleapis.com/v1beta/openai/"⟩,
   ⟨"openrouter", "OPENROUTER_MODEL", "openai/gpt-4o-mini", "OPENROUTER_API_KEY", "OPENROUTER_BASE_URL",
    some "https://openrouter.ai/api/v1"⟩]

/-- The provider with a name. -/
def vendor? (name : String) : Option Vendor :=
  vendors.find? (·.name = name)

/-- Why settings are of no use. -/
inductive SettingsError where
  | unknownProvider (name : String)
  | notNumber (text : String)
  | notInteger (text : String)
  /-- An integer has too many digits. -/
  | tooLong (digits : Nat)
  deriving DecidableEq, Repr

/-- The wording of a settings error. -/
def SettingsError.message : SettingsError → String
  | .unknownProvider name =>
    "Unknown chat provider '" ++ name ++ "'. Expected one of: " ++
      ", ".intercalate (vendors.map (·.name))
  | .notNumber text => "could not convert string to float: " ++ Text.quoted text
  | .notInteger text =>
    "invalid literal for int() with base 10: " ++
      String.ofList ((Text.quoted text).toList.take 200)
  | .tooLong digits => ((Fault.digitLimit digits).message).getD ""

/-- The settings of a chat.  The two numbers are kept as they were given. -/
structure Settings where
  provider : String := "openai"
  model : String := "gpt-4o-mini-2024-07-18"
  temperature : Json := .float (.ofDecimal false 2 (-1))
  maxTokens : Json := .int 4096
  apiKey : Option String := none
  baseUrl : Option String := none

/-- The number that a variable is set to. -/
def temperatureIn (e : ReflectedSchema.Settings.Environment) : Except SettingsError Json :=
  match e.get? "OPENAI_TEMPERATURE" with
  | none => .ok ({} : Settings).temperature
  | some text =>
    match Number.double? text with
    | some x => .ok (.float x)
    | none => .error (.notNumber text)

/-- The integer that a variable is set to. -/
def maxTokensIn (e : ReflectedSchema.Settings.Environment) : Except SettingsError Json :=
  match e.get? "OPENAI_MAX_COMPLETION_TOKENS" with
  | none => .ok ({} : Settings).maxTokens
  | some text =>
    match Number.integer? text with
    | some n =>
      let digits := (text.toList.filter fun c => (Number.asciiChar c).isDigit).length
      if Json.maxDigits < digits then .error (.tooLong digits) else .ok (.int n)
    | none => .error (.notInteger text)

/-- The settings in an environment, for a provider that is named there if it is not given. -/
def Settings.ofEnvironment (e : ReflectedSchema.Settings.Environment) (provider : Option String) :
    Except SettingsError Settings := do
  let named := match provider with
    | none | some "" => (e.get? "CHAT_PROVIDER").getD "openai"
    | some name => name
  let name := Text.lower named
  match vendor? name with
  | none => throw (.unknownProvider name)
  | some vendor =>
    let temperature ← temperatureIn e
    let maxTokens ← maxTokensIn e
    return { provider := name
             model := (e.get? vendor.modelVariable).getD vendor.defaultModel
             temperature, maxTokens
             apiKey := e.get? vendor.keyVariable
             baseUrl := (e.get? vendor.urlVariable).or vendor.defaultUrl }

end ReflectedSchema.Chat
