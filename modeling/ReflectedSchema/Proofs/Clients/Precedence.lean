import Mathlib
import ReflectedSchema.Chat.Client

/-!
# Where the settings of a client come from

A setting of a client can be given for the client, stand in given settings, be set in the environment or have a
default.  `Chosen` says which of these counts, in this order, for each of the five settings of requests.  Given
settings count only if they are for the provider of the client, and of the environment only the variables of that
provider count, besides the two numbers that all providers share; so nothing of another provider gets into a
request.

What is empty or zero counts as not given, but for the temperature.  The numbers of an environment that is looked
at have to be legible even if both are given.
-/

namespace ReflectedSchema.Chat

open ReflectedSchema.Settings (Environment)

/-! ## Sources of a setting -/

/-- The value of the first source that has one. -/
def firstOf {α : Type} (explicit given environment : Option α) (fallback : α) : α :=
  ((explicit.or given).or environment).getD fallback

/-- With given settings the environment does not count. -/
theorem firstOf_some {α : Type} (explicit environment : Option α) (given fallback : α) :
    firstOf explicit (some given) environment fallback = explicit.getD given := by
  cases explicit <;> rfl

/-- Without given settings the environment comes before the default. -/
theorem firstOf_none {α : Type} (explicit environment : Option α) (fallback : α) :
    firstOf explicit none environment fallback = explicit.getD (environment.getD fallback) := by
  cases explicit <;> rfl

/-- A text that is not empty. -/
def stated (text : Option String) : Option String :=
  text.filter (· ≠ "")

/-- A number that is not zero. -/
def counted (number : Option Json) : Option Json :=
  number.filter (!isZero ·)

/-- The temperature that an environment sets. -/
def temperature? (e : Environment) : Option Json :=
  (e.get? "OPENAI_TEMPERATURE").bind fun text => (Number.double? text).map .float

/-- The limit of tokens that an environment sets. -/
def maxTokens? (e : Environment) : Option Json :=
  (e.get? "OPENAI_MAX_COMPLETION_TOKENS").bind fun text => (Number.integer? text).map .int

/-- The numbers that an environment sets can be read. -/
structure Legible (e : Environment) : Prop where
  temperature : ∀ text, e.get? "OPENAI_TEMPERATURE" = some text → (Number.double? text).isSome
  maxTokens : ∀ text, e.get? "OPENAI_MAX_COMPLETION_TOKENS" = some text → (Number.integer? text).isSome ∧
    (text.toList.filter fun c => (Number.asciiChar c).isDigit).length ≤ Json.maxDigits

/-- The given settings, if they are for the provider of the client in any letter case. -/
def ClientOptions.own (o : ClientOptions) : Option Settings :=
  o.settings.filter fun s => Text.lower s.provider = Text.lower o.provider

/-- The settings of a client, each by the sources that may have it. -/
structure Chosen (e : Environment) (o : ClientOptions) (v : Vendor) (s : Settings) : Prop where
  provider : s.provider = v.name
  model : s.model =
    firstOf (stated o.model) (o.own.map (·.model)) (e.get? v.modelVariable) v.defaultModel
  temperature : s.temperature =
    firstOf o.temperature (o.own.map (·.temperature)) (temperature? e) ({} : Settings).temperature
  maxTokens : s.maxTokens =
    firstOf (counted o.maxTokens) (o.own.map (·.maxTokens)) (maxTokens? e) ({} : Settings).maxTokens
  apiKey : s.apiKey =
    firstOf ((stated o.apiKey).map some) (o.own.map (·.apiKey)) ((e.get? v.keyVariable).map some) none
  baseUrl : s.baseUrl =
    firstOf ((stated o.baseUrl).map some) (o.own.map (·.baseUrl)) ((e.get? v.urlVariable).map some)
      v.defaultUrl

/-! ## Settings of an environment -/

variable {e : Environment} {o : ClientOptions} {v : Vendor}

/-- The temperature is read if the environment sets none or a number, and its default fills in for none. -/
theorem temperatureIn_eq_ok_iff {t : Json} : temperatureIn e = .ok t ↔
    (∀ text, e.get? "OPENAI_TEMPERATURE" = some text → (Number.double? text).isSome) ∧
      (temperature? e).getD ({} : Settings).temperature = t := by
  unfold temperatureIn temperature?
  -- The default is a number that simplification would compute.
  generalize ({} : Settings).temperature = fallback
  cases e.get? "OPENAI_TEMPERATURE" with
  | none => simp
  | some text => cases read : Number.double? text <;> simp [read]

/-- The limit of tokens is read if the environment sets none or an integer that is not too long. -/
theorem maxTokensIn_eq_ok_iff {n : Json} : maxTokensIn e = .ok n ↔
    (∀ text, e.get? "OPENAI_MAX_COMPLETION_TOKENS" = some text → (Number.integer? text).isSome ∧
      (text.toList.filter fun c => (Number.asciiChar c).isDigit).length ≤ Json.maxDigits) ∧
      (maxTokens? e).getD ({} : Settings).maxTokens = n := by
  unfold maxTokensIn maxTokens?
  generalize ({} : Settings).maxTokens = fallback
  cases e.get? "OPENAI_MAX_COMPLETION_TOKENS" with
  | none => simp
  | some text =>
    cases read : Number.integer? text with
    | none => simp [read]
    | some m =>
      dsimp only
      split_ifs with long
      · simp [read, long]
      · simp [read, Nat.le_of_not_lt long]

/-- The settings of a provider in an environment. -/
def Vendor.settingsIn (v : Vendor) (e : Environment) : Settings where
  provider := v.name
  model := (e.get? v.modelVariable).getD v.defaultModel
  temperature := (temperature? e).getD ({} : Settings).temperature
  maxTokens := (maxTokens? e).getD ({} : Settings).maxTokens
  apiKey := e.get? v.keyVariable
  baseUrl := (e.get? v.urlVariable).or v.defaultUrl

/-- A provider is known by its name in lower case. -/
theorem vendor?_eq_some_iff {name : String} : vendor? name = some v ↔ v ∈ vendors ∧ v.name = name := by
  constructor
  · intro found
    exact ⟨List.mem_of_find?_eq_some found, by simpa using List.find?_some found⟩
  · rintro ⟨known, rfl⟩
    simp only [vendors, List.mem_cons, List.not_mem_nil, or_false] at known
    rcases known with rfl | rfl | rfl <;> rfl

/-- The name of a provider is in lower case. -/
theorem lower_name : ∀ v ∈ vendors, Text.lower v.name = v.name := by
  decide +kernel

/-- For a known provider the two numbers are read, and the rest is taken as it is. -/
theorem ofEnvironment_eq (known : v ∈ vendors) : Settings.ofEnvironment e (some v.name) = (do
    let temperature ← temperatureIn e
    let maxTokens ← maxTokensIn e
    return { v.settingsIn e with temperature, maxTokens }) := by
  have named : v.name ≠ "" := (by decide : ∀ v ∈ vendors, v.name ≠ "") v known
  unfold Settings.ofEnvironment
  split
  next absent => cases absent
  next empty => exact absurd (Option.some.inj empty) named
  next name _ same =>
    obtain rfl := Option.some.inj same
    simp only [lower_name v known, vendor?_eq_some_iff.mpr ⟨known, rfl⟩]
    rfl

/-- The settings of an environment can be read exactly if its numbers can, and then each is its own or the
default. -/
theorem ofEnvironment_eq_ok_iff (known : v ∈ vendors) {s : Settings} :
    Settings.ofEnvironment e (some v.name) = .ok s ↔ Legible e ∧ v.settingsIn e = s := by
  rw [ofEnvironment_eq known]
  constructor
  · intro read
    cases temperature : temperatureIn e with
    | error => simp [temperature, bind, Except.bind] at read
    | ok t =>
      cases maxTokens : maxTokensIn e with
      | error => simp [temperature, maxTokens, bind, Except.bind] at read
      | ok n =>
        rw [temperature, maxTokens] at read
        obtain ⟨legible, rfl⟩ := temperatureIn_eq_ok_iff.mp temperature
        obtain ⟨legible', rfl⟩ := maxTokensIn_eq_ok_iff.mp maxTokens
        exact ⟨⟨legible, legible'⟩, Except.ok.inj read⟩
  · rintro ⟨legible, rfl⟩
    rw [temperatureIn_eq_ok_iff.mpr ⟨legible.temperature, rfl⟩,
      maxTokensIn_eq_ok_iff.mpr ⟨legible.maxTokens, rfl⟩]
    rfl

/-! ## What overrides settings -/

/-- The second text counts where the first is absent or empty. -/
theorem orElse_eq (given other : Option String) : orElse given other = (stated given).or other := by
  unfold orElse stated
  split <;> simp_all [Option.filter]

/-- Settings are the own ones if they were given and name the provider of the client in any letter case. -/
theorem own_eq_some_iff {s : Settings} :
    o.own = some s ↔ o.settings = some s ∧ Text.lower s.provider = Text.lower o.provider := by
  simp [ClientOptions.own, Option.filter_eq_some_iff]

/-- Settings for the provider of the client name it in lower case. -/
def ClientOptions.Spelled (o : ClientOptions) : Prop :=
  ∀ s, o.own = some s → s.provider = Text.lower o.provider

/-- Settings with what the options state instead. -/
def ClientOptions.overrides (o : ClientOptions) (s : Settings) : Settings where
  provider := Text.lower o.provider
  model := (stated o.model).getD s.model
  temperature := o.temperature.getD s.temperature
  maxTokens := (counted o.maxTokens).getD s.maxTokens
  apiKey := (stated o.apiKey).or s.apiKey
  baseUrl := (stated o.baseUrl).or s.baseUrl

/-- The settings that the options of a client override. -/
def ClientOptions.base (o : ClientOptions) (e : Environment) : Except SettingsError Settings :=
  match o.own with
  | some s => .ok s
  | none => Settings.ofEnvironment e (some (Text.lower o.provider))

/-- The last step in making a client. -/
theorem overrides_eq (o : ClientOptions) (base : Except SettingsError Settings) :
    (do
      let settings ← base
      return { settings := { settings with
        provider := Text.lower o.provider
        model := (orElse o.model (some settings.model)).getD ""
        temperature := o.temperature.getD settings.temperature
        maxTokens := match o.maxTokens with
          | some n => if isZero n then settings.maxTokens else n
          | none => settings.maxTokens
        apiKey := orElse o.apiKey settings.apiKey
        baseUrl := orElse o.baseUrl settings.baseUrl } } : Except SettingsError Client) =
      base.map fun s => { settings := o.overrides s } := by
  cases base with
  | error => rfl
  | ok s =>
    have model : ((stated o.model).or (some s.model)).getD "" = (stated o.model).getD s.model := by
      cases stated o.model <;> rfl
    have tokens : (match o.maxTokens with
        | some n => if isZero n then s.maxTokens else n
        | none => s.maxTokens) = (counted o.maxTokens).getD s.maxTokens := by
      cases o.maxTokens with
      | none => rfl
      | some n => cases zero : isZero n <;> simp [counted, Option.filter, zero]
    simp only [ClientOptions.overrides, model, tokens, orElse_eq, Except.map, bind, Except.bind, pure,
      Except.pure]

/-- A client for a known provider overrides its base by what was stated. -/
theorem ofOptions_eq (known : v ∈ vendors) (name : v.name = Text.lower o.provider) (spelled : o.Spelled) :
    Client.ofOptions e o = (o.base e).map fun s => { settings := o.overrides s } := by
  rw [← overrides_eq]
  unfold Client.ofOptions ClientOptions.base
  simp only [vendor?_eq_some_iff.mpr ⟨known, name⟩, Option.isNone_some, Bool.false_eq_true, if_false]
  cases own : o.own with
  | some s =>
    rw [(own_eq_some_iff.mp own).1]
    exact if_pos (spelled s own)
  | none =>
    cases given : o.settings with
    | none => rfl
    | some s =>
      refine if_neg fun same => ?_
      have mine : Text.lower s.provider = Text.lower o.provider := by
        rw [same, ← name, lower_name v known]
      exact Option.some_ne_none s ((own_eq_some_iff.mpr ⟨given, mine⟩).symm.trans own)

/-- An optional setting that is optional as a source too. -/
theorem map_some_getD {α : Type} (source other : Option α) :
    (source.map some).getD other = source.or other := by
  cases source <;> rfl

/-- Settings that are overridden are the chosen ones. -/
theorem chosen_overrides (known : v ∈ vendors) (name : v.name = Text.lower o.provider) {s : Settings}
    (base : o.base e = .ok s) : Chosen e o v (o.overrides s) := by
  unfold ClientOptions.base at base
  cases own : o.own with
  | some given =>
    rw [own] at base
    obtain rfl := Except.ok.inj base
    constructor <;> simp only [ClientOptions.overrides, own, Option.map_some, firstOf_some, map_some_getD, name]
  | none =>
    rw [own, ← name] at base
    obtain ⟨-, rfl⟩ := (ofEnvironment_eq_ok_iff known).mp base
    constructor <;> simp only [ClientOptions.overrides, Vendor.settingsIn, own, Option.map_none, firstOf_none,
      map_some_getD, Option.or_none, name]

/-! ## What a client sends -/

/-- The settings of a client as they are seen at its provider. -/
def Call.Carries (s : Settings) : Call → Prop
  | .connect apiKey baseUrl => apiKey = s.apiKey ∧ baseUrl = s.baseUrl
  | .create arguments =>
    Json.lookup "model" arguments = some (.str s.model) ∧
      Json.lookup "temperature" arguments = some s.temperature ∧
      Json.lookup (if s.provider = "gemini" then "max_tokens" else "max_completion_tokens") arguments =
        some s.maxTokens

/-- What a client is asked, and the choices that come back. -/
structure Ask where
  async : Bool
  messages : Json
  format : Json
  choices : List Choice

/-- The exchanges of a client that is asked one thing after another. -/
def Client.run (c : Client) : List Ask → List Exchange
  | [] => []
  | ask :: rest =>
    let (exchange, next) := c.complete ask.async ask.messages ask.format ask.choices
    exchange :: next.run rest

/-- All calls of a client carry settings, whatever it is asked. -/
def Client.Sends (c : Client) (s : Settings) : Prop :=
  ∀ asks, ∀ exchange ∈ c.run asks, ∀ call ∈ exchange.calls, call.Carries s

namespace Client

/-- The arguments of a request carry the settings. -/
theorem arguments_carries (s : Settings) (messages : Json) (format : Option Json) :
    (Call.create (arguments s messages format)).Carries s := by
  unfold Call.Carries arguments
  split_ifs <;> exact ⟨rfl, rfl, rfl⟩

/-- Connecting, where that is still to be done, carries the settings. -/
theorem connect_carries (s : Settings) (isOpen : Bool) :
    ∀ call ∈ (if isOpen then [] else [Call.connect s.apiKey s.baseUrl]), call.Carries s := by
  cases isOpen <;> simp [Call.Carries]

/-- What one exchange calls carries the settings of the client. -/
theorem complete_carries (c : Client) (async : Bool) (messages format : Json) (choices : List Choice) :
    ∀ call ∈ (c.complete async messages format choices).1.calls, call.Carries c.settings := by
  intro call called
  unfold complete at called
  dsimp only at called
  split at called
  · exact connect_carries _ _ _ called
  · rcases List.mem_append.mp called with opening | sent
    · exact connect_carries _ _ _ opening
    · exact List.mem_singleton.mp sent ▸ arguments_carries _ _ _

/-- An exchange leaves the settings as they are. -/
theorem complete_settings (c : Client) (async : Bool) (messages format : Json) (choices : List Choice) :
    (c.complete async messages format choices).2.settings = c.settings := by
  unfold complete
  split_ifs <;> rfl

/-- All that a client ever calls carries its settings. -/
theorem sends_settings (c : Client) : c.Sends c.settings := by
  intro asks
  induction asks generalizing c with
  | nil => exact nofun
  | cons ask rest ih =>
    intro exchange done
    rcases List.mem_cons.mp done with rfl | later
    · exact c.complete_carries ask.async ask.messages ask.format ask.choices
    · exact c.complete_settings ask.async ask.messages ask.format ask.choices ▸ ih _ exchange later

end Client

/-! ## Other providers -/

/-- The variables that configure a provider and no other. -/
def Vendor.variables (v : Vendor) : List String :=
  [v.modelVariable, v.keyVariable, v.urlVariable]

/-- The variables that configure every provider. -/
def sharedVariables : List String :=
  ["OPENAI_TEMPERATURE", "OPENAI_MAX_COMPLETION_TOKENS"]

/-- Two environments differ in variables of other providers only. -/
def AgreeFor (provider : String) (e e' : Environment) : Prop :=
  ∀ name, e'.get? name ≠ e.get? name → ∃ w ∈ vendors, w.name ≠ provider ∧ name ∈ w.variables

/-- No two providers share a variable, nor does one have a shared variable of its own. -/
theorem variables_disjoint : ∀ v ∈ vendors, ∀ w ∈ vendors, w.name ≠ v.name →
    ∀ name ∈ v.variables ++ sharedVariables, name ∉ w.variables := by
  decide +kernel

/-- Environments that agree for a provider have the same values under the variables that it reads. -/
theorem AgreeFor.get? {e' : Environment} (agree : AgreeFor v.name e e') (known : v ∈ vendors) :
    ∀ name ∈ v.variables ++ sharedVariables, e'.get? name = e.get? name := by
  intro name used
  by_contra differs
  obtain ⟨w, other, ne, ofOther⟩ := agree name differs
  exact variables_disjoint v known w other ne name used ofOther

/-- So they make the same settings for it. -/
theorem AgreeFor.ofEnvironment {e' : Environment} (agree : AgreeFor v.name e e') (known : v ∈ vendors) :
    Settings.ofEnvironment e' (some v.name) = Settings.ofEnvironment e (some v.name) := by
  have same := agree.get? known
  simp only [Vendor.variables, sharedVariables, List.cons_append, List.nil_append, List.forall_mem_cons]
    at same
  obtain ⟨model, key, url, temperature, tokens, -⟩ := same
  simp only [ofEnvironment_eq known, temperatureIn, maxTokensIn, Vendor.settingsIn, model, key, url,
    temperature, tokens]

/-! ## Precedence -/

/-- The settings of a client come from the sources that count, and from no other. -/
structure ByPrecedence (e : Environment) (o : ClientOptions) : Prop where
  chosen : ∀ c, Client.ofOptions e o = .ok c →
    ∃ v ∈ vendors, v.name = Text.lower o.provider ∧ Chosen e o v c.settings
  sent : ∀ c, Client.ofOptions e o = .ok c → c.Sends c.settings
  /-- A client is made of a known provider, if what the environment sets can be read where it is needed. -/
  made : (∃ c, Client.ofOptions e o = .ok c) ↔
    (∃ v ∈ vendors, v.name = Text.lower o.provider) ∧ (o.own.isSome ∨ Legible e)
  foreignSettings : o.own = none → Client.ofOptions e o = Client.ofOptions e { o with settings := none }
  foreignVariables : ∀ e', AgreeFor (Text.lower o.provider) e e' →
    Client.ofOptions e' o = Client.ofOptions e o

/-- For an unknown provider there is no client. -/
theorem ofOptions_unknown (unknown : ∀ v ∈ vendors, v.name ≠ Text.lower o.provider) :
    Client.ofOptions e o = .error (.unknownProvider (Text.lower o.provider)) := by
  have lost : vendor? (Text.lower o.provider) = none := by
    simpa [vendor?, List.find?_eq_none] using unknown
  unfold Client.ofOptions
  simp only [lost, Option.isNone_none, if_true]
  rfl

/-- The settings to override can be had if some were given for the provider, or if those of the environment
can be read. -/
theorem base_eq_ok_iff (known : v ∈ vendors) (name : v.name = Text.lower o.provider) :
    (∃ s, o.base e = .ok s) ↔ o.own.isSome ∨ Legible e := by
  unfold ClientOptions.base
  cases o.own with
  | some s => simp
  | none => simp [← name, ofEnvironment_eq_ok_iff known]

/-- For an unknown provider nothing is chosen. -/
theorem byPrecedence_of_unknown (unknown : ∀ v ∈ vendors, v.name ≠ Text.lower o.provider) :
    ByPrecedence e o where
  chosen c made := by
    rw [ofOptions_unknown unknown] at made
    cases made
  sent c _ := c.sends_settings
  made := by
    rw [ofOptions_unknown unknown]
    constructor
    · rintro ⟨c, made⟩
      cases made
    · rintro ⟨⟨v, known, name⟩, -⟩
      exact absurd name (unknown v known)
  foreignSettings _ := by
    rw [ofOptions_unknown unknown, ofOptions_unknown (o := { o with settings := none }) unknown]
  foreignVariables e' _ := by
    rw [ofOptions_unknown unknown, ofOptions_unknown unknown]

/-- For a known provider everything is chosen by precedence. -/
theorem byPrecedence_of_known (known : v ∈ vendors) (name : v.name = Text.lower o.provider)
    (spelled : o.Spelled) : ByPrecedence e o where
  chosen c made := by
    rw [ofOptions_eq known name spelled] at made
    cases base : o.base e with
    | error => rw [base] at made; cases made
    | ok s =>
      rw [base] at made
      obtain rfl := Except.ok.inj made
      exact ⟨v, known, name, chosen_overrides known name base⟩
  sent c _ := c.sends_settings
  made := by
    rw [ofOptions_eq known name spelled, ← base_eq_ok_iff known name]
    cases o.base e with
    | error => simp [Except.map]
    | ok s => simp [Except.map, show ∃ v ∈ vendors, v.name = Text.lower o.provider from ⟨v, known, name⟩]
  foreignSettings other := by
    rw [ofOptions_eq known name spelled, ofOptions_eq known name (o := { o with settings := none }) nofun]
    unfold ClientOptions.base
    rw [other]
    rfl
  foreignVariables e' agree := by
    rw [ofOptions_eq known name spelled, ofOptions_eq known name spelled]
    unfold ClientOptions.base
    rw [← name] at agree ⊢
    rw [agree.ofEnvironment known]

/-- Settings of a known provider are those of the client that is made of them, in every environment. -/
theorem ofSettings_eq {s : Settings} (known : ∃ v ∈ vendors, v.name = s.provider) :
    Client.ofSettings e s = .ok { settings := s } := by
  obtain ⟨v, known, name⟩ := known
  have low : Text.lower s.provider = s.provider := name ▸ lower_name v known
  let o : ClientOptions := { provider := s.provider, settings := some s }
  have own : o.own = some s := own_eq_some_iff.mpr ⟨rfl, rfl⟩
  have spelled : o.Spelled := fun t same => Option.some.inj (own.symm.trans same) ▸ low.symm
  have base : o.base e = .ok s := by
    unfold ClientOptions.base
    rw [own]
  have kept : o.overrides s = s := congrArg (fun provider => { s with provider }) low
  calc Client.ofOptions e o
      = (o.base e).map fun s => { settings := o.overrides s } :=
        ofOptions_eq known (name.trans low.symm) spelled
    _ = .ok { settings := o.overrides s } := by rw [base]; rfl
    _ = .ok { settings := s } := by rw [kept]

/-- Each setting of a client is the one that is given for it, or else that of given settings for its provider,
or else that of the environment, or else the default; and given settings alone make a client that has them. -/
theorem settings_by_precedence (e : Environment) (o : ClientOptions) (spelled : o.Spelled) :
    ByPrecedence e o ∧ ∀ s : Settings, (∃ v ∈ vendors, v.name = s.provider) →
      ∃ c, Client.ofSettings e s = .ok c ∧ c.settings = s ∧ c.Sends s := by
  refine ⟨?_, fun s known => ⟨_, ofSettings_eq known, rfl, Client.sends_settings _⟩⟩
  by_cases known : ∃ v ∈ vendors, v.name = Text.lower o.provider
  · obtain ⟨v, known, name⟩ := known
    exact byPrecedence_of_known known name spelled
  · exact byPrecedence_of_unknown fun v listed name => known ⟨v, listed, name⟩

/-- Options with a key and a temperature of their own, and with settings for the same provider. -/
def tuned : ClientOptions where
  provider := "Gemini"
  apiKey := some "own-key"
  temperature := some (.int 0)
  settings := some { provider := "gemini", model := "gemini-test", apiKey := some "given-key" }

/-- An environment with a key for another provider. -/
def foreignKey : Environment where
  values := [("OPENAI_API_KEY", "other-key"), ("GEMINI_MODEL", "unused")]

/-- A client with a key of its own beside that of another provider takes its own, and a temperature of zero
counts. -/
theorem settings_by_precedence_tuned : tuned.Spelled ∧
    ∃ c, Client.ofOptions foreignKey tuned = .ok c ∧
      c.settings.model = "gemini-test" ∧ c.settings.temperature = .int 0 ∧
      c.settings.apiKey = some "own-key" ∧ c.settings.baseUrl = none := by
  have low : Text.lower tuned.provider = "gemini" := by decide +kernel
  have own : tuned.own = tuned.settings := own_eq_some_iff.mpr ⟨rfl, by decide +kernel⟩
  have spelled : tuned.Spelled := by
    intro s mine
    obtain rfl := Option.some.inj (own.symm.trans mine)
    exact low.symm
  obtain ⟨byPrecedence, -⟩ := settings_by_precedence foreignKey tuned spelled
  have known : ∃ v ∈ vendors, v.name = Text.lower tuned.provider :=
    ⟨_, List.mem_cons_of_mem _ List.mem_cons_self, low.symm⟩
  obtain ⟨c, made⟩ := byPrecedence.made.mpr ⟨known, .inl (own ▸ rfl)⟩
  obtain ⟨v, -, -, chosen⟩ := byPrecedence.chosen c made
  refine ⟨spelled, c, made, ?_, ?_, ?_, ?_⟩
  · rw [chosen.model, own]
    rfl
  · rw [chosen.temperature]
    rfl
  · rw [chosen.apiKey]
    rfl
  · rw [chosen.baseUrl, own]
    rfl

/-- A blank model and a limit of zero give way to the defaults, a number that cannot be read is an error even if it
is overridden, and settings that name their provider in capitals do not count. -/
theorem blank_options_give_way :
    ((Client.ofOptions {} { model := some "", maxTokens := some (.int 0) }).map fun c =>
      (c.settings.model, c.settings.maxTokens)) = .ok ("gpt-4o-mini-2024-07-18", .int 4096) ∧
    ((Client.ofOptions { values := [("OPENAI_TEMPERATURE", "warm")] } { temperature := some (.int 0) }).map
      (·.settings.model)) = .error (.notNumber "warm") ∧
    ((Client.ofSettings {} { provider := "OpenAI", model := "gpt-test" }).map (·.settings.model)) =
      .ok "gpt-4o-mini-2024-07-18" := by
  refine ⟨?_, ?_, ?_⟩ <;> rfl

end ReflectedSchema.Chat
