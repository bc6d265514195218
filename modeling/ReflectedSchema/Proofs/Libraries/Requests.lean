import ReflectedSchema.Chat.Delivery
import ReflectedSchema.Proofs.Libraries.Runs
import ReflectedSchema.Proofs.Payloads.Fences

/-!
# Structured requests from end to end

A structured request passes through the library, the builder, the envelope, the client, the reader and the
decoder, and can end at each of them.  Nothing is sent unless there are a schema and a prompt (`Unsent`).
Otherwise one request is sent, and what comes back is decoded by the schema whose document was sent
(`Fulfils`).  The client trims the text and the reader trims it again, which changes nothing.  What the
library keeps is settled before anything is sent (`Caches`).

None of this depends on whether the caller waits.
-/

namespace ReflectedSchema

variable {σ : Type}

/-- A payload is instantiated as what it is read as. -/
theorem Schema.instantiate_congr {limits : Limits} {p q : Payload}
    (h : p.read limits.nesting = q.read limits.nesting) (schema : Schema) (host : Host σ) :
    schema.instantiate limits host p = schema.instantiate limits host q := by
  unfold instantiate attempt
  rw [h]

namespace Chat

variable {c : Client} {mode : Mode} {limits : Limits} {library : Library} {source : Source} {host : Host σ}
  {schema : Schema} {choices : List Choice} {target : Target} {prompt : Prompt} {s : σ}

/-! ## Choices -/

/-- The content of a first choice that finished by itself; a choice without content has an empty one. -/
def finished? : List Choice → Option String
  | [] => none
  | choice :: _ => if choice.finishReason = some "stop" then some (choice.content.getD "") else none

/-- A client takes the content of the first choice, trimmed, or refuses and tells why the choice finished. -/
theorem firstText_result (s : Settings) (choices : List Choice) :
    (∃ content, finished? choices = some content ∧
        (Client.firstText s choices).1 = .ok (Text.trimText content)) ∨
      finished? choices = none ∧ ∃ message, (Client.firstText s choices).1 =
        .error (.refused ⟨message, choices.head?.bind (·.finishReason)⟩) := by
  cases choices with
  | nil => exact .inr ⟨rfl, _, rfl⟩
  | cons choice rest =>
    unfold finished? Client.firstText
    dsimp only
    split_ifs
    · exact .inl ⟨_, rfl, rfl⟩
    · exact .inr ⟨rfl, _, rfl⟩

/-! ## Exchanges -/

/-- The arguments of a request at the provider. -/
def Call.arguments? : Call → Option (List (String × Json))
  | .connect _ _ => none
  | .create arguments => some arguments

/-- The arguments of the requests that a client sent for a structured request. -/
def Delivery.requests (d : Delivery) : List (List (String × Json)) :=
  (d.exchanges.flatMap (·.calls)).filterMap Call.arguments?

/-- What is sent for a schema. -/
def sentFor (schema : Schema) (prompt : Prompt) (messages : List Message) : Sent :=
  ⟨messages, ResponseFormat.envelope schema.document (some (formatName schema prompt.formatName))⟩

/-- The arguments with which a client sends messages for a schema. -/
def argumentsFor (c : Client) (schema : Schema) (prompt : Prompt) (messages : List Message) :
    List (String × Json) :=
  Client.arguments c.settings (.arr (messages.map Message.toJson))
    (some (sentFor schema prompt messages).format)

/-- **A client sends messages once**, whether it has to open a connection first or not, and the text is that of
the first choice. -/
theorem deliver_sentFor (c : Client) (mode : Mode) (choices : List Choice) (schema : Schema) (prompt : Prompt)
    {messages : List Message} (h : messages ≠ []) :
    (c.deliver mode choices (sentFor schema prompt messages)).1.result =
        (Client.firstText c.settings choices).1 ∧
      (c.deliver mode choices (sentFor schema prompt messages)).1.calls.filterMap Call.arguments? =
        [argumentsFor c schema prompt messages] := by
  obtain ⟨first, rest, rfl⟩ := List.exists_cons_of_ne_nil h
  have calls : (c.deliver mode choices (sentFor schema prompt (first :: rest))).1.calls =
      (if (if mode.isAsync then c.connectedAsync else c.connected) then []
        else [.connect c.settings.apiKey c.settings.baseUrl]) ++
      [.create (argumentsFor c schema prompt (first :: rest))] := rfl
  refine ⟨rfl, ?_⟩
  rw [calls, List.filterMap_append]
  split_ifs <;> rfl

/-- What a client sends and what comes of it do not depend on whether the caller waits. -/
theorem deliver_mode (c : Client) (mode other : Mode) (choices : List Choice) (sent : Sent) :
    (c.deliver mode choices sent).1.result = (c.deliver other choices sent).1.result ∧
      (c.deliver mode choices sent).1.calls.filterMap Call.arguments? =
        (c.deliver other choices sent).1.calls.filterMap Call.arguments? := by
  unfold Client.deliver Client.complete
  dsimp only
  split_ifs <;> exact ⟨rfl, rfl⟩

/-- A client is the same provider for a caller who waits and for one who does not. -/
theorem provider_mode (c : Client) (mode other : Mode) (choices : List Choice) :
    c.provider mode choices = c.provider other choices := by
  funext sent
  rw [Client.provider, Client.provider, (deliver_mode c mode other choices sent).1]

/-- A prompt that is not empty has messages. -/
theorem exists_messages (h : prompt.user ≠ "") :
    ∃ messages, messages? prompt.user prompt.system = some messages ∧ messages ≠ [] := by
  have worded : prompt.user.isEmpty = false := by simpa using h
  unfold messages?
  rw [worded]
  exact ⟨_, rfl, List.cons_ne_nil _ _⟩

/-! ## What the library keeps -/

/-- What a request leaves in a library: the schema of an absent class if it could be generated, and otherwise
nothing new. -/
structure Caches (library : Library) (source : Source) (target : Target) (after : Library) : Prop where
  stored : ∀ className schema, target = .class className → library.get? className = none →
    (buildClass source className className).run.1 = .ok schema →
      after.schemas = library.schemas ++ [(className, schema)]
  kept : (∀ className schema, target = .class className → library.get? className = none →
    (buildClass source className className).run.1 ≠ .ok schema) → after = library

/-- Resolving a target stores at most the schema of an absent class. -/
theorem resolve_caches (library : Library) (source : Source) (target : Target) :
    Caches library source target (resolve library source target).2 where
  stored := by
    rintro className schema rfl absent built
    rw [resolve, absent]
    dsimp only
    rw [Library.generate_stored, Source.schema?_eq_some.mpr built]
    exact Json.set_of_not_mem ((Json.lookup_eq_none_iff _ _).mp absent)
  kept h := by
    cases target with
    | schema s => rfl
    | «class» className =>
      rw [resolve]
      cases absent : library.get? className with
      | some s => rfl
      | none =>
        dsimp only
        rw [Library.generate_stored]
        cases built : source.schema? className with
        | none => rfl
        | some schema =>
          exact absurd (Source.schema?_eq_some.mp built) (h className schema rfl absent)

/-! ## Requests to providers -/

section

variable {provider : Provider} {messages : List Message}

/-- A target that cannot be resolved ends the request with what was raised. -/
theorem request_of_unresolved {e : Raised} (h : (resolve library source target).1.result = .error e) :
    ∃ records, (request limits library source host provider target prompt).run s =
      (({ result := .error (.raised e), records }, (resolve library source target).2), s) := by
  unfold request
  dsimp only
  rw [h]
  exact ⟨_, rfl⟩

/-- Without a prompt there is no request. -/
theorem request_of_unworded (h : (resolve library source target).1.result = .ok schema)
    (unworded : messages? prompt.user prompt.system = none) :
    ∃ records, (request limits library source host provider target prompt).run s =
      (({ result := .error .noPrompt, records }, (resolve library source target).2), s) := by
  unfold request
  dsimp only
  rw [h]
  dsimp only
  rw [unworded]
  exact ⟨_, rfl⟩

/-- A refusal ends the request, and the host is not called. -/
theorem request_of_refused (h : (resolve library source target).1.result = .ok schema)
    (worded : messages? prompt.user prompt.system = some messages) {refusal : Refusal}
    (refused : provider (sentFor schema prompt messages) = .error refusal) :
    ∃ records, (request limits library source host provider target prompt).run s =
      (({ result := .error (.refused refusal), sent := [sentFor schema prompt messages], records },
        (resolve library source target).2), s) := by
  unfold request
  dsimp only
  rw [h]
  dsimp only
  rw [worded]
  dsimp only
  rw [← sentFor, refused]
  exact ⟨_, rfl⟩

/-- An answer is instantiated by the schema of the target. -/
theorem request_of_answered (h : (resolve library source target).1.result = .ok schema)
    (worded : messages? prompt.user prompt.system = some messages) {text : String}
    (answered : provider (sentFor schema prompt messages) = .ok text) :
    ∃ records, (request limits library source host provider target prompt).run s =
      let outcome := (schema.instantiate limits host (.text text)).run s
      (({ result := outcome.1.result.mapError .raised, sent := [sentFor schema prompt messages],
          received := [text], records }, (resolve library source target).2), outcome.2) := by
  unfold request
  dsimp only
  rw [h]
  dsimp only
  rw [worded]
  dsimp only
  rw [← sentFor, answered]
  exact ⟨_, rfl⟩

/-- What a request leaves in the library is what resolving its target does. -/
theorem library_request (limits : Limits) (host : Host σ) (provider : Provider) (target : Target)
    (prompt : Prompt) (s : σ) :
    ((request limits library source host provider target prompt).run s).1.2 =
      (resolve library source target).2 := by
  cases resolved : (resolve library source target).1.result with
  | error e =>
    obtain ⟨records, run⟩ := request_of_unresolved resolved
    rw [run]
  | ok schema =>
    cases worded : messages? prompt.user prompt.system with
    | none =>
      obtain ⟨records, run⟩ := request_of_unworded resolved worded
      rw [run]
    | some messages =>
      cases answer : provider (sentFor schema prompt messages) with
      | error refusal =>
        obtain ⟨records, run⟩ := request_of_refused resolved worded answer
        rw [run]
      | ok text =>
        obtain ⟨records, run⟩ := request_of_answered resolved worded answer
        rw [run]

end

/-! ## Requests to clients -/

/-- A request ends before anything is sent: neither the client nor the host has been called. -/
structure Unsent (c : Client) (s : σ) (why : Rejection) (d : Delivery) (t : σ) : Prop where
  result : d.reply.result = .error why
  sent : d.reply.sent = []
  requests : d.requests = []
  client : d.client = c
  called : d.called = []
  state : t = s

/-- The arguments of a request ask for a value of a schema: they hold the prompts, and a response format whose
schema is the document. -/
structure Asks (prompt : Prompt) (schema : Schema) (arguments : List (String × Json)) : Prop where
  messages : ∃ opening, Json.lookup "messages" arguments = some (.arr [
    .obj [("role", .str "system"), ("content", .str opening)],
    .obj [("role", .str "user"), ("content", .str prompt.user)]]) ∧
      ∀ given, prompt.system = some given → given ≠ "" → opening = given
  format : ∃ format inner, Json.lookup "response_format" arguments = some format ∧
    format.field? "type" = some (.str "json_schema") ∧ format.field? "json_schema" = some inner ∧
      inner.field? "schema" = some schema.document ∧
        inner.field? "name" = some (.str (formatName schema prompt.formatName)) ∧
          inner.field? "strict" = some (.bool true)

/-- What a client sends for a schema asks for a value of it. -/
theorem asks_argumentsFor (c : Client) (schema : Schema) (prompt : Prompt) {messages : List Message}
    (worded : messages? prompt.user prompt.system = some messages) :
    Asks prompt schema (argumentsFor c schema prompt messages) where
  messages := by
    unfold messages? at worded
    split at worded
    · cases worded
    · cases worded
      refine ⟨_, rfl, fun given system named => ?_⟩
      rw [system]
      exact if_neg (by simpa using named)
  format := by
    -- The limit of tokens has another name for one provider, and never that of the response format.
    refine ⟨(sentFor schema prompt messages).format, _, ?_, rfl, rfl, rfl, rfl, rfl⟩
    show Json.lookup "response_format" (_ :: _ :: _ :: (if _ then _ else _, _) :: _) = _
    split_ifs <;> rfl

/-- A request for a schema is carried out.  One request is sent, which asks for a value of the schema.  A first
choice that finished by itself is instantiated by the same schema, as its content is without trimming; any other
is refused.  A callback gets the text if there is one. -/
structure Fulfils (c : Client) (mode : Mode) (limits : Limits) (host : Host σ) (schema : Schema)
    (choices : List Choice) (prompt : Prompt) (s : σ) (d : Delivery) (t : σ) : Prop where
  sent : ∃ messages, messages? prompt.user prompt.system = some messages ∧
    d.reply.sent = [sentFor schema prompt messages] ∧ d.requests = [argumentsFor c schema prompt messages] ∧
      Asks prompt schema (argumentsFor c schema prompt messages)
  finished : ∀ content, finished? choices = some content →
    d.reply.result = ((schema.instantiate limits host (.text content)).run s).1.result.mapError .raised ∧
      t = ((schema.instantiate limits host (.text content)).run s).2
  refused : finished? choices = none →
    (∃ message, d.reply.result = .error (.refused ⟨message, choices.head?.bind (·.finishReason)⟩)) ∧ t = s
  received : d.reply.received = ((finished? choices).map Text.trimText).toList
  called : d.called = if mode.hasCallback then ((finished? choices).map Text.trimText).toList else []

/-- A request of a client runs as that of its provider does, and the exchanges are those of its delivery. -/
theorem run_request (c : Client) (mode : Mode) (limits : Limits) (library : Library) (source : Source)
    (host : Host σ) (choices : List Choice) (target : Target) (prompt : Prompt) (s : σ) :
    (c.request mode limits library source host choices target prompt).run s =
      let done := (request limits library source host (c.provider mode choices) target prompt).run s
      (({ reply := done.1.1
          exchanges := done.1.1.sent.map fun sent => (c.deliver mode choices sent).1
          client := done.1.1.sent.foldl (fun c sent => (c.deliver mode choices sent).2) c
          called := if mode.hasCallback then done.1.1.received else [] }, done.1.2), done.2) :=
  rfl

/-- All exchanges of a request are those that deliver what was sent. -/
theorem requests_request (c : Client) (mode : Mode) (limits : Limits) (library : Library) (source : Source)
    (host : Host σ) (choices : List Choice) (target : Target) (prompt : Prompt) (s : σ) :
    ((c.request mode limits library source host choices target prompt).run s).1.1.requests =
      ((request limits library source host (c.provider mode choices) target prompt).run s).1.1.sent.flatMap
        fun sent => (c.deliver mode choices sent).1.calls.filterMap Call.arguments? := by
  rw [run_request, Delivery.requests, List.flatMap_map, List.filterMap_flatMap]

/-- A request that sends messages for a schema sends one request. -/
theorem requests_of_sent {messages : List Message} (given : messages ≠ [])
    (h : ((request limits library source host (c.provider mode choices) target prompt).run s).1.1.sent =
      [sentFor schema prompt messages]) :
    ((c.request mode limits library source host choices target prompt).run s).1.1.requests =
      [argumentsFor c schema prompt messages] := by
  rw [requests_request, h, List.flatMap_singleton, (deliver_sentFor c mode choices schema prompt given).2]

/-- A request that does not send anything leaves the client alone. -/
theorem unsent {why : Rejection} {records : List LogRecord} {after : Library}
    (h : (request limits library source host (c.provider mode choices) target prompt).run s =
      (({ result := .error why, records }, after), s)) :
    Unsent c s why ((c.request mode limits library source host choices target prompt).run s).1.1
      ((c.request mode limits library source host choices target prompt).run s).2 := by
  rw [run_request, h]
  exact ⟨rfl, rfl, rfl, rfl, ite_self _, rfl⟩

/-- Once its target is resolved and it is worded, a request is fulfilled. -/
theorem fulfils (h : (resolve library source target).1.result = .ok schema) (worded : prompt.user ≠ "") :
    Fulfils c mode limits host schema choices prompt s
      ((c.request mode limits library source host choices target prompt).run s).1.1
      ((c.request mode limits library source host choices target prompt).run s).2 := by
  obtain ⟨messages, worded, given⟩ := exists_messages worded
  have asks := asks_argumentsFor c schema prompt worded
  have answer : c.provider mode choices (sentFor schema prompt messages) =
      (Client.firstText c.settings choices).1.mapError ExchangeError.refusal := by
    rw [Client.provider, (deliver_sentFor c mode choices schema prompt given).1]
  rcases firstText_result c.settings choices with ⟨content, finished, text⟩ | ⟨unfinished, message, text⟩
  · rw [text] at answer
    obtain ⟨records, run⟩ := request_of_answered h worded answer
    have once : ((c.request mode limits library source host choices target prompt).run s).1.1.requests = _ :=
      requests_of_sent given (by rw [run])
    rw [run_request, run, Schema.instantiate_congr (Payload.read_trimText content _)] at once ⊢
    refine ⟨⟨messages, worded, rfl, once, asks⟩, fun other same => ?_, fun none => ?_, ?_, ?_⟩
    · cases finished.symm.trans same
      exact ⟨rfl, rfl⟩
    · cases finished.symm.trans none
    · rw [finished]
      rfl
    · rw [finished]
      rfl
  · rw [text] at answer
    obtain ⟨records, run⟩ := request_of_refused h worded answer
    have once : ((c.request mode limits library source host choices target prompt).run s).1.1.requests = _ :=
      requests_of_sent given (by rw [run])
    rw [run_request, run] at once ⊢
    refine ⟨⟨messages, worded, rfl, once, asks⟩, fun other some => ?_, fun _ => ⟨⟨message, rfl⟩, rfl⟩,
      ?_, ?_⟩
    · cases unfinished.symm.trans some
    · rw [unfinished]
      rfl
    · rw [unfinished]
      rfl

/-- **A structured request from end to end**, whatever the limits, the library, the source and the host of its
classes, the client and the response are.

If the target has no schema, the request ends with the reason, and without a prompt it is rejected; nothing
is sent in either case.  Otherwise one request is sent, with the prompts and with a response format whose
schema is the document of the schema that decodes what comes back.  The library keeps the schema of an absent
class, if it could be generated, whatever happens afterwards, and is not changed in any other way.  A caller
who does not wait gets the same result for the same request, with the same library and the same state of the
host. -/
theorem requests_end_to_end (c : Client) (limits : Limits) (library : Library) (source : Source)
    (host : Host σ) (choices : List Choice) (target : Target) (prompt : Prompt) (s : σ) :
    let done (mode : Mode) := (c.request mode limits library source host choices target prompt).run s
    (∀ mode,
      (∀ e, library.view.target source target = .error e →
        Unsent c s (.raised e) (done mode).1.1 (done mode).2) ∧
      (∀ schema, library.view.target source target = .ok schema →
        (prompt.user = "" → Unsent c s .noPrompt (done mode).1.1 (done mode).2) ∧
        (prompt.user ≠ "" →
          Fulfils c mode limits host schema choices prompt s (done mode).1.1 (done mode).2)) ∧
      Caches library source target (done mode).1.2) ∧
    ∀ mode other, (done mode).1.1.reply = (done other).1.1.reply ∧
      (done mode).1.1.requests = (done other).1.1.requests ∧
      (done mode).1.2 = (done other).1.2 ∧ (done mode).2 = (done other).2 := by
  intro done
  have run (mode : Mode) : done mode = _ := run_request c mode limits library source host choices target prompt s
  rw [← resolve_result]
  refine ⟨fun mode => ⟨fun e unresolved => ?_, fun schema resolved => ⟨fun empty => ?_, fulfils resolved⟩, ?_⟩,
    fun mode other => ⟨?_, ?_, ?_, ?_⟩⟩
  · obtain ⟨records, ends⟩ := request_of_unresolved unresolved
    exact unsent ends
  · have unworded : messages? prompt.user prompt.system = none := by
      unfold messages?
      rw [empty]
      rfl
    obtain ⟨records, ends⟩ := request_of_unworded resolved unworded
    exact unsent ends
  · rw [run]
    dsimp only
    rw [library_request]
    exact resolve_caches library source target
  · rw [run, run, provider_mode c mode other]
  · show ((c.request mode limits library source host choices target prompt).run s).1.1.requests =
      ((c.request other limits library source host choices target prompt).run s).1.1.requests
    rw [requests_request, requests_request, provider_mode c mode other]
    simp only [(deliver_mode c mode other choices _).2]
  · rw [run, run, provider_mode c mode other]
  · rw [run, run, provider_mode c mode other]

/-- A client asks for a person, whose class is not in the library, and gets a number with blanks around it.  The
response format holds the document of the class.  The number is instantiated with the blanks, a callback gets it
without them, and the schema of the class stays. -/
theorem requests_end_to_end_person : ∃ schema done arguments format inner,
    (buildClass people.source "Person" "Person").run.1 = .ok schema ∧
      (Client.request { settings := {} } (.async true) ⟨9, 9⟩ {} people.source people.host
        [⟨some "stop", some " 7\n"⟩] (.class "Person") { user := "Make up a person" }).run () = done ∧
      done.1.1.reply.result =
          ((schema.instantiate ⟨9, 9⟩ people.host (.text " 7\n")).run ()).1.result.mapError .raised ∧
      done.1.1.called = ["7"] ∧ done.1.1.requests = [arguments] ∧
      Json.lookup "response_format" arguments = some format ∧ format.field? "json_schema" = some inner ∧
      inner.field? "schema" = some schema.document ∧ done.1.2.schemas = [("Person", schema)] := by
  obtain ⟨schema, built⟩ := exists_stored_person
  obtain ⟨each, -⟩ := requests_end_to_end { settings := {} } ⟨9, 9⟩ {} people.source people.host
    [⟨some "stop", some " 7\n"⟩] (.class "Person") { user := "Make up a person" } ()
  beta_reduce at each
  obtain ⟨-, resolved, caches⟩ := each (.async true)
  have absent : ({} : Library).view.value "Person" = none := rfl
  have target : ({} : Library).view.target people.source (.class "Person") = .ok schema := by
    unfold OrderedMap.target
    dsimp only
    rw [absent]
    exact built
  have fulfilled := (resolved schema target).2 (by simp)
  obtain ⟨messages, -, -, requests, asks⟩ := fulfilled.sent
  obtain ⟨format, inner, given, -, envelope, document, -, -⟩ := asks.format
  have stored := caches.stored "Person" schema rfl rfl built
  have finished := (fulfilled.finished " 7\n" rfl).1
  have called := fulfilled.called
  refine ⟨schema, _, _, format, inner, built, rfl, finished, called.trans ?_, requests, given, envelope, document,
    stored⟩
  decide +kernel

end Chat

end ReflectedSchema
