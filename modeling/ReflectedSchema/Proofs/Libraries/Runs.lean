import Mathlib
import ReflectedSchema.Chat.Request
import ReflectedSchema.Proofs.Building.Built

/-!
# A library is an ordered map

Seen from outside, a library is a map from names to schemas that keeps the order in which the names came
in.  `OrderedMap` is that map, with the names and the values apart, and it answers every operation by
itself.  One operation on a library does what the same operation does on the map that shows of it, so
a run of any length does too: the same answers, the same state of the hosts, and the same map afterwards.

The map is changed in three ways only.  So what is found under a name is what the latest of the changes
that concern the name left there.
-/

namespace ReflectedSchema

variable {σ : Type}

/-! ## Operations -/

/-- What a library can be asked for.  Sources and hosts may answer differently each time. -/
inductive Operation (σ : Type) where
  | generate (source : Source) (className : String)
  | generateType (source : Source) (type : TypeTag) (className : String) (hint : Hint) (hintText : String)
      (usage : Usage)
  | get (className : String)
  | names
  | arrayOf (item : Schema) (name : String)
  | arrayOfClass (className name : String)
  | remove (className : String)
  | clear
  | instantiate (schema : Schema) (host : Host σ) (payload : Payload)
  | instantiateClass (className : String) (host : Host σ) (payload : Payload)
  | request (source : Source) (host : Host σ) (provider : Chat.Provider) (target : Chat.Target)
      (prompt : Chat.Prompt)

/-- What comes back from an operation. -/
inductive Answer where
  | schema (result : Except Raised Schema)
  | stored (schema : Option Schema)
  | names (names : List String)
  | removed (result : Except Raised Bool)
  | cleared (result : Except Raised Unit)
  | value (result : Except Raised HostValue)
  | reply (result : Except Chat.Rejection HostValue)

/-- An operation returns an error or raises. -/
def Answer.Fails : Answer → Prop
  | .schema result => ∃ e, result = .error e
  | .stored _ | .names _ => False
  | .removed result => ∃ e, result = .error e
  | .cleared result => ∃ e, result = .error e
  | .value result => ∃ e, result = .error e
  | .reply result => ∃ e, result = .error e

/-- Do one operation after the other. -/
def Operation.run {M : Type} (perform : M → Operation σ → StateM σ (Answer × M)) :
    List (Operation σ) → M → StateM σ (List Answer × M)
  | [], m => return ([], m)
  | operation :: rest, m => do
    let (answer, m) ← perform m operation
    let (answers, m) ← run perform rest m
    return (answer :: answers, m)

/-- Do an operation on a library. -/
def Library.perform (limits : Limits) (library : Library) : Operation σ → StateM σ (Answer × Library)
  | .generate source className =>
    let (outcome, library) := library.generate source className
    return (.schema outcome.result, library)
  | .generateType source type className hint hintText usage =>
    return (.schema (generateType source type className hint hintText usage).result, library)
  | .get className => return (.stored (library.get? className), library)
  | .names => return (.names library.names, library)
  | .arrayOf item name => return (.schema (arrayOf item name).result, library)
  | .arrayOfClass className name =>
    return (.schema (library.arrayOfClass className name).result, library)
  | .remove className =>
    let (outcome, library) := library.remove className
    return (.removed outcome.result, library)
  | .clear =>
    let (outcome, library) := library.clear
    return (.cleared outcome.result, library)
  | .instantiate schema host payload => do
    return (.value (← schema.instantiate limits host payload).result, library)
  | .instantiateClass className host payload => do
    return (.value (← library.instantiate limits host className payload).result, library)
  | .request source host provider target prompt => do
    let (reply, library) ← Chat.request limits library source host provider target prompt
    return (.reply reply.result, library)

/-! ## Ordered maps -/

/-- A map that keeps the order in which its names came in. -/
structure OrderedMap (α : Type) where
  keys : List String
  value : String → Option α

namespace OrderedMap

variable {α : Type}

/-- The map without names. -/
def empty : OrderedMap α := ⟨[], fun _ => none⟩

/-- Give a name a value; a new name comes last. -/
def store (name : String) (a : α) (m : OrderedMap α) : OrderedMap α where
  keys := if name ∈ m.keys then m.keys else m.keys ++ [name]
  value other := if other = name then some a else m.value other

/-- Take a name out. -/
def delete (name : String) (m : OrderedMap α) : OrderedMap α where
  keys := m.keys.erase name
  value other := if other = name then none else m.value other

end OrderedMap

/-- A change of a map of schemas. -/
inductive Change where
  | store (name : String) (schema : Schema)
  | delete (name : String)
  | clear

/-- Make a change. -/
def Change.apply : Change → OrderedMap Schema → OrderedMap Schema
  | .store name schema, m => m.store name schema
  | .delete name, m => m.delete name
  | .clear, _ => .empty

/-- The schema that generating a class stores, if it can be built. -/
def Source.schema? (source : Source) (className : String) : Option Schema :=
  (buildClass source className className).run.1.toOption

namespace OrderedMap

/-- The change that an operation makes.  Generating a class stores its schema if there is one, and so
does a request for a class that is absent; nothing else stores a schema. -/
def change? (m : OrderedMap Schema) : Operation σ → Option Change
  | .generate source className => (source.schema? className).map (.store className)
  | .remove className => some (.delete className)
  | .clear => some .clear
  | .request source _ _ (.class className) _ =>
    if className ∈ m.keys then none else (source.schema? className).map (.store className)
  | _ => none

/-- A map after an operation. -/
def after (m : OrderedMap Schema) (operation : Operation σ) : OrderedMap Schema :=
  match m.change? operation with
  | some change => change.apply m
  | none => m

/-- The schema of a class in a map. -/
def schemaOf (m : OrderedMap Schema) (className : String) : Except Raised Schema :=
  match m.value className with
  | some schema => .ok schema
  | none => .error (.failure { cause := .schemaNotFound className })

/-- The schema of the target of a request. -/
def target (m : OrderedMap Schema) (source : Source) : Chat.Target → Except Raised Schema
  | .schema s => .ok s
  | .class className =>
    match m.value className with
    | some schema => .ok schema
    | none => (buildClass source className className).run.1

/-- What a map answers to an operation. -/
def answer (limits : Limits) (m : OrderedMap Schema) : Operation σ → StateM σ Answer
  | .generate source className => return .schema (buildClass source className className).run.1
  | .generateType source type className hint hintText usage =>
    return .schema (buildType source { name := "", type, className, hint, hintText, usage }).run.1
  | .get className => return .stored (m.value className)
  | .names => return .names m.keys
  | .arrayOf item name => return .schema (arraySchema item name)
  | .arrayOfClass className name => return .schema (m.schemaOf className >>= (arraySchema · name))
  | .remove className => return .removed (.ok (className ∈ m.keys))
  | .clear => return .cleared (.ok ())
  | .instantiate schema host payload => return .value (← schema.instantiate limits host payload).result
  | .instantiateClass className host payload =>
    match m.schemaOf className with
    | .ok schema => return .value (← schema.instantiate limits host payload).result
    | .error e => return .value (.error e)
  | .request source host provider target prompt =>
    match m.target source target with
    | .ok schema =>
      return .reply (← Chat.request limits {} source host provider (.schema schema) prompt).1.result
    | .error e => return .reply (.error (.raised e))

/-- Do an operation on a map. -/
def perform (limits : Limits) (m : OrderedMap Schema) (operation : Operation σ) :
    StateM σ (Answer × OrderedMap Schema) :=
  return (← m.answer limits operation, m.after operation)

/-- The changes that a run makes, in order. -/
def changes (m : OrderedMap Schema) : List (Operation σ) → List Change
  | [] => []
  | operation :: rest => (m.change? operation).toList ++ (m.after operation).changes rest

end OrderedMap

/-- The schema that the latest change about a name left under it, of changes from the latest back. -/
def lastStored (name : String) : List Change → Option Schema
  | [] => none
  | .store other schema :: earlier => if name = other then some schema else lastStored name earlier
  | .delete other :: earlier => if name = other then none else lastStored name earlier
  | .clear :: _ => none

/-- The map that shows of a library. -/
def Library.view (library : Library) : OrderedMap Schema := ⟨library.names, library.get?⟩

/-- The keys of the map are the names of the library. -/
@[simp] theorem Library.keys_view (library : Library) : library.view.keys = library.names := rfl

/-- The entries of a map, in order. -/
def OrderedMap.entries {α : Type} (m : OrderedMap α) : List (String × α) :=
  m.keys.filterMap fun name => (m.value name).map (name, ·)

/-! ## What changes do to the map of a library -/

/-- A source has the schema of a class exactly if building it succeeds. -/
theorem Source.schema?_eq_some {source : Source} {className : String} {schema : Schema} :
    source.schema? className = some schema ↔
      (buildClass source className className).run.1 = .ok schema := by
  unfold schema?
  cases (buildClass source className className).run.1 <;> simp [Except.toOption]

namespace Library

variable {library : Library}

/-- A name is listed exactly if it has a schema. -/
theorem mem_names_iff {className : String} :
    className ∈ library.names ↔ (library.get? className).isSome := by
  have absent : library.get? className = none ↔ className ∉ library.names :=
    Json.lookup_eq_none_iff className library.schemas
  rw [← not_iff_not, ← absent, Option.not_isSome_iff_eq_none]

/-- A library with distinct names holds the entries of its map, and nothing else. -/
theorem schemas_eq_entries (distinct : library.names.Nodup) :
    library.schemas = library.view.entries := by
  have found : ∀ entry ∈ library.schemas,
      (library.get? entry.1).map (entry.1, ·) = some entry := by
    intro entry hentry
    rw [get?, (Json.lookup_eq_some_iff distinct).mpr hentry, Option.map_some]
  show library.schemas = (library.schemas.map (·.1)).filterMap _
  rw [List.filterMap_map]
  exact (List.filterMap_some.symm.trans (List.filterMap_congr fun e he => (found e he).symm))

/-- Storing a schema is an insertion into the map. -/
theorem view_stored (className : String) (schema : Schema) :
    view { library with schemas := Json.set className schema library.schemas } =
      library.view.store className schema :=
  congrArg₂ OrderedMap.mk (Json.keys_set className schema library.schemas)
    (funext fun other => Json.lookup_set className other schema library.schemas)

/-- Removing a class is a deletion from the map. -/
theorem view_remove (className : String) (distinct : library.names.Nodup) :
    (library.remove className).2.view = library.view.delete className := by
  refine congrArg₂ OrderedMap.mk ?_ (funext (get?_remove library className))
  show (library.schemas.filter _).map _ = library.names.erase className
  rw [List.Nodup.erase_eq_filter distinct, names, List.filter_map]
  congr 2
  funext entry
  exact decide_not.trans (congrArg _ (beq_eq_decide entry.1 className).symm)

end Library

namespace Library

variable {library : Library}

/-- Generating a class ends as building its schema does. -/
theorem generate_result (source : Source) (className : String) :
    (library.generate source className).1.result = (buildClass source className className).run.1 := by
  rw [← Outcome.ofBuild_result _ (generationFailed className), generate]
  split
  · rfl
  · rfl

/-- Generating a class stores its schema, if there is one. -/
theorem generate_stored (source : Source) (className : String) :
    (library.generate source className).2 =
      match source.schema? className with
      | some schema => { library with schemas := Json.set className schema library.schemas }
      | none => library := by
  rw [generate, Source.schema?, ← Outcome.ofBuild_result _ (generationFailed className)]
  split
  · rename_i e h
    rw [h]
    rfl
  · rename_i schema h
    rw [h]
    rfl

/-- Generating a class changes the map as its reference does. -/
theorem view_generate (source : Source) (className : String) :
    (library.generate source className).2.view =
      library.view.after (.generate (σ := σ) source className) := by
  rw [generate_stored, OrderedMap.after, OrderedMap.change?]
  cases source.schema? className with
  | none => rfl
  | some schema => exact view_stored className schema

end Library

/-! ## Requests -/

namespace Chat

variable {library : Library} {source : Source}

/-- The target of a request resolves to its schema in the map of the library. -/
theorem resolve_result (target : Target) :
    (resolve library source target).1.result = library.view.target source target := by
  cases target with
  | schema s => rfl
  | «class» name =>
    show _ = match library.get? name with | some s => Except.ok s | none => _
    rw [resolve]
    cases library.get? name with
    | some s => rfl
    | none => exact Library.generate_result source name

/-- A request changes the library at most by generating its class. -/
theorem view_resolve (host : Host σ) (provider : Provider) (target : Target) (prompt : Prompt) :
    (resolve library source target).2.view =
      library.view.after (.request source host provider target prompt) := by
  cases target with
  | schema s => rfl
  | «class» name =>
    rw [resolve, OrderedMap.after, OrderedMap.change?]
    cases h : library.get? name with
    | some s =>
      have present : name ∈ library.view.keys :=
        Library.mem_names_iff.mpr (Option.isSome_iff_exists.mpr ⟨s, h⟩)
      rw [if_pos present]
    | none =>
      have absent : name ∉ library.view.keys := by
        intro present
        have found := Library.mem_names_iff.mp present
        rw [h] at found
        cases found
      rw [if_neg absent]
      exact Library.view_generate (σ := σ) source name

/-- Once its target is resolved, a request ends as one for the schema does. -/
theorem request_result (limits : Limits) (host : Host σ) (provider : Provider) (target : Target)
    (prompt : Prompt) :
    (fun r => (r.1.result, r.2)) <$> request limits library source host provider target prompt =
      match (resolve library source target).1.result with
      | .error e => return (.error (.raised e), (resolve library source target).2)
      | .ok schema => do
        return ((← request limits {} source host provider (.schema schema) prompt).1.result,
          (resolve library source target).2) := by
  funext s
  simp only [request]
  rcases resolve library source target with ⟨⟨_ | schema, records⟩, after⟩
  · rfl
  · simp only [resolve]
    cases messages? prompt.user prompt.system with
    | none => rfl
    | some messages =>
      dsimp only
      cases provider ⟨messages, _⟩ with
      | error refusal => rfl
      | ok text => rfl

end Chat

/-! ## Runs -/

namespace Library

variable {library : Library}

/-- The schema of a class in the map of a library is the stored one. -/
theorem schemaOf_view (className : String) : library.view.schemaOf className =
    match library.get? className with
    | some schema => .ok schema
    | none => .error (.failure { cause := .schemaNotFound className }) := rfl

/-- The answer about an array of a class depends on the stored schema alone. -/
theorem arrayOfClass_result (className name : String) :
    (library.arrayOfClass className name).result =
      library.view.schemaOf className >>= (arraySchema · name) := by
  rw [arrayOfClass, schemaOf_view]
  cases library.get? className <;> rfl

/-- Instantiating a class is instantiating its stored schema. -/
theorem instantiate_result (limits : Limits) (host : Host σ) (className : String) (payload : Payload) :
    Outcome.result <$> library.instantiate limits host className payload =
      match library.view.schemaOf className with
      | .ok schema => Outcome.result <$> schema.instantiate limits host payload
      | .error e => return .error e := by
  rw [instantiate, schemaOf_view]
  cases library.get? className <;> rfl

/-- One operation does to a library what it does to its map. -/
theorem view_perform (limits : Limits) (distinct : library.names.Nodup) (operation : Operation σ) :
    (fun r => (r.1, r.2.view)) <$> library.perform limits operation =
      library.view.perform limits operation := by
  cases operation with
  | generate source className =>
    funext s
    show ((Answer.schema (library.generate source className).1.result,
      (library.generate source className).2.view), s) = _
    rw [generate_result, view_generate (σ := σ)]
    rfl
  | generateType source type className hint hintText usage =>
    funext s
    show ((Answer.schema (generateType source type className hint hintText usage).result, library.view), s) = _
    rw [generateType, Outcome.ofBuild_result]
    rfl
  | get className => rfl
  | names => rfl
  | arrayOf item name => rfl
  | arrayOfClass className name =>
    funext s
    show ((Answer.schema (library.arrayOfClass className name).result, library.view), s) = _
    rw [arrayOfClass_result]
    rfl
  | remove className =>
    have found : (library.get? className).isSome = decide (className ∈ library.names) :=
      Bool.eq_iff_iff.mpr (mem_names_iff.symm.trans decide_eq_true_iff.symm)
    funext s
    show ((Answer.removed (.ok (library.get? className).isSome),
      (library.remove className).2.view), s) = _
    rw [view_remove className distinct, found]
    rfl
  | clear => rfl
  | instantiate schema host payload => rfl
  | instantiateClass className host payload =>
    show (fun result => (Answer.value result, library.view)) <$>
      (Outcome.result <$> library.instantiate limits host className payload) = _
    rw [instantiate_result, OrderedMap.perform, OrderedMap.answer]
    cases library.view.schemaOf className <;> rfl
  | request source host provider target prompt =>
    show (fun r => (Answer.reply r.1, r.2.view)) <$> ((fun r => (r.1.result, r.2)) <$>
      Chat.request limits library source host provider target prompt) = _
    rw [Chat.request_result, Chat.resolve_result, OrderedMap.perform, OrderedMap.answer,
      ← Chat.view_resolve host provider target prompt]
    cases library.view.target source target <;> rfl

/-- One operation on a library, seen on its map: the answer, the hosts and the map afterwards. -/
theorem view_after_perform (limits : Limits) (distinct : library.names.Nodup) (operation : Operation σ)
    (s : σ) :
    ((library.perform limits operation).run s).1.1 = ((library.view.answer limits operation).run s).1 ∧
      ((library.perform limits operation).run s).2 = ((library.view.answer limits operation).run s).2 ∧
      ((library.perform limits operation).run s).1.2.view = library.view.after operation := by
  have same : (((_, _), _) : (Answer × OrderedMap Schema) × σ) = ((_, _), _) :=
    congrFun (view_perform limits distinct operation) s
  injection same with both state
  injection both with answer map
  exact ⟨answer, state, map⟩

end Library

namespace OrderedMap

variable {m : OrderedMap Schema}

/-- A change keeps the names distinct. -/
theorem nodup_apply (distinct : m.keys.Nodup) (change : Change) : (change.apply m).keys.Nodup := by
  cases change with
  | store name schema =>
    show (if name ∈ m.keys then m.keys else m.keys ++ [name]).Nodup
    split
    · exact distinct
    · rename_i absent
      exact List.nodup_append.mpr ⟨distinct, List.nodup_singleton name, fun a ha b hb hab =>
        absent (List.mem_singleton.mp hb ▸ hab ▸ ha)⟩
  | delete name => exact distinct.erase name
  | clear => exact List.nodup_nil

/-- An operation keeps the names distinct. -/
theorem nodup_after (distinct : m.keys.Nodup) (operation : Operation σ) :
    (m.after operation).keys.Nodup := by
  unfold after
  split
  · exact nodup_apply distinct _
  · exact distinct

/-- An operation that fails changes nothing, unless it is a request for an absent class whose schema
could be built; that schema stays. -/
theorem after_of_fails (limits : Limits) (operation : Operation σ) (s : σ)
    (fails : ((m.answer limits operation).run s).1.Fails) :
    m.after operation = m ∨
      ∃ source host provider className prompt schema,
        operation = .request source host provider (.class className) prompt ∧
        className ∉ m.keys ∧ source.schema? className = some schema ∧
        m.after operation = m.store className schema := by
  cases operation with
  | generate source className =>
    obtain ⟨e, he⟩ := fails
    have none : source.schema? className = none := by
      rw [Source.schema?, he]
      rfl
    refine .inl ?_
    rw [after, change?, none]
    rfl
  | remove className =>
    obtain ⟨e, he⟩ := fails
    cases he
  | clear =>
    obtain ⟨e, he⟩ := fails
    cases he
  | request source host provider target prompt =>
    cases target with
    | schema s => exact .inl rfl
    | «class» className =>
      by_cases present : className ∈ m.keys
      · refine .inl ?_
        rw [after, change?, if_pos present]
      · cases built : source.schema? className with
        | none =>
          refine .inl ?_
          rw [after, change?, if_neg present, built]
          rfl
        | some schema =>
          refine .inr ⟨source, host, provider, className, prompt, schema, rfl, present, built, ?_⟩
          rw [after, change?, if_neg present, built]
          rfl
  | generateType | get | names | arrayOf | arrayOfClass | instantiate | instantiateClass =>
    exact .inl rfl

/-- The change of an operation is the first of a run, if it makes one. -/
theorem foldl_changes_cons (operation : Operation σ) (rest : List (Operation σ))
    (m : OrderedMap Schema) :
    (m.changes (operation :: rest)).foldl (fun m change => change.apply m) m =
      ((m.after operation).changes rest).foldl (fun m change => change.apply m)
        (m.after operation) := by
  rw [changes, List.foldl_append, after]
  cases m.change? operation <;> rfl

/-- A run leaves the map that its changes make, one after the other. -/
theorem run_perform (limits : Limits) (operations : List (Operation σ)) (m : OrderedMap Schema) (s : σ) :
    ((Operation.run (perform limits) operations m).run s).1.2 =
      (m.changes operations).foldl (fun m change => change.apply m) m := by
  induction operations generalizing m s with
  | nil => rfl
  | cons operation rest ih =>
    rw [foldl_changes_cons]
    exact ih (m.after operation) ((m.answer limits operation).run s).2

/-- What is found under a name is what the latest change about it left. -/
theorem value_foldl (name : String) (changes : List Change) :
    (changes.foldl (fun m change => change.apply m) empty).value name =
      lastStored name changes.reverse := by
  induction changes using List.reverseRecOn with
  | nil => rfl
  | append_singleton earlier change ih =>
    rw [List.foldl_append, List.reverse_concat]
    cases change with
    | store other schema =>
      show (if name = other then some schema else _) = if name = other then some schema else _
      rw [ih]
    | delete other =>
      show (if name = other then none else _) = if name = other then none else _
      rw [ih]
    | clear => rfl

end OrderedMap

namespace Library

variable {library : Library}

/-- A run does to a library what it does to its map, whose names stay distinct. -/
theorem view_run (limits : Limits) (distinct : library.names.Nodup) (operations : List (Operation σ)) (s : σ) :
    let done := (Operation.run (perform limits) operations library).run s
    let expected := (Operation.run (OrderedMap.perform limits) operations library.view).run s
    done.1.1 = expected.1.1 ∧ done.2 = expected.2 ∧ done.1.2.view = expected.1.2 ∧
      done.1.2.names.Nodup := by
  induction operations generalizing library s with
  | nil => exact ⟨rfl, rfl, rfl, distinct⟩
  | cons operation rest ih =>
    obtain ⟨answer, state, map⟩ := view_after_perform limits distinct operation s
    have after : ((library.perform limits operation).run s).1.2.names.Nodup := by
      rw [← keys_view, map]
      exact OrderedMap.nodup_after distinct operation
    -- The rest of the run on the map starts where the library got to.
    have expected : (Operation.run (OrderedMap.perform limits) (operation :: rest) library.view).run s =
        let next := (library.perform limits operation).run s
        let done := (Operation.run (OrderedMap.perform limits) rest next.1.2.view).run next.2
        ((next.1.1 :: done.1.1, done.1.2), done.2) := by
      dsimp only
      rw [answer, state, map]
      rfl
    obtain ⟨answers, states, maps, distincts⟩ := ih after ((library.perform limits operation).run s).2
    rw [expected]
    exact ⟨congrArg (_ :: ·) answers, states, maps, distincts⟩

/-- Libraries with distinct names that show the same map are the same. -/
theorem eq_of_view_eq {other : Library} (h : library.view = other.view)
    (distinct : library.names.Nodup) : library = other := by
  have names : library.names = other.names := congrArg OrderedMap.keys h
  have distinct' : other.names.Nodup := names ▸ distinct
  have entries : library.schemas = other.schemas := by
    rw [schemas_eq_entries distinct, schemas_eq_entries distinct', h]
  cases library
  cases other
  exact congrArg mk entries

/-- An operation that fails leaves the library as it was, unless it is a request for an absent class
whose schema could be built. -/
theorem perform_of_fails (limits : Limits) (distinct : library.names.Nodup) (operation : Operation σ) (s : σ)
    (fails : ((library.perform limits operation).run s).1.1.Fails) :
    ((library.perform limits operation).run s).1.2 = library ∨
      ∃ source host provider className prompt schema,
        operation = .request source host provider (.class className) prompt ∧
        className ∉ library.names ∧
        (buildClass source className className).run.1 = .ok schema ∧
        ((library.perform limits operation).run s).1.2.schemas = library.schemas ++ [(className, schema)] := by
  obtain ⟨answer, -, map⟩ := view_after_perform limits distinct operation s
  rw [answer] at fails
  rcases OrderedMap.after_of_fails limits operation s fails with unchanged |
    ⟨source, host, provider, className, prompt, schema, rfl, absent, built, stored⟩
  · exact .inl (eq_of_view_eq (unchanged ▸ map).symm distinct).symm
  · have added : { library with schemas := Json.set className schema library.schemas } = _ :=
      eq_of_view_eq ((view_stored className schema).trans (stored ▸ map).symm)
        (Json.nodup_keys_set className schema distinct)
    refine .inr ⟨source, host, provider, className, prompt, schema, rfl, absent, ?_, ?_⟩
    · exact Source.schema?_eq_some.mp built
    · rw [← added]
      exact Json.set_of_not_mem absent

end Library

/-- **A library is an ordered map**, whatever the limits are.  After any run from an empty library, the
library is the map that the run makes of an empty map, every answer on the way is the one the map gives, and
the hosts end in the same state.  The names are distinct, and what is found under a name is what the latest
change about it left.  Whatever comes next, an operation that fails leaves the library as it was, unless it is
a request for an absent class whose schema could be built: that schema stays. -/
theorem library_refines_ordered_map (limits : Limits) (operations : List (Operation σ)) (s : σ) :
    let done := (Operation.run (Library.perform limits) operations {}).run s
    let expected := (Operation.run (OrderedMap.perform limits) operations .empty).run s
    let library := done.1.2
    (done.1.1 = expected.1.1 ∧ done.2 = expected.2 ∧
        library.view = expected.1.2 ∧ library.schemas = expected.1.2.entries) ∧
      library.names.Nodup ∧
      (∀ name, library.get? name = lastStored name (OrderedMap.empty.changes operations).reverse) ∧
      ∀ (operation : Operation σ) (t : σ),
        let next := (library.perform limits operation).run t
        next.1.1.Fails → next.1.2 = library ∨
          ∃ source host provider className prompt schema,
            operation = .request source host provider (.class className) prompt ∧
            className ∉ library.names ∧
            (buildClass source className className).run.1 = .ok schema ∧
            next.1.2.schemas = library.schemas ++ [(className, schema)] := by
  obtain ⟨answers, states, map, distinct⟩ :=
    Library.view_run limits (show ({} : Library).names.Nodup from List.nodup_nil) operations s
  refine ⟨⟨answers, states, map, ?_⟩, distinct, fun name => ?_, fun operation t fails => ?_⟩
  · exact (Library.schemas_eq_entries distinct).trans (congrArg OrderedMap.entries map)
  · rw [← OrderedMap.value_foldl, ← OrderedMap.run_perform limits operations .empty s]
    exact congrFun (congrArg OrderedMap.value map) name
  · exact Library.perform_of_fails limits distinct operation t fails

/-! ## Requests that fail late -/

/-- A request for an absent class that the provider refuses fails, and the schema generated for it stays
in the library. -/
theorem Library.perform_refused (limits : Limits) {library : Library} (distinct : library.names.Nodup)
    {source : Source} {className : String} {schema : Schema} (absent : library.get? className = none)
    (built : (buildClass source className className).run.1 = .ok schema) (host : Host σ)
    {provider : Chat.Provider} {refusal : Chat.Refusal} (refuses : ∀ sent, provider sent = .error refusal)
    (prompt : Chat.Prompt) {messages : List Chat.Message}
    (worded : Chat.messages? prompt.user prompt.system = some messages) (s : σ) :
    let next := (library.perform limits (.request source host provider (.class className) prompt)).run s
    next.1.1 = .reply (.error (.refused refusal)) ∧
      next.1.2.view = library.view.store className schema := by
  obtain ⟨answer, -, map⟩ := view_after_perform limits distinct
    (.request source host provider (.class className) prompt) s
  have missing : className ∉ library.view.keys :=
    (Json.lookup_eq_none_iff className library.schemas).mp absent
  have target : library.view.target source (.class className) = .ok schema := by
    show (match library.get? className with | some s => Except.ok s | none => _) = _
    rw [absent]
    exact built
  constructor
  · rw [answer, OrderedMap.answer, target]
    dsimp only [Chat.request, Chat.resolve]
    rw [worded]
    dsimp only
    rw [refuses]
    rfl
  · rw [map, OrderedMap.after, OrderedMap.change?, if_neg missing, Source.schema?_eq_some.mpr built]
    rfl

/-- The schema of people can be generated under their name. -/
theorem exists_stored_person :
    ∃ schema, (buildClass people.source "Person" "Person").run.1 = .ok schema := by
  have ok : (buildClass people.source "Person" "Person").run.1.isOk = true := by cbv
  cases built : (buildClass people.source "Person" "Person").run.1 with
  | ok schema => exact ⟨schema, rfl⟩
  | error e =>
    rw [built] at ok
    cases ok

/-- A provider that refuses every request. -/
def Chat.refusing : Provider := fun _ => .error { message := "overloaded" }

/-- A request for people. -/
def personRequest : Operation Unit :=
  .request people.source people.host Chat.refusing (.class "Person") { user := "Make up a person" }

/-- **A failed request can leave a schema behind.**  A request for people, who are not in the library
yet, puts their schema into it; when the provider then refuses, the request fails and the schema stays. -/
theorem refused_request_keeps_schema :
    ((Library.perform ⟨9, 9⟩ {} personRequest).run ()).1.1.Fails ∧
      ((Library.perform ⟨9, 9⟩ {} personRequest).run ()).1.2.names = ["Person"] ∧
      ((Library.perform ⟨9, 9⟩ {} personRequest).run ()).1.2 ≠ {} := by
  obtain ⟨schema, built⟩ := exists_stored_person
  have distinct : ({} : Library).names.Nodup := List.nodup_nil
  have refuses : ∀ sent, Chat.refusing sent = .error { message := "overloaded" } := fun _ => rfl
  obtain ⟨answer, map⟩ := Library.perform_refused ⟨9, 9⟩ distinct rfl built people.host refuses
    { user := "Make up a person" } rfl ()
  have names : ((Library.perform ⟨9, 9⟩ {} personRequest).run ()).1.2.names = ["Person"] := by
    rw [← Library.keys_view, personRequest, map]
    rfl
  refine ⟨?_, names, fun unchanged => ?_⟩
  · rw [personRequest, answer]
    exact ⟨_, rfl⟩
  · rw [unchanged] at names
    cases names

end ReflectedSchema
