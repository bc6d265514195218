import ReflectedSchema.Proofs.Arrays.Wrapping
import ReflectedSchema.Proofs.Building.Descent
import ReflectedSchema.Proofs.Libraries.Runs

/-!
# How a build fails

A source whose own answers are failures makes builds that fail with failures, with one exception.  Of the
faults that a build can raise, the count of classes never runs out, a document whose property lists are
free of duplicates requires no field twice, and a name is free when it is reserved: that of a class or a
value struct because it was looked up just before, that of an enumeration because it gives way to its
path.  The path itself is not looked up.  It is taken if a class has that name and came in first.
-/

namespace ReflectedSchema

open Build

/-! ## Documents that require nothing twice -/

/-- A list has no repetition exactly if it is without duplicates. -/
theorem hasRepeated_eq_false_iff {names : List String} : hasRepeated names = false ↔ names.Nodup := by
  induction names with
  | nil => simp [hasRepeated]
  | cons name rest ih =>
    rw [hasRepeated, Bool.or_eq_false_iff, ih, List.nodup_cons, ← Bool.not_eq_true, List.contains_iff_mem]

namespace Json

/-- Whatever its fields are called, an object of objects requires nothing twice if these do not. -/
theorem clean_of_objects {fields : List (String × Json)}
    (h : ∀ f ∈ fields, ∃ inner, f.2 = .obj inner ∧ (Json.obj inner).hasRepeatedRequired = false) :
    (Json.obj fields).hasRepeatedRequired = false := by
  rw [hasRepeatedRequired, Bool.or_eq_false_iff]
  constructor
  · unfold requiresTwice
    cases hf : lookup "required" fields with
    | none => rfl
    | some value =>
      obtain ⟨inner, rfl, -⟩ := h _ (mem_of_lookup hf)
      rfl
  · induction fields with
    | nil => rfl
    | cons f rest ih =>
      obtain ⟨⟨inner, hf, clean⟩, hrest⟩ := List.forall_mem_cons.mp h
      obtain ⟨name, value⟩ := f
      cases hf
      rw [hasRepeatedRequiredFields, clean, ih hrest]
      rfl

/-- A list of texts requires nothing. -/
theorem clean_of_texts (texts : List String) : (Json.arr (texts.map .str)).hasRepeatedRequired = false := by
  rw [hasRepeatedRequired]
  induction texts with
  | nil => rfl
  | cons text rest ih =>
    rw [List.map_cons, hasRepeatedRequiredItems, ih]
    rfl

end Json

/-- The fields of a node require nothing, with a description or without. -/
theorem Node.clean (n : Node) (description : Option String) :
    (Json.obj (n.fields ++ (description.map fun text => ("description", Json.str text)).toList)
      ).hasRepeatedRequired = false := by
  induction n generalizing description with
  | array items length ih =>
    have inner : (Json.obj items.fields).hasRepeatedRequired = false := by
      simpa using ih none
    cases length <;> cases description <;>
      simpa [Node.fields, lengthFields, Json.hasRepeatedRequired, Json.hasRepeatedRequiredFields,
        requiresTwice, Json.lookup] using inner
  | scalar type range =>
    cases range <;> cases description <;>
      simp [Node.fields, rangeFields, Json.hasRepeatedRequired, Json.hasRepeatedRequiredFields,
        requiresTwice, Json.lookup]
  | anyArray length =>
    cases length <;> cases description <;>
      simp [Node.fields, lengthFields, Json.hasRepeatedRequired, Json.hasRepeatedRequiredFields,
        requiresTwice, Json.lookup]
  | anyObject | ref name =>
    cases description <;>
      simp [Node.fields, Json.hasRepeatedRequired, Json.hasRepeatedRequiredFields, requiresTwice,
        Json.lookup]

/-- A definition lists no property twice. -/
def Definition.Distinct : Definition → Prop
  | .object properties => (properties.map (·.name)).Nodup
  | .enumeration _ => True

/-- A definition that lists no property twice requires none twice. -/
theorem Definition.clean {definition : Definition} (h : definition.Distinct) :
    (Json.obj definition.fields).hasRepeatedRequired = false := by
  cases definition with
  | enumeration members =>
    have texts := Json.clean_of_texts members
    simpa [fields, Json.hasRepeatedRequired, Json.hasRepeatedRequiredFields, requiresTwice,
      Json.lookup] using texts
  | object properties =>
    have names : (properties.map fun p => Json.str p.name) = (properties.map (·.name)).map .str :=
      (List.map_map ..).symm
    have nodes : (Json.obj (properties.map fun p => (p.name, p.toJson))).hasRepeatedRequired = false := by
      refine Json.clean_of_objects fun f hf => ?_
      obtain ⟨p, -, rfl⟩ := List.mem_map.mp hf
      exact ⟨_, rfl, p.node.clean p.description⟩
    have texts := Json.clean_of_texts (properties.map (·.name))
    have once : hasRepeated (((properties.map (·.name)).map Json.str).filterMap Json.str?) = false := by
      rw [List.filterMap_map, hasRepeated_eq_false_iff]
      exact List.filterMap_some ▸ h
    have here : requiresTwice (Definition.object properties).fields = false := by
      rw [requiresTwice, fields, names]
      exact once
    simp only [Json.hasRepeatedRequired, here, Bool.false_or]
    simp only [fields, names, Json.hasRepeatedRequiredFields, nodes, texts]
    rfl

/-- A document requires nothing twice if its root and its shared definitions list no property twice. -/
theorem assemble_clean {shared : List (String × Definition)} {root : Definition}
    (hs : ∀ entry ∈ shared, entry.2.Distinct) (hr : root.Distinct) :
    (assemble (shared.map fun (name, definition) => (name, definition.toJson)) root.fields
      ).hasRepeatedRequired = false := by
  rw [hasRepeatedRequired_assemble, root.clean hr, Bool.or_false]
  refine Json.clean_of_objects fun f hf => ?_
  obtain ⟨entry, he, rfl⟩ := List.mem_map.mp hf
  exact ⟨_, rfl, entry.2.clean (hs entry he)⟩

/-! ## Failures of a build -/

/-- A source that, when it does not answer, fails. -/
structure Source.FailsOnly (source : Source) : Prop where
  properties : ∀ {className e}, source.properties className = .error e → ∃ f, e = .failure f
  members : ∀ {owner name e}, source.members owner name = .error e → ∃ f, e = .failure f

/-- No class has two properties with one name. -/
def Source.ListsOnce (source : Source) : Prop :=
  ∀ className infos, source.properties className = .ok infos → (infos.map (·.name)).Nodup

/-- A class has the path of an enumeration for a name, and both are reached. -/
structure Source.Contested (source : Source) (reach : Entity → Prop) (owner name : String) : Prop where
  known : source.hasClass owner = true
  holder : source.hasClass (enumPath owner name) = true
  reachesClass : reach (.class (enumPath owner name))
  reachesEnum : reach (.enum (enumPath owner name))

/-- What the build of something that reaches some entities may end in: a failure, or the fault that the
path of an enumeration is reserved for a class. -/
inductive Source.EndsIn (source : Source) (reach : Entity → Prop) : Raised → Prop
  | failure (f : Failure) : EndsIn source reach (.failure f)
  | reserved {owner name : String} (h : source.Contested reach owner name) :
    EndsIn source reach (.fault (.reservedDefinition (enumPath owner name)))

/-- Everything that the build of something that reaches some entities may end in, whatever the source
raises, has a property. -/
structure Source.Bounds (source : Source) (reach : Entity → Prop) (Q : Raised → Prop) : Prop where
  failure : ∀ f, Q (.failure f)
  annotate : ∀ {e}, Q e → ∀ owner property, Q (e.annotate owner property)
  properties : ∀ {className e}, reach (.class className) → source.properties className = .error e → Q e
  members : ∀ {owner name e}, source.members owner name = .error e → Q e
  reserved : ∀ {owner name}, source.Contested reach owner name →
    Q (.fault (.reservedDefinition (enumPath owner name)))

/-- A source that fails only makes builds end in a failure or in that one fault. -/
theorem Source.FailsOnly.bounds {source : Source} (calls : source.FailsOnly) (reach : Entity → Prop) :
    source.Bounds reach (source.EndsIn reach) where
  failure := .failure
  annotate h _ _ := by
    -- Noting a property does not make a failure a fault.
    cases h with
    | failure f => exact .failure _
    | reserved h => exact .reserved h
  properties _ stated := by
    obtain ⟨f, rfl⟩ := calls.properties stated
    exact .failure f
  members stated := by
    obtain ⟨f, rfl⟩ := calls.members stated
    exact .failure f
  reserved := .reserved

/-- A sequence of two steps fails as the first does, or as the second does after the first. -/
theorem bind_eq_error {α β ε : Type} {x : Except ε α} {f : α → Except ε β} {e : ε} :
    (x >>= f) = .error e ↔ x = .error e ∨ ∃ a, x = .ok a ∧ f a = .error e := by
  cases x with
  | error first => simp [bind, Except.bind]
  | ok a => simp [bind, Except.bind]

/-- A list of steps fails with what one of them fails with. -/
theorem exists_of_mapM_error {α β ε : Type} {f : α → Except ε β} {xs : List α} {e : ε}
    (h : xs.mapM f = .error e) : ∃ x ∈ xs, f x = .error e := by
  induction xs with
  | nil =>
    rw [List.mapM_nil] at h
    cases h
  | cons x rest ih =>
    rw [List.mapM_cons] at h
    rcases bind_eq_error.mp h with hx | ⟨y, -, h⟩
    · exact ⟨x, List.mem_cons_self, hx⟩
    · rcases bind_eq_error.mp h with hr | ⟨ys, -, h⟩
      · obtain ⟨found, hm, hf⟩ := ih hr
        exact ⟨found, List.mem_cons_of_mem _ hm, hf⟩
      · cases h

/-- A class cannot be described because the source does not list its properties, or it is a failure. -/
theorem describeClass_eq_error {source : Source} {className : String} {e : Raised}
    (h : describeClass source className = .error e) :
    source.properties className = .error e ∨ ∃ f, e = .failure f := by
  unfold describeClass at h
  dsimp only at h
  split at h
  · cases h
    exact .inr ⟨_, rfl⟩
  split at h
  · cases h
    exact .inr ⟨_, rfl⟩
  rcases bind_eq_error.mp h with stated | ⟨infos, -, h⟩
  · exact .inl stated
  rcases bind_eq_error.mp h with undescribed | ⟨properties, -, h⟩
  · obtain ⟨info, -, hd⟩ := exists_of_mapM_error undescribed
    unfold describeProperty at hd
    split at hd
    · cases hd
    · cases hd
      exact .inr ⟨_, rfl⟩
  · cases h

/-! ## Documents of builds -/

namespace Source.ListsOnce

variable {source : Source}

/-- The properties of a described class have distinct names. -/
theorem definition (once : source.ListsOnce) {c : ClassDescriptor}
    (hc : describeClass source c.name = .ok c) (names : String → Option String) :
    (c.definition names).Distinct := by
  obtain ⟨infos, hinfos, same⟩ := propertyNames_of_describeClass hc
  have listed : c.propertyNames.Nodup := same ▸ once _ _ hinfos
  rw [ClassDescriptor.definition, Definition.Distinct, List.map_map]
  exact listed

/-- The definition of every entity lists distinct properties. -/
theorem definitionOf (once : source.ListsOnce) {names : String → Option String} {e : Entity}
    {definition : Definition} (h : source.DefinitionOf names e definition) : definition.Distinct := by
  cases h with
  | enum => trivial
  | «class» hc => exact once.definition hc names
  | struct tag =>
    rw [StructTag.definition, Definition.Distinct, List.map_map]
    exact tag.distinct_layout

/-- The document of a build that is over requires nothing twice. -/
theorem clean (once : source.ListsOnce) {described live : Entity → Prop} {d final : Shared}
    (h : Settled source described live d final) {root : Definition} (hr : root.Distinct) :
    (assemble final.toJson root.fields).hasRepeatedRequired = false := by
  refine assemble_clean (fun entry he => ?_) hr
  obtain ⟨e, -, -, hd⟩ := h.shares.lives he
  exact once.definitionOf hd

end Source.ListsOnce

namespace Build

variable {α β : Type} {Q : Raised → Prop} {b : Building}

/-- From a state, a step that fails does so in some ways only. -/
def FailsOnly (Q : Raised → Prop) (step : Build α) (b : Building) : Prop :=
  ∀ e after, (ExceptT.run step).run b = (.error e, after) → Q e

namespace FailsOnly

/-- A step that does nothing does not fail. -/
theorem of_pure {a : α} : FailsOnly Q (pure a) b := fun _ _ h => by cases h

/-- A step that raises something fails with it. -/
theorem of_throw {e : Raised} (h : Q e) : FailsOnly Q (throw e : Build α) b :=
  fun _ _ he => by cases he; exact h

/-- A known result fails with its error. -/
theorem of_mk {x : Except Raised α} (h : ∀ e, x = .error e → Q e) :
    FailsOnly Q (ExceptT.mk (pure x)) b := by
  intro e after he
  exact h e (congrArg Prod.fst he)

/-- Changing the definitions does not fail. -/
theorem of_define {f : Shared → Shared} : FailsOnly Q (define f) b := fun _ _ h => by cases h

/-- Logging does not fail. -/
theorem of_log {r : LogRecord} : FailsOnly Q (log r) b := fun _ _ h => by cases h

/-- Writing a question down does not fail. -/
theorem of_ask {q : Query} : FailsOnly Q (ask q) b := fun _ _ h => by cases h

/-- A sequence fails as its first step does, or as the second does from where the first one got. -/
theorem bind {step : Build α} {next : α → Build β} (h : FailsOnly Q step b)
    (hn : ∀ a m, (ExceptT.run step).run b = (.ok a, m) → FailsOnly Q (next a) m) :
    FailsOnly Q (step >>= next) b := by
  intro e after he
  rcases hs : (ExceptT.run step).run b with ⟨first | a, m⟩
  · rw [run_bind_of_error hs] at he
    cases he
    exact h _ _ hs
  · rw [run_bind_of_ok hs] at he
    exact hn a m hs e after he

/-- Referring to a definition does not fail. -/
theorem of_refer {name : String} : FailsOnly Q (refer name) b :=
  of_define.bind fun _ _ _ => of_pure

/-- A frame around a step fails with the errors of the step, annotated. -/
theorem within {P : Raised → Prop} {owner property : String} {step : Build α} (h : FailsOnly P step b)
    (hq : ∀ e, P e → Q (e.annotate owner property)) : FailsOnly Q (within owner property step) b := by
  intro e after he
  rcases hs : (ExceptT.run step).run b with ⟨first | a, m⟩
  · rw [run_within_of_error hs] at he
    cases he
    exact hq _ (h _ _ hs)
  · rw [run_within_of_ok hs] at he
    cases he

/-- A name that is free can be reserved. -/
theorem of_reserve {name : String} {owner : Entity} (free : b.definitions.contains name ≠ true) :
    FailsOnly Q (reserve name owner) b := by
  intro e after he
  rw [run_reserve, if_neg free] at he
  cases he

/-- Steps for the items of a list that never fail. -/
theorem forM {xs : List α} {f : α → Build Unit} (h : ∀ x b, FailsOnly Q (f x) b) :
    FailsOnly Q (xs.forM f) b := by
  induction xs generalizing b with
  | nil => exact of_pure
  | cons x rest ih => exact (h x b).bind fun _ _ _ => ih

/-- A step that goes by the definitions so far. -/
theorem of_definitions_bind {next : Shared → Build β} (h : FailsOnly Q (next b.definitions) b) :
    FailsOnly Q (definitions >>= next) b := h

end FailsOnly

/-! ## Value structs -/

/-- Defining a struct does not fail: its name is its own. -/
theorem defineStruct_failsOnly (tag : StructTag) (b : Building) : FailsOnly Q (defineStruct tag) b := by
  refine .of_definitions_bind ?_
  split
  · rename_i absent
    have free : b.definitions.contains tag.name ≠ true := by simpa using absent
    exact (FailsOnly.of_reserve free).bind fun _ _ _ => .of_define
  · exact .of_pure

/-- The node of a value struct never fails. -/
theorem structNode_failsOnly (tag : StructTag) (b : Building) : FailsOnly Q (structNode tag) b := by
  refine .of_definitions_bind ?_
  dsimp only
  split
  · refine FailsOnly.bind (.forM fun inner m => ?_) fun _ _ _ => ?_
    · exact (defineStruct_failsOnly inner m).bind fun _ _ _ => .of_define
    · exact (defineStruct_failsOnly tag _).bind fun _ _ _ => .of_refer
  · exact .of_refer

/-- The items of a packed array do not fail. -/
theorem packedItems_failsOnly (tag : PackedTag) (b : Building) :
    FailsOnly Q (packedItems tag) b := by
  cases tag with
  | vector2 | vector3 | color | vector4 => exact structNode_failsOnly _ b
  | _ => exact .of_pure

/-! ## Enumerations -/

variable {source : Source} {reach : Entity → Prop}

/-- The state of a build between two steps: the invariant holds, and nothing came in that is not
reached. -/
structure Ready (source : Source) (reach : Entity → Prop) (b : Building) : Prop where
  sound : Sound source b.definitions
  structs : StructsHeld b.definitions
  reached : ∀ {name e}, b.definitions.owner? name = some e → reach e

/-- The name chosen for an enumeration is its path, or its own name if no one else owns that. -/
theorem enumName_unowned {owner name chosen : String} {m : Building}
    (h : (ExceptT.run (enumName source owner name)).run b = (.ok chosen, m)) :
    m.definitions = b.definitions ∧ (chosen = enumPath owner name ∨ chosen = name ∧
      ∀ holder, b.definitions.owner? name = some holder → holder = .enum (enumPath owner name)) := by
  unfold enumName at h
  dsimp only at h
  rw [run_definitions_bind] at h
  split_ifs at h with taken
  · cases h
    exact ⟨rfl, .inl rfl⟩
  · cases h
    refine ⟨rfl, .inr ⟨rfl, fun holder ho => ?_⟩⟩
    rw [ho] at taken
    by_contra other
    exact taken (by simp [other])

/-- A path that is taken although the enumeration has no name yet is that of a class. -/
theorem Ready.holder_class (h : Ready source reach b) {owner name : String} {e : Entity}
    (new : b.definitions.enumName? (enumPath owner name) = none)
    (ho : b.definitions.owner? (enumPath owner name) = some e) :
    source.hasClass (enumPath owner name) = true ∧ reach (.class (enumPath owner name)) := by
  have hk := h.sound.keyed ho
  cases e with
  | struct tag =>
    have named : enumPath owner name ∈ StructTag.names :=
      Option.some.inj hk ▸ List.mem_map_of_mem (StructTag.mem_all tag)
    exact absurd named (enumPath_not_mem_names owner name)
  | enum path =>
    -- An enumeration stands under its own name, which holds no dot, or under its path.
    obtain ⟨found, hf⟩ := h.sound.listed hk
    obtain ⟨rfl, described, chosen, hc, kept, -⟩ := h.sound.enums hf
    obtain rfl := Option.some.inj (hc.symm.trans hk)
    rcases kept with plain | path
    · exact absurd (plain ▸ by simp [enumPath]) described.namePlain
    · rw [path] at new
      cases new.symm.trans hk
  | «class» className =>
    obtain rfl := Option.some.inj hk
    obtain ⟨c, hc⟩ := h.sound.described ho
    exact ⟨(describeClass_eq_ok (h.sound.classes hc).1).1, h.reached ho⟩

/-- **Defining an enumeration fails only if it has no members, or if its path is taken by a class.** -/
theorem defineEnum_failsOnly (bounds : source.Bounds reach Q) (h : Ready source reach b)
    {owner name : String} {flags : Bool}
    (hw : (Kind.enum owner name flags).WellFormed source.hasClass)
    (he : reach (.enum (enumPath owner name))) :
    FailsOnly Q (defineEnum source owner name flags) b := by
  refine .of_definitions_bind ?_
  dsimp only
  split
  · exact .of_pure
  rename_i new
  obtain ⟨chosen, records, named⟩ := run_enumName source owner name b
  refine FailsOnly.bind (fun e after hf => ?_) fun a m hm => ?_
  · rw [named] at hf
    cases hf
  obtain ⟨same, choice⟩ := enumName_unowned hm
  refine FailsOnly.bind ?reserve fun _ _ _ => FailsOnly.of_ask.bind fun _ _ _ =>
    FailsOnly.bind ?members fun members _ _ => ?store
  case reserve =>
    intro e after hr
    rw [run_reserve, same, Definitions.contains_eq_isSome, h.sound.owned] at hr
    split at hr
    · rename_i taken
      cases hr
      obtain ⟨holder, ho⟩ := Option.isSome_iff_exists.mp taken
      rcases choice with rfl | ⟨rfl, unowned⟩
      · obtain ⟨known, reached⟩ := h.holder_class new ho
        exact bounds.reserved ⟨hw.1, known, reached, he⟩
      -- Its own name cannot be taken by the enumeration, which has no name yet.
      · obtain rfl := unowned holder ho
        cases new.symm.trans (h.sound.keyed ho)
    · cases hr
  case members => exact .of_mk fun e hm => bounds.members hm
  case store =>
    split_ifs
    · refine FailsOnly.of_define.bind fun _ _ _ =>
        .bind (.of_throw (bounds.failure _)) fun _ _ hm => ?_
      cases hm
    · exact FailsOnly.of_define.bind fun _ _ _ => .of_pure

/-! ## Classes -/

/-- What is mentioned by something reached is reached. -/
def Closed (source : Source) (reach : Entity → Prop) : Prop :=
  ∀ e other, reach e → source.Mentions e other → reach other

/-- Of a kind whose mentions are reached, everything is. -/
theorem Closed.reaches (closed : Closed source reach) {kind : Kind}
    (hk : ∀ e ∈ kind.mentions, reach e) {e : Entity} (he : source.Reaches kind e) : reach e := by
  obtain ⟨first, hf, hr⟩ := he
  induction hr with
  | refl => exact hk first hf
  | tail _ hm ih => exact closed _ _ ih hm

/-- A build is ready again after the node of a kind. -/
theorem Ready.stands (h : Ready source reach b) (closed : Closed source reach) {kind : Kind}
    (hk : ∀ e ∈ kind.mentions, reach e) {node : Node} {m : Building}
    (hs : Stands source kind b.definitions node m.definitions) : Ready source reach m where
  sound := hs.advances.sound
  structs := hs.structs
  reached ho := (hs.advances.grows.added ho).elim h.reached (closed.reaches hk)

/-- A step from one state to another yields what it does to the definitions. -/
theorem yields {step : Build α} {a : α} {m : Building} (h : (ExceptT.run step).run b = (.ok a, m)) :
    Yields step b.definitions a m.definitions :=
  ⟨b, m, rfl, rfl, h⟩

/-- The node of a kind fails as the classes in it do. -/
theorem nodeOf_failsOnly (bounds : source.Bounds reach Q) {enter : String → Build Node}
    (h : Ready source reach b)
    (henter : ∀ className, reach (.class className) → FailsOnly Q (enter className) b)
    {kind : Kind} (hw : kind.WellFormed source.hasClass) (hk : ∀ e ∈ kind.mentions, reach e) :
    FailsOnly Q (nodeOf source enter kind) b := by
  induction kind with
  | struct tag => exact structNode_failsOnly tag b
  | enum owner name flags =>
    have named : reach (.enum (enumPath owner name)) := hk _ (List.mem_singleton.mpr rfl)
    exact (defineEnum_failsOnly bounds h hw named).bind fun _ _ _ =>
      FailsOnly.of_refer.bind fun _ _ _ => .of_pure
  | object className => exact henter className (hk _ (List.mem_singleton.mpr rfl))
  | array element length ih => exact (ih hw hk).bind fun _ _ _ => .of_pure
  | packed tag => exact (packedItems_failsOnly tag b).bind fun _ _ _ => .of_pure
  | _ => exact .of_pure

/-- What entering classes must do so that the properties of a class can be visited one after the other. -/
structure Walks (source : Source) (enter : String → Build Node) : Prop where
  stands : ∀ {className node d after}, Yields (enter className) d node after →
    Sound source d → StructsHeld d → Stands source (.object className) d node after
  once : ∀ className, AsksOnce (enter className)

/-- Entering classes walks as long as there are classes left. -/
theorem openClass_walks (source : Source) (left : Nat) : Walks source (openClass source left) :=
  ⟨openClass_stands, openClass_asksOnce left⟩

/-- The properties of a class fail as one of them does, from a state that is ready. -/
theorem FailsOnly.of_propertyNodes (closed : Closed source reach) {enter : String → Build Node}
    (walks : Walks source enter) {className : String} {properties : List PropertyDescriptor}
    (h : Ready source reach b)
    (hp : ∀ p ∈ properties, p.kind.WellFormed source.hasClass ∧ ∀ e ∈ p.kind.mentions, reach e)
    (hq : ∀ p ∈ properties, ∀ m, Ready source reach m → b.Onward m →
      FailsOnly Q (propertyNode source enter className p) m) :
    FailsOnly Q (properties.mapM (propertyNode source enter className)) b := by
  induction properties generalizing b with
  | nil =>
    rw [List.mapM_nil]
    exact .of_pure
  | cons p rest ih =>
    obtain ⟨⟨hw, hk⟩, hrest⟩ := List.forall_mem_cons.mp hp
    rw [List.mapM_cons]
    refine (hq p List.mem_cons_self b h (.refl b)).bind fun node m hm => ?_
    -- The rest is visited from a state that is ready again.
    obtain ⟨item, between, hitem, hpure⟩ := Yields.of_bind (yields hm)
    obtain ⟨-, same⟩ := Yields.of_pure hpure
    have stands := nodeOf_stands walks.stands hw (Yields.of_within hitem) h.sound h.structs
    have ready : Ready source reach m := h.stands closed hk (same ▸ stands)
    have onward : b.Onward m := (propertyNode_asksOnce walks.once className p).onward hm
    exact (ih ready hrest fun q hm n hn later =>
      hq q (List.mem_cons_of_mem _ hm) n hn (onward.trans later)).bind fun _ _ _ => .of_pure

/-- A build is ready again once a class that is reached stands under its free name. -/
theorem Ready.withClass (h : Ready source reach b) {c : ClassDescriptor} {entered : Building}
    (free : ¬ b.Knows (.properties c.name)) (hd : describeClass source c.name = .ok c)
    (hc : reach (.class c.name)) (he : entered.definitions = b.definitions.withClass c) :
    Ready source reach entered := by
  have vacant : ¬ (b.definitions.node? c.name).isSome := by
    rwa [← Definitions.contains_eq_isSome]
  have unowned : b.definitions.owner? c.name = none :=
    h.sound.owner?_eq_none (Option.not_isSome_iff_eq_none.mp vacant)
  have grows : Grows (· = .class c.name) b.definitions (b.definitions.withClass c) :=
    .withClass h.sound unowned rfl
  refine ⟨?_, ?_, fun ho => ?_⟩ <;> rw [he] at *
  · exact h.sound.withClass unowned hd
  · exact h.structs.advance grows (by rintro tag ⟨⟩)
  · rcases grows.added ho with ho | rfl
    · exact h.reached ho
    · exact hc

/-- A class whose name was just reserved fails because it is not described, or as one of its properties
does, from a state that is ready and knows the class. -/
theorem FailsOnly.of_classDefinition (closed : Closed source reach) {enter : String → Build Node}
    (walks : Walks source enter) {className : String} {m : Building} {u : Unit}
    (h : Ready source reach b) (hc : reach (.class className))
    (hr : (ExceptT.run (reserve className (.class className))).run b = (.ok u, m))
    (hd : ∀ e, describeClass source className = .error e → Q e)
    (hq : ∀ c, describeClass source className = .ok c → ∀ p ∈ c.properties, ∀ n,
      Ready source reach n → b.Onward n → n.Knows (.properties className) →
        FailsOnly Q (propertyNode source enter className p) n) :
    FailsOnly Q (classDefinition source enter className) m := by
  unfold classDefinition
  refine FailsOnly.of_ask.bind fun _ asked ha => ?_
  split
  · rename_i e he
    exact .of_throw (hd e he)
  rename_i c described
  refine FailsOnly.of_log.bind fun _ logged hl => FailsOnly.of_define.bind fun _ entered hd' =>
    FailsOnly.bind ?_ fun _ _ _ => .of_pure
  obtain ⟨free, known, -, -⟩ := Build.of_reserve hr
  obtain rfl : c.name = className := (describeClass_eq_ok described).2.2.1
  -- Between reserving the name and adding the descriptor, nothing else comes in.
  have onward : b.Onward entered := by
    cases ha
    cases hl
    cases hd'
    exact (onward_of_reserve hr).trans (.of_knows rfl fun q => by cases q <;> exact id)
  have same : entered.definitions = m.definitions.addClass c := by
    cases ha
    cases hl
    cases hd'
    rfl
  have definitions : entered.definitions = b.definitions.withClass c := by
    rw [same, definitions_of_reserve hr]
    rfl
  have knows : entered.Knows (.properties c.name) := by
    rw [Building.Knows, same]
    exact known
  exact .of_propertyNodes closed walks (h.withClass free described hc definitions)
    (fun p hp => ⟨wellFormed_of_describeClass described p hp,
      fun e he => closed _ _ hc (.property described hp he)⟩)
    fun p hp n ready later => hq c described p hp n ready (onward.trans later) (later.grows knows)

/-- A reference to a class fails because its name is that of something else, or as the step does that is
taken when the name is free. -/
theorem FailsOnly.of_referOr {className : String} {otherwise : Build Node}
    (clash : ∀ holder, b.definitions.owner? className = some holder → holder ≠ .class className →
      Q (.unsupported (.clash className holder)))
    (absent : ¬ b.Knows (.properties className) → FailsOnly Q otherwise b) :
    FailsOnly Q (referOr className otherwise) b := by
  refine .of_definitions_bind ?_
  have rest : FailsOnly Q (if b.definitions.contains className = true then refer className
      else otherwise) b := by
    split_ifs with present
    · exact .of_refer
    · exact absent present
  dsimp only
  split
  · rename_i holder ho
    split
    · rename_i other
      refine FailsOnly.bind (.of_throw (clash holder ho other)) fun _ _ hm => ?_
      cases hm
    · exact rest
  · exact rest

/-- A class whose name is free is entered with what its definition fails with. -/
theorem FailsOnly.of_enterClass {enter : String → Build Node} {className : String}
    (free : ¬ b.Knows (.properties className))
    (define : ∀ u m, (ExceptT.run (reserve className (.class className))).run b = (.ok u, m) →
      FailsOnly Q (classDefinition source enter className) m) :
    FailsOnly Q (enterClass source enter className) b :=
  FailsOnly.bind (.of_reserve free) fun u m hr => (define u m hr).bind fun _ _ _ =>
    FailsOnly.of_define.bind fun _ _ _ => .of_refer

/-- A class whose name was just reserved ends as a build may, if the classes inside it do. -/
theorem classDefinition_failsOnly (bounds : source.Bounds reach Q) (closed : Closed source reach)
    {left : Nat}
    (inner : ∀ {n : Building} {next}, Ready source reach n → unreserved source n < left →
      reach (.class next) → FailsOnly Q (openClass source left next) n)
    {className : String} {m : Building} {u : Unit} (h : Ready source reach b)
    (hb : unreserved source b ≤ left) (hc : reach (.class className))
    (hr : (ExceptT.run (reserve className (.class className))).run b = (.ok u, m)) :
    FailsOnly Q (classDefinition source (openClass source left) className) m := by
  refine .of_classDefinition closed (openClass_walks source left) h hc hr (fun e he => ?_)
    fun c hd p hp n ready onward known => ?_
  · rcases describeClass_eq_error he with stated | ⟨f, rfl⟩
    · exact bounds.properties hc stated
    · exact bounds.failure f
  · have fewer : unreserved source n < left :=
      (unreserved_lt onward (describeClass_eq_ok hd).1 (of_reserve hr).1 known).trans_le hb
    have node : FailsOnly Q (nodeOf source (openClass source left) p.kind) n :=
      nodeOf_failsOnly bounds ready (fun _ hn => inner ready fewer hn)
        (wellFormed_of_describeClass hd p hp) fun e he => closed _ _ hc (.property hd hp he)
    exact (node.within fun e he => bounds.annotate he _ _).bind fun _ _ _ => .of_pure

/-- Entering a class ends as a build may, while there are classes left to enter. -/
theorem openClass_failsOnly (bounds : source.Bounds reach Q) (closed : Closed source reach) {left : Nat}
    {className : String} (h : Ready source reach b) (hb : unreserved source b < left)
    (hc : reach (.class className)) : FailsOnly Q (openClass source left className) b := by
  induction left generalizing b className with
  | zero => exact absurd hb (Nat.not_lt_zero _)
  | succ left ih =>
    rw [openClass_succ]
    exact .of_referOr (fun _ _ _ => bounds.failure _) fun free => .of_enterClass free fun _ _ hr =>
      classDefinition_failsOnly bounds closed ih h (Nat.le_of_lt_succ hb) hc hr

/-! ## Builds -/

/-- The state in which a build begins is ready. -/
theorem Ready.empty : Ready source reach {} where
  sound := .empty source
  structs := .empty
  reached ho := by cases ho

/-- What a kind reaches is closed. -/
theorem closed_reaches (source : Source) (kind : Kind) : Closed source (source.Reaches kind) :=
  fun _ _ ⟨first, hf, hr⟩ hm => ⟨first, hf, hr.tail hm⟩

/-- The build of a class fails within the bounds of what the class reaches. -/
theorem buildClass_bounded (once : source.ListsOnce) {className : String}
    (bounds : source.Bounds (source.Reaches (.object className)) Q) (title : String) :
    FailsOnly Q (buildClass source className title) {} := by
  have closed := closed_reaches source (.object className)
  have root : source.Reaches (.object className) (.class className) :=
    source.reaches_self (List.mem_singleton.mpr rfl)
  have free : ¬({} : Building).definitions.contains className = true := by
    simp [Definitions.contains, Definitions.empty]
  refine FailsOnly.bind (.of_reserve free) fun u opened hr => FailsOnly.bind ?describe
    fun definition m hm => .of_definitions_bind ?finish
  case describe =>
    exact classDefinition_failsOnly bounds closed (openClass_failsOnly bounds closed) .empty
      (unreserved_lt_depth source {}).le root hr
  case finish =>
    obtain ⟨c, rfl, opens⟩ := classDefinition_opens openClass_stands (yields hr) (yields hm)
      (.empty source) .empty
    have clean := once.clean opens.settled (opens.definition ▸ once.definition opens.describes _)
    dsimp only
    split
    · rename_i referenced
      rw [Opens.finish, if_pos referenced] at clean
      refine FailsOnly.of_define.bind fun _ stored hs => .of_definitions_bind <|
        FailsOnly.of_log.bind fun _ _ _ => .of_mk fun e he => ?_
      cases hs
      rw [Schema.checked_eq_ok clean] at he
      cases he
    · rename_i unreferenced
      rw [Opens.finish, if_neg unreferenced] at clean
      refine FailsOnly.of_define.bind fun _ stored hs => .of_definitions_bind <|
        FailsOnly.of_log.bind fun _ _ _ => .of_mk fun e he => ?_
      cases hs
      rw [Schema.checked_eq_ok clean] at he
      cases he

/-- If calls raise failures only, so does the build of a class, but for the name that is reserved. -/
theorem buildClass_failsOnly (calls : source.FailsOnly) (once : source.ListsOnce)
    (className title : String) :
    FailsOnly (source.EndsIn (source.Reaches (.object className)))
      (buildClass source className title) {} :=
  buildClass_bounded once (calls.bounds _) title

/-- The build of a kind fails within the bounds of what the kind reaches. -/
theorem buildKind_bounded (once : source.ListsOnce) {kind : Kind}
    (hw : kind.WellFormed source.hasClass) (bounds : source.Bounds (source.Reaches kind) Q)
    (title : String) : FailsOnly Q (buildKind source kind title) {} := by
  have closed := closed_reaches source kind
  have node : FailsOnly Q (nodeOf source (openClass source source.depth) kind) {} :=
    nodeOf_failsOnly bounds .empty
      (fun _ hc => openClass_failsOnly bounds closed .empty (unreserved_lt_depth source {}) hc)
      hw fun e he => source.reaches_self he
  unfold buildKind
  split
  · exact buildClass_bounded once bounds _
  · refine .of_mk fun e he => ?_
    rw [Schema.checked_eq_ok (by rfl)] at he
    cases he
  · refine FailsOnly.bind (node.within fun e he => bounds.annotate he _ _) fun found m hm =>
      .of_definitions_bind <| .of_mk fun e he => ?_
    have stands := nodeOf_stands openClass_stands hw (Yields.of_within (yields hm)) (.empty source) .empty
    have clean := once.clean stands.settled
      (show (Definition.object [⟨"value", found, none⟩]).Distinct from List.nodup_singleton _)
    rw [Schema.checked_eq_ok clean] at he
    cases he

/-- If calls raise failures only, so does the build of a kind, but for the name that is reserved. -/
theorem buildKind_failsOnly (calls : source.FailsOnly) (once : source.ListsOnce) {kind : Kind}
    (hw : kind.WellFormed source.hasClass) (title : String) :
    FailsOnly (source.EndsIn (source.Reaches kind)) (buildKind source kind title) {} :=
  buildKind_bounded once hw (calls.bounds _) title

end Build

/-- A build that fails does so from the beginning. -/
theorem Build.FailsOnly.of_run {α : Type} {Q : Raised → Prop} {build : Build α}
    (h : FailsOnly Q build {}) {e : Raised} (he : build.run.1 = .error e) : Q e :=
  h e _ (Prod.ext he rfl)

/-- A source without classes that are named by the path of an enumeration never makes a build fault. -/
theorem Source.EndsIn.failure_of_uncontested {source : Source} {reach : Entity → Prop} {e : Raised}
    (h : source.EndsIn reach e)
    (plain : ∀ owner name, source.hasClass owner = true → source.hasClass (enumPath owner name) = false) :
    ∃ f, e = .failure f := by
  cases h with
  | failure f => exact ⟨f, rfl⟩
  | reserved h => cases (plain _ _ h.known).symm.trans h.holder

/-! ## Tables -/

/-- A class that is not in a table is a failure. -/
theorem Table.class?_eq_error {t : Table} {name : String} {e : Raised} (h : t.class? name = .error e) :
    ∃ f, e = .failure f := by
  unfold class? at h
  split at h
  · cases h
  · cases h
    exact ⟨_, rfl⟩

/-- A table answers, or fails. -/
theorem Table.failsOnly (t : Table) : t.source.FailsOnly where
  properties {className e} h := by
    rcases bind_eq_error.mp h with absent | ⟨c, -, h⟩
    · exact class?_eq_error absent
    · cases h
  members {owner name e} h := by
    rcases bind_eq_error.mp h with absent | ⟨c, -, h⟩
    · exact class?_eq_error absent
    · split at h
      · cases h
      · cases h
        exact ⟨_, rfl⟩

/-- A table whose classes list no property twice. -/
theorem Table.listsOnce {t : Table} (h : ∀ c ∈ t.classes, (c.2.properties.map (·.name)).Nodup) :
    t.source.ListsOnce := by
  intro className infos hp
  obtain ⟨c, hc, hinfos⟩ := bind_eq_ok.mp hp
  cases hinfos
  exact h _ (mem_of_class? hc)

/-- Pets have a kind, and there is a class by the path of that enumeration, and one by its name. -/
def kennel : Table where
  classes := [
    ("Pet",
      { properties := [
          { name := "breed", type := .object, className := "Pet.Kind" },
          { name := "kind", type := .int, className := "Pet.Kind", usage := .classIsEnum }]
        enums := [("Kind", [("Cat", 0)])] }),
    ("Pet.Kind", {}),
    ("Kind", {})]

/-! ## Every build -/

/-- **Builds fail with failures of the library only**, if the source does and lists no property twice,
but for one case: the build leads to an enumeration and to a class that has the very path of the
enumeration for a name.  Then the path may be reserved already when the enumeration falls back on it.  The
same goes for generating a class, which then leaves the library as it was. -/
theorem builds_fail_with_failures {source : Source} (calls : source.FailsOnly) (once : source.ListsOnce) :
    (∀ className title e, (buildClass source className title).run.1 = .error e →
      source.EndsIn (source.Reaches (.object className)) e) ∧
    (∀ info e, (buildType source info).run.1 = .error e →
      (∃ f, e = .failure f) ∨ ∃ kind, resolve source.hasClass info = .ok kind ∧
        source.EndsIn (source.Reaches kind) e) ∧
    ∀ (library : Library) className e, (library.generate source className).1.result = .error e →
      source.EndsIn (source.Reaches (.object className)) e ∧
        (library.generate source className).2 = library := by
  refine ⟨fun className title e he => ?_, fun info e he => ?_, fun library className e he => ⟨?_, ?_⟩⟩
  · exact (buildClass_failsOnly calls once className title).of_run he
  · unfold buildType at he
    split at he
    · cases he
      exact .inl ⟨_, rfl⟩
    · rename_i kind hk
      have wellFormed := resolve_wellFormed hk
      exact .inr ⟨kind, hk, (buildKind_failsOnly calls once wellFormed _).of_run he⟩
  · rw [Library.generate_result] at he
    exact (buildClass_failsOnly calls once className className).of_run he
  · exact Library.generate_of_error he

/-- The build of pets fails, as it does because of the path of the kind of pets. -/
theorem builds_fail_with_failures_pet :
    kennel.source.EndsIn (kennel.source.Reaches (.object "Pet"))
      (.fault (.reservedDefinition "Pet.Kind")) :=
  (builds_fail_with_failures kennel.failsOnly (Table.listsOnce (by decide))).1 "Pet" "" _ (by cbv)

/-- **A build can end in a fault.**  The enumeration `Pet.Kind` gives way to the class `Kind` and takes its
path for a name, which belongs to the class `Pet.Kind`. -/
theorem kennel_faults : (buildClass kennel.source "Pet" "").run.1 =
    .error (.fault (.reservedDefinition "Pet.Kind")) := by
  cbv

end ReflectedSchema
