import ReflectedSchema.Proofs.Building.Traversal

/-!
# A build ends and asks once

A step of a build asks the source only about what is not there yet, and what it asked about is there
afterwards if it succeeds.  So a sequence of steps never asks anything twice, also if one of them fails.

The recursion into classes is bounded by the classes that are not reserved yet: a name is reserved
before its class is described, and only a class of the source is described with success.
-/

namespace ReflectedSchema

/-! ## Questions of a step -/

namespace Building

/-- What a question is about is there: the name of the class is reserved, the enumeration has a
definition name. -/
def Knows (b : Building) : Query → Prop
  | .properties className => b.definitions.contains className = true
  | .members path => (b.definitions.enumName? path).isSome = true

/-- From one state to another the questions were asked in turn, each once and about something that was
not there. -/
structure Asks (b after : Building) (asked : List Query) : Prop where
  queries : after.queries = b.queries ++ asked
  once : asked.Nodup
  fresh : ∀ q ∈ asked, ¬ b.Knows q

/-- Only what was not there was asked about, each thing once. -/
def Asked (b after : Building) : Prop :=
  ∃ asked, b.Asks after asked

/-- What was asked about is there, and so is what was there before. -/
def Onward (b after : Building) : Prop :=
  ∃ asked, b.Asks after asked ∧ (∀ q ∈ asked, after.Knows q) ∧ ∀ q, b.Knows q → after.Knows q

variable {b between after : Building}

/-- Where nothing was asked, the questions were asked in turn. -/
theorem Asks.none (h : after.queries = b.queries) : b.Asks after [] :=
  ⟨by rw [h, List.append_nil], .nil, nofun⟩

/-- Questions asked one after the other, if the first ones are answered and what was there stays. -/
theorem Asks.trans {asked more : List Query} (h : b.Asks between asked)
    (g : between.Asks after more) (answered : ∀ q ∈ asked, between.Knows q)
    (grows : ∀ q, b.Knows q → between.Knows q) : b.Asks after (asked ++ more) where
  queries := by rw [g.queries, h.queries, List.append_assoc]
  once := List.nodup_append'.mpr ⟨h.once, g.once, fun q hq hm => g.fresh q hm (answered q hq)⟩
  fresh q hq := by
    rcases List.mem_append.mp hq with hq | hq
    · exact h.fresh q hq
    · exact fun known => g.fresh q hq (grows q known)

namespace Onward

/-- Nothing was asked. -/
theorem of_knows (queries : after.queries = b.queries) (grows : ∀ q, b.Knows q → after.Knows q) :
    b.Onward after :=
  ⟨[], .none queries, nofun, grows⟩

/-- A state that does not change goes on. -/
theorem refl (b : Building) : b.Onward b := .of_knows rfl fun _ => id

/-- Whatever goes on has asked about what was not there. -/
theorem asked (h : b.Onward after) : b.Asked after := h.imp fun _ h => h.1

/-- What was there before is there afterwards. -/
theorem grows (h : b.Onward after) {q : Query} (hq : b.Knows q) : after.Knows q := by
  obtain ⟨-, -, -, grows⟩ := h
  exact grows q hq

/-- First something goes on, then something ends as it may. -/
theorem asked_trans (h : b.Onward between) (g : between.Asked after) : b.Asked after := by
  obtain ⟨asked, asks, answered, grows⟩ := h
  obtain ⟨more, g⟩ := g
  exact ⟨_, asks.trans g answered grows⟩

/-- What goes on twice goes on. -/
theorem trans (h : b.Onward between) (g : between.Onward after) : b.Onward after := by
  obtain ⟨asked, asks, answered, grows⟩ := h
  obtain ⟨more, later, known, keeps⟩ := g
  refine ⟨_, asks.trans later answered grows, fun q hq => ?_, fun q hq => keeps q (grows q hq)⟩
  exact (List.mem_append.mp hq).elim (fun hq => keeps q (answered q hq)) (known q)

end Onward

/-- How a step ends, seen from a state before it. -/
def Ends {α : Type} (b : Building) (ending : Except Raised α × Building) : Prop :=
  match ending with
  | (.ok _, after) => b.Onward after
  | (.error _, after) => b.Asked after

/-- However a step ends, it asked only about what was not there. -/
theorem Ends.asked {α : Type} {ending : Except Raised α × Building} (h : b.Ends ending) :
    b.Asked ending.2 := by
  obtain ⟨_ | _, _⟩ := ending
  · exact h
  · exact Onward.asked h

/-- An ending seen from an earlier state. -/
theorem Onward.ends {α : Type} {ending : Except Raised α × Building} (h : b.Onward between)
    (g : between.Ends ending) : b.Ends ending := by
  obtain ⟨_ | _, _⟩ := ending
  · exact h.asked_trans g
  · exact h.trans g

/-- A sequence ends as its second step does, or already with the first. -/
theorem Ends.bind {α β : Type} {step : Build α} {next : α → Build β}
    (h : b.Ends ((ExceptT.run step).run between))
    (hn : ∀ a m, (ExceptT.run step).run between = (.ok a, m) → b.Onward m →
      b.Ends ((ExceptT.run (next a)).run m)) :
    b.Ends ((ExceptT.run (step >>= next)).run between) := by
  rcases hs : (ExceptT.run step).run between with ⟨e | a, m⟩
  · rw [hs] at h
    rw [Build.run_bind_of_error hs]
    exact h
  · rw [hs] at h
    rw [Build.run_bind_of_ok hs]
    exact hn a m hs h

/-- Of a sequence that ends anyhow, the first step may not have dropped anything. -/
theorem Ends.bind_asked {α β : Type} {step : Build α} {next : α → Build β}
    (h : b.Ends ((ExceptT.run step).run between))
    (hn : ∀ a m, (ExceptT.run step).run between = (.ok a, m) → b.Onward m →
      b.Asked ((ExceptT.run (next a)).run m).2) :
    b.Asked ((ExceptT.run (step >>= next)).run between).2 := by
  rcases hs : (ExceptT.run step).run between with ⟨e | a, m⟩
  · rw [hs] at h
    rw [Build.run_bind_of_error hs]
    exact h
  · rw [hs] at h
    rw [Build.run_bind_of_ok hs]
    exact hn a m hs h

/-- What was asked does not depend on anything but the questions. -/
theorem Asked.congr {other : Building} (h : b.Asked after) (same : other.queries = after.queries) :
    b.Asked other := by
  obtain ⟨asked, asks⟩ := h
  exact ⟨asked, same.trans asks.queries, asks.once, asks.fresh⟩

end Building

namespace Build

variable {α β : Type} {source : Source}

/-- From every state, a step asks only about what is not there, each thing once. -/
def AsksOnce (step : Build α) : Prop :=
  ∀ b : Building, b.Ends ((ExceptT.run step).run b)

namespace AsksOnce

/-- A step that succeeds goes on. -/
theorem onward {step : Build α} (h : AsksOnce step) {a : α} {b m : Building}
    (hs : (ExceptT.run step).run b = (.ok a, m)) : b.Onward m := by
  have ends := h b
  rw [hs] at ends
  exact ends

/-- A step that does nothing asks nothing. -/
theorem of_pure {a : α} : AsksOnce (pure a) := Building.Onward.refl

/-- A step that raises something asks nothing. -/
theorem of_throw {e : Raised} : AsksOnce (throw e : Build α) := fun b => (Building.Onward.refl b).asked

/-- A result that is known asks nothing. -/
theorem of_mk {e : Except Raised α} : AsksOnce (ExceptT.mk (pure e)) := by
  intro b
  cases e with
  | ok a => exact Building.Onward.refl b
  | error e => exact (Building.Onward.refl b).asked

/-- A sequence asks once if its first step and all that may follow do. -/
theorem bind {step : Build α} {next : α → Build β} (h : AsksOnce step)
    (hn : ∀ a, AsksOnce (next a)) : AsksOnce (step >>= next) :=
  fun b => (h b).bind fun a m _ onward => onward.ends (hn a m)

/-- A frame that is put around an error asks nothing more. -/
theorem within {owner property : String} {step : Build α} (h : AsksOnce step) :
    AsksOnce (within owner property step) := by
  intro b
  have hb := h b
  rw [run_within]
  rcases hs : (ExceptT.run step).run b with ⟨e | a, after⟩
  · rw [hs] at hb
    exact hb
  · rw [hs] at hb
    exact hb

/-- Logging asks nothing. -/
theorem of_log {r : LogRecord} : AsksOnce (log r) :=
  fun _ => Building.Onward.of_knows rfl fun q => by cases q <;> exact id

/-- Looking at the definitions asks nothing. -/
theorem of_definitions : AsksOnce definitions := Building.Onward.refl

/-- A change that drops nothing asks nothing. -/
theorem of_define {f : Shared → Shared} (names : ∀ d name, d.contains name → (f d).contains name)
    (paths : ∀ d path, (d.enumName? path).isSome → ((f d).enumName? path).isSome) :
    AsksOnce (define f) :=
  fun b => Building.Onward.of_knows rfl fun q => match q with
    | .properties name => names b.definitions name
    | .members path => paths b.definitions path

/-- Storing a definition asks nothing, and every name stays reserved. -/
theorem of_store {name : String} {node : Option Definition} : AsksOnce (define (·.store name node)) :=
  .of_define (fun d other h => (d.contains_store name other node).mpr (.inr h)) fun _ _ => id

/-- Referring to a definition asks nothing. -/
theorem of_reference {name : String} : AsksOnce (define (·.refer name)) := by
  refine .of_define (fun d other h => ?_) fun d path h => ?_
  · rwa [Definitions.contains_eq_isSome, Definitions.node?_refer, ← Definitions.contains_eq_isSome]
  · rwa [Definitions.enumName?_refer]

/-- A reference to a name asks nothing. -/
theorem of_refer {name : String} : AsksOnce (refer name) := of_reference.bind fun _ => .of_pure

/-- Steps for the items of a list, one after the other. -/
theorem mapM {xs : List α} {f : α → Build β} (h : ∀ x, AsksOnce (f x)) : AsksOnce (xs.mapM f) := by
  induction xs with
  | nil =>
    rw [List.mapM_nil]
    exact .of_pure
  | cons x rest ih =>
    rw [List.mapM_cons]
    exact (h x).bind fun _ => ih.bind fun _ => .of_pure

/-- A loop asks once if each of its rounds does: what a round asked about is there for the next ones. -/
theorem forM {xs : List α} {f : α → Build Unit} (h : ∀ x, AsksOnce (f x)) : AsksOnce (xs.forM f) := by
  induction xs with
  | nil => exact .of_pure
  | cons x rest ih => exact (h x).bind fun _ => ih

end AsksOnce

/-! ## Steps that reserve a name -/

/-- A step that looks at the definitions is handed those of the state. -/
theorem run_definitions_bind (next : Shared → Build α) (b : Building) :
    (ExceptT.run (definitions >>= next)).run b = (ExceptT.run (next b.definitions)).run b := rfl

/-- A question is written down, and the rest runs with it. -/
theorem run_ask_bind (q : Query) (next : Unit → Build α) (b : Building) :
    (ExceptT.run (ask q >>= next)).run b =
      (ExceptT.run (next ())).run { b with queries := b.queries ++ [q] } := rfl

/-- A free name is reserved and a name that is taken is a fault; nothing is asked. -/
theorem run_reserve (name : String) (owner : Entity) (b : Building) :
    (ExceptT.run (reserve name owner)).run b =
      if b.definitions.contains name then (.error (.fault (.reservedDefinition name)), b)
      else (.ok (), { b with definitions := b.definitions.opened name owner }) := by
  rw [reserve, run_definitions_bind, Definitions.reserve?]
  cases b.definitions.contains name <;> rfl

/-- A reserved name is present, like every name before. -/
theorem contains_opened (d : Shared) (name other : String) (owner : Entity) :
    (d.opened name owner).contains other = true ↔ other = name ∨ d.contains other = true :=
  d.contains_store name other none

/-- Reserving a name asks nothing. -/
theorem reserve_asksOnce (name : String) (owner : Entity) : AsksOnce (reserve name owner) := by
  intro b
  rw [run_reserve]
  split
  · exact (Building.Onward.refl b).asked
  · refine Building.Onward.of_knows rfl fun q hq => ?_
    cases q with
    | properties other => exact (contains_opened _ _ _ _).mpr (.inr hq)
    | members path => exact hq

/-- A name that was reserved was not there before and is now, and nothing was asked. -/
theorem of_reserve {name : String} {owner : Entity} {u : Unit} {b m : Building}
    (h : (ExceptT.run (reserve name owner)).run b = (.ok u, m)) :
    ¬ b.Knows (.properties name) ∧ m.Knows (.properties name) ∧ m.queries = b.queries ∧ b.Onward m := by
  have onward := (reserve_asksOnce name owner).onward h
  rw [run_reserve] at h
  split at h
  · cases h
  · rename_i free
    cases h
    exact ⟨free, (contains_opened _ _ _ _).mpr (.inl rfl), rfl, onward⟩

/-- Reserving a name adds it, and nothing else. -/
theorem definitions_of_reserve {name : String} {owner : Entity} {u : Unit} {b m : Building}
    (h : (ExceptT.run (reserve name owner)).run b = (.ok u, m)) :
    m.definitions = b.definitions.opened name owner := by
  rw [run_reserve] at h
  split at h
  · cases h
  · cases h
    rfl

/-- Defining a struct and those inside it asks nothing. -/
theorem defineStruct_asksOnce (tag : StructTag) : AsksOnce (defineStruct tag) := by
  refine .bind .of_definitions fun d => ?_
  split
  · exact .bind (reserve_asksOnce _ _) fun _ => .of_store
  · exact .of_pure

/-- The node of a struct asks nothing. -/
theorem structNode_asksOnce (tag : StructTag) : AsksOnce (structNode tag) := by
  have inner : ∀ t : StructTag, AsksOnce (do
      defineStruct t
      define (·.refer t.name)) := fun t => (defineStruct_asksOnce t).bind fun _ => .of_reference
  refine .bind .of_definitions fun d => ?_
  dsimp only
  split
  · exact .bind (.forM inner) fun _ => .bind (defineStruct_asksOnce tag) fun _ => .of_refer
  · exact .of_refer

/-- The items of a packed array ask nothing but what its struct does. -/
theorem packedItems_asksOnce (tag : PackedTag) : AsksOnce (packedItems tag) := by
  cases tag with
  | vector2 | vector3 | color | vector4 => exact structNode_asksOnce _
  | _ => exact .of_pure

/-- Choosing the name of an enumeration changes the records only. -/
theorem run_enumName (source : Source) (owner name : String) (b : Building) :
    ∃ definitionName records, (ExceptT.run (enumName source owner name)).run b =
      (.ok definitionName, { b with records }) := by
  unfold enumName
  dsimp only
  rw [run_definitions_bind]
  split <;> split <;> exact ⟨_, _, rfl⟩

/-- An enumeration without a definition name is asked for its members, and with them it has one. -/
theorem defineEnum_asksOnce (source : Source) (owner name : String) (flags : Bool) :
    AsksOnce (defineEnum source owner name flags) := by
  intro b
  unfold defineEnum
  dsimp only
  rw [run_definitions_bind]
  split
  · exact Building.Onward.refl b
  rename_i unknown
  obtain ⟨chosen, records, named⟩ := run_enumName source owner name b
  have logged : b.Onward { b with records } := .of_knows rfl fun q => by cases q <;> exact id
  refine Building.Ends.bind (by rw [named]; exact logged) fun a m hm _ => ?_
  obtain ⟨rfl, rfl⟩ : chosen = a ∧ { b with records } = m := by
    rw [named] at hm
    exact ⟨Except.ok.inj (congrArg Prod.fst hm), congrArg Prod.snd hm⟩
  refine Building.Ends.bind (logged.ends (reserve_asksOnce _ _ _)) fun _ m hm onward => ?_
  have queries : m.queries = b.queries := (of_reserve hm).2.2.1
  rw [run_ask_bind]
  have asks {after : Building} (h : after.queries = m.queries ++ [.members (enumPath owner name)]) :
      b.Asks after [.members (enumPath owner name)] := by
    refine ⟨queries ▸ h, List.nodup_singleton _, fun q hq => ?_⟩
    obtain rfl := List.mem_singleton.mp hq
    exact fun known => by simp [Building.Knows, unknown] at known
  cases source.members owner name with
  | error e => exact ⟨_, asks rfl⟩
  | ok members =>
    show b.Ends ((ExceptT.run (if members.isEmpty = true then (_ : Build String) else _)).run _)
    split
    · exact ⟨_, asks rfl⟩
    have known (path : String) : path = enumPath owner name ∨ (m.definitions.enumName? path).isSome →
        ((m.definitions.addEnum ⟨owner, name, members, flags⟩ chosen).enumName? path).isSome := by
      rw [Definitions.enumName?_addEnum]
      intro h
      split
      · rfl
      · exact h.resolve_left ‹_›
    refine ⟨_, asks rfl, fun q hq => ?_, fun q hq => ?_⟩
    · obtain rfl := List.mem_singleton.mp hq
      exact known _ (.inl rfl)
    · cases q with
      | properties other => exact (Definitions.contains_store _ _ _ _).mpr (.inr (onward.grows hq))
      | members path => exact known _ (.inr (onward.grows hq))

/-- The node of a kind asks once if entering classes does. -/
theorem nodeOf_asksOnce {enter : String → Build Node} (h : ∀ className, AsksOnce (enter className))
    (kind : Kind) : AsksOnce (nodeOf source enter kind) := by
  induction kind with
  | struct tag => exact structNode_asksOnce tag
  | enum owner name flags =>
    exact (defineEnum_asksOnce source owner name flags).bind fun _ => .bind .of_refer fun _ => .of_pure
  | object className => exact h className
  | array element length ih => exact ih.bind fun _ => .of_pure
  | packed tag => exact (packedItems_asksOnce tag).bind fun _ => .of_pure
  | _ => exact .of_pure

/-- The node of a property asks as the node of its kind does. -/
theorem propertyNode_asksOnce {enter : String → Build Node}
    (h : ∀ className, AsksOnce (enter className)) (className : String) (p : PropertyDescriptor) :
    AsksOnce (propertyNode source enter className p) :=
  (nodeOf_asksOnce h p.kind).within.bind fun _ => .of_pure

/-- A class whose name was just reserved is asked for its properties. -/
theorem onward_of_reserve {className : String} {b m : Building} {u : Unit}
    (hr : (ExceptT.run (reserve className (.class className))).run b = (.ok u, m)) :
    b.Onward { m with queries := m.queries ++ [.properties className] } := by
  obtain ⟨free, known, queries, onward⟩ := of_reserve hr
  have same : ∀ q, m.Knows q →
      { m with queries := m.queries ++ [.properties className] : Building }.Knows q :=
    fun q => by cases q <;> exact id
  refine ⟨[.properties className], ⟨congrArg (· ++ _) queries, List.nodup_singleton _, fun q hq => ?_⟩,
    List.forall_mem_singleton.mpr (same _ known), fun q hq => same q (onward.grows hq)⟩
  rwa [List.mem_singleton.mp hq]

/-- Then its properties are visited. -/
theorem classDefinition_ends {enter : String → Build Node}
    (h : ∀ className, AsksOnce (enter className)) {className : String} {b m : Building} {u : Unit}
    (hr : (ExceptT.run (reserve className (.class className))).run b = (.ok u, m)) :
    b.Ends ((ExceptT.run (classDefinition source enter className)).run m) := by
  unfold classDefinition
  rw [run_ask_bind]
  refine (onward_of_reserve hr).ends ?_
  split
  · exact AsksOnce.of_throw _
  · refine AsksOnce.bind .of_log (fun _ => .bind (.of_define ?_ ?_) fun _ => ?_) _
    · exact fun _ _ => id
    · exact fun _ _ => id
    · exact .bind (.mapM fun p => propertyNode_asksOnce h className p) fun _ => .of_pure

/-- Refer to a class if it is present. -/
def referOr (className : String) (otherwise : Build Node) : Build Node := do
  let d ← definitions
  match d.owner? className with
  | some holder =>
    if holder ≠ .class className then throw (.unsupported (.clash className holder))
  | none => pure ()
  if d.contains className then refer className else otherwise

/-- Reserve a class, visit its properties and refer to it. -/
def enterClass (source : Source) (enter : String → Build Node) (className : String) : Build Node := do
  reserve className (.class className)
  let definition ← classDefinition source enter className
  define (·.store className (some definition))
  refer className

/-- Without a class left, only those classes are found that are reserved already. -/
theorem openClass_zero (source : Source) (className : String) :
    openClass source 0 className = referOr className (throw (.fault .endlessReference)) := rfl

/-- With one more class left, a class is entered with the way into classes that has one less. -/
theorem openClass_succ (source : Source) (left : Nat) (className : String) :
    openClass source (left + 1) className =
      referOr className (enterClass source (openClass source left) className) := rfl

/-- A class that is reserved is referred to, and this asks nothing. -/
theorem referOr_asksOnce {className : String} {otherwise : Build Node} (h : AsksOnce otherwise) :
    AsksOnce (referOr className otherwise) := by
  refine .bind .of_definitions fun d => ?_
  have rest : AsksOnce (if d.contains className = true then refer className else otherwise) := by
    split
    · exact .of_refer
    · exact h
  dsimp only
  split
  · split
    · exact .bind .of_throw fun _ => rest
    · exact rest
  · exact rest

/-- Entering a class asks for its properties and then what its properties ask. -/
theorem enterClass_asksOnce {enter : String → Build Node}
    (h : ∀ className, AsksOnce (enter className)) (className : String) :
    AsksOnce (enterClass source enter className) := by
  intro b
  refine (reserve_asksOnce className _ b).bind fun u m hr _ => ?_
  refine (classDefinition_ends h hr).bind fun definition m _ onward => onward.ends ?_
  exact AsksOnce.bind .of_store (fun _ => .of_refer) m

/-- **Entering a class asks only about what is not there**, however many classes are left to enter. -/
theorem openClass_asksOnce (left : Nat) (className : String) :
    AsksOnce (openClass source left className) := by
  induction left generalizing className with
  | zero => exact openClass_zero source className ▸ referOr_asksOnce .of_throw
  | succ left ih =>
    exact openClass_succ source left className ▸ referOr_asksOnce (enterClass_asksOnce ih className)

/-! ## Builds -/

/-- The questions of a build from the beginning, in order. -/
def questions (build : Build α) : List Query :=
  ((ExceptT.run build).run {}).2.queries

/-- No question is repeated if all were about what was not there. -/
theorem nodup_questions {build : Build α}
    (h : ({} : Building).Asked ((ExceptT.run build).run {}).2) : (questions build).Nodup := by
  obtain ⟨asked, asks⟩ := h
  rw [questions, asks.queries]
  exact asks.once

/-- The build of a class asks only about what is not there, from the empty state on. -/
theorem buildClass_asked (className title : String) :
    ({} : Building).Asked ((ExceptT.run (buildClass source className title)).run {}).2 := by
  refine (reserve_asksOnce className _ {}).bind_asked fun u m hr _ => ?_
  refine (classDefinition_ends (openClass_asksOnce _) hr).bind_asked fun root m _ onward => ?_
  -- The definition of the root is stored or dropped, and then nothing is asked any more.
  refine onward.asked.congr ?_
  rw [run_definitions_bind]
  cases m.definitions.isReferenced className <;> rfl

/-- So does the build of a kind. -/
theorem buildKind_asked (kind : Kind) (title : String) :
    ({} : Building).Asked ((ExceptT.run (buildKind source kind title)).run {}).2 := by
  unfold buildKind
  split
  · exact buildClass_asked _ _
  · exact (AsksOnce.of_mk {}).asked
  · have node : AsksOnce (nodeOf source (openClass source source.depth) kind) :=
      nodeOf_asksOnce (openClass_asksOnce source.depth) kind
    refine (node.within {}).bind_asked fun _ m _ onward => ?_
    exact onward.asked.congr rfl

/-- So does the build of a bare type. -/
theorem buildType_asked (info : PropertyInfo) :
    ({} : Building).Asked ((ExceptT.run (buildType source info)).run {}).2 := by
  unfold buildType
  split
  · exact (AsksOnce.of_throw {}).asked
  · exact buildKind_asked _ _

/-! ## The count of classes never runs out -/

/-- The number of classes that are not reserved. -/
def unreserved (source : Source) (b : Building) : Nat :=
  source.classNames.countP fun name => !b.definitions.contains name

/-- Going on reserves no fewer names. -/
theorem countP_unreserved_le {b after : Building} (h : b.Onward after) (names : List String) :
    (names.countP fun name => !after.definitions.contains name) ≤
      names.countP fun name => !b.definitions.contains name := by
  refine List.countP_mono_left fun name _ hn => ?_
  rw [Bool.not_eq_true', ← Bool.not_eq_true] at hn ⊢
  exact fun known => hn (h.grows (q := .properties name) known)

/-- Reserving a class of the source leaves fewer of them. -/
theorem unreserved_lt {b after : Building} (h : b.Onward after) {className : String}
    (known : source.hasClass className = true) (free : ¬ b.Knows (.properties className))
    (reserved : after.Knows (.properties className)) :
    unreserved source after < unreserved source b := by
  obtain ⟨front, back, split⟩ := List.append_of_mem (List.contains_iff_mem.mp known)
  have before := countP_unreserved_le h front
  have behind := countP_unreserved_le h back
  have gone : (!b.definitions.contains className) = true := Bool.not_eq_true' _ ▸ Bool.not_eq_true _ ▸ free
  have kept : ¬ (!after.definitions.contains className) = true := by
    rw [show after.definitions.contains className = true from reserved]
    decide
  rw [unreserved, unreserved, split, List.countP_append, List.countP_append, List.countP_cons,
    List.countP_cons, if_pos gone, if_neg kept]
  omega

/-- There is always a class more to go down than there are classes to reserve. -/
theorem unreserved_lt_depth (source : Source) (b : Building) :
    unreserved source b < source.depth :=
  Nat.lt_succ_of_le List.countP_le_length

/-- Sequences end alike if their first steps do and what follows on a success. -/
theorem run_bind_congr {step other : Build α} {next following : α → Build β} {b : Building}
    (h : (ExceptT.run step).run b = (ExceptT.run other).run b)
    (hn : ∀ a m, (ExceptT.run step).run b = (.ok a, m) →
      (ExceptT.run (next a)).run m = (ExceptT.run (following a)).run m) :
    (ExceptT.run (step >>= next)).run b = (ExceptT.run (other >>= following)).run b := by
  rcases hs : (ExceptT.run step).run b with ⟨e | a, m⟩
  · rw [run_bind_of_error hs, run_bind_of_error (h ▸ hs)]
  · rw [run_bind_of_ok hs, run_bind_of_ok (h ▸ hs)]
    exact hn a m hs

/-- Steps that end alike from every state with at most so many classes to reserve. -/
def Agree (source : Source) (n : Nat) (step other : Build α) : Prop :=
  ∀ b, unreserved source b ≤ n → (ExceptT.run step).run b = (ExceptT.run other).run b

namespace Agree

variable {n : Nat}

/-- A step ends as it ends itself. -/
theorem refl (step : Build α) : Agree source n step step := fun _ _ => rfl

/-- Sequences agree if their parts do, since a step that asks once reserves names but gives none up. -/
theorem bind {step other : Build α} {next following : α → Build β} (h : Agree source n step other)
    (once : AsksOnce step) (hn : ∀ a, Agree source n (next a) (following a)) :
    Agree source n (step >>= next) (other >>= following) := by
  intro b hb
  exact run_bind_congr (h b hb) fun a m hs =>
    hn a m ((countP_unreserved_le (once.onward hs) _).trans hb)

/-- A frame around errors does not part steps that agree. -/
theorem within {owner property : String} {step other : Build α} (h : Agree source n step other) :
    Agree source n (Build.within owner property step) (Build.within owner property other) := by
  intro b hb
  rw [run_within, run_within, h b hb]

/-- Loops agree if their rounds do. -/
theorem mapM {xs : List α} {f g : α → Build β} (h : ∀ x, Agree source n (f x) (g x))
    (once : ∀ x, AsksOnce (f x)) : Agree source n (xs.mapM f) (xs.mapM g) := by
  induction xs with
  | nil => exact .refl _
  | cons x rest ih =>
    rw [List.mapM_cons, List.mapM_cons]
    exact (h x).bind (once x) fun y => ih.bind (.mapM once) fun _ => .refl _

end Agree

/-- The nodes of a kind agree if the ways into classes do. -/
theorem nodeOf_agree {n : Nat} {enter other : String → Build Node}
    (h : ∀ className, Agree source n (enter className) (other className))
    (once : ∀ className, AsksOnce (enter className)) (kind : Kind) :
    Agree source n (nodeOf source enter kind) (nodeOf source other kind) := by
  induction kind with
  | object className => exact h className
  | array element length ih => exact ih.bind (nodeOf_asksOnce once element) fun _ => .refl _
  | _ => exact .refl _

/-- The nodes of a property agree if the ways into classes do. -/
theorem propertyNode_agree {n : Nat} {enter other : String → Build Node}
    (h : ∀ className, Agree source n (enter className) (other className))
    (once : ∀ className, AsksOnce (enter className)) (className : String) (p : PropertyDescriptor) :
    Agree source n (propertyNode source enter className p) (propertyNode source other className p) :=
  (nodeOf_agree h once p.kind).within.bind (nodeOf_asksOnce once p.kind).within fun _ => .refl _

/-- Classes are entered alike if those inside them are, of which there is one fewer to reserve. -/
theorem enterClass_agree {n : Nat} {enter other : String → Build Node}
    (h : ∀ fewer < n, ∀ className, Agree source fewer (enter className) (other className))
    (once : ∀ className, AsksOnce (enter className)) (className : String) :
    Agree source n (enterClass source enter className) (enterClass source other className) := by
  intro b hb
  refine run_bind_congr rfl fun u m hr => run_bind_congr ?_ fun _ _ _ => rfl
  obtain ⟨free, reserved, -, onward⟩ := of_reserve hr
  unfold classDefinition
  rw [run_ask_bind, run_ask_bind]
  cases hd : describeClass source className with
  | error e => rfl
  | ok c =>
    -- Only a class of the source is described, so there is one fewer to reserve now.
    have fewer : unreserved source m < n :=
      (unreserved_lt onward (describeClass_eq_ok hd).1 free reserved).trans_le hb
    have nodes : Agree source (unreserved source m)
        (c.properties.mapM (propertyNode source enter className))
        (c.properties.mapM (propertyNode source other className)) :=
      .mapM (fun p => propertyNode_agree (h _ fewer) once className p)
        fun p => propertyNode_asksOnce once className p
    exact run_bind_congr rfl fun _ m hm => run_bind_congr rfl fun _ m hm' =>
      run_bind_congr (nodes m (by cases hm; cases hm'; exact le_rfl)) fun _ _ _ => rfl

/-- A class that is reserved is referred to on both sides. -/
theorem referOr_agree {n : Nat} {className : String} {step other : Build Node}
    (h : Agree source n step other) :
    Agree source n (referOr className step) (referOr className other) := by
  refine .bind (.refl _) .of_definitions fun d => ?_
  have rest : Agree source n (if d.contains className = true then refer className else step)
      (if d.contains className = true then refer className else other) := by
    split
    · exact .refl _
    · exact h
  dsimp only
  split
  · split
    · exact .bind (.refl _) .of_throw fun _ => rest
    · exact rest
  · exact rest

/-- Entering a class does not depend on the count, as long as there are no more classes to reserve: it
is as entering it by any family that enters the classes inside a class by its next member. -/
theorem openClass_agree {family : Nat → String → Build Node}
    (next : ∀ left className, family (left + 1) className =
      referOr className (enterClass source (family left) className))
    {n left right : Nat} (hl : n < left) (hr : n < right) (className : String) :
    Agree source n (openClass source left className) (family right className) := by
  induction n using Nat.strongRecOn generalizing left right className with
  | ind n ih =>
    obtain ⟨fewer, rfl⟩ := Nat.exists_eq_succ_of_ne_zero (Nat.ne_zero_of_lt hl)
    obtain ⟨others, rfl⟩ := Nat.exists_eq_succ_of_ne_zero (Nat.ne_zero_of_lt hr)
    rw [Nat.succ_eq_add_one, openClass_succ, next]
    refine referOr_agree (enterClass_agree (fun m hm name => ?_) (openClass_asksOnce fewer) className)
    exact ih m hm (by omega) (by omega) name

/-- A count of at least the depth of the source never runs out. -/
theorem openClass_eq_of_le {left : Nat} (h : source.depth ≤ left) :
    openClass source left = openClass source source.depth := by
  funext className
  refine funext fun b => ?_
  have enough := unreserved_lt_depth source b
  exact openClass_agree (openClass_succ source) (enough.trans_le h) enough className b le_rfl

/-- The recursion equation without a count has one solution. -/
theorem eq_openClass_iff {enter : String → Build Node} :
    (∀ className, enter className = referOr className (enterClass source enter className)) ↔
      enter = openClass source source.depth := by
  constructor
  · intro solves
    funext className
    refine funext fun b => ?_
    have enough := unreserved_lt_depth source b
    let family : Nat → String → Build Node := fun _ => enter
    have next : ∀ left name, family (left + 1) name = referOr name (enterClass source (family left) name) :=
      fun _ => solves
    exact (openClass_agree next enough enough className b le_rfl).symm
  · rintro rfl className
    rw [← openClass_succ, openClass_eq_of_le (Nat.le_succ _)]

end Build

open Build

/-- **A build ends, and asks about nothing twice.**  Whatever leads to what in a source, the recursion
into classes, without any count, has exactly one solution, which is to count down from the depth of the
source; from there on the count makes no difference.  And whether the build of a class or of a bare
type succeeds or fails, it has asked for the properties of each class and for the members of each
enumeration at most once. -/
theorem build_ends_and_asks_once (source : Source) :
    (∀ enter : String → Build Node,
      (∀ className, enter className = referOr className (enterClass source enter className)) ↔
        enter = openClass source source.depth) ∧
    (∀ left, source.depth ≤ left → openClass source left = openClass source source.depth) ∧
    (∀ className title, (questions (buildClass source className title)).Nodup) ∧
    ∀ info, (questions (buildType source info)).Nodup :=
  ⟨fun _ => eq_openClass_iff, fun _ => openClass_eq_of_le,
    fun className title => nodup_questions (buildClass_asked className title),
    fun info => nodup_questions (buildType_asked info)⟩

end ReflectedSchema
