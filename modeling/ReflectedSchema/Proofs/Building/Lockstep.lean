import ReflectedSchema.Proofs.Building.Failing

/-!
# Builds side by side

A build goes the same way whether or not a certain class was reserved from the beginning, if the class has
one property only, whose kind is what is built.  `Together` compares two runs of a step: they fail, or they
succeed with one result.  What they leave is `Sim`ilar: the definitions agree but for the class, which stands
in the second ones and is absent from the first ones or stands there, too.

The runs part at the class only.  Where the second refers to it, the first may enter it.  By then the class
that its property leads to is being visited, so nothing but the class itself comes in.
-/

namespace ReflectedSchema

open Build

/-! ## Similar definitions -/

namespace Definitions

/-- A class stands under its name. -/
structure HasClass (d : Shared) (className : String) : Prop where
  owner : d.owner? className = some (.class className)
  contains : d.contains className = true

variable {d : Shared}

/-- A name that was stored is there, along with those before. -/
theorem contains_store_eq (d : Shared) (name other : String) (node : Option Definition) :
    (d.store name node).contains other = (decide (other = name) || d.contains other) := by
  rw [Bool.eq_iff_iff, Definitions.contains_store, Bool.or_eq_true, decide_eq_true_iff]

/-- A name that was opened is there, along with those before. -/
theorem contains_opened_eq (d : Shared) (name other : String) (owner : Entity) :
    (d.opened name owner).contains other = (decide (other = name) || d.contains other) :=
  d.contains_store_eq name other none

/-- A reference adds no name. -/
theorem contains_refer (d : Shared) (name other : String) :
    (d.refer name).contains other = d.contains other := by
  obtain ⟨_, h⟩ := d.refer_eq name
  rw [h]
  rfl

/-- A class keeps standing when another name is opened. -/
theorem HasClass.opened {className name : String} {owner : Entity} (h : d.HasClass className)
    (free : d.contains name = false) : (d.opened name owner).HasClass className where
  owner := by
    rw [Definitions.owner?_opened, if_neg fun same => ?_, h.owner]
    cases (same ▸ h.contains).symm.trans free
  contains := by rw [contains_opened_eq, h.contains, Bool.or_true]

/-- A class that was entered is there, along with the names before. -/
theorem contains_withClass (d : Shared) (c : ClassDescriptor) (other : String) :
    (d.withClass c).contains other = (decide (other = c.name) || d.contains other) :=
  d.contains_opened_eq c.name other (.class c.name)

/-- A class stands once it was entered, and so do those before it. -/
theorem hasClass_withClass (d : Shared) (c : ClassDescriptor) : (d.withClass c).HasClass c.name where
  owner := by rw [owner?_withClass, if_pos rfl]
  contains := by rw [contains_withClass, decide_eq_true rfl, Bool.true_or]

/-- A class keeps standing when another one is entered. -/
theorem HasClass.withClass {className : String} {c : ClassDescriptor} (h : d.HasClass className)
    (free : d.contains c.name = false) : (d.withClass c).HasClass className where
  owner := (h.opened free).owner
  contains := by rw [contains_withClass, h.contains, Bool.or_true]

/-- A class keeps standing when a definition is stored. -/
theorem HasClass.store {className name : String} {node : Option Definition} (h : d.HasClass className) :
    (d.store name node).HasClass className :=
  ⟨h.owner, by rw [contains_store_eq, h.contains, Bool.or_true]⟩

/-- A class keeps standing when something is referred to. -/
theorem HasClass.refer {className name : String} (h : d.HasClass className) :
    (d.refer name).HasClass className :=
  ⟨by rw [owner?_refer, h.owner], by rw [contains_refer, h.contains]⟩

end Definitions

/-- Definitions agree but for a class, which stands in the second ones, and in the first ones or not.  Some
classes are held in the first ones. -/
structure Sim (root : String) (held : String → Prop) (d e : Shared) : Prop where
  enums : d.enums = e.enums
  enumNames : d.enumNames = e.enumNames
  owner : ∀ name, name ≠ root → d.owner? name = e.owner? name
  contains : ∀ name, name ≠ root → d.contains name = e.contains name
  reserved : e.HasClass root
  entered : d.HasClass root ∨ d.owner? root = none ∧ d.contains root = false
  held : ∀ c, held c → d.HasClass c

namespace Sim

variable {root name : String} {held wider : String → Prop} {d e : Shared}

/-- Fewer classes may be held. -/
theorem mono (h : Sim root wider d e) (hw : ∀ c, held c → wider c) : Sim root held d e :=
  { h with held := fun c hc => h.held c (hw c hc) }

/-- Another name is reserved in both. -/
theorem opened (h : Sim root held d e) (other : name ≠ root) (owner : Entity)
    (free : d.contains name = false) :
    Sim root held (d.opened name owner) (e.opened name owner) where
  enums := h.enums
  enumNames := h.enumNames
  owner n hn := by rw [Definitions.owner?_opened, Definitions.owner?_opened, h.owner n hn]
  contains n hn := by
    rw [Definitions.contains_opened_eq, Definitions.contains_opened_eq, h.contains n hn]
  reserved := h.reserved.opened (h.contains name other ▸ free)
  entered := by
    refine h.entered.imp (·.opened free) fun ⟨unowned, absent⟩ => ⟨?_, ?_⟩
    · rw [Definitions.owner?_opened, if_neg other.symm, unowned]
    · rw [Definitions.contains_opened_eq, absent, decide_eq_false other.symm]
      rfl
  held c hc := (h.held c hc).opened free

/-- The node of another name is stored in both. -/
theorem store (h : Sim root held d e) (other : name ≠ root) (node : Option Definition) :
    Sim root held (d.store name node) (e.store name node) where
  enums := h.enums
  enumNames := h.enumNames
  owner := h.owner
  contains n hn := by
    rw [Definitions.contains_store_eq, Definitions.contains_store_eq, h.contains n hn]
  reserved := h.reserved.store
  entered := by
    refine h.entered.imp (·.store) fun ⟨unowned, absent⟩ => ⟨unowned, ?_⟩
    rw [Definitions.contains_store_eq, absent, decide_eq_false other.symm]
    rfl
  held c hc := (h.held c hc).store

/-- The classes and what is referenced make no difference. -/
theorem update (h : Sim root held d e) {enums enums' : List (String × EnumDescriptor)}
    {enumNames enumNames' : List (String × String)} (he : enums = enums') (hn : enumNames = enumNames')
    (classes classes' : List (String × ClassDescriptor)) (referenced referenced' : List String) :
    Sim root held { d with enums, enumNames, classes, referenced }
      { e with enums := enums', enumNames := enumNames', classes := classes',
               referenced := referenced' } where
  enums := he
  enumNames := hn
  owner := h.owner
  contains := h.contains
  reserved := ⟨h.reserved.owner, h.reserved.contains⟩
  entered := h.entered.imp_left fun g => ⟨g.owner, g.contains⟩
  held c hc := ⟨(h.held c hc).owner, (h.held c hc).contains⟩

/-- An enumeration is added in both. -/
theorem addEnum (h : Sim root held d e) (descriptor : EnumDescriptor) (name : String) :
    Sim root held (d.addEnum descriptor name) (e.addEnum descriptor name) :=
  h.update (congrArg _ h.enums) (congrArg _ h.enumNames) ..

/-- A class is described in both. -/
theorem addClass (h : Sim root held d e) (c : ClassDescriptor) :
    Sim root held (d.addClass c) (e.addClass c) :=
  h.update h.enums h.enumNames ..

/-- A name is referred to in both. -/
theorem refer (h : Sim root held d e) (name : String) : Sim root held (d.refer name) (e.refer name) := by
  obtain ⟨_, hd⟩ := d.refer_eq name
  obtain ⟨_, he⟩ := e.refer_eq name
  rw [hd, he]
  exact h.update h.enums h.enumNames ..

/-- The class itself stands in the first definitions, too, after it was entered there. -/
theorem enter (h : Sim root held d e) (absent : d.contains root = false) {c : ClassDescriptor}
    (hc : c.name = root) (target : String) (definition : Definition) :
    Sim root held ((((d.withClass c).refer target).store root (some definition)).refer root)
      (e.refer root) := by
  subst hc
  refine Sim.refer ?_ c.name
  have stands : (((d.withClass c).refer target).store c.name (some definition)).HasClass c.name :=
    (d.hasClass_withClass c).refer.store
  have same := (d.withClass c).refer_eq target
  refine {
    enums := ?_
    enumNames := ?_
    owner := fun name hn => ?_
    contains := fun name hn => ?_
    reserved := h.reserved
    entered := .inl stands
    held := fun other ho => ((h.held other ho).withClass absent).refer.store }
  · obtain ⟨_, same⟩ := same
    rw [same]
    exact h.enums
  · obtain ⟨_, same⟩ := same
    rw [same]
    exact h.enumNames
  · have stored : (((d.withClass c).refer target).store c.name (some definition)).owner? name =
        ((d.withClass c).refer target).owner? name := rfl
    rw [stored, Definitions.owner?_refer, Definitions.owner?_withClass, if_neg hn, h.owner name hn]
  · rw [Definitions.contains_store_eq, Definitions.contains_refer, Definitions.contains_withClass,
      decide_eq_false hn, Bool.false_or, Bool.false_or, h.contains name hn]

/-- Enumerations have the same names in both. -/
theorem enumName? (h : Sim root held d e) (path : String) : d.enumName? path = e.enumName? path := by
  rw [Definitions.enumName?, Definitions.enumName?, h.enumNames]

end Sim

/-- A class owns its name: neither a value struct nor an enumeration can be shared under it. -/
structure Source.OwnsName (source : Source) (className : String) : Prop where
  known : source.hasClass className = true
  free : className ∉ StructTag.names
  dotless : '.' ∉ className.toList

/-- The path of an enumeration is no such name. -/
theorem Source.OwnsName.ne_enumPath {source : Source} {className : String}
    (h : source.OwnsName className) (owner name : String) : enumPath owner name ≠ className := by
  rintro rfl
  exact h.dotless (by simp [enumPath])

/-- The name of a value struct is no such name. -/
theorem Source.OwnsName.ne_structName {source : Source} {className : String}
    (h : source.OwnsName className) (tag : StructTag) : tag.name ≠ className :=
  fun same => h.free (same ▸ List.mem_map_of_mem (StructTag.mem_all tag))

namespace Build

variable {α β : Type} {source : Source}

/-! ## Two runs -/

/-- From two states, two steps fail, or they succeed with one result and leave definitions that are
related. -/
inductive Together (R : Shared → Shared → Prop) (step other : Build α) (b c : Building) : Prop
  | ok {a : α} {m n : Building} (h : (ExceptT.run step).run b = (.ok a, m))
    (g : (ExceptT.run other).run c = (.ok a, n)) (hr : R m.definitions n.definitions)
  | error {e f : Raised} {m n : Building} (h : (ExceptT.run step).run b = (.error e, m))
    (g : (ExceptT.run other).run c = (.error f, n))

namespace Together

variable {R R' : Shared → Shared → Prop} {step other : Build α} {b c : Building}

/-- Both go on with the same result. -/
theorem of_pure {a : α} (h : R b.definitions c.definitions) : Together R (pure a) (pure a) b c :=
  .ok rfl rfl h

/-- Both end, each with its own error. -/
theorem of_throw {e f : Raised} : Together R (throw e : Build α) (throw f) b c :=
  .error rfl rfl

/-- Both end with the same known result. -/
theorem of_mk {x : Except Raised α} (h : R b.definitions c.definitions) :
    Together R (ExceptT.mk (pure x)) (ExceptT.mk (pure x)) b c := by
  cases x with
  | ok a => exact .ok rfl rfl h
  | error e => exact .error rfl rfl

/-- Both log the same. -/
theorem of_log {r : LogRecord} (h : R b.definitions c.definitions) : Together R (log r) (log r) b c :=
  .ok rfl rfl h

/-- Both ask the same. -/
theorem of_ask {q : Query} (h : R b.definitions c.definitions) : Together R (ask q) (ask q) b c :=
  .ok rfl rfl h

/-- Both change their definitions, each in its way. -/
theorem of_define {f g : Shared → Shared} (h : R (f b.definitions) (g c.definitions)) :
    Together R (define f) (define g) b c :=
  .ok rfl rfl h

/-- What is known of the definitions may be weakened. -/
theorem mono (h : Together R step other b c) (hr : ∀ d e, R d e → R' d e) :
    Together R' step other b c := by
  cases h with
  | ok h g related => exact .ok h g (hr _ _ related)
  | error h g => exact .error h g

/-- Sequences go together if their first steps do, and what follows wherever both have gone on. -/
theorem bind {next next' : α → Build β} (h : Together R step other b c)
    (hn : ∀ a m n, (ExceptT.run step).run b = (.ok a, m) → (ExceptT.run other).run c = (.ok a, n) →
      R m.definitions n.definitions → Together R' (next a) (next' a) m n) :
    Together R' (step >>= next) (other >>= next') b c := by
  cases h with
  | error h g => exact .error (run_bind_of_error h) (run_bind_of_error g)
  | ok h g related =>
    cases hn _ _ _ h g related with
    | ok h' g' related' =>
      exact .ok ((run_bind_of_ok h).trans h') ((run_bind_of_ok g).trans g') related'
    | error h' g' => exact .error ((run_bind_of_ok h).trans h') ((run_bind_of_ok g).trans g')

/-- Which property is noted makes no difference. -/
theorem within {owner property owner' property' : String} (h : Together R step other b c) :
    Together R (within owner property step) (Build.within owner' property' other) b c := by
  cases h with
  | ok h g related => exact .ok (run_within_of_ok h) (run_within_of_ok g) related
  | error h g => exact .error (run_within_of_error h) (run_within_of_error g)

/-- Both refer to the same name. -/
theorem of_refer {name : String} (h : R (b.definitions.refer name) (c.definitions.refer name)) :
    Together R (refer name) (refer name) b c :=
  .ok rfl rfl h

/-- Steps that go by the definitions so far. -/
theorem of_definitions_bind {next next' : Shared → Build β}
    (h : Together R (next b.definitions) (next' c.definitions) b c) :
    Together R (definitions >>= next) (definitions >>= next') b c := by
  cases h with
  | ok h g related => exact .ok h g related
  | error h g => exact .error h g

/-- Loops go together if their rounds do. -/
theorem forM {xs : List β} {f : β → Build Unit} (h : R b.definitions c.definitions)
    (hf : ∀ x b c, R b.definitions c.definitions → Together R (f x) (f x) b c) :
    Together R (xs.forM f) (xs.forM f) b c := by
  induction xs generalizing b c with
  | nil => exact of_pure h
  | cons x rest ih => exact (hf x b c h).bind fun _ _ _ _ _ related => ih related

end Together

/-! ## Steps in similar definitions -/

section

variable {root : String} {held : String → Prop} {b c : Building}

/-- Another name is reserved in both, or in neither. -/
theorem reserve_together {name : String} {owner : Entity}
    (h : Sim root held b.definitions c.definitions) (other : name ≠ root) :
    Together (Sim root held) (reserve name owner) (reserve name owner) b c := by
  have first := run_reserve name owner b
  have second := run_reserve name owner c
  rw [← h.contains name other] at second
  cases present : b.definitions.contains name with
  | true =>
    rw [present, if_pos rfl] at first second
    exact .error first second
  | false =>
    rw [present, if_neg (by decide)] at first second
    exact .ok first second (h.opened other owner present)

/-- A struct is defined in both: its name is none that the root could have. -/
theorem defineStruct_together (own : source.OwnsName root) (tag : StructTag)
    (h : Sim root held b.definitions c.definitions) :
    Together (Sim root held) (defineStruct tag) (defineStruct tag) b c := by
  refine .of_definitions_bind ?_
  rw [h.contains tag.name (own.ne_structName tag)]
  split
  · exact (reserve_together h (own.ne_structName tag)).bind fun _ _ _ _ _ h =>
      .of_define (h.store (own.ne_structName tag) _)
  · exact .of_pure h

/-- A struct has the same node in both. -/
theorem structNode_together (own : source.OwnsName root) (tag : StructTag)
    (h : Sim root held b.definitions c.definitions) :
    Together (Sim root held) (structNode tag) (structNode tag) b c := by
  refine .of_definitions_bind ?_
  rw [h.contains tag.name (own.ne_structName tag)]
  dsimp only
  split
  · refine Together.bind (.forM h fun inner m n h => ?_) fun _ _ _ _ _ h => ?_
    · exact (defineStruct_together own inner h).bind fun _ _ _ _ _ h => .of_define (h.refer _)
    · exact (defineStruct_together own tag h).bind fun _ _ _ _ _ h => .of_refer (h.refer _)
  · exact .of_refer (h.refer _)

/-- The items of a packed array have the same node in both. -/
theorem packedItems_together (own : source.OwnsName root) (tag : PackedTag)
    (h : Sim root held b.definitions c.definitions) :
    Together (Sim root held) (packedItems tag) (packedItems tag) b c := by
  cases tag with
  | vector2 | vector3 | color | vector4 => exact structNode_together own _ h
  | _ => exact .of_pure h

/-! ## Enumerations -/

/-- An enumeration gets the same name in both, and that is not the name of the class. -/
theorem enumName_together (own : source.OwnsName root) (owner name : String)
    (h : Sim root held b.definitions c.definitions) :
    ∃ chosen m n, chosen ≠ root ∧ (ExceptT.run (enumName source owner name)).run b = (.ok chosen, m) ∧
      (ExceptT.run (enumName source owner name)).run c = (.ok chosen, n) ∧
      Sim root held m.definitions n.definitions := by
  unfold enumName
  dsimp only
  rw [run_definitions_bind, run_definitions_bind]
  by_cases same : name = root
  -- The name of a class is not available, whether the class is reserved or not.
  · have taken : source.hasClass name = true := same ▸ own.known
    simp only [taken, Bool.or_true, Bool.true_or, if_true]
    exact ⟨_, _, _, own.ne_enumPath owner name, rfl, rfl, h⟩
  · rw [← h.owner name same]
    split <;> split
    · exact ⟨_, _, _, own.ne_enumPath owner name, rfl, rfl, h⟩
    · exact ⟨_, _, _, same, rfl, rfl, h⟩
    · exact ⟨_, _, _, own.ne_enumPath owner name, rfl, rfl, h⟩
    · exact ⟨_, _, _, same, rfl, rfl, h⟩

/-- An enumeration is described and named alike in both. -/
theorem defineEnum_together (own : source.OwnsName root) (owner name : String) (flags : Bool)
    (h : Sim root held b.definitions c.definitions) :
    Together (Sim root held) (defineEnum source owner name flags) (defineEnum source owner name flags)
      b c := by
  refine .of_definitions_bind ?_
  dsimp only
  rw [← h.enumName?]
  split
  · exact .of_pure h
  obtain ⟨chosen, m, n, other, hm, hn, h⟩ := enumName_together own owner name h
  refine (Together.ok hm hn h).bind fun a m' n' ha _ h => ?_
  obtain rfl : chosen = a := by
    rw [hm] at ha
    exact Except.ok.inj (congrArg Prod.fst ha)
  refine (reserve_together h other).bind fun _ _ _ _ _ h => (Together.of_ask h).bind fun _ _ _ _ _ h =>
    Together.bind (.of_mk h) fun members _ _ _ _ h => ?_
  split
  · exact .error rfl rfl
  · exact (Together.of_define ((h.addEnum _ _).store other _)).bind fun _ _ _ _ _ h => .of_pure h

/-! ## Kinds -/

/-- The node of a kind is built alike if the class is entered alike that its items may reference. -/
theorem nodeOf_together (own : source.OwnsName root) {enter : String → Build Node} {kind : Kind}
    (henter : ∀ className, kind.item = .object className →
      Together (Sim root held) (enter className) (enter className) b c)
    (h : Sim root held b.definitions c.definitions) :
    Together (Sim root held) (nodeOf source enter kind) (nodeOf source enter kind) b c := by
  induction kind with
  | struct tag => exact structNode_together own tag h
  | enum owner name flags =>
    exact (defineEnum_together own owner name flags h).bind fun _ _ _ _ _ h =>
      (Together.of_refer (h.refer _)).bind fun _ _ _ _ _ h => .of_pure h
  | object className => exact henter className rfl
  | array element length ih => exact (ih henter).bind fun _ _ _ _ _ h => .of_pure h
  | packed tag => exact (packedItems_together own tag h).bind fun _ _ _ _ _ h => .of_pure h
  | _ => exact .of_pure h

/-- The properties of a class are built alike if classes are entered alike, as long as there are some left
to enter. -/
theorem propertyNodes_together (own : source.OwnsName root) {left : Nat}
    (inner : ∀ {b c : Building}, Sim root held b.definitions c.definitions → unreserved source b < left →
      ∀ next, Together (Sim root held) (openClass source left next) (openClass source left next) b c)
    {className : String} {properties : List PropertyDescriptor}
    (h : Sim root held b.definitions c.definitions) (hb : unreserved source b < left) :
    Together (Sim root held) (properties.mapM (propertyNode source (openClass source left) className))
      (properties.mapM (propertyNode source (openClass source left) className)) b c := by
  induction properties generalizing b c with
  | nil =>
    rw [List.mapM_nil]
    exact .of_pure h
  | cons p rest ih =>
    rw [List.mapM_cons]
    have node : Together (Sim root held) (nodeOf source (openClass source left) p.kind)
        (nodeOf source (openClass source left) p.kind) b c :=
      nodeOf_together own (fun next _ => inner h hb next) h
    refine Together.bind (node.within.bind fun _ _ _ _ _ h => .of_pure h) fun _ m n hm _ h => ?_
    have onward : b.Onward m := (propertyNode_asksOnce (openClass_asksOnce left) className p).onward hm
    have fewer : unreserved source m < left := (countP_unreserved_le onward _).trans_lt hb
    exact (ih h fewer).bind fun _ _ _ _ _ h => .of_pure h

/-! ## Classes -/

/-- A class that was just reserved is built alike. -/
theorem classDefinition_together (own : source.OwnsName root) {left : Nat}
    (inner : ∀ {b c : Building}, Sim root held b.definitions c.definitions → unreserved source b < left →
      ∀ next, Together (Sim root held) (openClass source left next) (openClass source left next) b c)
    {className : String} (h : Sim root held b.definitions c.definitions)
    (hb : source.hasClass className = true → unreserved source b < left) :
    Together (Sim root held) (classDefinition source (openClass source left) className)
      (classDefinition source (openClass source left) className) b c := by
  unfold classDefinition
  refine Together.bind (.of_ask h) fun _ m n hm _ h => ?_
  split
  · exact .of_throw
  rename_i d hd
  refine Together.bind (.of_log h) fun _ m' n' hm' _ h =>
    Together.bind (.of_define (h.addClass d)) fun _ m'' n'' hm'' _ h => ?_
  have fewer : unreserved source m'' < left := by
    cases hm
    cases hm'
    cases hm''
    exact hb (describeClass_eq_ok hd).1
  exact (propertyNodes_together own inner h fewer).bind fun _ _ _ _ _ h => .of_pure h

/-- Another class is entered alike; in the classes inside it, it is held as well. -/
theorem enterClass_together (own : source.OwnsName root) {wider : String → Prop} {left : Nat}
    (inner : ∀ {b c : Building}, Sim root wider b.definitions c.definitions → unreserved source b < left →
      ∀ next, Together (Sim root wider) (openClass source left next) (openClass source left next) b c)
    {className : String} (hw : ∀ c, wider c → held c ∨ c = className)
    (h : Sim root held b.definitions c.definitions) (other : className ≠ root)
    (hb : unreserved source b ≤ left) :
    Together (Sim root wider) (enterClass source (openClass source left) className)
      (enterClass source (openClass source left) className) b c := by
  refine (reserve_together h other).bind fun u m n hm _ h => ?_
  obtain ⟨free, known, -, onward⟩ := of_reserve hm
  have stands : m.definitions.HasClass className :=
    ⟨by rw [definitions_of_reserve hm, Definitions.owner?_opened, if_pos rfl], known⟩
  have h : Sim root wider m.definitions n.definitions :=
    { h with held := fun c hc => (hw c hc).elim (h.held c) fun same => same ▸ stands }
  refine (classDefinition_together own inner h fun hc => ?_).bind fun definition _ _ _ _ h =>
    Together.bind (.of_define (h.store other _)) fun _ _ _ _ _ h => .of_refer (h.refer _)
  exact (unreserved_lt onward hc free known).trans_le hb

/-- Another class is referred to alike, if it is entered alike. -/
theorem referOr_together {className : String} {otherwise : Build Node}
    (h : Sim root held b.definitions c.definitions) (other : className ≠ root)
    (absent : Together (Sim root held) otherwise otherwise b c) :
    Together (Sim root held) (referOr className otherwise) (referOr className otherwise) b c := by
  refine .of_definitions_bind ?_
  rw [← h.owner className other, ← h.contains className other]
  have rest : Together (Sim root held)
      (if b.definitions.contains className = true then refer className else otherwise)
      (if b.definitions.contains className = true then refer className else otherwise) b c := by
    split
    · exact .of_refer (h.refer _)
    · exact absent
  dsimp only
  split
  · split
    · exact .error rfl rfl
    · exact rest
  · exact rest

/-! ## The class itself -/

/-- A class that stands is referred to, however many classes are left to enter. -/
theorem run_openClass_of_hasClass {className : String} (h : b.definitions.HasClass className)
    (source : Source) (left : Nat) : (ExceptT.run (openClass source left className)).run b =
      (.ok (.ref className), { b with definitions := b.definitions.refer className }) := by
  have refers : ∀ otherwise : Build Node, (ExceptT.run (referOr className otherwise)).run b =
      (.ok (.ref className), { b with definitions := b.definitions.refer className }) := by
    intro otherwise
    unfold referOr
    rw [run_definitions_bind, h.owner, h.contains]
    simp only [ne_eq, not_true_eq_false, if_false, if_true]
    rfl
  cases left with
  | zero => exact openClass_zero source className ▸ refers _
  | succ left => exact openClass_succ source left className ▸ refers _

/-- A kind is built as the class that its items reference is entered. -/
theorem run_nodeOf_of_item (source : Source) {enter : String → Build Node} {kind : Kind} {target : String}
    {node : Node} {m : Building} (hi : kind.item = .object target)
    (h : (ExceptT.run (enter target)).run b = (.ok node, m)) :
    ∃ outer, (ExceptT.run (nodeOf source enter kind)).run b = (.ok outer, m) := by
  induction kind with
  | array element length ih =>
    obtain ⟨items, hr⟩ := ih hi
    exact ⟨.array items length, run_bind_of_ok hr⟩
  | object className =>
    cases hi
    exact ⟨node, h⟩
  | _ => cases hi

/-- A class is a box of a kind: its only property is called `value` and has that kind. -/
def box (className : String) (kind : Kind) : ClassDescriptor where
  name := className
  properties := [{ name := "value", kind }]

/-- A build goes on with the properties of a class that was described. -/
def describing (b : Building) (c : ClassDescriptor) : Building where
  definitions := b.definitions.addClass c
  records := b.records ++ [c.described]
  queries := b.queries ++ [.properties c.name]

/-- The definition of a box is made of the node of its property. -/
theorem run_classDefinition_box {enter : String → Build Node} {kind : Kind}
    (described : describeClass source root = .ok (box root kind)) (b : Building) :
    (ExceptT.run (classDefinition source enter root)).run b = (ExceptT.run (do
      let node ← within root "value" (nodeOf source enter kind)
      return (.object [⟨"value", node, none⟩] : Definition))).run (describing b (box root kind)) := by
  unfold classDefinition
  rw [run_ask_bind, described]
  simp only [box, List.mapM_cons, List.mapM_nil, propertyNode, bind_assoc, pure_bind]
  rfl

/-- A box is entered, if what it holds stands already, with no other effect than that it stands. -/
theorem run_enterClass_box {kind : Kind} {target : String}
    (described : describeClass source root = .ok (box root kind)) (hi : kind.item = .object target)
    (absent : b.definitions.contains root = false)
    (stands : b.definitions.HasClass target ∨ target = root) (left : Nat) :
    ∃ m definition, (ExceptT.run (enterClass source (openClass source left) root)).run b =
        (.ok (.ref root), m) ∧
      m.definitions = (((b.definitions.withClass (box root kind)).refer target).store root
        (some definition)).refer root := by
  have reserved := run_reserve root (.class root) b
  rw [absent, if_neg (by decide)] at reserved
  let entered : Building :=
    describing { b with definitions := b.definitions.opened root (.class root) } (box root kind)
  have inside : entered.definitions.HasClass target := by
    rcases stands with h | rfl
    · exact h.withClass (c := box root kind) absent
    · exact b.definitions.hasClass_withClass (box target kind)
  obtain ⟨node, hnode⟩ := run_nodeOf_of_item source hi
    (run_openClass_of_hasClass inside source left)
  have definition : (ExceptT.run (classDefinition source (openClass source left) root)).run
      { b with definitions := b.definitions.opened root (.class root) } =
        (.ok (.object [⟨"value", node, none⟩]),
          { entered with definitions := entered.definitions.refer target }) := by
    rw [run_classDefinition_box described]
    exact run_bind_of_ok (run_within_of_ok hnode)
  exact ⟨_, _, (run_bind_of_ok reserved).trans (run_bind_of_ok definition), rfl⟩

/-- Classes are entered alike, while what the box holds is being visited or is held. -/
theorem openClass_together {kind : Kind} {target : String} (own : source.OwnsName root)
    (described : describeClass source root = .ok (box root kind)) (hi : kind.item = .object target)
    {left : Nat} (h : Sim root held b.definitions c.definitions) (stands : held target ∨ target = root)
    (hb : unreserved source b < left) (className : String) :
    Together (Sim root held) (openClass source left className) (openClass source left className) b c := by
  induction left generalizing b c className with
  | zero => exact absurd hb (Nat.not_lt_zero _)
  | succ left ih =>
    by_cases same : className = root
    · subst same
      have refers := run_openClass_of_hasClass h.reserved source (left + 1)
      rcases h.entered with standing | ⟨unowned, absent⟩
      · exact .ok (run_openClass_of_hasClass standing source (left + 1)) refers (h.refer _)
      -- Only here do the two part: the first one enters the box.
      · have inside : b.definitions.HasClass target ∨ target = className :=
          stands.imp_left (h.held target)
        obtain ⟨m, definition, entered, after⟩ := run_enterClass_box described hi absent inside left
        have opened : (ExceptT.run (openClass source (left + 1) className)).run b =
            (.ok (.ref className), m) := by
          rw [openClass_succ, referOr, run_definitions_bind, unowned, absent]
          exact entered
        exact .ok opened refers (after ▸ h.enter absent rfl target definition)
    · rw [openClass_succ]
      exact referOr_together h same (enterClass_together own (fun h hb next => ih h hb next)
        (fun _ => .inl) h same (Nat.le_of_lt_succ hb))

/-- **The node of a kind is built alike, whether or not its box was entered before.** -/
theorem nodeOf_box_together {kind : Kind} (own : source.OwnsName root)
    (described : describeClass source root = .ok (box root kind))
    (hc : c.definitions = Definitions.withClass .empty (box root kind)) :
    Together (Sim root fun _ => False) (nodeOf source (openClass source source.depth) kind)
      (nodeOf source (openClass source source.depth) kind) {} c := by
  have start : Sim root (fun _ => False) ({} : Building).definitions c.definitions := by
    rw [hc]
    refine ⟨rfl, rfl, fun name hn => ?_, fun name hn => ?_, ?_, .inr ⟨rfl, rfl⟩, fun _ => False.elim⟩
    · exact ((Definitions.owner?_withClass ..).trans (if_neg hn)).symm
    · exact ((Definitions.contains_withClass ..).trans (by simp [box, hn])).symm
    · exact Definitions.hasClass_withClass .empty (box root kind)
  refine nodeOf_together own (fun target hi => ?_) start
  have enough := unreserved_lt_depth source {}
  by_cases same : target = root
  · exact openClass_together own described hi start (.inr same) enough target
  -- What the box holds is entered in both, and then it is held.
  · rw [Source.depth, openClass_succ]
    have inner {b c : Building} (h : Sim root (· = target) b.definitions c.definitions)
        (hb : unreserved source b < source.classNames.length) (next : String) :=
      openClass_together own described hi h (.inl rfl) hb next
    have entered := enterClass_together own inner (fun _ => .inr) start same (Nat.le_of_lt_succ enough)
    exact referOr_together start same (entered.mono fun _ _ h => h.mono fun _ => False.elim)

end

end Build

end ReflectedSchema
