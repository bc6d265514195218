import ReflectedSchema.Proofs.Building.Traversal

/-!
# What a build ends with

The definitions of a build that is over hold exactly what the kind reaches: the invariant says that
whatever is held leads to nothing that is not, and growth says that nothing else came in.  `Settled`
collects this, and from it follows what a schema shares.
-/

namespace ReflectedSchema

open Build

/-! ## Finished definitions -/

namespace Definitions

variable {d : Shared}

/-- The finished definitions are those that are no longer open. -/
theorem mem_finished (hd : (d.nodes.map (·.1)).Nodup) {name : String} {definition : Definition} :
    (name, definition) ∈ d.finished ↔ d.node? name = some (some definition) := by
  rw [finished, List.mem_mergeSort, List.mem_filterMap, node?, Json.lookup_eq_some_iff hd]
  constructor
  · rintro ⟨⟨n, node⟩, hm, hn⟩
    obtain ⟨definition, rfl, he⟩ := Option.map_eq_some_iff.mp hn
    cases he
    exact hm
  · intro hm
    exact ⟨_, hm, rfl⟩

/-- No name is finished twice. -/
theorem nodup_finished (hd : (d.nodes.map (·.1)).Nodup) : (d.finished.map (·.1)).Nodup := by
  have sub : ∀ nodes : List (String × Option Definition),
      ((nodes.filterMap fun (name, node) => node.map (name, ·)).map (·.1)).Sublist
        (nodes.map (·.1)) := by
    intro nodes
    induction nodes with
    | nil => exact .slnil
    | cons e rest ih =>
      obtain ⟨name, _ | node⟩ := e
      · exact ih.cons _
      · exact ih.cons_cons _
  exact ((List.mergeSort_perm _ _).map _).nodup_iff.mpr (hd.sublist (sub d.nodes))

end Definitions

section

variable {source : Source} {d : Shared}

/-- What a finished entity mentions is held. -/
theorem Sound.holds_of_mentions (h : Sound source d) (hh : StructsHeld d) {name : String}
    {e other : Entity} {definition : Definition} (ho : d.owner? name = some e)
    (hn : d.node? name = some (some definition)) (hm : source.Mentions e other) : d.Holds other := by
  cases hm with
  | component hc he =>
    obtain ⟨inner, hi, rfl⟩ := StructTag.mentions_component hc he
    exact hh _ inner (by rwa [Option.some.inj (h.keyed ho)]) hi
  | property hd hp he =>
    cases h.defined ho hn with
    | «class» hc held =>
      obtain rfl := Except.ok.inj (hd.symm.trans (h.classes hc).1)
      exact held _ hp _ he

/-- What is held leads to nothing that is not, if everything mentioned is held. -/
theorem Definitions.holds_of_reflTransGen
    (closed : ∀ {name e other}, d.owner? name = some e → source.Mentions e other → d.Holds other)
    {first e : Entity} (h : d.Holds first) (hr : Relation.ReflTransGen source.Mentions first e) :
    d.Holds e := by
  induction hr with
  | refl => exact h
  | tail _ hm ih =>
    obtain ⟨name, -, ho, -⟩ := ih
    exact closed ho hm

/-- A name that is owned and not left unfinished has a definition. -/
theorem Sound.exists_defines (h : Sound source d) {name : String} {e : Entity}
    (ho : d.owner? name = some e) (hf : d.node? name ≠ some none) :
    ∃ definition, d.node? name = some (some definition) ∧ source.Defines d e definition := by
  have owned := h.owned name
  rw [ho] at owned
  obtain ⟨node, hn⟩ := Option.isSome_iff_exists.mp owned
  cases node with
  | none => exact absurd hn hf
  | some definition => exact ⟨definition, hn, h.defined ho hn⟩

/-- An entity has one definition. -/
theorem Source.Defines.unique {e : Entity} {first second : Definition}
    (h : source.Defines d e first) (g : source.Defines d e second) : first = second := by
  cases h with
  | struct tag => cases g; rfl
  | enum he =>
    cases g with
    | enum he' => rw [Option.some.inj (he.symm.trans he')]
  | «class» hc held =>
    cases g with
    | «class» hc' held' => rw [Option.some.inj (hc.symm.trans hc')]

/-- What defines an entity in a sound state is its definition. -/
theorem Source.Defines.definitionOf (h : Sound source d) {e : Entity} {definition : Definition}
    (hd : source.Defines d e definition) : source.DefinitionOf d.enumName? e definition := by
  cases hd with
  | struct tag => exact .struct tag
  | enum he =>
    obtain ⟨rfl, described, -⟩ := h.enums he
    exact .enum described.members described.ownerPlain described.namePlain
  | «class» hc held =>
    have hd := (h.classes hc).1
    obtain rfl := (describeClass_eq_ok hd).2.2.1
    exact .class hd

/-- Under a name that is not left unfinished stands the definition of its owner. -/
theorem Sound.node?_iff (h : Sound source d) {name : String} (hf : d.node? name ≠ some none)
    {definition : Definition} : d.node? name = some (some definition) ↔
      ∃ e, d.owner? name = some e ∧ source.Defines d e definition := by
  constructor
  · intro hn
    have owned := h.owned name
    rw [hn] at owned
    obtain ⟨e, he⟩ := Option.isSome_iff_exists.mp owned.symm
    exact ⟨e, he, h.defined he hn⟩
  · rintro ⟨e, he, hd⟩
    obtain ⟨other, hn, hother⟩ := h.exists_defines he hf
    rw [hn, hother.unique hd]

end

/-! ## Sharing -/

/-- Definitions and descriptors that a schema shares: those of the live entities, each under a name of
its own.  The classes that are described may be more, by the class at the root. -/
structure Source.Shares (source : Source) (described live : Entity → Prop)
    (names : String → Option String) (shared : List (String × Definition))
    (classes : List ClassDescriptor) (enums : List EnumDescriptor) : Prop where
  defined : ∀ {e}, live e → ∃ name definition, e.key? names = some name ∧
    (name, definition) ∈ shared ∧ source.DefinitionOf names e definition
  lives : ∀ {name definition}, (name, definition) ∈ shared → ∃ e, live e ∧
    e.key? names = some name ∧ source.DefinitionOf names e definition
  distinct : (shared.map (·.1)).Nodup
  injective : ∀ {e other name}, described e → described other → e.key? names = some name →
    other.key? names = some name → e = other
  described_enum : ∀ {path}, described (.enum path) → live (.enum path)
  classNames : ∀ {name}, described (.class name) ↔ ∃ c ∈ classes, c.name = name
  classDescribed : ∀ c ∈ classes, describeClass source c.name = .ok c
  classesDistinct : (classes.map (·.name)).Nodup
  enumPaths : ∀ {path}, live (.enum path) ↔ ∃ e ∈ enums, e.path = path
  enumDescribed : ∀ e ∈ enums, e.Described source ∧
    ∃ name, names e.path = some name ∧ (name = e.name ∨ name = e.path)
  enumsDistinct : (enums.map (·.path)).Nodup

/-- Definitions whose build is over: everything is finished but for the live entities' sake, and `final`
is what remains of them. -/
structure Settled (source : Source) (described live : Entity → Prop) (d final : Shared) : Prop where
  sound : Sound source d
  owned : ∀ {e}, described e ↔ ∃ name, d.owner? name = some e
  within : ∀ {e}, live e → described e
  enums : ∀ {path}, described (.enum path) → live (.enum path)
  defines : ∀ {e}, live e → ∃ definition, source.Defines d e definition
  shared : ∀ {name definition}, final.node? name = some (some definition) ↔
    ∃ e, live e ∧ d.owner? name = some e ∧ source.Defines d e definition
  distinct : (final.nodes.map (·.1)).Nodup

/-- The descriptors of the classes, each under its own name. -/
theorem Sound.class_name {source : Source} {d : Shared} (h : Sound source d) :
    ∀ e ∈ d.classes, e.2.name = e.1 ∧ describeClass source e.1 = .ok e.2 := by
  intro e he
  have hc : d.class? e.1 = some e.2 := (Json.lookup_eq_some_iff h.distinct.2.1).mpr he
  have hd := (h.classes hc).1
  exact ⟨(describeClass_eq_ok hd).2.2.1, hd⟩

/-- The descriptors of the enumerations, each under its own path. -/
theorem Sound.enum_path {source : Source} {d : Shared} (h : Sound source d) :
    ∀ e ∈ d.enums, d.enum? e.1 = some e.2 ∧ e.2.path = e.1 := by
  intro e he
  have hc : d.enum? e.1 = some e.2 := (Json.lookup_eq_some_iff h.distinct.2.2).mpr he
  exact ⟨hc, (h.enums hc).1⟩

/-- Values that carry their own keys have distinct ones. -/
theorem nodup_map_snd {α : Type} {keyOf : α → String} {entries : List (String × α)}
    (hk : ∀ e ∈ entries, keyOf e.2 = e.1) (hd : (entries.map (·.1)).Nodup) :
    ((entries.map (·.2)).map keyOf).Nodup := by
  rw [List.map_map]
  rwa [List.map_congr_left (g := (·.1)) hk]

namespace Settled

variable {source : Source} {described live : Entity → Prop} {d final : Shared}

/-- **Definitions whose build is over share what is live.** -/
theorem shares (h : Settled source described live d final) :
    source.Shares described live d.enumName? final.finished (d.classes.map (·.2))
      (d.enums.map (·.2)) where
  defined {e} he := by
    obtain ⟨name, ho⟩ := h.owned.mp (h.within he)
    obtain ⟨definition, hd⟩ := h.defines he
    exact ⟨name, definition, h.sound.keyed ho,
      (Definitions.mem_finished h.distinct).mpr (h.shared.mpr ⟨e, he, ho, hd⟩), hd.definitionOf h.sound⟩
  lives {name definition} hm := by
    obtain ⟨e, he, ho, hd⟩ := h.shared.mp ((Definitions.mem_finished h.distinct).mp hm)
    exact ⟨e, he, h.sound.keyed ho, hd.definitionOf h.sound⟩
  distinct := Definitions.nodup_finished h.distinct
  injective {e other name} he ho hk hk' := by
    obtain ⟨n, hn⟩ := h.owned.mp he
    obtain ⟨n', hn'⟩ := h.owned.mp ho
    obtain rfl := Option.some.inj (hk.symm.trans (h.sound.keyed hn))
    obtain rfl := Option.some.inj (hk'.symm.trans (h.sound.keyed hn'))
    exact Option.some.inj (hn.symm.trans hn')
  described_enum := h.enums
  classNames {name} := by
    constructor
    · intro hc
      obtain ⟨n, hn⟩ := h.owned.mp hc
      obtain rfl := Option.some.inj (h.sound.keyed hn)
      obtain ⟨c, hc⟩ := h.sound.described hn
      exact ⟨c, List.mem_map.mpr ⟨_, Json.mem_of_lookup hc, rfl⟩,
        (h.sound.class_name _ (Json.mem_of_lookup hc)).1⟩
    · rintro ⟨c, hc, rfl⟩
      obtain ⟨e, he, rfl⟩ := List.mem_map.mp hc
      rw [(h.sound.class_name e he).1]
      have hlookup : d.class? e.1 = some e.2 := (Json.lookup_eq_some_iff h.sound.distinct.2.1).mpr he
      exact h.owned.mpr ⟨_, (h.sound.classes hlookup).2⟩
  classDescribed c hc := by
    obtain ⟨e, he, rfl⟩ := List.mem_map.mp hc
    obtain ⟨hn, hd⟩ := h.sound.class_name e he
    rwa [hn]
  classesDistinct := nodup_map_snd (fun e he => (h.sound.class_name e he).1) h.sound.distinct.2.1
  enumPaths {path} := by
    constructor
    · intro he
      obtain ⟨name, hn⟩ := h.owned.mp (h.within he)
      obtain ⟨e, he⟩ := h.sound.listed (h.sound.keyed hn)
      exact ⟨e, List.mem_map.mpr ⟨_, Json.mem_of_lookup he, rfl⟩, (h.sound.enums he).1⟩
    · rintro ⟨e, he, rfl⟩
      obtain ⟨entry, hm, rfl⟩ := List.mem_map.mp he
      obtain ⟨hlookup, hpath⟩ := h.sound.enum_path entry hm
      obtain ⟨-, -, name, hn, -⟩ := h.sound.enums hlookup
      rw [hpath]
      exact h.enums (h.owned.mpr ⟨name, h.sound.named hn⟩)
  enumDescribed e he := by
    obtain ⟨entry, hm, rfl⟩ := List.mem_map.mp he
    obtain ⟨hlookup, hpath⟩ := h.sound.enum_path entry hm
    obtain ⟨-, hd, name, hn, hk, -⟩ := h.sound.enums hlookup
    exact ⟨hd, name, hpath.symm ▸ hn, hk⟩
  enumsDistinct := nodup_map_snd (fun e he => (h.sound.enum_path e he).2) h.sound.distinct.2.2

end Settled

/-! ## Reachable entities -/

/-- The entities that share a definition in the schema of a kind.  A class at the root is inlined, and
shares its definition only if it leads back to itself. -/
def Source.Live (source : Source) : Kind → Entity → Prop
  | .object className => Relation.TransGen source.Mentions (.class className)
  | kind => source.Reaches kind

/-- A class reaches itself and what it leads to. -/
theorem Source.reaches_object {source : Source} {className : String} {e : Entity} :
    source.Reaches (.object className) e ↔ e = .class className ∨ source.Live (.object className) e := by
  refine Iff.trans ?_ Relation.reflTransGen_iff_eq_or_transGen
  refine ⟨fun ⟨first, hf, hr⟩ => ?_, fun hr => ⟨_, List.mem_singleton.mpr rfl, hr⟩⟩
  rwa [List.mem_singleton.mp hf] at hr

/-- What is live is reached. -/
theorem Source.Live.reaches {source : Source} {kind : Kind} {e : Entity} (h : source.Live kind e) :
    source.Reaches kind e := by
  cases kind with
  | object className => exact source.reaches_object.mpr (.inr h)
  | _ => exact h

namespace Stands

variable {source : Source} {kind : Kind} {node : Node} {d : Shared}

/-- **The build of a bare kind ends with what the kind reaches.** -/
theorem settled (h : Stands source kind .empty node d) :
    Settled source (source.Reaches kind) (source.Reaches kind) d d := by
  have sound := h.advances.sound
  have finished : ∀ name, d.node? name ≠ some none := fun name hn => by
    cases h.advances.finished hn
  have closed : ∀ {name e other}, d.owner? name = some e → source.Mentions e other →
      d.Holds other := by
    intro name e other ho hm
    obtain ⟨definition, hn, -⟩ := sound.exists_defines ho (finished name)
    exact sound.holds_of_mentions h.structs ho hn hm
  have owned : ∀ {e}, source.Reaches kind e ↔ ∃ name, d.owner? name = some e := by
    refine ⟨fun ⟨first, hf, hr⟩ => ?_, fun ⟨name, ho⟩ => ?_⟩
    · obtain ⟨name, -, ho, -⟩ := Definitions.holds_of_reflTransGen closed (h.holds first hf) hr
      exact ⟨name, ho⟩
    · exact (h.advances.grows.added ho).elim (fun he => by cases he) id
  refine ⟨sound, owned, id, id, fun he => ?_, fun {name definition} => ?_, sound.distinct.1⟩
  · obtain ⟨name, ho⟩ := owned.mp he
    obtain ⟨definition, -, hd⟩ := sound.exists_defines ho (finished name)
    exact ⟨definition, hd⟩
  · rw [sound.node?_iff (finished name)]
    exact exists_congr fun e => ⟨fun ⟨ho, hd⟩ => ⟨owned.mpr ⟨name, ho⟩, ho, hd⟩, fun ⟨_, h⟩ => h⟩

end Stands

namespace Opens

variable {source : Source} {c : ClassDescriptor} {root : Definition} {d : Shared}

/-- What an entity mentions is held once the root of a build is. -/
theorem closed (h : Opens source c .empty root d) {name : String} {e other : Entity}
    (ho : d.owner? name = some e) (hm : source.Mentions e other) : d.Holds other := by
  have sound := h.advances.sound
  -- Only the class at the root is unfinished, and for that its own properties were built.
  by_cases hf : d.node? name = some none
  · obtain rfl : name = c.name := (h.unfinished hf).elim id fun hn => by cases hn
    obtain rfl := Option.some.inj (ho.symm.trans h.owner?)
    cases hm with
    | property hd hp he =>
      obtain rfl := Except.ok.inj (hd.symm.trans h.describes)
      exact h.holds _ hp _ he
  · obtain ⟨definition, hn, -⟩ := sound.exists_defines ho hf
    exact sound.holds_of_mentions h.structs ho hn hm

/-- Whatever stands somewhere is the class at the root or reached by its properties. -/
theorem owner_live (h : Opens source c .empty root d) {name : String} {e : Entity}
    (ho : d.owner? name = some e) : e = .class c.name ∨ source.Live (.object c.name) e := by
  rcases h.advances.grows.added ho with ho | he
  · rw [Definitions.owner?_withClass] at ho
    split at ho
    · exact .inl (Option.some.inj ho).symm
    · cases ho
  · exact .inr (ClassDescriptor.reaches_object h.describes he)

/-- Whatever is referenced is reached by the properties of the class at the root. -/
theorem referenced_live (h : Opens source c .empty root d) {name : String} {e : Entity}
    (hr : d.isReferenced name = true) (ho : d.owner? name = some e) :
    source.Live (.object c.name) e := by
  rcases h.advances.grows.referred hr with hr | ⟨other, he, hother⟩
  · cases hr
  · obtain rfl := Option.some.inj (ho.symm.trans hother)
    exact ClassDescriptor.reaches_object h.describes he

/-- What is reached by the properties of the class at the root is held. -/
theorem holds_of_live (h : Opens source c .empty root d) {e : Entity}
    (he : source.Live (.object c.name) e) : d.Holds e := by
  obtain ⟨first, hm, hr⟩ := Relation.TransGen.head'_iff.mp he
  exact Definitions.holds_of_reflTransGen h.closed (h.closed h.owner? hm) hr

/-- The class of a build is defined by its root. -/
theorem defines (h : Opens source c .empty root d) : source.Defines d (.class c.name) root := by
  rw [h.definition]
  exact .class h.class? h.holds

/-- What becomes of the class at the root: it is stored if something refers to it. -/
def finish (c : ClassDescriptor) (root : Definition) (d : Shared) : Shared :=
  if d.isReferenced c.name then d.store c.name (some root) else d.discard c.name

/-- Finishing stores the root under its class if it is referenced, and else takes the name away. -/
theorem node?_finish (c : ClassDescriptor) (root : Definition) (d : Shared) (name : String) :
    (finish c root d).node? name =
      if name = c.name then if d.isReferenced c.name then some (some root) else none
      else d.node? name := by
  unfold finish
  split
  · exact d.node?_store c.name name (some root)
  · exact Json.lookup_erase c.name name d.nodes

/-- Finishing the class at the root leaves the descriptors as they are. -/
theorem classes_finish (c : ClassDescriptor) (root : Definition) (d : Shared) :
    (finish c root d).classes = d.classes := by
  unfold finish
  split <;> rfl

/-- Finishing leaves the enumerations as they are. -/
theorem enums_finish (c : ClassDescriptor) (root : Definition) (d : Shared) :
    (finish c root d).enums = d.enums := by
  unfold finish
  split <;> rfl

/-- **The build of a class ends with what its properties reach.** -/
theorem settled (h : Opens source c .empty root d) :
    Settled source (source.Reaches (.object c.name)) (source.Live (.object c.name)) d
      (finish c root d) where
  sound := h.advances.sound
  owned {e} := by
    refine ⟨fun he => ?_, fun ⟨name, ho⟩ => source.reaches_object.mpr (h.owner_live ho)⟩
    rcases source.reaches_object.mp he with rfl | he
    · exact ⟨c.name, h.owner?⟩
    · obtain ⟨name, -, ho, -⟩ := h.holds_of_live he
      exact ⟨name, ho⟩
  within := Source.Live.reaches
  enums {path} he := (source.reaches_object.mp he).elim (fun he => by cases he) id
  defines {e} he := by
    obtain ⟨name, hk, ho, -⟩ := h.holds_of_live he
    by_cases hf : d.node? name = some none
    · obtain rfl : name = c.name := (h.unfinished hf).elim id fun hn => by cases hn
      obtain rfl := Option.some.inj (ho.symm.trans h.owner?)
      exact ⟨root, h.defines⟩
    · obtain ⟨definition, -, hd⟩ := h.advances.sound.exists_defines ho hf
      exact ⟨definition, hd⟩
  shared {name definition} := by
    rw [node?_finish]
    -- The name of the class at the root is the only one that finishing touches.
    by_cases hname : name = c.name
    · subst hname
      rw [if_pos rfl, h.owner?]
      constructor
      · intro hn
        split at hn
        · rename_i referenced
          cases hn
          exact ⟨_, h.referenced_live referenced h.owner?, rfl, h.defines⟩
        · cases hn
      · rintro ⟨e, he, ho, hd⟩
        cases ho
        obtain ⟨name, hk, -, referenced⟩ := h.holds_of_live he
        cases hk
        rw [if_pos referenced, h.defines.unique hd]
    · have finished : d.node? name ≠ some none := fun hn =>
        (h.unfinished hn).elim hname fun hn => by cases hn
      rw [if_neg hname, h.advances.sound.node?_iff finished]
      refine exists_congr fun e => ⟨fun ⟨ho, hd⟩ => ⟨?_, ho, hd⟩, fun ⟨_, h⟩ => h⟩
      rcases h.owner_live ho with rfl | live
      · exact absurd (Option.some.inj (h.advances.sound.keyed ho)).symm hname
      · exact live
  distinct := by
    unfold finish
    split
    · exact Json.nodup_keys_set _ _ h.advances.sound.distinct.1
    · exact Json.nodup_keys_erase _ h.advances.sound.distinct.1

end Opens

end ReflectedSchema
