import ReflectedSchema.Proofs.Building.Invariant

/-!
# The traversal of a build

A step of a build that succeeds keeps the invariant and adds only what its kind reaches; `Stands` says
this of a step that gives the node of a kind.  It is proved for value structs and enumerations first,
then for every kind, given that it holds of classes, and at last for classes, by induction on how many
of them are left to enter.
-/

namespace ReflectedSchema

open Build

variable {source : Source} {reach : Entity → Prop} {d between after : Shared}

/-- A step that keeps the invariant and leaves nothing unfinished. -/
structure Advances (source : Source) (reach : Entity → Prop) (d after : Shared) : Prop where
  sound : Sound source after
  grows : Grows reach d after
  finished : ∀ {name}, after.node? name = some none → d.node? name = some none

namespace Advances

variable {wider : Entity → Prop}

/-- Definitions that stay as they are have advanced. -/
theorem refl (reach : Entity → Prop) (h : Sound source d) : Advances source reach d d :=
  ⟨h, .refl reach d, id⟩

/-- One step after another advances. -/
theorem trans (h : Advances source reach d between) (g : Advances source reach between after) :
    Advances source reach d after :=
  ⟨g.sound, h.grows.trans g.grows, h.finished ∘ g.finished⟩

/-- What advances by some entities advances by more. -/
theorem mono (h : Advances source reach d after) (hw : ∀ e, reach e → wider e) :
    Advances source wider d after :=
  ⟨h.sound, h.grows.mono hw, h.finished⟩

/-- Referring to what is reached advances. -/
theorem refer (h : Sound source d) {name : String} {e : Entity} (ho : d.owner? name = some e)
    (he : reach e) : Advances source reach d (d.refer name) :=
  ⟨h.refer ho, .refer ho he, fun hn => by rwa [Definitions.node?_refer] at hn⟩

end Advances

/-- An entity is held once it is referred to. -/
theorem Definitions.holds_refer (h : Sound source d) {name : String} {e : Entity}
    (ho : d.owner? name = some e) : (d.refer name).Holds e := by
  refine ⟨name, ?_, ?_, (d.isReferenced_refer name name).mpr (.inl rfl)⟩
  · rw [Definitions.key?_refer]
    exact h.keyed ho
  · rwa [Definitions.owner?_refer]

/-! ## Value structs -/

/-- A struct whose name is taken stands under it. -/
theorem Sound.owner?_of_present (hs : Sound source d) {tag : StructTag}
    (present : ¬(!(d.node? tag.name).isSome) = true) : d.owner? tag.name = some (.struct tag) := by
  rw [Bool.not_eq_true, Bool.not_eq_false', hs.owned] at present
  obtain ⟨e, he⟩ := Option.isSome_iff_exists.mp present
  rw [he, hs.owner?_struct he]

/-- Defining a struct advances by it, and the struct stands under its name. -/
theorem defineStruct_advances {tag : StructTag} {u : Unit}
    (h : Yields (defineStruct tag) d u after) (hs : Sound source d) :
    Advances source (· = .struct tag) d after ∧ after.owner? tag.name = some (.struct tag) := by
  unfold defineStruct at h
  replace h := Yields.after_definitions h
  rw [Definitions.contains_eq_isSome] at h
  split at h
  · obtain ⟨_, _, hr, h⟩ := Yields.of_bind h
    obtain ⟨hn, rfl⟩ := Definitions.reserve?_eq_some (Yields.of_reserve hr)
    obtain rfl : after = d.withStruct tag := Yields.of_define h
    have free := hs.owner?_eq_none hn
    refine ⟨⟨hs.withStruct free, .withStruct free rfl, fun {name} hn => ?_⟩, ?_⟩
    · rw [d.node?_withStruct] at hn
      split at hn
      · cases hn
      · exact hn
    · rw [d.owner?_withStruct, if_pos rfl]
  · rename_i present
    obtain ⟨-, rfl⟩ := Yields.of_pure h
    exact ⟨.refl _ hs, hs.owner?_of_present present⟩

/-- The structs inside a struct are defined and referred to one after the other. -/
theorem defineInner_advances {tags : List StructTag} {u : Unit}
    (h : Yields (tags.forM fun inner => do
      defineStruct inner
      define (·.refer inner.name)) d u after) (hs : Sound source d) :
    Advances source (fun e => ∃ inner ∈ tags, e = .struct inner) d after ∧
      ∀ inner ∈ tags, after.Holds (.struct inner) := by
  induction tags generalizing d with
  | nil =>
    obtain ⟨-, rfl⟩ := Yields.of_pure h
    exact ⟨.refl _ hs, fun inner hi => absurd hi List.not_mem_nil⟩
  | cons tag rest ih =>
    obtain ⟨_, referred, hd, h⟩ := Yields.of_bind h
    obtain ⟨_, between, hd, hr⟩ := Yields.of_bind hd
    obtain ⟨first, owner⟩ := defineStruct_advances hd hs
    obtain rfl : referred = between.refer tag.name := Yields.of_define (f := (·.refer tag.name)) hr
    obtain ⟨later, held⟩ := ih h (first.sound.refer owner)
    refine ⟨.trans ?_ (later.mono fun e ⟨inner, hi, he⟩ => ⟨inner, List.mem_cons_of_mem _ hi, he⟩), ?_⟩
    · refine .mono (first.trans (.refer first.sound owner rfl)) fun e he => ?_
      exact ⟨tag, List.mem_cons_self, he⟩
    · intro inner hi
      rcases List.mem_cons.mp hi with rfl | hi
      · exact later.grows.holds (Definitions.holds_refer first.sound owner)
      · exact held inner hi

/-! ## Nodes of kinds -/

/-- What a step does that gives the node of a kind. -/
structure Stands (source : Source) (kind : Kind) (d : Shared) (node : Node) (after : Shared) : Prop where
  advances : Advances source (source.Reaches kind) d after
  structs : StructsHeld after
  node : node = kind.node after.enumName?
  holds : ∀ e ∈ kind.mentions, after.Holds e

/-- A reference adds no struct that could lack one. -/
theorem StructsHeld.refer (h : StructsHeld d) {name : String} (grows : Grows reach d (d.refer name)) :
    StructsHeld (d.refer name) :=
  fun tag inner ho hi => grows.holds (h tag inner (by rwa [Definitions.owner?_refer] at ho) hi)

/-- A kind leads to what it mentions. -/
theorem Source.reaches_self (source : Source) {kind : Kind} {e : Entity} (he : e ∈ kind.mentions) :
    source.Reaches kind e :=
  ⟨e, he, .refl⟩

/-- A kind whose node is a reference stands once the entity behind it does and is referred to. -/
theorem Stands.of_refer {kind : Kind} {e : Entity} {name : String} {node : Node}
    (hm : kind.mentions = [e]) (hk : ∀ names, kind.node names = .ref name)
    (h : ∃ between, Advances source (source.Reaches kind) d between ∧ between.owner? name = some e ∧
      StructsHeld between ∧ Yields (Build.refer name) between node after) :
    Stands source kind d node after := by
  obtain ⟨between, advances, owner, structs, hr⟩ := h
  obtain ⟨rfl, rfl⟩ := Yields.of_refer hr
  have mentioned : e ∈ kind.mentions := hm ▸ List.mem_singleton.mpr rfl
  have last : Advances source (source.Reaches kind) between (between.refer name) :=
    .refer advances.sound owner (source.reaches_self mentioned)
  refine ⟨advances.trans last, structs.refer last.grows, (hk _).symm, fun other ho => ?_⟩
  rw [hm, List.mem_singleton] at ho
  rw [ho]
  exact Definitions.holds_refer advances.sound owner

/-- The node of a struct stands: the struct is defined with all that is inside it. -/
theorem structNode_stands {tag : StructTag} {node : Node}
    (h : Yields (structNode tag) d node after) (hs : Sound source d) (hh : StructsHeld d) :
    Stands source (.struct tag) d node after := by
  have self : .struct tag ∈ (Kind.struct tag).mentions := List.mem_singleton.mpr rfl
  refine .of_refer rfl (fun _ => rfl) ?_
  unfold structNode at h
  replace h := Yields.after_definitions h
  dsimp only at h
  rw [Definitions.contains_eq_isSome] at h
  split at h
  · obtain ⟨_, inside, hi, h⟩ := Yields.of_bind h
    obtain ⟨_, between, ht, h⟩ := Yields.of_bind h
    obtain ⟨inner, held⟩ := defineInner_advances hi hs
    obtain ⟨outer, owner⟩ := defineStruct_advances ht inner.sound
    have reached : ∀ t, t = tag ∨ t ∈ tag.nested → source.Reaches (.struct tag) (.struct t) := by
      rintro t (rfl | ht)
      · exact source.reaches_self self
      · exact ⟨_, self, (StructTag.reaches_nested source ht).to_reflTransGen⟩
    refine ⟨between, ?_, owner, ?_, h⟩
    · refine (inner.mono ?_).trans (outer.mono ?_)
      · rintro e ⟨t, ht, rfl⟩
        exact reached t (.inr ht)
      · rintro e rfl
        exact reached tag (.inl rfl)
    · intro t deeper ho hd
      by_cases old : d.owner? t.name = some (.struct t)
      · exact outer.grows.holds (inner.grows.holds (hh t deeper old hd))
      -- A struct that is new is the struct itself or inside it, and so is whatever is inside it.
      · refine outer.grows.holds (held deeper ?_)
        rcases outer.grows.added ho with ho | he
        · rcases inner.grows.added ho with ho | ⟨other, hm, he⟩
          · exact absurd ho old
          · cases he
            exact StructTag.nested_trans hm hd
        · cases he
          exact hd
  · rename_i present
    exact ⟨d, .refl _ hs, hs.owner?_of_present present, hh, h⟩

/-- The items of a packed array stand like those of an array of their kind. -/
theorem packedItems_stands {tag : PackedTag} {items : Node}
    (h : Yields (packedItems tag) d items after) (hs : Sound source d) (hh : StructsHeld d) :
    Stands source (.packed tag) d (.array items none) after := by
  have plain : ∀ item : Node, tag.itemStruct? = none → item = tag.itemNode →
      Yields (pure item) d items after → Stands source (.packed tag) d (.array items none) after := by
    intro item hi hn h
    obtain ⟨rfl, rfl⟩ := Yields.of_pure h
    refine ⟨.refl _ hs, hh, by rw [hn, Kind.node], fun e he => ?_⟩
    rw [Kind.mentions, hi] at he
    cases he
  have shaped : ∀ inner : StructTag, tag.itemStruct? = some inner → tag.itemNode = .ref inner.name →
      Yields (structNode inner) d items after →
        Stands source (.packed tag) d (.array items none) after := by
    intro inner hi hn h
    have same : (Kind.packed tag).mentions = (Kind.struct inner).mentions := by
      rw [Kind.mentions, Kind.mentions, hi]
      rfl
    obtain ⟨advances, structs, node, holds⟩ := structNode_stands h hs hh
    refine ⟨advances.mono fun e he => ?_, structs, ?_, same ▸ holds⟩
    · obtain ⟨first, hf, hr⟩ := he
      exact ⟨first, same ▸ hf, hr⟩
    · rw [node, Kind.node, Kind.node, hn]
  cases tag with
  | vector2 => exact shaped .vector2 rfl rfl h
  | vector3 => exact shaped .vector3 rfl rfl h
  | color => exact shaped .color rfl rfl h
  | vector4 => exact shaped .vector4 rfl rfl h
  | _ => exact plain _ rfl rfl h

/-! ## Enumerations -/

/-- No struct has the name of an enumeration together with its owner. -/
theorem enumPath_not_mem_names (owner name : String) : enumPath owner name ∉ StructTag.names := by
  intro h
  have plain : ∀ n ∈ StructTag.names, '.' ∉ n.toList := by decide
  exact plain _ h (by simp [enumPath])

/-- The definition name of an enumeration is its own, unless that is the name of a struct, or its
path. -/
theorem enumName_eq {owner name definitionName : String}
    (h : Yields (enumName source owner name) d definitionName after) :
    after = d ∧ (definitionName = name ∨ definitionName = enumPath owner name) ∧
      definitionName ∉ StructTag.names := by
  unfold enumName at h
  replace h := Yields.after_definitions h
  dsimp only at h
  split_ifs at h with taken
  · obtain ⟨_, _, hl, h⟩ := Yields.of_bind h
    obtain ⟨rfl, rfl⟩ := Yields.of_pure h
    exact ⟨Yields.of_log hl, .inr rfl, enumPath_not_mem_names owner name⟩
  · obtain ⟨rfl, rfl⟩ := Yields.of_pure h
    refine ⟨rfl, .inl rfl, fun hm => taken ?_⟩
    rw [List.contains_iff_mem.mpr hm, Bool.or_true]

/-- An enumeration is described once: it advances by itself and has a name afterwards. -/
theorem defineEnum_advances {owner name definitionName : String} {flags : Bool}
    (hw : (Kind.enum owner name flags).WellFormed source.hasClass)
    (h : Yields (defineEnum source owner name flags) d definitionName after) (hs : Sound source d) :
    Advances source (· = .enum (enumPath owner name)) d after ∧
      after.enumName? (enumPath owner name) = some definitionName := by
  unfold defineEnum at h
  replace h := Yields.after_definitions h
  dsimp only at h
  split at h
  · rename_i present
    obtain ⟨rfl, rfl⟩ := Yields.of_pure h
    exact ⟨.refl _ hs, present⟩
  rename_i new
  obtain ⟨chosen, _, hchoose, hreserve⟩ := Yields.of_bind h
  obtain ⟨rfl, hname, hfree⟩ := enumName_eq hchoose
  obtain ⟨_, opened, hopen, hask⟩ := Yields.of_bind hreserve
  obtain ⟨_, _, hasked, hlift⟩ := Yields.of_bind hask
  obtain rfl := Yields.of_ask hasked
  obtain ⟨members, _, hlifted, hdefine⟩ := Yields.of_bind hlift
  obtain ⟨hmembers, rfl⟩ := Yields.of_mk hlifted
  -- An enumeration without members ends the build, so this one has some.
  split_ifs at hdefine with hempty
  · obtain ⟨_, _, -, hthrow⟩ := Yields.of_bind hdefine
    obtain ⟨_, _, hthrow, -⟩ := Yields.of_bind hthrow
    exact absurd hthrow Yields.not_throw
  obtain ⟨_, _, hdefined, hpure⟩ := Yields.of_bind hdefine
  obtain ⟨rfl, rfl⟩ := Yields.of_pure hpure
  obtain ⟨hn, rfl⟩ := Definitions.reserve?_eq_some (Yields.of_reserve hopen)
  let e : EnumDescriptor := ⟨owner, name, members, flags⟩
  obtain rfl : after = Definitions.withEnum _ e definitionName := Yields.of_define hdefined
  have described : e.Described source :=
    ⟨hmembers, fun he => hempty (List.isEmpty_iff.mpr he), hw.1, hw.2.2.2.1, hw.2.2.2.2⟩
  have free := hs.owner?_eq_none hn
  refine ⟨⟨hs.withEnum free new described hname hfree, .withEnum hs free new rfl, fun {other} ho => ?_⟩,
    ?_⟩
  · rw [Definitions.node?_withEnum] at ho
    split at ho
    · cases ho
    · exact ho
  · rw [Definitions.enumName?_withEnum]
    exact if_pos rfl

/-- A step that brings in no struct keeps the structs inside structs held. -/
theorem StructsHeld.advance (h : StructsHeld d) (grows : Grows reach d after)
    (none : ∀ tag, ¬ reach (.struct tag)) : StructsHeld after := by
  intro tag inner ho hi
  rcases grows.added ho with ho | he
  · exact grows.holds (h tag inner ho hi)
  · exact absurd he (none tag)

/-- A reference to an enumeration stands, or an array of such references for flags. -/
theorem enum_stands {owner name definitionName : String} {flags : Bool}
    (hw : (Kind.enum owner name flags).WellFormed source.hasClass)
    (h : Yields (defineEnum source owner name flags) d definitionName between)
    (hs : Sound source d) (hh : StructsHeld d) :
    Stands source (.enum owner name flags) d
      (if flags then .array (.ref definitionName) none else .ref definitionName)
      (between.refer definitionName) := by
  obtain ⟨defined, hname⟩ := defineEnum_advances hw h hs
  have owner? := defined.sound.named hname
  have referred : Advances source (· = .enum (enumPath owner name)) between
      (between.refer definitionName) := .refer defined.sound owner? rfl
  have both := defined.trans referred
  refine ⟨both.mono ?_, hh.advance both.grows (by rintro tag ⟨⟩), ?_, ?_⟩
  · rintro e rfl
    exact source.reaches_self (List.mem_singleton.mpr rfl)
  · rw [Kind.node, Definitions.enumName?_refer, hname]
    rfl
  · intro e he
    rw [List.mem_singleton.mp he]
    exact Definitions.holds_refer defined.sound owner?

/-! ## Classes -/

/-- A kind that mentions nothing stands as it is. -/
theorem Stands.of_pure {kind : Kind} {item node : Node} (h : Yields (pure item) d node after)
    (hs : Sound source d) (hh : StructsHeld d) (hm : kind.mentions = [])
    (hi : ∀ names, item = kind.node names) : Stands source kind d node after := by
  obtain ⟨rfl, rfl⟩ := Yields.of_pure h
  exact ⟨.refl _ hs, hh, hi _, fun e he => absurd (hm ▸ he) List.not_mem_nil⟩

/-- The node of any kind stands, if those of classes do. -/
theorem nodeOf_stands {enter : String → Build Node} {kind : Kind} {node : Node}
    (henter : ∀ {className node d after}, Yields (enter className) d node after →
      Sound source d → StructsHeld d → Stands source (.object className) d node after)
    (hw : kind.WellFormed source.hasClass) (h : Yields (nodeOf source enter kind) d node after)
    (hs : Sound source d) (hh : StructsHeld d) : Stands source kind d node after := by
  induction kind generalizing node after with
  | boolean | integer | number | string | dictionary => exact .of_pure h hs hh rfl fun _ => rfl
  | anyArray length => exact .of_pure h hs hh rfl fun _ => rfl
  | struct tag => exact structNode_stands h hs hh
  | object className => exact henter h hs hh
  | enum owner name flags =>
    obtain ⟨definitionName, between, hd, hr⟩ := Yields.of_bind h
    obtain ⟨reference, _, hr, hp⟩ := Yields.of_bind hr
    obtain ⟨rfl, rfl⟩ := Yields.of_refer hr
    obtain ⟨rfl, rfl⟩ := Yields.of_pure hp
    exact enum_stands hw hd hs hh
  | array element length ih =>
    obtain ⟨items, between, hi, hp⟩ := Yields.of_bind h
    obtain ⟨rfl, rfl⟩ := Yields.of_pure hp
    obtain ⟨advances, structs, hn, holds⟩ := ih hw hi
    exact ⟨advances, structs, by rw [hn, Kind.node], holds⟩
  | packed tag =>
    obtain ⟨items, between, hi, hp⟩ := Yields.of_bind h
    obtain ⟨rfl, rfl⟩ := Yields.of_pure hp
    exact packedItems_stands hi hs hh

/-- What a class leads to through its properties. -/
def ClassDescriptor.Reaches (source : Source) (c : ClassDescriptor) (e : Entity) : Prop :=
  ∃ p ∈ c.properties, source.Reaches p.kind e

/-- The nodes of the properties of a class stand, if those of classes do. -/
theorem propertyNodes_stand {enter : String → Build Node} {className : String}
    {properties : List PropertyDescriptor} {nodes : List NodeProperty}
    (henter : ∀ {className node d after}, Yields (enter className) d node after →
      Sound source d → StructsHeld d → Stands source (.object className) d node after)
    (hw : ∀ p ∈ properties, p.kind.WellFormed source.hasClass)
    (h : Yields (properties.mapM (propertyNode source enter className)) d nodes after)
    (hs : Sound source d) (hh : StructsHeld d) :
    Advances source (fun e => ∃ p ∈ properties, source.Reaches p.kind e) d after ∧
      StructsHeld after ∧
      nodes = properties.map (fun p => ⟨p.name, p.kind.node after.enumName?, p.description⟩) ∧
      ∀ p ∈ properties, ∀ e ∈ p.kind.mentions, after.Holds e := by
  induction properties generalizing d nodes with
  | nil =>
    rw [List.mapM_nil] at h
    obtain ⟨rfl, rfl⟩ := Yields.of_pure h
    exact ⟨.refl _ hs, hh, rfl, fun p hp => absurd hp List.not_mem_nil⟩
  | cons p rest ih =>
    rw [List.mapM_cons] at h
    obtain ⟨first, between, hfirst, htail⟩ := Yields.of_bind h
    obtain ⟨more, _, hmore, hp⟩ := Yields.of_bind htail
    obtain ⟨rfl, rfl⟩ := Yields.of_pure hp
    obtain ⟨node, _, hnode, hp⟩ := Yields.of_bind hfirst
    obtain ⟨rfl, rfl⟩ := Yields.of_pure hp
    obtain ⟨hwp, hwr⟩ := List.forall_mem_cons.mp hw
    have stands := nodeOf_stands henter hwp (Yields.of_within hnode) hs hh
    obtain ⟨advances, structs, hnodes, holds⟩ := ih hwr hmore stands.advances.sound stands.structs
    refine ⟨.trans (stands.advances.mono ?_) (advances.mono ?_), structs, ?_, ?_⟩
    · exact fun e he => ⟨p, List.mem_cons_self, he⟩
    · exact fun e ⟨q, hq, he⟩ => ⟨q, List.mem_cons_of_mem _ hq, he⟩
    -- What the first property mentions is held, so the others do not change its node.
    · rw [List.map_cons, hnodes, stands.node, advances.grows.node_eq stands.holds]
    · refine List.forall_mem_cons.mpr ⟨fun e he => ?_, holds⟩
      exact advances.grows.holds (stands.holds e he)

/-- What a step does that builds the definition of a class whose name was just reserved. -/
structure Opens (source : Source) (c : ClassDescriptor) (d : Shared) (definition : Definition)
    (after : Shared) : Prop where
  describes : describeClass source c.name = .ok c
  free : d.owner? c.name = none
  advances : Advances source (c.Reaches source) (d.withClass c) after
  structs : StructsHeld after
  definition : definition = c.definition after.enumName?
  holds : ∀ p ∈ c.properties, ∀ e ∈ p.kind.mentions, after.Holds e

/-- The definition of a class is built once its name is reserved. -/
theorem classDefinition_opens {enter : String → Build Node} {name : String} {u : Unit}
    {definition : Definition}
    (henter : ∀ {className node d after}, Yields (enter className) d node after →
      Sound source d → StructsHeld d → Stands source (.object className) d node after)
    (hr : Yields (reserve name (.class name)) d u between)
    (h : Yields (classDefinition source enter name) between definition after)
    (hs : Sound source d) (hh : StructsHeld d) :
    ∃ c : ClassDescriptor, c.name = name ∧ Opens source c d definition after := by
  unfold classDefinition at h
  obtain ⟨_, _, hasked, hdescribe⟩ := Yields.of_bind h
  obtain rfl := Yields.of_ask hasked
  split at hdescribe
  · exact absurd hdescribe Yields.not_throw
  rename_i c hc
  obtain ⟨_, _, hlogged, hadd⟩ := Yields.of_bind hdescribe
  obtain rfl := Yields.of_log hlogged
  obtain ⟨_, entered, hadded, hnodes⟩ := Yields.of_bind hadd
  obtain ⟨nodes, _, hnodes, hp⟩ := Yields.of_bind hnodes
  obtain ⟨rfl, rfl⟩ := Yields.of_pure hp
  obtain ⟨hn, rfl⟩ := Definitions.reserve?_eq_some (Yields.of_reserve hr)
  obtain rfl : c.name = name := (describeClass_eq_ok hc).2.2.1
  obtain rfl : entered = d.withClass c := Yields.of_define (f := (·.addClass c)) hadded
  have free := hs.owner?_eq_none hn
  have grows : Grows (· = .class c.name) d (d.withClass c) := .withClass hs free rfl
  have structs : StructsHeld (d.withClass c) := hh.advance grows (by rintro tag ⟨⟩)
  obtain ⟨advances, structs, hn, holds⟩ :=
    propertyNodes_stand henter (wellFormed_of_describeClass hc) hnodes (hs.withClass free hc) structs
  exact ⟨c, rfl, hc, free, advances, structs, congrArg _ hn, holds⟩

/-- What a class leads to through its properties, the class leads to. -/
theorem ClassDescriptor.reaches_object {c : ClassDescriptor}
    (hc : describeClass source c.name = .ok c) {e : Entity} (he : c.Reaches source e) :
    Relation.TransGen source.Mentions (.class c.name) e := by
  obtain ⟨p, hp, first, hf, hr⟩ := he
  exact .head' (.property hc hp hf) hr

namespace Opens

variable {c : ClassDescriptor} {definition : Definition}

/-- The class keeps its name while its properties are visited. -/
theorem owner? (h : Opens source c d definition after) : after.owner? c.name = some (.class c.name) :=
  h.advances.grows.owner (by rw [d.owner?_withClass, if_pos rfl])

/-- The class is found while its properties are visited. -/
theorem class? (h : Opens source c d definition after) : after.class? c.name = some c :=
  h.advances.grows.classes (by rw [d.class?_withClass, if_pos rfl])

/-- Only the class itself is left unfinished. -/
theorem unfinished (h : Opens source c d definition after) {name : String}
    (hn : after.node? name = some none) : name = c.name ∨ d.node? name = some none := by
  have := h.advances.finished hn
  rw [d.node?_withClass] at this
  split at this
  · exact .inl ‹_›
  · exact .inr this

/-- All that comes in with a class is reached from it. -/
theorem grows (h : Opens source c d definition after) (hs : Sound source d) :
    Grows (source.Reaches (.object c.name)) d after := by
  have self : source.Reaches (.object c.name) (.class c.name) :=
    source.reaches_self (List.mem_singleton.mpr rfl)
  refine (Grows.withClass hs h.free self).trans (h.advances.grows.mono fun e he => ?_)
  exact ⟨_, List.mem_singleton.mpr rfl, (ClassDescriptor.reaches_object h.describes he).to_reflTransGen⟩

/-- The definitions with the class finished. -/
theorem stored (h : Opens source c d definition after) (hs : Sound source d) :
    Advances source (source.Reaches (.object c.name)) d (after.store c.name (some definition)) := by
  have finishing : Grows (source.Reaches (.object c.name)) after
      (after.store c.name (some definition)) := ⟨id, id, id, id, id, .inl, .inl⟩
  refine ⟨?_, (h.grows hs).trans finishing, fun {name} hn => ?_⟩
  · rw [h.definition]
    exact h.advances.sound.store h.class? h.holds
  · rw [Definitions.node?_store] at hn
    split at hn
    · cases hn
    · rename_i hname
      exact (h.unfinished hn).elim (absurd · hname) id

end Opens

/-- A class is entered if its name is free, and referred to if it stands there already. -/
theorem openClass_enters {left : Nat} {className : String} {node : Node}
    (h : Yields (openClass source left className) d node after) (hs : Sound source d) :
    d.owner? className = some (.class className) ∧ Yields (Build.refer className) d node after ∨
      ∃ fewer, left = fewer + 1 ∧ Yields (do
        reserve className (.class className)
        let definition ← classDefinition source (openClass source fewer) className
        define (·.store className (some definition))
        Build.refer className) d node after := by
  unfold openClass at h
  replace h := Yields.after_definitions h
  dsimp only at h
  split at h
  · rename_i holder ho
    split at h
    · obtain ⟨_, _, hthrow, -⟩ := Yields.of_bind h
      exact absurd hthrow Yields.not_throw
    rename_i same
    split at h
    · exact .inl ⟨not_not.mp same ▸ ho, h⟩
    · rename_i present
      rw [Definitions.contains_eq_isSome, hs.owned, ho] at present
      exact absurd rfl present
  · rename_i ho
    split_ifs at h with present
    · rw [Definitions.contains_eq_isSome, hs.owned, ho] at present
      cases present
    · cases left with
      | zero => exact absurd h Yields.not_throw
      | succ fewer => exact .inr ⟨fewer, rfl, h⟩

/-- **Entering a class gives its node**, however many classes are left to enter. -/
theorem openClass_stands {left : Nat} {className : String} {node : Node}
    (h : Yields (openClass source left className) d node after) (hs : Sound source d)
    (hh : StructsHeld d) : Stands source (.object className) d node after := by
  induction left using Nat.strongRecOn generalizing className d node after with
  | ind left ih =>
  refine .of_refer rfl (fun _ => rfl) ?_
  rcases openClass_enters h hs with ⟨owner, hr⟩ | ⟨fewer, rfl, henter⟩
  -- A class that stands there already may still be unfinished: a cycle ends here.
  · exact ⟨d, .refl _ hs, owner, hh, hr⟩
  · obtain ⟨_, opened, hopen, hclass⟩ := Yields.of_bind henter
    obtain ⟨definition, filled, hclass, hstore⟩ := Yields.of_bind hclass
    obtain ⟨_, stored, hstore, hr⟩ := Yields.of_bind hstore
    obtain rfl : stored = filled.store className (some definition) :=
      Yields.of_define (f := (·.store className (some definition))) hstore
    obtain ⟨c, rfl, opens⟩ :=
      classDefinition_opens (ih fewer (Nat.lt_succ_self fewer)) hopen hclass hs hh
    exact ⟨_, opens.stored hs, opens.owner?, opens.structs, hr⟩

end ReflectedSchema
