import ReflectedSchema.Proofs.References.Identity

/-!
# Where references lead

Every shared definition of a schema that was built is referenced somewhere, and every reference holds
the name of one.  It is followed down the shared definitions by the names that its own name is read
back as.  So where names read back as themselves, every reference leads to the definition that it was
made for, and a check ends for every value.

Nothing keeps a class from having another name, though: references hold names as they are, without the
escapes that pointers to places in values have.  The schema of homes below is built, and no check of a
home with an annex ends in a list.
-/

namespace ReflectedSchema

open Build

/-! ## Definitions are referenced -/

namespace Schema.Presents

variable {source : Source} {kind : Kind} {names : String → Option String}
  {shared : List (String × Definition)} {schema : Schema}

/-- The node of a kind refers to the key of what the kind mentions. -/
theorem mem_target? (h : schema.Presents source kind names shared) {k : Kind}
    (hl : ∀ e ∈ k.mentions, source.Live kind e) {e : Entity} (he : e ∈ k.mentions) {key : String}
    (hk : e.key? names = some key) : (k.node names).target? = some key := by
  have keys : ∀ e ∈ k.mentions, (e.key? names).isSome := fun e he => by
    obtain ⟨name, -, hn, -⟩ := h.shares.defined (hl e he)
    rw [hn]
    rfl
  rw [← Option.mem_toList, Kind.target?_node keys]
  exact List.mem_filterMap.mpr ⟨e, he, hk⟩

/-- The definition of an object refers to what its properties mention. -/
theorem mem_targets_object (h : schema.Presents source kind names shared) {α : Type} {xs : List α}
    (property : α → NodeProperty) (kindOf : α → Kind)
    (hp : ∀ x ∈ xs, (property x).node = (kindOf x).node names)
    (hl : ∀ x ∈ xs, ∀ e ∈ (kindOf x).mentions, source.Live kind e) {x : α} (hx : x ∈ xs) {e : Entity}
    (he : e ∈ (kindOf x).mentions) {key : String} (hk : e.key? names = some key) :
    key ∈ (Definition.object (xs.map property)).targets := by
  refine List.mem_filterMap.mpr ⟨property x, List.mem_map_of_mem hx, ?_⟩
  rw [hp x hx]
  exact h.mem_target? (hl x hx) he hk

/-- The definition of a class refers to what its properties mention. -/
theorem mem_targets_class (h : schema.Presents source kind names shared) {c : ClassDescriptor}
    (hl : ∀ p ∈ c.properties, ∀ e ∈ p.kind.mentions, source.Live kind e) {p : PropertyDescriptor}
    (hp : p ∈ c.properties) {e : Entity} (he : e ∈ p.kind.mentions) {key : String}
    (hk : e.key? names = some key) : key ∈ (c.definition names).targets :=
  h.mem_targets_object _ PropertyDescriptor.kind (fun _ _ => rfl) hl hp he hk

/-- What a live entity mentions is referenced in its definition. -/
theorem mem_targets_shared (h : schema.Presents source kind names shared) {holder e : Entity}
    (live : source.Live kind holder) (hm : source.Mentions holder e) {key : String}
    (hk : e.key? names = some key) : key ∈ shared.flatMap (·.2.targets) := by
  obtain ⟨name, definition, -, stored, hd⟩ := h.shares.defined live
  refine List.mem_flatMap.mpr ⟨_, stored, ?_⟩
  cases hm with
  | @component tag component e hc he =>
    cases hd
    rw [tag.definition_eq names]
    exact h.mem_targets_object _ Prod.snd (fun _ _ => rfl)
      (fun component hc e he => live.mentions (.component hc he)) hc he hk
  | property hc hp he =>
    cases hd with
    | «class» hc' =>
      obtain rfl := Except.ok.inj (hc.symm.trans hc')
      exact h.mem_targets_class (fun p hp e he => live.mentions (.property hc hp he)) hp he hk

end Schema.Presents

/-- What a kind with a shape mentions is live, or it is a class whose definition is inlined. -/
theorem Kind.HasShape.live_or_inline {source : Source} {live : Entity → Prop}
    {names : String → Option String} {kind : Kind} {s : Shape}
    (h : kind.HasShape source live names s) {holder : Entity} (hm : holder ∈ kind.mentions) :
    live holder ∨ ∃ c, holder = .class c.name ∧ describeClass source c.name = .ok c ∧
      s.targets = (c.definition names).targets ∧
      ∀ p ∈ c.properties, ∀ e ∈ p.kind.mentions, live e := by
  induction h with
  | node _ hl => exact .inl (hl _ hm)
  | @inline c hc hl => exact .inr ⟨c, List.mem_singleton.mp hm, hc, rfl, hl⟩
  | items _ ih => exact ih hm

/-- **Every definition is referenced**: the key of a live entity is a target of a shared definition or
of the root, where a kind that is neither a class nor any object stands under the wrapper. -/
theorem Schema.Presents.mem_targets_of_live {source : Source} {kind : Kind}
    {names : String → Option String} {shared : List (String × Definition)} {schema : Schema}
    (h : schema.Presents source kind names shared) {s : Shape}
    (hs : schema.HasShape source (source.Live kind) names s)
    (root : kind.isWrapped = true → schema.wrapped = true) {e : Entity} (he : source.Live kind e)
    {key : String} (hk : e.key? names = some key) :
    key ∈ shared.flatMap (·.2.targets) ++ s.targets := by
  cases hs with
  | wrapped _ _ hl =>
    obtain ⟨first, hf, hr⟩ := he.reaches
    rw [← h.mentions] at hf
    rcases hr.cases_tail with rfl | ⟨holder, hr, hm⟩
    · refine List.mem_append_right _ (List.mem_filterMap.mpr ⟨_, List.mem_singleton.mpr rfl, ?_⟩)
      exact h.mem_target? hl hf hk
    · have live : source.Live kind holder := by
        clear hm
        induction hr with
        | refl => exact hl _ hf
        | tail _ hm ih => exact ih.mentions hm
      exact List.mem_append_left _ (h.mem_targets_shared live hm hk)
  | plain hw hs =>
    cases kind with
    | object className =>
      -- The last mention on the way to the entity is in the class at the root or in a live entity.
      obtain ⟨holder, hr, hm⟩ := Relation.TransGen.tail'_iff.mp he
      have known : source.Live (.object className) holder ∨ holder = .class className :=
        (Relation.reflTransGen_iff_eq_or_transGen.mp hr).symm
      have found : source.Live (.object className) holder ∨ _ := known.elim .inl fun hc =>
        hs.live_or_inline (h.mentions ▸ hc ▸ List.mem_singleton.mpr rfl)
      rcases found with live | ⟨c, rfl, hc, ht, hl⟩
      · exact List.mem_append_left _ (h.mem_targets_shared live hm hk)
      · cases hm with
        | property hc' hp he =>
          obtain rfl := Except.ok.inj (hc.symm.trans hc')
          exact List.mem_append_right _ (ht ▸ h.mem_targets_class hl hp he hk)
    | dictionary =>
      obtain ⟨first, hf, -⟩ := he
      cases hf
    | _ => cases hw.symm.trans (root rfl)

/-- The shape of a value has the targets of the shape at the root. -/
theorem Schema.Unwraps.targets_eq {names : String → Option String} {schema : Schema} {s inner : Shape}
    (h : schema.Unwraps names s inner) : inner.targets = s.targets := by
  cases h with
  | plain => rfl
  | wrapped =>
    show _ = List.filterMap _ [_]
    cases ht : (schema.root.node names).target? <;> simp [Shape.targets, ht]

/-- **Every shared definition of a schema is referenced** somewhere in its document. -/
theorem Schema.Built.referenced {source : Source} {kind : Kind} {schema : Schema}
    (h : schema.Built source kind) :
    ∀ e ∈ schema.definitions, referenceTo e.1 ∈ schema.document.references := by
  have base : ∀ {kind : Kind} {schema : Schema}, schema.Built source kind →
      (kind.isWrapped = true → schema.wrapped = true) →
      ∀ e ∈ schema.definitions, referenceTo e.1 ∈ schema.document.references := by
    intro kind schema h root e he
    obtain ⟨names, shared, presents⟩ := h.presents
    obtain ⟨s, hs, hd⟩ := presents.shape
    rw [presents.definitions] at he
    obtain ⟨⟨key, definition⟩, hm, rfl⟩ := List.mem_map.mp he
    obtain ⟨e, live, hk, -⟩ := presents.shares.lives hm
    rw [hd, s.references_document]
    exact List.mem_map_of_mem (presents.mem_targets_of_live hs root live hk)
  induction h with
  | «class» h => exact base (.class h) nofun
  | type hk h =>
    obtain ⟨kind, hk', -, hw⟩ := buildType_root h
    obtain rfl := Except.ok.inj (hk.symm.trans hk')
    exact base (.type hk h) hw.trans
  | array hi h ih =>
    obtain ⟨names, shared, presents⟩ := hi.presents
    obtain ⟨same, -, -⟩ := hi.array_keeps h
    obtain ⟨s, inner, hd, hu, -, rfl⟩ := arraySchema_eq_ok presents h
    rw [same]
    rw [hd, s.references_document, ← hu.targets_eq] at ih
    rw [Schema.ofArray, (Shape.items inner).references_document]
    exact ih

/-! ## References that lead to their definitions -/

/-- Every reference of a schema leads to the definition under the name that it holds. -/
def Schema.Resolvable (schema : Schema) : Prop :=
  ∀ reference ∈ schema.document.references, ∃ e ∈ schema.definitions,
    reference = referenceTo e.1 ∧ schema.document.follow? reference = some e.2

/-- References hold names as they are. -/
theorem referenceTo_injective {name other : String} (h : referenceTo name = referenceTo other) :
    name = other := by
  have texts := congrArg String.toList h
  simp only [referenceTo, String.toList_append] at texts
  exact String.toList_inj.mp (List.append_cancel_left texts)

namespace Schema.Presents

variable {source : Source} {kind : Kind} {names : String → Option String}
  {shared : List (String × Definition)} {schema : Schema}

/-- Where references lead to their definitions, the glossary of a schema says what its document
says. -/
theorem describes_of_resolvable (h : schema.Presents source kind names shared)
    (built : schema.Built source kind) (resolvable : schema.Resolvable) :
    (Source.Shares.glossary shared schema.checker.enumNameOf).Describes schema.checker where
  follow {name d} hd := by
    have stored : (name, d.toJson) ∈ schema.definitions := by
      rw [h.definitions]
      exact List.mem_map.mpr ⟨_, Json.mem_of_lookup hd, rfl⟩
    obtain ⟨e, he, hr, hf⟩ := resolvable _ (built.referenced _ stored)
    have distinct : (schema.definitions.map (·.1)).Nodup := built.sorted.imp ne_of_lt
    have found := (Json.lookup_eq_some_iff distinct).mpr he
    rw [← referenceTo_injective hr, (Json.lookup_eq_some_iff distinct).mpr stored] at found
    exact hf.trans found.symm
  closed {name d} hd t ht := by
    obtain ⟨e, he, -, hdef⟩ := h.shares.lives (Json.mem_of_lookup hd)
    exact h.shares.resolves_definition Source.Live.mentions he hdef _ t ht
  enumNameOf _ := rfl

end Schema.Presents

/-- Where the names of definitions read back, references lead to their definitions. -/
theorem Schema.Built.resolvable {source : Source} {kind : Kind} {schema : Schema}
    (h : schema.Built source kind) (readable : ∀ e ∈ schema.definitions, ReadsBack e.1) :
    schema.Resolvable := by
  intro reference hr
  obtain ⟨names, shared, presents⟩ := h.presents
  have refers := presents.refers h.sorted
  obtain ⟨s, -, hd⟩ := refers.root
  obtain ⟨e, key, -, -, rfl, hk⟩ := refers.references reference hr
  obtain ⟨⟨key, document⟩, stored, rfl⟩ := List.mem_map.mp hk
  have distinct : (schema.definitions.map (·.1)).Nodup := h.sorted.imp ne_of_lt
  refine ⟨_, stored, rfl, ?_⟩
  rw [hd, (readable _ stored).follow?]
  exact (Json.lookup_eq_some_iff distinct).mpr stored

/-- **References lead where they should.**  When the names of the shared definitions of a schema that
was built read back, every reference of its document leads to the definition of the entity that it
was made for, and a check ends for every value. -/
theorem references_resolve {source : Source} {kind : Kind} {schema : Schema}
    (h : schema.Built source kind) (readable : ∀ e ∈ schema.definitions, ReadsBack e.1) :
    (∃ names, schema.Refers source kind names ∧
      ∀ reference ∈ schema.document.references, ∃ e key definition, source.Live kind e ∧
        e.key? names = some key ∧ source.DefinitionOf names e definition ∧
        reference = referenceTo key ∧
        schema.document.follow? reference = some definition.toJson) ∧
    ∀ v, ∃ found, schema.checker.findings v = .ok found := by
  obtain ⟨names, shared, presents⟩ := h.presents
  have resolvable := h.resolvable readable
  refine ⟨⟨names, presents.refers h.sorted, fun reference hr => ?_⟩, fun v => ?_⟩
  · obtain ⟨⟨key, document⟩, stored, rfl, hf⟩ := resolvable reference hr
    obtain ⟨e, definition, live, hk, hd, rfl⟩ :=
      ((presents.refers h.sorted).definitions key document).mp stored
    exact ⟨e, key, definition, live, hk, hd, rfl, hf⟩
  · obtain ⟨found, hf, -⟩ := presents.decides (presents.describes_of_resolvable h resolvable) v
    exact ⟨found, hf⟩

/-- The references in the schema of homes lead to the two moods and to the room. -/
theorem references_resolve_home : ∃ schema, (buildClass homes.source "Home" "").run.1 = .ok schema ∧
    (∃ names, schema.Refers homes.source (.object "Home") names ∧
      ∀ reference ∈ schema.document.references, ∃ e key definition,
        homes.source.Live (.object "Home") e ∧ e.key? names = some key ∧
        homes.source.DefinitionOf names e definition ∧ reference = referenceTo key ∧
        schema.document.follow? reference = some definition.toJson) ∧
    ∀ v, ∃ found, schema.checker.findings v = .ok found := by
  obtain ⟨schema, h, keys⟩ := exists_schema_home
  refine ⟨schema, h, references_resolve (.class h) fun e he => ?_⟩
  have readable : ∀ name ∈ ["Mood", "Room", "Room.Mood"], ReadsBack name := by decide
  exact readable e.1 (keys ▸ List.mem_map_of_mem he)

/-! ## References that lead nowhere -/

/-- Homes with a room whose class has a slash in its name. -/
def annexes : Table where
  classes := [
    ("Home", { properties := [{ name := "room", type := .object, className := "Home/Room" }] }),
    ("Home/Room", {})]

/-- The document of these homes. -/
def annexesDocument : Json :=
  assemble [("Home/Room", (Definition.object []).toJson)]
    (Definition.object [⟨"room", .ref "Home/Room", none⟩]).fields

/-- A home as its class describes it. -/
def annexed : Json := .obj [("room", .obj [])]

/-- The name with a slash leads to no definition. -/
theorem annexed_unresolved (enums : List EnumDescriptor) :
    (Checker.mk annexesDocument enums).findings annexed =
      .error (.unresolvedReference "#/$defs/Home/Room") := rfl

/-- Nothing is wrong with such a home, but to check it ends in a fault. -/
theorem annexed_home_unresolved : ∃ schema,
    (buildClass annexes.source "Home" "").run.1 = .ok schema ∧
      annexes.source.Conforms (.object "Home") annexed ∧
      schema.checker.findings annexed = .error (.unresolvedReference "#/$defs/Home/Room") := by
  have documents : ((buildClass annexes.source "Home" "").run.1.toOption.map (·.document)) =
      some annexesDocument := by cbv
  obtain ⟨schema, hs, hd⟩ := Option.map_eq_some_iff.mp documents
  cases hb : (buildClass annexes.source "Home" "").run.1 with
  | error e =>
    rw [hb] at hs
    cases hs
  | ok built =>
    rw [hb] at hs
    obtain rfl := Option.some.inj hs
    refine ⟨built, rfl, ?_, ?_⟩
    · refine .object (c := ⟨"Home", [⟨"room", .object "Home/Room", none⟩]⟩) (by rfl) (.self _) ?_
      intro p hp value hv
      obtain rfl := List.mem_singleton.mp hp
      cases hv
      exact .object (c := ⟨"Home/Room", []⟩) (by rfl) (.self _) fun _ hp => absurd hp List.not_mem_nil
    · rw [Schema.checker, hd]
      exact annexed_unresolved _

end ReflectedSchema
