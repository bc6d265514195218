import ReflectedSchema.Library
import ReflectedSchema.Proofs.Hosts.Tabulated
import ReflectedSchema.Proofs.Meaning.Validity
import ReflectedSchema.Proofs.Decoding.Attempt
import ReflectedSchema.Proofs.RoundTrip.Encoding

/-!
# Decoding inverts encoding

The JSON of a host value conforms to the kind of the value, and decoding it restores the value.  The
second is an induction on how the value is encoded, with one lemma for each kind that has parts: what
was decoded from the parts is read back from what the host makes of them.
-/

namespace ReflectedSchema

open HostM

/-! ## Encoded values conform -/

namespace HostView

variable {view : HostView} {source : Source}

/-- The JSON of a value conforms to the kind of the value. -/
theorem Encodes.conforms {kind : Kind} {x : HostValue} {v : Json}
    (h : view.Encodes source kind x v) : source.Conforms kind v := by
  induction h with
  | boolean b => exact .boolean b
  | integer n => exact .integer (v := .int n) rfl
  | number x => exact .numberFloat x
  | string text => exact .string text
  | dictionary fields => exact .dictionary fields
  | anyArray hl => exact .anyArray hl
  | array hl same _ ih =>
    refine .array hl fun item hi => ?_
    obtain ⟨x, -, conforms⟩ := exists_of_mem_right (List.forall₂_iff_zip.mpr ⟨same, ih _⟩) hi
    exact conforms
  | packed _ same _ hr ih =>
    refine .packed (fun item hi => ?_) hr
    obtain ⟨x, -, conforms⟩ := exists_of_mem_right (List.forall₂_iff_zip.mpr ⟨same, ih _⟩) hi
    exact conforms
  | enum hm hv => exact .enum hm (List.mem_map.mpr ⟨_, hv, rfl⟩)
  | flags hm _ =>
    refine .flags hm fun item hi => ?_
    obtain ⟨member, hmember, rfl⟩ := List.mem_map.mp hi
    exact ⟨_, List.mem_map_of_mem (List.mem_filter.mp hmember).1, rfl⟩
  | struct component _ keys _ ih => exact .struct keys ih
  | object property hc _ _ keys _ ih => exact .object hc keys ih

/-- What is written at the root conforms there. -/
theorem EncodesAtRoot.conforms {kind : Kind} {wrapped : Bool} {x : HostValue} {v : Json}
    (h : view.EncodesAtRoot source kind wrapped x v) : source.ConformsAtRoot kind wrapped v := by
  unfold EncodesAtRoot at h
  unfold Source.ConformsAtRoot
  split
  · rename_i hw
    rw [if_pos hw] at h
    obtain ⟨inner, rfl, h⟩ := h
    refine ⟨_, rfl, fun name => ?_, fun value hvalue => ?_⟩
    · by_cases hn : "value" = name <;> simp [Json.lookup, hn, Ne.symm]
    · cases hvalue
      exact h.conforms
  · rename_i hw
    rw [if_neg hw] at h
    exact h.conforms

end HostView

/-! ## Restoring values by kind -/

/-- The properties of a class have distinct names. -/
theorem Source.Distinct.propertyNames {source : Source} (h : source.Distinct) {c : ClassDescriptor}
    (hc : describeClass source c.name = .ok c) : c.propertyNames.Nodup := by
  obtain ⟨infos, hinfos, names⟩ := propertyNames_of_describeClass hc
  exact names ▸ h.properties _ _ hinfos

namespace Decoding

variable {σ : Type} {source : Source} {view : HostView} {d : Decoding σ} {location : Location}

/-- Decoding a JSON value gives a host value back, wherever the JSON value stands. -/
def Restores (source : Source) (view : HostView) (d : Decoding σ) (kind : Kind) (x : HostValue)
    (v : Json) : Prop :=
  ∀ location, Ensures (view.Same source kind x) (fun _ => False) (v.decode d kind location)

/-- Decoding the items of an array ends in items that belong to some values, if each item does. -/
theorem items_restored {R : HostValue → HostValue → Prop} {element : Kind} {xs : List HostValue}
    {items : List Json} (same : xs.length = items.length)
    (h : ∀ pair ∈ xs.zip items, ∀ location,
      Ensures (R pair.1) (fun _ => False) (pair.2.decode d element location)) :
    Ensures (List.Forall₂ R xs) (fun _ => False)
      (itemsFrom element location 0 (items.map (·.decode d))) := by
  have paired : List.Forall₂ (fun x (item : Json) => ∀ location,
      Ensures (R x) (fun _ => False) (item.decode d element location)) xs items :=
    List.forall₂_iff_zip.mpr ⟨same, h _⟩
  -- The index grows along the list, and only the locations of failures depend on it.
  generalize 0 = index
  clear same h
  induction paired generalizing index with
  | nil => exact .of_pure .nil
  | cons hx _ ih =>
    exact (hx _).bind fun y hy => (ih (index + 1)).bind fun ys hys => .of_pure (.cons hy hys)

/-- An array is restored item by item. -/
theorem array_restored {element : Kind} {length : Option Int} {xs : List HostValue}
    {items : List Json} (hl : HasLength length items) (same : xs.length = items.length)
    (h : ∀ pair ∈ xs.zip items, d.Restores source view element pair.1 pair.2) :
    d.Restores source view (.array element length) (.list xs) (.arr items) := by
  intro location
  rw [Json.decode_eq_visit]
  simp only [Json.inside, visit, List.length_map]
  refine (checkLength_ensures fun n hn hc => hc (hl n hn)).bind fun _ _ => ?_
  refine (items_restored same h).bind fun ys hys => .of_pure ?_
  obtain ⟨length_eq, pairs⟩ := List.forall₂_iff_zip.mp hys
  exact .array length_eq fun _ hpair => pairs hpair

/-- A restored item is one that its packed array takes. -/
theorem takes_of_same {tag : PackedTag} {x y : HostValue} {item : Json}
    (hx : view.Encodes source tag.element x item) (hr : tag.InRange item)
    (same : view.Same source tag.element x y) : tag.Takes y := by
  intro least most hrange
  have integer : tag.element = .integer := by cases tag <;> first | rfl | cases hrange
  rw [integer] at hx same
  cases hx with
  | integer n =>
    cases same with
    | data => exact ⟨n, rfl, hr least most hrange n rfl⟩

/-- A packed array is restored: its items are, and the host packs them to the array that they were taken
from. -/
theorem packed_restored (keeps : d.host.Keeps source view) {tag : PackedTag} {x : HostValue}
    {xs : List HostValue} {items : List Json} (hx : view.items? tag x = some xs)
    (same : xs.length = items.length)
    (encodes : ∀ pair ∈ xs.zip items, view.Encodes source tag.element pair.1 pair.2)
    (hr : ∀ item ∈ items, tag.InRange item)
    (h : ∀ pair ∈ xs.zip items, d.Restores source view tag.element pair.1 pair.2) :
    d.Restores source view (.packed tag) x (.arr items) := by
  intro location
  rw [Json.decode_eq_visit]
  simp only [Json.inside, visit]
  have restored : Ensures
      (List.Forall₂ (fun x y => view.Same source tag.element x y ∧ tag.Takes y) xs) (fun _ => False)
      (itemsFrom tag.element location 0 (items.map (·.decode d))) :=
    items_restored same fun pair hp location => (h pair hp location).mono
      (fun y hy => ⟨hy, takes_of_same (encodes pair hp) (hr _ (List.of_mem_zip hp).2) hy⟩) fun _ => id
  refine restored.bind fun ys hys => ?_
  have takes : ∀ y ∈ ys, tag.Takes y := by
    intro y hy
    obtain ⟨_, -, -, takes⟩ := exists_of_mem_right hys hy
    exact takes
  have made : Ensures (view.Same source (.packed tag) x) (fun _ => False)
      (d.host.constructPacked (.packed tag) ys) := by
    refine (keeps.constructPacked tag ys takes).mono (fun y hy => ?_) fun _ => id
    obtain ⟨length_eq, pairs⟩ := List.forall₂_iff_zip.mp hys
    exact .packed hx hy length_eq fun _ hpair => (pairs hpair).1
  cases hrange : tag.range with
  | none => exact made
  | some range =>
    obtain ⟨least, most⟩ := range
    refine (rangeFrom_ensures (fun y hy n hn outside _ => ?_) 0).bind fun _ _ => made
    -- A restored item is the integer that was encoded, so the range check does not stop it.
    obtain ⟨m, rfl, hleast, hmost⟩ := takes y hy least most hrange
    cases hn
    omega

/-! ## Enumerations -/

/-- A member is looked up by its name. -/
theorem lookup_of_mem {e : EnumDescriptor} {name : String} {v : EnumValue}
    (distinct : (e.members.map (·.1)).Nodup) (h : (name, v) ∈ e.members) : e.lookup name = some v := by
  have carried : ∃ m ∈ e.members, m.1 = name := ⟨_, h, rfl⟩
  obtain ⟨⟨found, w⟩, hm, hname, hf⟩ := exists_find? carried
  obtain rfl : found = name := hname
  have same := List.inj_on_of_nodup_map distinct hm h rfl
  rw [EnumDescriptor.lookup, hf, same]
  rfl

/-- The name of a member is decoded as its value. -/
theorem memberValue_restored {e : EnumDescriptor} {name : String} {v : EnumValue}
    (h : e.lookup name = some v) (location : Location) :
    Ensures (σ := σ) (· = v) (fun _ => False) (memberValue e (.str name) location) := by
  refine (memberValue_ensures fun hn => ?_).mono (fun w hw => ?_) fun _ => id
  · exact nomatch hn.symm.trans h
  · exact Option.some.inj (hw.symm.trans h)

/-- The names of members are decoded as the union of their values. -/
theorem unionFrom_restored {e : EnumDescriptor} {members : List (String × EnumValue)}
    (h : ∀ m ∈ members, e.lookup m.1 = some m.2) (index : Nat) (start : EnumValue) :
    Ensures (σ := σ) (· = (members.map (·.2)).foldl EnumValue.union start) (fun _ => False)
      (unionFrom e location index start (members.map fun (name, _) => .str name)) := by
  induction members generalizing index start with
  | nil => exact .of_pure rfl
  | cons m rest ih =>
    obtain ⟨hm, hrest⟩ := List.forall_mem_cons.mp h
    refine (memberValue_restored hm _).bind fun v hv => ?_
    rw [hv]
    exact ih hrest (index + 1) (start.union m.2)

/-- A member is restored from its name, since no other member has it. -/
theorem enum_restored {described : Entity → Prop} (hs : d.schema.Complete source described)
    (distinct : source.Distinct) {owner name text : String} {v : EnumValue}
    {members : List (String × EnumValue)}
    (hw : (Kind.enum owner name false).WellFormed source.hasClass)
    (hd : described (.enum (enumPath owner name))) (hm : source.members owner name = .ok members)
    (hv : (text, v) ∈ members) :
    d.Restores source view (.enum owner name false) (.enum v) (.str text) := by
  intro location
  obtain ⟨e, he, hm', -⟩ := hs.enums hw hd
  obtain rfl := Except.ok.inj (hm.symm.trans hm')
  rw [Json.decode_eq_visit]
  simp only [visit, enumValue, he]
  refine (memberValue_restored (lookup_of_mem (distinct.members _ _ _ hm) hv) location).bind ?_
  rintro _ rfl
  exact .of_pure (.enum owner name _)

/-- A set of flags is restored from the names of its members. -/
theorem flags_restored {described : Entity → Prop} (hs : d.schema.Complete source described)
    (distinct : source.Distinct) {owner name : String} {v : EnumValue}
    {members : List (String × EnumValue)}
    (hw : (Kind.enum owner name true).WellFormed source.hasClass)
    (hd : described (.enum (enumPath owner name))) (hm : source.members owner name = .ok members)
    (hv : IsUnionOf members v) :
    d.Restores source view (.enum owner name true) (.enum v)
      (.arr ((containedMembers members v).map fun (name, _) => .str name)) := by
  intro location
  obtain ⟨e, he, hm', nonempty⟩ := hs.enums hw hd
  obtain rfl := Except.ok.inj (hm.symm.trans hm')
  rw [Json.decode_eq_visit]
  simp only [visit, enumValue, he]
  have found : ∀ m ∈ containedMembers e.members v, e.lookup m.1 = some m.2 := fun m hmem =>
    lookup_of_mem (distinct.members _ _ _ hm) (List.mem_filter.mp hmem).1
  refine (noFlags_ensures nonempty).bind fun empty hempty => ?_
  refine (unionFrom_restored found 0 empty).bind ?_
  rintro _ rfl
  exact .of_pure (.flags (toInt_union_contained hv hempty).symm)

/-! ## Value structs and objects -/

/-- What was decoded under distinct names is a function of the names. -/
theorem exists_decoded {α : Type} {key : α → String} {R : α → HostValue → Prop} {declared : List α}
    {results : List (String × HostValue)} (distinct : (results.map (·.1)).Nodup)
    (h : List.Forall₂ (fun x out => out.1 = key x ∧ R x out.2) declared results) :
    ∃ decoded : String → HostValue, ∀ x ∈ declared,
      (key x, decoded (key x)) ∈ results ∧ R x (decoded (key x)) := by
  refine ⟨fun name => (Json.lookup name results).getD default, fun x hx => ?_⟩
  obtain ⟨⟨name, y⟩, hy, rfl, hr⟩ := of_forall₂ h hx
  have found := (Json.lookup_eq_some_iff distinct).mpr hy
  simp only [found, Option.getD_some]
  exact ⟨hy, hr⟩

/-- A declared field is restored. -/
theorem field_restored {fields : List (String × Json)} {name : String} {kind : Kind} {x : HostValue}
    (present : (Json.lookup name fields).isSome)
    (h : ∀ value, Json.lookup name fields = some value → d.Restores source view kind x value) :
    Ensures (view.Same source kind x) (fun _ => False)
      (field (fields.map fun (name, value) => (name, value.decode d)) name kind location) := by
  obtain ⟨value, hv⟩ := Option.isSome_iff_exists.mp present
  rw [field, Json.lookup_map, hv]
  exact h value hv _

/-- A struct is restored: its components are, and the host keeps them. -/
theorem struct_restored (keeps : d.host.Keeps source view) {tag : StructTag} {x : HostValue}
    {fields : List (String × Json)} (component : String → HostValue)
    (hx : ∀ c ∈ tag.layout, view.component? tag x c.1 = some (view.stored (component c.1)))
    (keys : HasKeys (tag.layout.map (·.1)) fields)
    (h : ∀ c ∈ tag.layout, ∀ value, Json.lookup c.1 fields = some value →
      d.Restores source view c.2 (component c.1) value) :
    d.Restores source view (.struct tag) x (.obj fields) := by
  intro location
  rw [Json.decode_eq_visit]
  simp only [Json.inside, visit]
  refine (components_ensures (R := fun c y => view.Same source c.2 (component c.1) y) fun c hc =>
    field_restored ((keys _).mpr (List.mem_map_of_mem hc)) (h c hc)).bind fun results hr => ?_
  have names : results.map (·.1) = tag.layout.map (·.1) := names_of_forall₂ hr fun _ _ h => h.1
  obtain ⟨decoded, hdecoded⟩ := exists_decoded (names ▸ StructTag.distinct_layout tag) hr
  refine (keeps.constructStruct tag results names).mono (fun y hy => ?_) fun _ => id
  refine .struct component decoded hx (fun c hc => ?_) fun c hc => (hdecoded c hc).2
  exact hy _ (hdecoded c hc).1

/-- Properties that were set one after the other can be read back, and the others are as they were. -/
theorem assign_keeps {host : Host σ} (keeps : host.Keeps source view) {c : ClassDescriptor}
    (hc : describeClass source c.name = .ok c) {values : List (String × HostValue)}
    (declared : ∀ value ∈ values, value.1 ∈ c.propertyNames) (distinct : (values.map (·.1)).Nodup)
    {object : HostValue} (hclass : view.class? object = some c.name) :
    Ensures (fun after => view.class? after = some c.name ∧
        (∀ value ∈ values, view.property? after value.1 = some value.2) ∧
        ∀ other, other ∉ values.map (·.1) → view.property? after other = view.property? object other)
      (fun _ => False) (assign host c.name object values) := by
  induction values generalizing object with
  | nil => exact .of_pure ⟨hclass, fun _ h => absurd h List.not_mem_nil, fun _ _ => rfl⟩
  | cons value rest ih =>
    obtain ⟨hv, hrest⟩ := List.forall_mem_cons.mp declared
    obtain ⟨p, hp, hname⟩ := List.mem_map.mp hv
    rw [List.map_cons, List.nodup_cons] at distinct
    rw [assign, ← hname]
    refine ((keeps.setProperty c hc p hp object value.2 hclass).within fun _ => id).bind ?_
    rintro object' ⟨hclass', hset, hothers⟩
    refine (ih hrest distinct.2 hclass').mono (fun after hafter => ?_) fun _ => id
    obtain ⟨hafter, hread, hkept⟩ := hafter
    -- The names are distinct, so the first property is not set again.
    refine ⟨hafter, List.forall_mem_cons.mpr ⟨?_, hread⟩, fun other hother => ?_⟩
    · rw [hkept _ distinct.1, ← hname]
      exact hset
    · rw [List.map_cons, List.mem_cons, not_or] at hother
      rw [hkept other hother.2]
      exact hothers other (hname ▸ hother.1)

/-- An object is restored: its properties are, and the host keeps them. -/
theorem object_restored {described : Entity → Prop} (hs : d.schema.Complete source described)
    (keeps : d.host.Keeps source view) (distinct : source.Distinct) {c : ClassDescriptor}
    {x : HostValue} {fields : List (String × Json)} (property : String → HostValue)
    (hd : described (.class c.name)) (hc : describeClass source c.name = .ok c)
    (hclass : view.class? x = some c.name)
    (hx : ∀ p ∈ c.properties, view.property? x p.name = some (property p.name))
    (keys : HasKeys c.propertyNames fields)
    (h : ∀ p ∈ c.properties, ∀ value, Json.lookup p.name fields = some value →
      d.Restores source view p.kind (property p.name) value) :
    d.Restores source view (.object c.name) x (.obj fields) := by
  intro location
  obtain ⟨c', hfound, hc'⟩ := hs.classes hd
  obtain rfl := Except.ok.inj (hc.symm.trans hc')
  rw [Json.decode_eq_visit]
  simp only [Json.inside, visit, object, hfound]
  split
  · rename_i name decoder hfind
    cases hfind.symm.trans (find_undeclared_eq_none.mpr fun name => (keys name).mp)
  refine (properties_ensures (fun _ _ _ => id) (R := fun p y => view.Same source p.kind (property p.name) y)
    fun p hp => field_restored ((keys _).mpr (List.mem_map_of_mem hp)) (h p hp)).bind
    fun results hr => ?_
  have names : results.map (·.1) = c.propertyNames := names_of_forall₂ hr fun _ _ h => h.1
  have unique : (results.map (·.1)).Nodup := names ▸ distinct.propertyNames hc
  obtain ⟨decoded, hdecoded⟩ := exists_decoded unique hr
  refine (keeps.construct c hc).bind fun object hobject => ?_
  have declared : ∀ value ∈ results, value.1 ∈ c.propertyNames := by
    intro value hv
    rw [← names]
    exact List.mem_map_of_mem hv
  refine (assign_keeps keeps hc declared unique hobject).mono (fun y hy => ?_) fun _ => id
  obtain ⟨hy, hread, -⟩ := hy
  refine .object property decoded hc hclass hy hx (fun p hp => ?_) fun p hp => (hdecoded p hp).2
  exact hread _ (hdecoded p hp).1

end Decoding

/-- **Decoding inverts encoding**: when a schema describes what a kind mentions, the JSON of a value of
the kind is decoded to a value that is the same. -/
theorem HostView.Encodes.restored {σ : Type} {source : Source} {described : Entity → Prop}
    {view : HostView} {d : Decoding σ} (hs : d.schema.Complete source described)
    (keeps : d.host.Keeps source view) (distinct : source.Distinct) {kind : Kind} {x : HostValue}
    {v : Json} (h : view.Encodes source kind x v) (hw : kind.WellFormed source.hasClass)
    (hd : ∀ e ∈ kind.mentions, described e) : d.Restores source view kind x v := by
  induction h with
  | boolean b => exact fun _ => .of_pure (.data rfl _)
  | integer n => exact fun _ => .of_pure (.data rfl _)
  | number x => exact fun _ => .of_pure (.data rfl _)
  | string text => exact fun _ => .of_pure (.data rfl _)
  | dictionary fields =>
    intro location
    rw [Json.decode_eq_visit]
    exact .of_pure (.data rfl _)
  | anyArray hl =>
    intro location
    rw [Json.decode_eq_visit]
    exact (Decoding.checkLength_ensures fun n hn hc => hc (hl n hn)).bind fun _ _ =>
      .of_pure (.data rfl _)
  | array hl same _ ih =>
    exact Decoding.array_restored hl same fun pair hp => ih pair hp hw hd
  | @packed tag x xs items hx same encodes hr ih =>
    have element : tag.element.WellFormed source.hasClass := by cases tag <;> trivial
    exact Decoding.packed_restored keeps hx same encodes hr fun pair hp =>
      ih pair hp element (Kind.mentions_packed tag ▸ hd)
  | enum hm hv =>
    exact Decoding.enum_restored hs distinct hw (hd _ (List.mem_singleton.mpr rfl)) hm hv
  | flags hm hv =>
    exact Decoding.flags_restored hs distinct hw (hd _ (List.mem_singleton.mpr rfl)) hm hv
  | struct component hx keys _ ih =>
    refine Decoding.struct_restored keeps component hx keys fun c hc value hv => ?_
    exact ih c hc value hv (StructTag.wellFormed_layout _ hc) fun e he =>
      hs.closed (hd _ (List.mem_singleton.mpr rfl)) (.component hc he)
  | object property hc hclass hx keys _ ih =>
    have hclassd := hd _ (List.mem_singleton.mpr rfl)
    refine Decoding.object_restored hs keeps distinct property hclassd hc hclass hx keys
      fun p hp value hv => ?_
    exact ih p hp value hv (wellFormed_of_describeClass hc p hp) fun e he =>
      hs.closed hclassd (.property hc hp he)

/-- **Round trip.**  For every schema that was built over a source with plain and distinct names, and
every value of its root kind in a host that keeps what it is given, the JSON of the value is accepted,
and decoding it ends, in every state of the host, in a value that is the same.  So does instantiating
any payload that reads as that JSON, whatever the limits are, unless it nests deeper than these allow. -/
theorem round_trip {σ : Type} {source : Source} (plain : source.PlainNames) (distinct : source.Distinct)
    {kind : Kind} {schema : Schema} (h : schema.Built source kind) {view : HostView} {host : Host σ}
    (keeps : host.Keeps source view) {x : HostValue} {v : Json}
    (encodes : view.EncodesAtRoot source schema.root schema.wrapped x v) :
    schema.accepts v ∧
    (∀ s, ∃ y s', (ExceptT.run (schema.decode host v)).run s = (.ok y, s') ∧
      view.Same source schema.root x y) ∧
    ∀ (limits : Limits) (payload : Payload), payload.read limits.nesting = .ok v →
      v.depth ≤ limits.depth → ∀ s, ∃ y, ((schema.instantiate limits host payload).run s).1.result = .ok y ∧
        view.Same source schema.root x y := by
  obtain ⟨names, shared, presents⟩ := h.presents
  have accepted := (presents.accepts_iff plain v).mpr encodes.conforms
  have restored : Ensures (view.Same source schema.root x) (fun _ => False) (schema.decode host v) := by
    have inner : ∀ w, view.Encodes source schema.root x w →
        Decoding.Restores source view ⟨host, schema⟩ schema.root x w := fun w hw =>
      hw.restored (d := ⟨host, schema⟩) presents.complete keeps distinct presents.wellFormed
        fun e he => source.reaches_self (presents.mentions ▸ he)
    unfold HostView.EncodesAtRoot at encodes
    unfold Schema.decode
    split
    · rename_i hw
      rw [if_pos hw] at encodes
      obtain ⟨w, rfl, encodes⟩ := encodes
      exact inner w encodes _
    · rename_i hw
      rw [if_neg hw] at encodes
      exact inner v encodes _
  have ends : ∀ s, ∃ y s', (ExceptT.run (schema.decode host v)).run s = (.ok y, s') ∧
      view.Same source schema.root x y := by
    intro s
    rcases hr : (ExceptT.run (schema.decode host v)).run s with ⟨e | y, s'⟩
    · exact (restored.raised hr).elim
    · exact ⟨y, s', rfl, restored.result hr⟩
  refine ⟨accepted, ends, fun limits payload read depth s => ?_⟩
  obtain ⟨y, s', hy, same⟩ := ends s
  refine ⟨y, ?_, same⟩
  rw [Schema.instantiate_of_admits ⟨read, depth, accepted⟩, hy]
  rfl

/-- A person as a record. -/
def recordOf (name : String) (mood : Int) (friends : List HostValue) : HostValue :=
  .record "Person" [("name", .data (.str name)), ("mood", .enum (.int mood)), ("friends", .list friends)]

/-- The JSON of a person goes by that of the friends. -/
theorem encodes_person (name : String) {member : String} {mood : Int} (friends : List HostValue)
    (items : List Json) (hm : (member, .int mood) ∈ [("Glad", EnumValue.int 0), ("Sad", .int 1)])
    (same : friends.length = items.length)
    (h : ∀ pair ∈ friends.zip items,
      Table.view.Encodes people.source (.object "Person") pair.1 pair.2) :
    Table.view.Encodes people.source (.object "Person") (recordOf name mood friends)
      (.obj [("name", .str name), ("mood", .str member), ("friends", .arr items)]) := by
  refine .object (c := person) (fun property => ((Table.view.property?
    (recordOf name mood friends) property).getD default)) describeClass_person rfl ?_ (.self _) ?_
  · intro p hp
    simp only [person, List.mem_cons, List.not_mem_nil, or_false] at hp
    rcases hp with rfl | rfl | rfl <;> rfl
  · intro p hp value hv
    simp only [person, List.mem_cons, List.not_mem_nil, or_false] at hp
    rcases hp with rfl | rfl | rfl
    · cases hv
      exact .string name
    · cases hv
      exact .enum members_mood hm
    · cases hv
      exact .array (.none _) same h

/-- A sad person with a glad friend goes to JSON and back. -/
theorem round_trip_person :
    ∃ schema, (buildClass people.source "Person" "").run.1 = .ok schema ∧
      ∃ y, (ExceptT.run (schema.decode people.host
          (.obj [("name", .str "Grace"), ("mood", .str "Sad"), ("friends", .arr [ada])]))).run () =
            (.ok y, ()) ∧
        Table.view.Same people.source (.object "Person")
          (recordOf "Grace" 1 [recordOf "Ada" 0 []]) y := by
  obtain ⟨schema, h⟩ := exists_schema_person
  obtain ⟨root, wrapped⟩ := buildClass_root h
  have friend : Table.view.Encodes people.source (.object "Person") (recordOf "Ada" 0 []) ada :=
    encodes_person "Ada" [] [] (by decide) rfl fun _ hp => absurd hp List.not_mem_nil
  have sad : ("Sad", EnumValue.int 1) ∈ [("Glad", EnumValue.int 0), ("Sad", .int 1)] := by decide
  have encodes := encodes_person "Grace" [recordOf "Ada" 0 []] [ada] sad rfl
    (List.forall_mem_singleton.mpr friend)
  obtain ⟨-, decoded, -⟩ := round_trip plainNames_people distinct_people (.class h) keeps_people
    (x := recordOf "Grace" 1 [recordOf "Ada" 0 []]) (by rw [root, wrapped]; exact encodes)
  obtain ⟨y, _, hy, same⟩ := decoded ()
  exact ⟨schema, h, y, hy, root ▸ same⟩

end ReflectedSchema
