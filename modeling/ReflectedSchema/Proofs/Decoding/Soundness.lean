import ReflectedSchema.Proofs.Building.Distinct
import ReflectedSchema.Proofs.Hosts.Making
import ReflectedSchema.Proofs.RoundTrip.Inverse

/-!
# Decoded values have the type of their kind

`HostForms.HasType` says which values of a host are those of a kind that a JSON value gives.  It goes by
the source alone and assumes nothing of the value, so that it also speaks of values that no check has
seen.  Decoding gives nothing else, by any kind that occurs in a schema that was built: this is shown
kind by kind, as the decoding goes.
-/

namespace ReflectedSchema

open HostM

/-! ## The values of a kind -/

namespace HostForms

/-- A host value is of a kind, and was taken from a JSON value. -/
inductive HasType (forms : HostForms) (source : Source) : Kind → Json → HostValue → Prop
  | boolean (b : Bool) : HasType forms source .boolean (.bool b) (.data (.bool b))
  | integer {v : Json} {n : Int} (h : v.integer? = some n) :
      HasType forms source .integer v (.data (.int n))
  | numberInt {n : Int} {x : Binary64} (h : Binary64.ofInt? n = some x) :
      HasType forms source .number (.int n) (.data (.float x))
  | numberFloat (x : Binary64) : HasType forms source .number (.float x) (.data (.float x))
  | string (text : String) : HasType forms source .string (.str text) (.data (.str text))
  | dictionary (fields : List (String × Json)) :
      HasType forms source .dictionary (.obj fields) (.data (.obj fields))
  | anyArray {length : Option Int} {items : List Json} (hl : HasLength length items) :
      HasType forms source (.anyArray length) (.arr items) (.data (.arr items))
  | array {element : Kind} {length : Option Int} {items : List Json} {xs : List HostValue}
      (hl : HasLength length items) (same : items.length = xs.length)
      (h : ∀ pair ∈ items.zip xs, HasType forms source element pair.1 pair.2) :
      HasType forms source (.array element length) (.arr items) (.list xs)
  /-- Items of a packed array of integers lie inside its range. -/
  | packed {tag : PackedTag} {items : List Json} {xs : List HostValue} {x : HostValue}
      (same : items.length = xs.length)
      (h : ∀ pair ∈ items.zip xs, HasType forms source tag.element pair.1 pair.2)
      (takes : ∀ item ∈ xs, tag.Takes item) (made : forms.Packed tag xs x) :
      HasType forms source (.packed tag) (.arr items) x
  | enum {owner name text : String} {value : EnumValue} {members : List (String × EnumValue)}
      (hm : source.members owner name = .ok members) (hv : (text, value) ∈ members) :
      HasType forms source (.enum owner name false) (.str text) (.enum value)
  /-- A set of flags is the union of the chosen members, bit by bit, and of the sort of the first
  member. -/
  | flags {owner name : String} {value : EnumValue} {first : String × EnumValue}
      {members chosen : List (String × EnumValue)}
      (hm : source.members owner name = .ok (first :: members))
      (hc : ∀ m ∈ chosen, m ∈ first :: members)
      (hv : value = (chosen.map (·.2)).foldl EnumValue.union first.2.empty)
      (bits : ∀ i, bit value.toInt i = chosen.any fun m => bit m.2.toInt i) :
      HasType forms source (.enum owner name true) (.arr (chosen.map fun m => .str m.1)) (.enum value)
  /-- All components of a value struct are taken from the JSON value. -/
  | struct {tag : StructTag} {fields : List (String × Json)} (component : String → HostValue)
      (present : ∀ c ∈ tag.layout, (Json.lookup c.1 fields).isSome)
      (h : ∀ c ∈ tag.layout, ∀ value, Json.lookup c.1 fields = some value →
        HasType forms source c.2 value (component c.1)) :
      HasType forms source (.struct tag) (.obj fields) (tag.made component)
  /-- Exactly the declared properties of an object were set, and each once. -/
  | object {c : ClassDescriptor} {fields : List (String × Json)} {x : HostValue}
      (property : String → HostValue) (hc : describeClass source c.name = .ok c)
      (keys : HasKeys c.propertyNames fields) (distinct : c.propertyNames.Nodup)
      (h : ∀ p ∈ c.properties, ∀ value, Json.lookup p.name fields = some value →
        HasType forms source p.kind value (property p.name))
      (made : forms.Object c.name (c.properties.map fun p => (p.name, property p.name)) x) :
      HasType forms source (.object c.name) (.obj fields) x

variable {forms : HostForms} {source : Source}

/-- A value struct that consists of an array of structs holds a tuple of as many of them as it should. -/
theorem HasType.rows {tag inner : StructTag} {name : String} {length : Int}
    (layout : tag.layout = [(name, .array (.struct inner) (some length))]) {v : Json} {x : HostValue}
    (h : forms.HasType source (.struct tag) v x) :
    ∃ rows, x = .struct tag [(name, .tuple rows)] ∧ (rows.length : Int) = length ∧
      ∀ row ∈ rows, ∃ w, forms.HasType source (.struct inner) w row := by
  cases h with
  | @struct _ fields component present h =>
    have single : (name, Kind.array (.struct inner) (some length)) ∈ tag.layout :=
      layout ▸ List.mem_singleton.mpr rfl
    obtain ⟨value, hvalue⟩ := Option.isSome_iff_exists.mp (present _ single)
    have typed := h _ single value hvalue
    generalize hrows : component name = rows at typed
    cases typed with
    | @array _ _ items xs hl same h =>
      refine ⟨xs, ?_, same ▸ hl length rfl, fun row hrow => ?_⟩
      · rw [StructTag.made, layout, List.map_singleton, hrows]
        rfl
      · have each := List.forall₂_iff_zip.mpr ⟨same, fun {item x} hm => h (item, x) hm⟩
        obtain ⟨w, -, typed⟩ := exists_of_mem_right each hrow
        exact ⟨w, typed⟩

end HostForms

/-! ## Decoding by kind -/

namespace Decoding

variable {σ : Type} {source : Source} {described : Entity → Prop} {forms : HostForms} {d : Decoding σ}
  {location : Location}

/-- Decoding by any described kind gives values of the kind only. -/
def Sound (source : Source) (described : Entity → Prop) (forms : HostForms) (d : Decoding σ)
    (v : Json) : Prop :=
  ∀ kind : Kind, kind.WellFormed source.hasClass → (∀ e ∈ kind.mentions, described e) →
    ∀ location, Ensures (forms.HasType source kind v) (fun _ => True) (v.decode d kind location)

/-- Where decoding gives up, it gives no value. -/
theorem violated_gives_none {P : HostValue → Prop} (v : Violation) :
    Ensures (σ := σ) P (fun _ => True) (violated location v) :=
  .of_throw True.intro

/-- A scalar or a dictionary is decoded to a value of its type. -/
theorem scalar_typed {v : Json} {inside : Inside (Decoder σ)} {kind : Kind}
    (scalar : kind ∈ [.boolean, .integer, .number, .string, .dictionary]) :
    Ensures (forms.HasType source kind v) (fun _ => True) (d.visit v inside kind location) := by
  simp only [List.mem_cons, List.not_mem_nil, or_false] at scalar
  rcases scalar with rfl | rfl | rfl | rfl | rfl
  · cases v with
    | bool b => exact .of_pure (.boolean b)
    | _ => exact violated_gives_none _
  · cases v with
    | int n => exact .of_pure (.integer rfl)
    | float x =>
      simp only [visit]
      cases hx : x.toInt? with
      | some n => exact .of_pure (.integer hx)
      | none => exact violated_gives_none _
    | _ => exact violated_gives_none _
  · cases v with
    | int n =>
      simp only [visit]
      cases hx : Binary64.ofInt? n with
      | some x => exact .of_pure (.numberInt hx)
      | none => exact .of_throw True.intro
    | float x => exact .of_pure (.numberFloat x)
    | _ => exact violated_gives_none _
  · cases v with
    | str text => exact .of_pure (.string text)
    | _ => exact violated_gives_none _
  · cases v with
    | obj fields => exact .of_pure (.dictionary fields)
    | _ => exact violated_gives_none _

/-- An array of anything is decoded to a list of plain values. -/
theorem anyArray_typed {v : Json} {inside : Inside (Decoder σ)} {length : Option Int} :
    Ensures (forms.HasType source (.anyArray length) v) (fun _ => True)
      (d.visit v inside (.anyArray length) location) := by
  cases v with
  | arr items =>
    exact (checkLength_ensures fun _ _ _ => True.intro).bind fun _ hl => .of_pure (.anyArray hl)
  | _ => exact violated_gives_none _

/-- The items of an array are of their kind, one by one. -/
theorem items_typed {items : List Json} {element : Kind}
    (parts : ∀ w ∈ (Json.arr items).parts, d.Sound source described forms w)
    (hw : element.WellFormed source.hasClass) (hd : ∀ e ∈ element.mentions, described e) :
    Ensures (fun xs => items.length = xs.length ∧
        ∀ pair ∈ items.zip xs, forms.HasType source element pair.1 pair.2) (fun _ => True)
      (itemsFrom element location 0 (items.map (·.decode d))) := by
  refine (itemsFrom_ensures (fun item hi location => parts item hi element hw hd location) 0).mono
    (fun xs hxs => ?_) fun _ => id
  obtain ⟨same, typed⟩ := List.forall₂_iff_zip.mp hxs
  exact ⟨same, fun _ => typed⟩

/-- An array is decoded to a list of values of the type of its items. -/
theorem array_typed {v : Json} {element : Kind} {length : Option Int}
    (parts : ∀ w ∈ v.parts, d.Sound source described forms w)
    (hw : element.WellFormed source.hasClass) (hd : ∀ e ∈ element.mentions, described e) :
    Ensures (forms.HasType source (.array element length) v) (fun _ => True)
      (d.visit v (v.inside (·.decode d)) (.array element length) location) := by
  cases v with
  | arr items =>
    simp only [Json.inside, visit, List.length_map]
    refine (checkLength_ensures fun _ _ _ => True.intro).bind fun _ hl => ?_
    exact (items_typed parts hw hd).bind fun xs hxs => .of_pure (.array hl hxs.1 hxs.2)
  | _ => exact violated_gives_none _

/-- A packed array of integers takes what was decoded as integers inside its range. -/
theorem takes_of_typed {tag : PackedTag} {items : List Json} {xs : List HostValue}
    (same : items.length = xs.length)
    (typed : ∀ pair ∈ items.zip xs, forms.HasType source tag.element pair.1 pair.2)
    (inside : ∀ least most, tag.range = some (least, most) →
      ∀ x ∈ xs, ∀ n, x.int? = some n → least ≤ n ∧ n ≤ most) : ∀ x ∈ xs, tag.Takes x := by
  intro x hx least most range
  have integer : tag.element = .integer := by cases tag <;> first | rfl | cases range
  have each := List.forall₂_iff_zip.mpr ⟨same, fun {item x} hm => typed (item, x) hm⟩
  obtain ⟨item, -, hitem⟩ := exists_of_mem_right each hx
  rw [integer] at hitem
  cases hitem with
  | integer => exact ⟨_, rfl, inside least most range _ hx _ rfl⟩

/-- A packed array is decoded to what the host packs its items into. -/
theorem packed_typed {v : Json} {tag : PackedTag} (hh : d.host.Makes forms)
    (parts : ∀ w ∈ v.parts, d.Sound source described forms w)
    (hd : ∀ e ∈ tag.element.mentions, described e) :
    Ensures (forms.HasType source (.packed tag) v) (fun _ => True)
      (d.visit v (v.inside (·.decode d)) (.packed tag) location) := by
  have hw : tag.element.WellFormed source.hasClass := by cases tag <;> trivial
  cases v with
  | arr items =>
    simp only [Json.inside, visit]
    refine (items_typed parts hw hd).bind fun xs typed => ?_
    obtain ⟨same, typed⟩ := typed
    have make (takes : ∀ x ∈ xs, tag.Takes x) :
        Ensures (forms.HasType source (.packed tag) (.arr items)) (fun _ => True)
          (d.host.constructPacked (.packed tag) xs) :=
      (hh.constructPacked tag xs takes).mono (fun _ made => .packed same typed takes made) fun _ => id
    cases range : tag.range with
    | none =>
      refine make (takes_of_typed same typed fun _ _ h => ?_)
      cases range.symm.trans h
    | some bounds =>
      obtain ⟨least, most⟩ := bounds
      refine (rangeFrom_ensures (fun _ _ _ _ _ _ => True.intro) 0).bind fun _ inside =>
        make (takes_of_typed same typed fun least' most' h => ?_)
      cases range.symm.trans h
      exact inside
  | _ => exact violated_gives_none _

/-- What is looked up under a name is the value of a member of that name. -/
theorem mem_of_lookup {e : EnumDescriptor} {name : Json} {value : EnumValue}
    (h : name.str?.bind e.lookup = some value) :
    ∃ text, name = .str text ∧ (text, value) ∈ e.members := by
  cases name with
  | str text =>
    obtain ⟨⟨found, w⟩, hm, rfl⟩ := Option.map_eq_some_iff.mp h
    have same : found = text := by simpa using List.find?_some hm
    exact ⟨text, rfl, same ▸ List.mem_of_find?_eq_some hm⟩
  | _ => cases h

/-- Values that were looked up under names are those of chosen members. -/
theorem exists_chosen {e : EnumDescriptor} {names : List Json} {values : List EnumValue}
    (h : List.Forall₂ (fun name v => name.str?.bind e.lookup = some v) names values) :
    ∃ chosen : List (String × EnumValue), (∀ m ∈ chosen, m ∈ e.members) ∧
      names = chosen.map (fun m : String × EnumValue => Json.str m.1) ∧ values = chosen.map (·.2) := by
  induction h with
  | nil => exact ⟨[], fun _ h => absurd h List.not_mem_nil, rfl, rfl⟩
  | cons hv _ ih =>
    obtain ⟨chosen, members, rfl, rfl⟩ := ih
    obtain ⟨text, rfl, hm⟩ := mem_of_lookup hv
    exact ⟨(text, _) :: chosen, List.forall_mem_cons.mpr ⟨hm, members⟩, rfl, rfl⟩

/-- A member is decoded to its value, and a set of flags to a union of values. -/
theorem enum_typed {v : Json} {inside : Inside (Decoder σ)} {owner name : String} {flags : Bool}
    (hs : d.schema.Complete source described)
    (hw : (Kind.enum owner name flags).WellFormed source.hasClass)
    (hd : described (.enum (enumPath owner name))) :
    Ensures (forms.HasType source (.enum owner name flags) v) (fun _ => True)
      (d.visit v inside (.enum owner name flags) location) := by
  obtain ⟨e, he, hm, nonempty⟩ := hs.enums hw hd
  simp only [visit, enumValue, he]
  cases flags with
  | false =>
    rw [if_neg (by decide)]
    refine (memberValue_ensures fun _ => True.intro).bind fun value hv => .of_pure ?_
    obtain ⟨text, rfl, member⟩ := mem_of_lookup hv
    exact .enum hm member
  | true =>
    rw [if_pos rfl]
    cases v with
    | arr names =>
      obtain ⟨first, members, split⟩ := List.exists_cons_of_ne_nil nonempty
      have empty : noFlags (σ := σ) e = pure first.2.empty := by simp only [noFlags, split]
      refine HostM.Ensures.bind (P := (· = first.2.empty)) (empty ▸ .of_pure rfl) ?_
      rintro _ rfl
      refine (unionFrom_ensures (fun _ _ _ _ => True.intro) 0 _).bind fun value hv => .of_pure ?_
      obtain ⟨values, looked, rfl⟩ := hv
      obtain ⟨chosen, hc, rfl, rfl⟩ := exists_chosen looked
      refine .flags (split ▸ hm) (split ▸ hc) rfl fun i => ?_
      rw [EnumValue.bit_foldl_of_zero (EnumValue.toInt_empty _), List.any_map]
      rfl
    | _ => exact violated_gives_none _

/-- A declared field is there, and what it holds is decoded as a value of its kind. -/
theorem field_typed {fields : List (String × Json)} {name : String} {kind : Kind}
    (parts : ∀ w ∈ (Json.obj fields).parts, d.Sound source described forms w)
    (hw : kind.WellFormed source.hasClass) (hd : ∀ e ∈ kind.mentions, described e) :
    Ensures (fun x => ∃ value, Json.lookup name fields = some value ∧
        forms.HasType source kind value x) (fun _ => True)
      (field (fields.map fun (name, value) => (name, value.decode d)) name kind location) := by
  rw [field, Json.lookup_map]
  cases hlookup : Json.lookup name fields with
  | none => exact violated_gives_none _
  | some value =>
    exact (parts value (Json.mem_parts_of_lookup hlookup) kind hw hd _).mono
      (fun _ typed => ⟨value, rfl, typed⟩) fun _ => id

/-- Results under distinct names are a function of the names, in the order of the names. -/
theorem eq_map_of_names {α : Type} {key : α → String} {declared : List α}
    {results : List (String × HostValue)} {decoded : String → HostValue}
    (names : results.map (·.1) = declared.map key) (distinct : (results.map (·.1)).Nodup)
    (h : ∀ x ∈ declared, (key x, decoded (key x)) ∈ results) :
    results = declared.map fun x => (key x, decoded (key x)) := by
  have each : ∀ out ∈ results, (out.1, decoded out.1) = out := by
    intro out hout
    obtain ⟨x, hx, hkey⟩ := List.mem_map.mp (names ▸ List.mem_map_of_mem hout)
    have same := h x hx
    rw [hkey] at same
    exact List.inj_on_of_nodup_map distinct same hout rfl
  calc results = results.map fun out => (out.1, decoded out.1) :=
        (List.map_id _).symm.trans (List.map_congr_left fun out hout => (each out hout).symm)
    _ = (results.map (·.1)).map fun name => (name, decoded name) := by rw [List.map_map]; rfl
    _ = declared.map fun x => (key x, decoded (key x)) := by rw [names, List.map_map]; rfl

/-- Fields that were decoded under distinct names are there, and they are of their kinds. -/
theorem fields_typed {α : Type} {key : α → String} {kindOf : α → Kind} {declared : List α}
    {fields : List (String × Json)} {results : List (String × HostValue)}
    (distinct : (declared.map key).Nodup)
    (hr : List.Forall₂ (fun x out => out.1 = key x ∧ ∃ value, Json.lookup (key x) fields = some value ∧
      forms.HasType source (kindOf x) value out.2) declared results) :
    ∃ decoded : String → HostValue, results = declared.map (fun x => (key x, decoded (key x))) ∧
      (∀ x ∈ declared, (Json.lookup (key x) fields).isSome) ∧
      ∀ x ∈ declared, ∀ value, Json.lookup (key x) fields = some value →
        forms.HasType source (kindOf x) value (decoded (key x)) := by
  have names : results.map (·.1) = declared.map key := names_of_forall₂ hr fun _ _ h => h.1
  obtain ⟨decoded, h⟩ := exists_decoded (R := fun x y => ∃ value,
    Json.lookup (key x) fields = some value ∧ forms.HasType source (kindOf x) value y)
    (names ▸ distinct) hr
  refine ⟨decoded, eq_map_of_names names (names ▸ distinct) fun x hx => (h x hx).1,
    fun x hx => ?_, fun x hx value hv => ?_⟩
  · obtain ⟨-, value, hv, -⟩ := h x hx
    exact Option.isSome_iff_exists.mpr ⟨value, hv⟩
  · obtain ⟨-, other, ho, typed⟩ := h x hx
    obtain rfl := Option.some.inj (hv.symm.trans ho)
    exact typed

/-- A struct is decoded to the struct of its components. -/
theorem struct_typed {v : Json} {tag : StructTag} (hh : d.host.Makes forms)
    (parts : ∀ w ∈ v.parts, d.Sound source described forms w)
    (hd : ∀ component ∈ tag.layout, ∀ e ∈ component.2.mentions, described e) :
    Ensures (forms.HasType source (.struct tag) v) (fun _ => True)
      (d.visit v (v.inside (·.decode d)) (.struct tag) location) := by
  cases v with
  | obj fields =>
    simp only [Json.inside, visit]
    refine (components_ensures fun component hc => field_typed parts
      (StructTag.wellFormed_layout _ hc) (hd component hc)).bind fun results hr => ?_
    obtain ⟨component, rfl, present, typed⟩ := fields_typed (StructTag.distinct_layout tag) hr
    refine (hh.constructStruct tag component).mono (fun x hx => ?_) fun _ => id
    exact hx ▸ .struct component present typed
  | _ => exact violated_gives_none _

/-- An object is decoded to an instance whose properties have the types of their kinds. -/
theorem object_typed {v : Json} {className : String} (hs : d.schema.Complete source described)
    (distinct : d.schema.Distinct) (hh : d.host.Makes forms)
    (parts : ∀ w ∈ v.parts, d.Sound source described forms w)
    (hd : described (.class className)) :
    Ensures (forms.HasType source (.object className) v) (fun _ => True)
      (d.visit v (v.inside (·.decode d)) (.object className) location) := by
  obtain ⟨c, hclass, hc⟩ := hs.classes hd
  obtain rfl := (describeClass_eq_ok hc).2.2.1
  have once : c.propertyNames.Nodup := distinct c (List.mem_of_find?_eq_some hclass)
  simp only [visit, object, hclass]
  cases v with
  | obj fields =>
    simp only [Json.inside]
    split
    · exact .of_throw True.intro
    · rename_i hfind
      have declared := find_undeclared_eq_none.mp hfind
      refine (properties_ensures (fun _ _ _ => id) fun p hp =>
        field_typed parts (wellFormed_of_describeClass hc p hp)
          fun e he => hs.closed hd (.property hc hp he)).bind fun results hr => ?_
      obtain ⟨property, rfl, present, typed⟩ := fields_typed once hr
      have names : (c.properties.map fun p => (p.name, property p.name)).map (·.1) =
          c.propertyNames := by
        rw [List.map_map]
        rfl
      refine (build_makes hh (names ▸ once)).mono (fun x made => ?_) fun _ => id
      refine .object property hc (fun name => ⟨declared name, fun hn => ?_⟩) once typed made
      obtain ⟨p, hp, rfl⟩ := List.mem_map.mp hn
      exact present p hp
  | _ => exact violated_gives_none _

end Decoding

/-- **Decoding gives values of the kind only**, when a schema describes what the kind mentions. -/
theorem Json.decode_typed {σ : Type} {source : Source} {described : Entity → Prop} {forms : HostForms}
    {d : Decoding σ} (hs : d.schema.Complete source described) (distinct : d.schema.Distinct)
    (hh : d.host.Makes forms) (v : Json) : d.Sound source described forms v := by
  refine Json.inductionOnParts (P := d.Sound source described forms) v ?_
  intro v parts kind hw hd location
  rw [Json.decode_eq_visit]
  cases kind with
  | anyArray length => exact Decoding.anyArray_typed
  | array element length => exact Decoding.array_typed parts hw hd
  | packed tag => exact Decoding.packed_typed hh parts (Kind.mentions_packed tag ▸ hd)
  | enum owner name flags => exact Decoding.enum_typed hs hw (hd _ (List.mem_singleton.mpr rfl))
  | struct tag =>
    exact Decoding.struct_typed hh parts fun component hc e he =>
      hs.closed (hd _ (List.mem_singleton.mpr rfl)) (.component hc he)
  | object className =>
    exact Decoding.object_typed hs distinct hh parts (hd _ (List.mem_singleton.mpr rfl))
  | _ => exact Decoding.scalar_typed (by simp)

/-! ## The kinds in a schema -/

/-- A kind occurs in a schema: at its root, as that of a property, or inside a kind that occurs. -/
inductive Schema.Uses (schema : Schema) : Kind → Prop
  | root : Uses schema schema.root
  | property {c : ClassDescriptor} {p : PropertyDescriptor} (hc : c ∈ schema.classes)
      (hp : p ∈ c.properties) : Uses schema p.kind
  | element {element : Kind} {length : Option Int} (h : Uses schema (.array element length)) :
      Uses schema element
  | packed {tag : PackedTag} (h : Uses schema (.packed tag)) : Uses schema tag.element
  | component {tag : StructTag} {component : String × Kind} (h : Uses schema (.struct tag))
      (hc : component ∈ tag.layout) : Uses schema component.2

/-- A kind that occurs in a schema is well-formed and mentions only what the kind of the schema
reaches. -/
theorem Schema.Presents.uses {source : Source} {kind : Kind} {names : String → Option String}
    {shared : List (String × Definition)} {schema : Schema}
    (presents : schema.Presents source kind names shared) {k : Kind} (h : schema.Uses k) :
    k.WellFormed source.hasClass ∧ ∀ e ∈ k.mentions, source.Reaches kind e := by
  induction h with
  | root => exact ⟨presents.wellFormed, fun e he => source.reaches_self (presents.mentions ▸ he)⟩
  | @property c p hc hp =>
    have described := presents.shares.classDescribed c hc
    have reached := presents.shares.classNames.mpr ⟨c, hc, rfl⟩
    exact ⟨wellFormed_of_describeClass described p hp,
      fun e he => presents.complete.closed reached (.property described hp he)⟩
  | element _ ih => exact ih
  | @packed tag _ ih => exact ⟨by cases tag <;> trivial, Kind.mentions_packed tag ▸ ih.2⟩
  | component _ hc ih =>
    exact ⟨StructTag.wellFormed_layout _ hc,
      fun e he => presents.complete.closed (ih.2 _ (List.mem_singleton.mpr rfl)) (.component hc he)⟩

/-! ## The main result -/

/-- What is decoded by the schemas of a source, as objects of a host, is of the kind that it was decoded
as. -/
def Source.DecodesSoundly {σ : Type} (source : Source) (host : Host σ) (forms : HostForms) : Prop :=
  ∀ kind schema, schema.Built source kind → ∀ k, schema.Uses k → ∀ v location s x after,
    (ExceptT.run (v.decode ⟨host, schema⟩ k location)).run s = (.ok x, after) →
      forms.HasType source k v x

/-- A host that makes values of its forms has them decoded soundly. -/
theorem Host.Makes.decodesSoundly {σ : Type} {host : Host σ} {forms : HostForms}
    (hh : host.Makes forms) (source : Source) : source.DecodesSoundly host forms := by
  intro kind schema built k uses v location s x after h
  obtain ⟨names, shared, presents⟩ := built.presents
  obtain ⟨hw, hd⟩ := presents.uses uses
  exact (Json.decode_typed (d := ⟨host, schema⟩) presents.complete built.distinct hh v k hw hd
    location).result h

/-- **Decoding gives what its kind promises**, on an annotated and on a tabulated host, by every kind in
a schema that was built and for every value, whether it was checked or not: what is decoded, if anything
is, has the type of the kind.  The rows of a basis and the columns of a projection then are tuples of
exactly three and four vectors. -/
theorem decoding_is_sound :
    (∀ r : Annotated.Registry, r.source.DecodesSoundly r.host r.forms) ∧
    (∀ t : Table, t.source.DecodesSoundly t.host Table.forms) ∧
    ∀ (forms : HostForms) (source : Source) (v : Json) (x : HostValue),
      (forms.HasType source (.struct .basis) v x → ∃ rows, x = .struct .basis [("rows", .tuple rows)] ∧
        rows.length = 3 ∧ ∀ row ∈ rows, ∃ w, forms.HasType source (.struct .vector3) w row) ∧
      (forms.HasType source (.struct .projection) v x → ∃ columns,
        x = .struct .projection [("columns", .tuple columns)] ∧ columns.length = 4 ∧
        ∀ column ∈ columns, ∃ w, forms.HasType source (.struct .vector4) w column) := by
  refine ⟨fun r => r.makes.decodesSoundly _, fun t => t.makes.decodesSoundly _,
    fun forms source v x => ⟨fun h => ?_, fun h => ?_⟩⟩
  · obtain ⟨rows, hx, length, typed⟩ := h.rows rfl
    exact ⟨rows, hx, by exact_mod_cast length, typed⟩
  · obtain ⟨columns, hx, length, typed⟩ := h.rows rfl
    exact ⟨columns, hx, by exact_mod_cast length, typed⟩

/-- Scans have a content, flags, a size and further scans. -/
def scans : Table where
  classes := [("Scan",
    { properties := [
        { name := "content", type := .packed .byte },
        { name := "access", type := .int, className := "Scan.Access", usage := .classIsBitfield },
        { name := "size", type := .struct .vector2i },
        { name := "parts", type := .array, hint := .arrayType, hintText := "Scan" }]
      enums := [("Access", [("Read", 1), ("Write", 2)])] })]

/-- A scan in JSON. -/
def scanJson (access : List Json) (parts : List Json) : Json :=
  .obj [("parts", .arr parts), ("access", .arr access), ("content", .arr [.int 1, .int 255]),
    ("size", .obj [("x", .int 2), ("y", .int 1)])]

/-- A scan on the host. -/
def scanRecord (access : Int) (parts : List HostValue) : HostValue :=
  .record "Scan" [
    ("content", .list [.data (.int 1), .data (.int 255)]), ("access", .enum (.int access)),
    ("size", .struct .vector2i [("x", .data (.int 2)), ("y", .data (.int 1))]), ("parts", .list parts)]

/-- A scan with a part inside is decoded, and has the type of scans. -/
theorem decoding_is_sound_scan :
    ∃ schema, (buildClass scans.source "Scan" "").run.1 = .ok schema ∧
      (ExceptT.run ((scanJson [.str "Write", .str "Read"] [scanJson [] []]).decode
        ⟨scans.host, schema⟩ schema.root [])).run () = (.ok (scanRecord 3 [scanRecord 0 []]), ()) ∧
      Table.forms.HasType scans.source schema.root (scanJson [.str "Write", .str "Read"] [scanJson [] []])
        (scanRecord 3 [scanRecord 0 []]) := by
  have decoded : (buildClass scans.source "Scan" "").run.1.toOption.map (fun schema =>
      (ExceptT.run ((scanJson [.str "Write", .str "Read"] [scanJson [] []]).decode
        ⟨scans.host, schema⟩ schema.root [])).run ()) =
      some (.ok (scanRecord 3 [scanRecord 0 []]), ()) := by
    cbv
  cases hb : (buildClass scans.source "Scan" "").run.1 with
  | error e =>
    rw [hb] at decoded
    cases decoded
  | ok schema =>
    rw [hb] at decoded
    have run := Option.some.inj decoded
    exact ⟨schema, rfl, run,
      decoding_is_sound.2.1 scans _ schema (.class hb) _ .root _ _ _ _ _ run⟩

end ReflectedSchema
