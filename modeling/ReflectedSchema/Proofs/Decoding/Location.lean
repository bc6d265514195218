import ReflectedSchema.Proofs.Decoding.Congruence

/-!
# Where a value stands

Decoding passes a location down only for what it says in failures about values.  Nothing is said about
a value that conforms, so such a value is decoded the same wherever it stands: its decoding can end in
an overflow or in what the host raises, and neither is told a location.
-/

namespace ReflectedSchema

namespace Decoding

variable {σ : Type} {source : Source} {described : Entity → Prop} {d : Decoding σ}

/-! ## Loops -/

/-- Items that are decoded the same wherever they stand are decoded one after the other. -/
theorem itemsFrom_eq_mapM {α : Type} {decoder : α → Decoder σ} {decoded : α → HostM σ HostValue}
    {kind : Kind} {xs : List α} (h : ∀ x ∈ xs, ∀ location, decoder x kind location = decoded x)
    (location : Location) (index : Nat) :
    itemsFrom kind location index (xs.map decoder) = xs.mapM decoded := by
  induction xs generalizing index with
  | nil => rfl
  | cons x rest ih =>
    obtain ⟨hx, hrest⟩ := List.forall_mem_cons.mp h
    rw [List.map_cons, itemsFrom, hx, ih hrest, List.mapM_cons]

/-- Integers inside a range pass. -/
theorem rangeFrom_eq_pure {tag : PackedTag} {least most : Int} {items : List HostValue}
    (h : ∀ item ∈ items, ∀ n, item.int? = some n → least ≤ n ∧ n ≤ most) (location : Location)
    (index : Nat) : rangeFrom (σ := σ) tag least most location index items = pure () := by
  induction items generalizing index with
  | nil => rfl
  | cons item rest ih =>
    obtain ⟨hitem, hrest⟩ := List.forall_mem_cons.mp h
    rw [rangeFrom, ih hrest]
    cases hn : item.int? with
    | none => rfl
    | some n =>
      have inside := hitem n hn
      dsimp only
      rw [if_neg (by omega)]

/-- A member name is read as the value of its member. -/
theorem memberValue_eq_pure {e : EnumDescriptor} {value : Json} {v : EnumValue}
    (h : value.str?.bind e.lookup = some v) (location : Location) :
    memberValue (σ := σ) e value location = pure v := by
  rw [memberValue, h]

/-- Member names are united without regard to where they stand. -/
theorem unionFrom_congr {e : EnumDescriptor} {names : List Json}
    (h : ∀ name ∈ names, ∃ v, name.str?.bind e.lookup = some v) (location other : Location)
    (index : Nat) (start : EnumValue) :
    unionFrom (σ := σ) e location index start names = unionFrom e other index start names := by
  induction names generalizing index start with
  | nil => rfl
  | cons name rest ih =>
    obtain ⟨⟨v, hv⟩, hrest⟩ := List.forall_mem_cons.mp h
    rw [unionFrom, unionFrom, memberValue_eq_pure hv, memberValue_eq_pure hv, pure_bind, pure_bind]
    exact ih hrest _ _

/-- An array that has the fixed length passes. -/
theorem checkLength_eq_pure {α : Type} {length : Option Int} {items : List α}
    (h : HasLength length items) (location : Location) :
    checkLength (σ := σ) length items.length location = pure () := by
  cases length with
  | none => rfl
  | some n => rw [checkLength, if_pos (h n rfl)]

/-! ## Kinds -/

/-- A value is decoded the same wherever it stands, by any described kind that it conforms to. -/
def Anywhere (source : Source) (described : Entity → Prop) (d : Decoding σ) (v : Json) : Prop :=
  ∀ kind : Kind, kind.WellFormed source.hasClass → (∀ e ∈ kind.mentions, described e) →
    source.Conforms kind v → ∀ location other, v.decode d kind location = v.decode d kind other

/-- An integer is decoded as itself. -/
theorem decode_integer {v : Json} {n : Int} (h : v.integer? = some n) (location : Location) :
    v.decode d .integer location = pure (.data (.int n)) := by
  cases v with
  | int m => cases h; rfl
  | float x =>
    have hx : x.toInt? = some n := h
    rw [Json.decode_eq_visit]
    simp only [visit, hx]
  | _ => cases h

/-- Items are decoded as they would be by themselves. -/
theorem items_anywhere {items : List Json} {element : Kind}
    (parts : ∀ w ∈ (Json.arr items).parts, d.Anywhere source described w)
    (hw : element.WellFormed source.hasClass) (hd : ∀ e ∈ element.mentions, described e)
    (conforms : ∀ item ∈ items, source.Conforms element item) (location : Location) :
    itemsFrom element location 0 (items.map (·.decode d)) =
      items.mapM fun item => item.decode d element [] :=
  itemsFrom_eq_mapM (fun item hi location =>
    parts item hi element hw hd (conforms item hi) location []) location 0

/-- A packed array with a range is made of integers, which are the results of its items. -/
theorem visit_packed_of_range {tag : PackedTag} {items : List Json} {range : Int × Int}
    (hrange : tag.range = some range) (conforms : ∀ item ∈ items, source.Conforms tag.element item)
    (inRange : ∀ item ∈ items, tag.InRange item) :
    ∃ results, (∀ result ∈ results, tag.Takes result) ∧ ∀ location,
      d.visit (.arr items) (.items (items.map (·.decode d))) (.packed tag) location =
        d.host.constructPacked (.packed tag) results := by
  obtain ⟨least, most⟩ := range
  have integer : tag.element = .integer := by cases tag <;> first | rfl | cases hrange
  have known : ∀ item ∈ items, item.integer? = some (item.integer?.getD 0) := by
    intro item hi
    have conforms := conforms item hi
    rw [integer] at conforms
    cases conforms with
    | integer h => rw [h, Option.getD_some]
  have inside : ∀ item ∈ items, least ≤ item.integer?.getD 0 ∧ item.integer?.getD 0 ≤ most :=
    fun item hi => inRange item hi least most hrange _ (known item hi)
  refine ⟨items.map fun item => .data (.int (item.integer?.getD 0)), ?_, fun location => ?_⟩
  · refine List.forall_mem_map.mpr fun item hi least' most' hrange' => ?_
    cases hrange.symm.trans hrange'
    exact ⟨_, rfl, inside item hi⟩
  · have results : itemsFrom tag.element location 0 (items.map (·.decode d)) =
        pure (items.map fun item => .data (.int (item.integer?.getD 0))) := by
      rw [integer, itemsFrom_eq_mapM fun item hi => decode_integer (known item hi), List.mapM_pure]
    have passes : rangeFrom (σ := σ) tag least most location 0
        (items.map fun item => .data (.int (item.integer?.getD 0))) = pure () := by
      refine rangeFrom_eq_pure (List.forall_mem_map.mpr fun item hi n hn => ?_) location 0
      cases hn
      exact inside item hi
    simp only [visit, hrange, results, pure_bind, passes]

/-- A packed array is decoded alike wherever it stands. -/
theorem packed_anywhere {tag : PackedTag} {items : List Json}
    (parts : ∀ w ∈ (Json.arr items).parts, d.Anywhere source described w)
    (hd : ∀ e ∈ tag.element.mentions, described e)
    (conforms : ∀ item ∈ items, source.Conforms tag.element item)
    (inRange : ∀ item ∈ items, tag.InRange item) (location other : Location) :
    d.visit (.arr items) (.items (items.map (·.decode d))) (.packed tag) location =
      d.visit (.arr items) (.items (items.map (·.decode d))) (.packed tag) other := by
  cases hrange : tag.range with
  | none =>
    have hw : tag.element.WellFormed source.hasClass := by cases tag <;> trivial
    simp only [visit, hrange, items_anywhere parts hw hd conforms]
  | some range =>
    -- The range is asked of the results, so the results have to be known: they are the integers.
    obtain ⟨results, -, made⟩ := visit_packed_of_range (d := d) hrange conforms inRange
    rw [made, made]

/-- The value of an enumeration is decoded alike wherever it stands. -/
theorem enum_anywhere {v : Json} {owner name : String} {flags : Bool}
    (hs : d.schema.Complete source described)
    (hw : (Kind.enum owner name flags).WellFormed source.hasClass)
    (hd : described (.enum (enumPath owner name)))
    (conforms : source.Conforms (.enum owner name flags) v) (location other : Location) :
    d.enumValue owner name flags v location = d.enumValue owner name flags v other := by
  obtain ⟨e, he, hm, -⟩ := hs.enums hw hd
  have found {value : Json} (h : ∃ text ∈ e.members.map (·.1), value = .str text) :
      ∃ member, value.str?.bind e.lookup = some member :=
    Option.ne_none_iff_exists'.mp fun hn => lookup_eq_none_iff.mp hn h
  have fits := (Source.conforms_enum_iff hm).mp conforms
  simp only [enumValue, he]
  cases flags with
  | false =>
    obtain ⟨member, hv⟩ := found fits
    rw [if_neg (by decide), if_neg (by decide), memberValue_eq_pure hv, memberValue_eq_pure hv]
  | true =>
    obtain ⟨names, rfl, hn⟩ := fits
    rw [if_pos rfl, if_pos rfl]
    simp only [unionFrom_congr (fun name hm => found (hn name hm)) location other]

/-- A declared field that conforms is decoded the same wherever its object stands. -/
theorem field_anywhere {fields : List (String × Json)} {name : String} {kind : Kind}
    (parts : ∀ w ∈ (Json.obj fields).parts, d.Anywhere source described w)
    (hw : kind.WellFormed source.hasClass) (hd : ∀ e ∈ kind.mentions, described e)
    (present : (Json.lookup name fields).isSome)
    (conforms : ∀ value, Json.lookup name fields = some value → source.Conforms kind value)
    (location other : Location) :
    field (fields.map fun (name, value) => (name, value.decode d)) name kind location =
      field (fields.map fun (name, value) => (name, value.decode d)) name kind other := by
  obtain ⟨value, hv⟩ := Option.isSome_iff_exists.mp present
  simp only [field, Json.lookup_map, hv, Option.map_some]
  exact parts value (Json.mem_parts_of_lookup hv) kind hw hd (conforms value hv) _ _

end Decoding

/-- **A value that conforms is decoded the same wherever it stands**, when a schema describes what the
kind mentions. -/
theorem Json.decode_anywhere {σ : Type} {source : Source} {described : Entity → Prop} {d : Decoding σ}
    (hs : d.schema.Complete source described) (v : Json) : d.Anywhere source described v := by
  refine Json.inductionOnParts (P := d.Anywhere source described) v ?_
  intro v parts kind hw hd conforms location other
  rw [Json.decode_eq_visit]
  cases conforms with
  | integer h => rw [← Json.decode_eq_visit, Decoding.decode_integer h, Decoding.decode_integer h]
  | boolean | numberInt | numberFloat | string | dictionary => rfl
  | anyArray hl => simp only [Decoding.visit, Decoding.checkLength_eq_pure hl]
  | @array element length items hl h =>
    have known : element.WellFormed source.hasClass := hw
    simp only [Json.inside, Decoding.visit, List.length_map, Decoding.checkLength_eq_pure hl,
      Decoding.items_anywhere parts known hd h]
  | @packed tag items h hr =>
    exact Decoding.packed_anywhere parts (Kind.mentions_packed tag ▸ hd) h hr location other
  | enum hm ht =>
    exact Decoding.enum_anywhere hs hw (hd _ (List.mem_singleton.mpr rfl)) (.enum hm ht) location other
  | flags hm hn =>
    exact Decoding.enum_anywhere hs hw (hd _ (List.mem_singleton.mpr rfl)) (.flags hm hn) location other
  | @struct tag fields keys h =>
    have inner : ∀ component ∈ tag.layout, ∀ e ∈ component.2.mentions, described e :=
      fun component hc e he => hs.closed (hd _ (List.mem_singleton.mpr rfl)) (.component hc he)
    have same := Decoding.components_congr fun component hc =>
      Decoding.field_anywhere parts (StructTag.wellFormed_layout _ hc) (inner component hc)
        ((keys _).mpr (List.mem_map_of_mem hc)) (h component hc) location other
    simp only [Json.inside, Decoding.visit, same]
  | @object c fields hc keys h =>
    have inner : ∀ p ∈ c.properties, ∀ e ∈ p.kind.mentions, described e :=
      fun p hp e he => hs.closed (hd _ (List.mem_singleton.mpr rfl)) (.property hc hp he)
    obtain ⟨described, hclass, hdescribed⟩ := hs.classes (hd _ (List.mem_singleton.mpr rfl))
    obtain rfl := Except.ok.inj (hc.symm.trans hdescribed)
    have same := Decoding.properties_congr c.name fun p hp =>
      Decoding.field_anywhere parts (wellFormed_of_describeClass hc p hp) (inner p hp)
        ((keys _).mpr (List.mem_map_of_mem hp)) (h p hp) location other
    simp only [Json.inside, Decoding.visit, Decoding.object, hclass, same]

end ReflectedSchema
