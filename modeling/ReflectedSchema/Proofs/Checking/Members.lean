import ReflectedSchema.Proofs.Checking.Places

/-!
# Unknown members of enumerations

Where a schema expects the name of a member, a check and decoding both refuse any other value, and they
say so with the name of the enumeration, its members and the value.  Decoding knows the enumeration by
its path.  A check has only the list of members that stands in the document, and takes the name of the
first enumeration of the schema with that list: `unknown_members_told` says when the two agree, and
`heat_taken_for_light` is a schema where they do not.
-/

namespace ReflectedSchema

/-! ## Where members are expected -/

/-- A place where the name of a member of an enumeration is expected, at a location: the value itself,
or an item in a set of flags. -/
inductive Place.AsksMember (owner name : String) : Place → Location → Json → Prop
  | value {given : Json} {location : Location} :
      AsksMember owner name ⟨.enum owner name false, given, location⟩ location given
  | flag {items : List Json} {location : Location} {i : Nat} {given : Json}
      (hi : items[i]? = some given) :
      AsksMember owner name ⟨.enum owner name true, .arr items, location⟩ (location ++ [.index i]) given

/-- A schema expects the name of a member of an enumeration somewhere in a value. -/
def Schema.AsksMember (schema : Schema) (v : Json) (owner name : String) (location : Location)
    (given : Json) : Prop :=
  ∃ root ∈ schema.roots v, ∃ place, schema.Holds root place ∧ place.AsksMember owner name location given

namespace EnumDescriptor

/-- A value that is the name of no member is not among the names of the members. -/
theorem any_memberNames_eq_false_iff {e : EnumDescriptor} {given : Json} :
    (!(e.memberNames.any fun m => given.str? = some m)) = true ↔ given.str?.bind e.lookup = none := by
  rw [Decoding.lookup_eq_none_iff, Bool.not_eq_true', ← Bool.not_eq_true, List.any_eq_true, not_iff_not,
    memberNames]
  refine exists_congr fun text => and_congr_right fun _ => ?_
  cases given <;> simp [Json.str?]

end EnumDescriptor

/-! ## What a check says -/

namespace Finding

/-- A finding that a value is no member of an enumeration. -/
def IsUnknownMember (f : Finding) : Prop :=
  f.violation.isUnknownMember = true

variable {f : Finding} {v : Json}

/-- An unknown member is no violation of form. -/
theorem IsUnknownMember.isOfForm_eq_false (h : f.IsUnknownMember) : f.violation.isOfForm = false := by
  obtain ⟨_, violation⟩ := f
  cases violation with
  | unknownMember => rfl
  | _ => cases h

/-- About keys, nothing is found about members. -/
theorem not_isUnknownMember_of_mem_keyed {keys : List String} (h : f ∈ keyed keys v) :
    ¬ f.IsUnknownMember := by
  unfold keyed at h
  split at h
  · rcases List.mem_append.mp h with h | h <;> obtain ⟨_, -, rfl⟩ := List.mem_map.mp h <;>
      simp [IsUnknownMember, Violation.isUnknownMember]
  · cases h

end Finding

namespace Schema

variable {schema : Schema} {v : Json} {kind : Kind} {f : Finding} {owner name : String}

/-- Where a member is expected, what is found is that there is none of that name. -/
theorem mem_atMember_iff (hf : f.IsUnknownMember) : f ∈ schema.atMember owner name v ↔
    ∃ e, schema.enum? (enumPath owner name) = some e ∧ v.str?.bind e.lookup = none ∧
      f = ⟨[], .unknownMember (schema.checker.enumNameOf e.memberNames) v e.memberNames⟩ := by
  have typed : f ∉ Glossary.typed v "string" := fun h =>
    Bool.false_ne_true (hf.isOfForm_eq_false ▸ Finding.isOfForm_of_mem_typed h)
  rw [atMember]
  cases schema.enum? (enumPath owner name) with
  | none => simp
  | some e =>
    rw [List.mem_append, or_iff_right typed]
    simp only [Option.some.injEq, exists_eq_left', ← EnumDescriptor.any_memberNames_eq_false_iff]
    refine ⟨Finding.eq_of_mem_when, ?_⟩
    rintro ⟨unknown, here⟩
    rw [Finding.when, if_pos unknown, here]
    exact List.mem_singleton.mpr rfl

/-- At a place, unknown members are found where a member is expected. -/
theorem mem_foundAt_iff (hf : f.IsUnknownMember) (place : Place) : f ∈ schema.foundAt place ↔
    ∃ owner name location given e, place.AsksMember owner name location given ∧
      schema.enum? (enumPath owner name) = some e ∧ given.str?.bind e.lookup = none ∧
      f = ⟨location, .unknownMember (schema.checker.enumNameOf e.memberNames) given e.memberNames⟩ := by
  obtain ⟨kind, value, location⟩ := place
  constructor
  · intro h
    obtain ⟨g, hg, rfl⟩ := List.mem_map.mp h
    have unknown : g.IsUnknownMember := hf
    rw [mem_own_iff unknown.isOfForm_eq_false,
      or_iff_right fun ⟨_, _, h⟩ => Finding.not_isUnknownMember_of_mem_keyed h unknown] at hg
    cases kind with
    | enum owner name flags =>
      cases flags with
      | false =>
        obtain ⟨e, he, hn, rfl⟩ := (mem_atMember_iff unknown).mp hg
        exact ⟨owner, name, location, value, e, .value, he, hn, by simp [Finding.beneath]⟩
      | true =>
        obtain ⟨items, rfl, i, item, hi, k, hk, rfl⟩ := Finding.mem_inEach.mp hg
        obtain ⟨e, he, hn, rfl⟩ := (mem_atMember_iff (f := k) unknown).mp hk
        exact ⟨owner, name, _, item, e, .flag hi, he, hn, rfl⟩
    | _ => cases hg
  · rintro ⟨owner, name, _, given, e, asks, he, hn, rfl⟩
    have member := (mem_atMember_iff (f := ⟨[], _⟩) hf).mpr ⟨e, he, hn, rfl⟩
    cases asks with
    | value =>
      refine List.mem_map.mpr ⟨_, (mem_own_iff rfl).mpr (.inr member), ?_⟩
      simp [Finding.beneath]
    | flag hi =>
      have item := Finding.mem_inEach.mpr ⟨_, rfl, _, _, hi, _, member, rfl⟩
      exact List.mem_map.mpr ⟨_, (mem_own_iff rfl).mpr (.inr item), rfl⟩

/-- **Unknown members are found where a schema expects members.** -/
theorem found_unknownMember_iff (hf : f.IsUnknownMember) :
    (f ∈ schema.atWrapper v ∨ ∃ root ∈ schema.roots v, schema.Finds root f) ↔
      ∃ owner name location given e, schema.AsksMember v owner name location given ∧
        schema.enum? (enumPath owner name) = some e ∧ given.str?.bind e.lookup = none ∧
        f = ⟨location, .unknownMember (schema.checker.enumNameOf e.memberNames) given e.memberNames⟩ := by
  rw [or_iff_right fun h => Finding.not_isUnknownMember_of_mem_keyed
    ((mem_atWrapper_iff hf.isOfForm_eq_false).mp h).2 hf]
  constructor
  · rintro ⟨root, hr, place, holds, h⟩
    obtain ⟨owner, name, location, given, e, asks, rest⟩ := (mem_foundAt_iff hf place).mp h
    exact ⟨owner, name, location, given, e, ⟨root, hr, place, holds, asks⟩, rest⟩
  · rintro ⟨owner, name, location, given, e, ⟨root, hr, place, holds, asks⟩, rest⟩
    exact ⟨root, hr, place, holds,
      (mem_foundAt_iff hf place).mpr ⟨owner, name, location, given, e, asks, rest⟩⟩

end Schema

/-! ## What decoding says -/

namespace Schema

variable {source : Source} {kind : Kind} {names : String → Option String}
  {shared : List (String × Definition)} {schema : Schema}

/-- Places inside a place of a well-formed kind have well-formed kinds. -/
theorem Presents.wellFormed_inner (h : schema.Presents source kind names shared) {place inner : Place}
    (hp : place.kind.WellFormed source.hasClass) (hi : inner ∈ schema.inner place) :
    inner.kind.WellFormed source.hasClass := by
  unfold Schema.inner at hi
  split at hi
  · obtain ⟨_, _, -, rfl⟩ := Place.mem_items_iff.mp hi
    exact hp
  · rename_i tag _ _
    obtain ⟨_, _, -, rfl⟩ := Place.mem_items_iff.mp hi
    cases tag <;> trivial
  · obtain ⟨component, hc, _, -, rfl⟩ := Place.mem_fields_iff.mp hi
    exact StructTag.wellFormed_layout _ hc
  · split at hi
    · rename_i c hc
      obtain ⟨_, hd, _, -, rfl⟩ := Place.mem_fields_iff.mp hi
      obtain ⟨p, hp, rfl⟩ := List.mem_map.mp hd
      exact wellFormed_of_describeClass (h.shares.classDescribed c (List.mem_of_find?_eq_some hc)) p hp
    · cases hi
  · cases hi

/-- A place that the root leads down to has a well-formed kind. -/
theorem Presents.wellFormed_of_holds (h : schema.Presents source kind names shared) {v : Json}
    {root place : Place} (hr : root ∈ schema.roots v) (holds : schema.Holds root place) :
    place.kind.WellFormed source.hasClass := by
  induction holds with
  | tail _ hi ih => exact h.wellFormed_inner ih hi
  | refl =>
    have start : root.kind = schema.root := by
      unfold roots at hr
      split at hr
      · obtain ⟨_, -, rfl⟩ := List.mem_map.mp hr
        rfl
      · rw [List.mem_singleton.mp hr]
    exact start ▸ h.wellFormed

/-- Where a member is expected, the enumeration that is found by the path is the one that is meant. -/
theorem Presents.enum_of_asksMember (h : schema.Presents source kind names shared) {v given : Json}
    {owner name : String} {location : Location} (asks : schema.AsksMember v owner name location given)
    {e : EnumDescriptor} (he : schema.enum? (enumPath owner name) = some e) :
    e.owner = owner ∧ e.name = name := by
  obtain ⟨root, hr, place, holds, asks⟩ := asks
  obtain ⟨described, -⟩ := h.shares.enumDescribed e (List.mem_of_find?_eq_some he)
  have path : decide (e.path = enumPath owner name) = true :=
    List.find?_some (p := fun other : EnumDescriptor => other.path = enumPath owner name) he
  have wellFormed := h.wellFormed_of_holds hr holds
  obtain ⟨flags, hw⟩ : ∃ flags, (Kind.enum owner name flags).WellFormed source.hasClass := by
    cases asks with
    | value => exact ⟨_, wellFormed⟩
    | flag => exact ⟨_, wellFormed⟩
  exact enumPath_injective described.ownerPlain described.namePlain hw.2.2.2.1 hw.2.2.2.2
    (of_decide_eq_true path)

end Schema

namespace Decoding

variable {σ : Type} {e : EnumDescriptor} {given : Json}

/-- A name that is not looked up is refused with the name of the enumeration. -/
theorem memberValue_of_unknown (h : given.str?.bind e.lookup = none) (location : Location) :
    memberValue (σ := σ) e given location =
      violated location (.unknownMember e.name given e.memberNames) := by
  simp only [memberValue, h]

end Decoding

/-- A check names an enumeration as it is named if the first with the same members has that name. -/
theorem Checker.enumNameOf_eq_iff {c : Checker} {e : EnumDescriptor} (he : e ∈ c.enums) (name : String) :
    c.enumNameOf e.memberNames = name ↔
      ∃ first, c.enums.find? (fun other => other.memberNames = e.memberNames) = some first ∧
        first.name = name := by
  obtain ⟨first, hf⟩ : ∃ first,
      c.enums.find? (fun other => other.memberNames = e.memberNames) = some first :=
    Option.isSome_iff_exists.mp (List.find?_isSome.mpr ⟨e, he, decide_eq_true rfl⟩)
  simp only [enumNameOf, hf, Option.some.injEq, exists_eq_left']

/-! ## The main result -/

namespace Schema

/-- What a check and decoding say of a value that is no member of an enumeration where a schema expects
one. -/
structure TellsUnknown (schema : Schema) (v : Json) (f : Finding) (given : Json) (e : EnumDescriptor) :
    Prop where
  /-- The place is one of the enumeration, by the root kind. -/
  asked : schema.AsksMember v e.owner e.name f.location given
  known : schema.enum? (enumPath e.owner e.name) = some e
  checked : f.violation = .unknownMember (schema.checker.enumNameOf e.memberNames) given e.memberNames
  /-- Decoding looks the name up, also for each item in a set of flags. -/
  lookedUp : ∀ σ, (Decoding.memberValue e given f.location : HostM σ EnumValue) =
    throw (.violation f.location (.unknownMember e.name given e.memberNames))
  decoded : ∀ (σ : Type) (host : Host σ),
    given.decode ⟨host, schema⟩ (.enum e.owner e.name false) f.location =
      throw (.violation f.location (.unknownMember e.name given e.memberNames))
  /-- Both say the same if no other enumeration of the schema with the same members comes first, or if it
  has the same name. -/
  agree : f.violation = .unknownMember e.name given e.memberNames ↔
    ∃ first, schema.enums.find? (fun other => other.memberNames = e.memberNames) = some first ∧
      first.name = e.name

/-- **Unknown members are told where members are expected**, with the members of the enumeration and the
value, by a check as by decoding; but a check may take another enumeration with the same members for the
one that is meant. -/
theorem unknown_members_told {source : Source} {kind : Kind} {schema : Schema}
    (built : schema.Built source kind) (plain : source.PlainNames) (v : Json) :
    ∃ found, schema.checker.findings v = .ok found ∧
      (∀ f ∈ found, f.violation.isUnknownMember = true → ∃ given e, schema.TellsUnknown v f given e) ∧
      ∀ owner name location given e, schema.AsksMember v owner name location given →
        schema.enum? (enumPath owner name) = some e → given.str?.bind e.lookup = none →
          ∃ f ∈ found, f.key = Finding.key ⟨location,
            .unknownMember (schema.checker.enumNameOf e.memberNames) given e.memberNames⟩ := by
  obtain ⟨names, shared, presents⟩ := built.presents
  obtain ⟨raw, hraw, found_iff⟩ := built.mem_raw_iff plain v
  refine ⟨_, Checker.findings_of_raw hraw, fun f hf unknown => ?told, ?asked⟩
  case told =>
    obtain ⟨owner, name, location, given, e, asks, he, hn, rfl⟩ := (found_unknownMember_iff unknown).mp
      ((found_iff f).mp (Finding.mem_of_mem_listed hf))
    obtain ⟨rfl, rfl⟩ := presents.enum_of_asksMember asks he
    refine ⟨given, e, asks, he, rfl, fun σ => Decoding.memberValue_of_unknown hn location,
      fun σ host => ?_, ?_⟩
    · rw [Json.decode_eq_visit]
      simp only [Decoding.visit, Decoding.enumValue, he, Decoding.memberValue_of_unknown hn]
      rfl
    · refine Iff.trans ?_ (Checker.enumNameOf_eq_iff (c := schema.checker)
        (List.mem_of_find?_eq_some he) e.name)
      simp
  case asked =>
    intro owner name location given e asks he hn
    have unknown : Finding.IsUnknownMember ⟨location,
      .unknownMember (schema.checker.enumNameOf e.memberNames) given e.memberNames⟩ := rfl
    exact Finding.exists_mem_listed ((found_iff _).mpr ((found_unknownMember_iff unknown).mpr
      ⟨owner, name, location, given, e, asks, he, hn, rfl⟩))

end Schema

/-! ## Two enumerations with the same members -/

/-- Rooms have a light and a heating, which are both switched on and off. -/
def rooms : Table where
  classes := [("Room",
    { properties := [
        { name := "light", type := .int, className := "Room.Light", usage := .classIsEnum },
        { name := "heat", type := .int, className := "Room.Heat", usage := .classIsEnum }]
      enums := [("Light", [("Off", 0), ("On", 1)]), ("Heat", [("Off", 0), ("On", 1)])] })]

/-- A room whose heating is neither on nor off. -/
def stuffy : Json :=
  .obj [("light", .str "On"), ("heat", .str "Hot")]

/-- The schema of these rooms. -/
def roomsSchema : Schema where
  name := "Room"
  document := assemble [("Heat", (Definition.enumeration ["Off", "On"]).toJson),
      ("Light", (Definition.enumeration ["Off", "On"]).toJson)]
    (Definition.object [⟨"light", .ref "Light", none⟩, ⟨"heat", .ref "Heat", none⟩]).fields
  root := .object "Room"
  classes := [⟨"Room",
    [⟨"light", .enum "Room" "Light" false, none⟩, ⟨"heat", .enum "Room" "Heat" false, none⟩]⟩]
  enums := [⟨"Room", "Light", [("Off", .int 0), ("On", .int 1)], false⟩,
    ⟨"Room", "Heat", [("Off", .int 0), ("On", .int 1)], false⟩]

/-- The names of rooms, their classes and enumerations are plain. -/
theorem plainNames_rooms : rooms.source.PlainNames :=
  Table.plainNames (by decide) (by decide)

/-- The build of the example room gives its schema. -/
theorem buildClass_rooms : (buildClass rooms.source "Room" "").run.1 = .ok roomsSchema := by
  cbv

/-- The unknown heat of a room is told as one of its light. -/
theorem raw_stuffy : roomsSchema.checker.raw stuffy =
    .ok [⟨[.key "heat"], .unknownMember "Light" (.str "Hot") ["Off", "On"]⟩] := by
  rfl

/-- What a check says of the heating is what is told of an unknown member. -/
theorem unknown_members_told_stuffy : ∃ given e, roomsSchema.TellsUnknown stuffy
    ⟨[.key "heat"], .unknownMember "Light" (.str "Hot") ["Off", "On"]⟩ given e := by
  obtain ⟨found, hf, told, -⟩ :=
    Schema.unknown_members_told (.class buildClass_rooms) plainNames_rooms stuffy
  rw [Checker.findings_of_raw raw_stuffy, Finding.listed_singleton] at hf
  cases hf
  exact told _ (List.mem_singleton.mpr rfl) rfl

/-- **The wrong enumeration is told.**  The heating has the members of the light, which comes first, so a
check says that there is no such light; decoding says that there is no such heating. -/
theorem heat_taken_for_light : (buildClass rooms.source "Room" "").run.1 = .ok roomsSchema ∧
    roomsSchema.checker.findings stuffy =
      .ok [⟨[.key "heat"], .unknownMember "Light" (.str "Hot") ["Off", "On"]⟩] ∧
    ∀ (σ : Type) (host : Host σ), roomsSchema.decode host stuffy =
      throw ((Raised.violation [.key "heat"] (.unknownMember "Heat" (.str "Hot") ["Off", "On"])).annotate
        "Room" "heat") := by
  refine ⟨buildClass_rooms, ?_, fun σ host => rfl⟩
  rw [Checker.findings_of_raw raw_stuffy, Finding.listed_singleton]

end ReflectedSchema
