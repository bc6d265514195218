import ReflectedSchema.Proofs.Checking.Locations
import ReflectedSchema.Proofs.Checking.Places

/-!
# Missing and undeclared keys

An object that a schema reaches has declared keys, and each of them that is absent is found once, where
it should be, as is each of its other keys, where it is.  A place of a value has a pointer of its own, so
that findings of these sorts can be told apart by their pointers, however many there are in one object
and however their keys are spelled.  `checks_keys_once` collects what a check says of keys, and how it
orders and raises what it finds.
-/

namespace ReflectedSchema

/-! ## Pointers of places -/

/-- The value at a location. -/
def Json.at? : Location → Json → Option Json
  | [], v => some v
  | .index i :: rest, .arr items => items[i]?.bind (at? rest)
  | .key name :: rest, .obj fields => (lookup name fields).bind (at? rest)
  | _ :: _, _ => none

/-- Going down one location after the other. -/
theorem Json.at?_append (front back : Location) (v : Json) :
    v.at? (front ++ back) = (v.at? front).bind (at? back) := by
  induction front generalizing v with
  | nil => rfl
  | cons step front ih =>
    cases step with
    | index i =>
      cases v with
      | arr items =>
        rw [List.cons_append, at?, at?, Option.bind_assoc]
        exact congrArg (Option.bind _) (funext ih)
      | _ => rfl
    | key name =>
      cases v with
      | obj fields =>
        rw [List.cons_append, at?, at?, Option.bind_assoc]
        exact congrArg (Option.bind _) (funext ih)
      | _ => rfl

/-- Where a value is, there is a place. -/
theorem Json.bears_of_at? {v w : Json} {location : Location} (h : v.at? location = some w) :
    v.Bears location := by
  induction location generalizing v with
  | nil => exact .here v
  | cons step location ih =>
    cases step with
    | index i =>
      cases v with
      | arr items =>
        obtain ⟨item, hi, h⟩ := Option.bind_eq_some_iff.mp h
        have part : (Json.arr items).part? (.index i) = some item := hi
        exact .inside part (ih h)
      | _ => cases h
    | key name =>
      cases v with
      | obj fields =>
        obtain ⟨value, hv, h⟩ := Option.bind_eq_some_iff.mp h
        have part : (Json.obj fields).part? (.key name) = some value := hv
        exact .inside part (ih h)
      | _ => cases h

/-- At most one location of a value has given names. -/
theorem Json.location_unique {v w u : Json} {location other : Location} (h : v.at? location = some w)
    (ho : v.at? other = some u) (names : location.map Step.text = other.map Step.text) :
    location = other :=
  (bears_of_at? h).eq_of_texts (bears_of_at? ho) names

namespace Schema

variable {schema : Schema} {v : Json} {root place inner : Place}

/-- A place inside another has the value at its location. -/
theorem at?_of_mem_inner (h : inner ∈ schema.inner place) (hp : v.at? place.location = some place.value) :
    v.at? inner.location = some inner.value := by
  have step : ∀ s : Step, place.value.at? [s] = some inner.value →
      inner.location = place.location ++ [s] → v.at? inner.location = some inner.value := by
    intro s hs hl
    rw [hl, Json.at?_append, hp]
    exact hs
  have items : ∀ (element : Kind) (items : List Json), place.value = .arr items →
      inner ∈ Place.items element place.location 0 items → v.at? inner.location = some inner.value := by
    intro element items hv hi
    obtain ⟨i, item, hitem, rfl⟩ := Place.mem_items_iff.mp hi
    refine step (.index i) ?_ (by rw [Nat.zero_add])
    rw [hv, Json.at?, hitem]
    rfl
  have fields : ∀ (entries : List (String × Json)) (declared : List (String × Kind)),
      place.value = .obj entries → inner ∈ Place.fields place.location entries declared →
      v.at? inner.location = some inner.value := by
    intro entries declared hv hi
    obtain ⟨d, -, value, hvalue, rfl⟩ := Place.mem_fields_iff.mp hi
    refine step (.key d.1) ?_ rfl
    rw [hv, Json.at?, hvalue]
    rfl
  unfold Schema.inner at h
  split at h
  · exact items _ _ rfl h
  · exact items _ _ rfl h
  · exact fields _ _ rfl h
  · split at h
    · exact fields _ _ rfl h
    · cases h
  · cases h

/-- A place that the root leads down to has the value at its location. -/
theorem at?_of_holds (hr : root ∈ schema.roots v) (h : schema.Holds root place) :
    v.at? place.location = some place.value := by
  induction h with
  | tail _ hi ih => exact at?_of_mem_inner hi ih
  | refl =>
    unfold roots at hr
    split at hr
    · obtain ⟨value, hv, rfl⟩ := List.mem_map.mp hr
      cases v with
      | obj fields =>
        have found : Json.lookup "value" fields = some value := Option.mem_toList.mp hv
        rw [Json.at?, found]
        rfl
      | _ => cases hv
    · obtain rfl := List.mem_singleton.mp hr
      rfl

/-! ## Objects with declared keys -/

/-- An object that a schema reaches in a value, at a location, with its declared keys: the wrapper of a
bare kind, a value struct or an object of a class. -/
inductive ReachesObject (schema : Schema) (v : Json) :
    Location → List String → List (String × Json) → Prop
  | wrapper {fields : List (String × Json)} (hw : schema.wrapped = true) (hv : v = .obj fields) :
      ReachesObject schema v [] ["value"] fields
  | place {root : Place} {kind : Kind} {location : Location} {keys : List String}
      {fields : List (String × Json)} (hr : root ∈ schema.roots v)
      (h : schema.Holds root ⟨kind, .obj fields, location⟩) (hk : schema.declaredKeys kind = some keys) :
      ReachesObject schema v location keys fields

/-- An object that is reached stands at its location. -/
theorem ReachesObject.at? {location : Location} {keys : List String} {fields : List (String × Json)}
    (h : schema.ReachesObject v location keys fields) : v.at? location = some (.obj fields) := by
  cases h with
  | wrapper hw hv => rw [hv, Json.at?]
  | place hr h hk => exact at?_of_holds hr h

end Schema

/-! ## Findings about keys -/

namespace Finding

/-- A finding about a key of an object. -/
def ConcernsKey (f : Finding) : Prop :=
  f.violation.reason = .missingRequired ∨ f.violation.reason = .unexpectedProperty

variable {f : Finding} {v : Json} {keys : List String} {location : Location}

/-- A finding about a key is no violation of form. -/
theorem ConcernsKey.isOfForm_eq_false (h : f.ConcernsKey) : f.violation.isOfForm = false := by
  obtain ⟨_, violation⟩ := f
  cases violation <;> simp_all [ConcernsKey, Violation.isOfForm, Violation.reason]

/-- Where members are expected, nothing is found about keys. -/
theorem not_concernsKey_of_mem_atMember {schema : Schema} {owner name : String}
    (h : f ∈ schema.atMember owner name v) : ¬ f.ConcernsKey := by
  unfold Schema.atMember at h
  split at h
  · rcases List.mem_append.mp h with h | h <;> obtain ⟨-, rfl⟩ := eq_of_mem_when h <;>
      simp [ConcernsKey, Violation.reason]
  · cases h

/-- Missing keys are found for the names that are absent. -/
theorem mem_keyed_missing : f ∈ keyed keys v ∧ f.violation.reason = .missingRequired ↔
    ∃ fields name, v = .obj fields ∧ name ∈ keys ∧ Json.lookup name fields = none ∧
      f = ⟨[.key name], .missing name⟩ := by
  cases v with
  | obj fields =>
    simp only [keyed, List.mem_append, List.mem_map, List.mem_filter, Option.isNone_iff_eq_none,
      Json.obj.injEq, exists_and_left, exists_eq_left']
    constructor
    · rintro ⟨⟨name, ⟨hn, hl⟩, rfl⟩ | ⟨field, -, rfl⟩, hr⟩
      · exact ⟨name, hn, hl, rfl⟩
      · cases hr
    · rintro ⟨name, hn, hl, rfl⟩
      exact ⟨.inl ⟨name, ⟨hn, hl⟩, rfl⟩, rfl⟩
  | _ => simp [keyed]

/-- Surplus keys are found for the names that are not declared. -/
theorem mem_keyed_unexpected : f ∈ keyed keys v ∧ f.violation.reason = .unexpectedProperty ↔
    ∃ fields name, v = .obj fields ∧ (Json.lookup name fields).isSome ∧ name ∉ keys ∧
      f = ⟨[.key name], .unexpected name⟩ := by
  cases v with
  | obj fields =>
    simp only [keyed, List.mem_append, List.mem_map, List.mem_filter, decide_eq_true_eq,
      Json.obj.injEq, exists_and_left, exists_eq_left']
    constructor
    · rintro ⟨⟨name, -, rfl⟩ | ⟨field, ⟨hf, hn⟩, rfl⟩, hr⟩
      · cases hr
      · refine ⟨field.1, ?_, hn, rfl⟩
        rw [Option.isSome_iff_ne_none, ne_eq, Json.lookup_eq_none_iff, not_not]
        exact List.mem_map_of_mem hf
    · rintro ⟨name, hl, hn, rfl⟩
      obtain ⟨value, hl⟩ := Option.isSome_iff_exists.mp hl
      exact ⟨.inr ⟨(name, value), ⟨Json.mem_of_lookup hl, hn⟩, rfl⟩, rfl⟩
  | _ => simp [keyed]

end Finding

namespace Schema

variable {schema : Schema} {v : Json} {kind : Kind} {f : Finding}

/-- At a value of a kind, findings about keys are those about the keys that the kind declares. -/
theorem mem_own_of_concernsKey (hf : f.ConcernsKey) : f ∈ schema.own v kind ↔
    ∃ keys, schema.declaredKeys kind = some keys ∧ f ∈ Finding.keyed keys v := by
  rw [mem_own_iff hf.isOfForm_eq_false, or_iff_left fun h => ?_]
  unfold atMembers at h
  split at h
  · exact Finding.not_concernsKey_of_mem_atMember h hf
  · obtain ⟨_, -, i, _, -, g, hg, rfl⟩ := Finding.mem_inEach.mp h
    exact Finding.not_concernsKey_of_mem_atMember hg hf
  · cases h

/-- **Findings about keys are about the objects that are reached.** -/
theorem found_iff_of_concernsKey (hf : f.ConcernsKey) :
    (f ∈ schema.atWrapper v ∨ ∃ root ∈ schema.roots v, schema.Finds root f) ↔
      ∃ location keys fields, schema.ReachesObject v location keys fields ∧
        f ∈ (Finding.keyed keys (.obj fields)).map (Finding.beneath location) := by
  constructor
  · rintro (h | ⟨root, hr, ⟨kind, value, location⟩, holds, h⟩)
    · obtain ⟨hw, h⟩ := (mem_atWrapper_iff hf.isOfForm_eq_false).mp h
      cases v with
      | obj fields => exact ⟨[], _, fields, .wrapper hw rfl, List.mem_map.mpr ⟨f, h, f.beneath_nil⟩⟩
      | _ => cases h
    · obtain ⟨g, hg, rfl⟩ := List.mem_map.mp h
      obtain ⟨keys, hk, hg⟩ := (mem_own_of_concernsKey (f := g) hf).mp hg
      cases value with
      | obj fields => exact ⟨location, keys, fields, .place hr holds hk, List.mem_map_of_mem hg⟩
      | _ => cases hg
  · rintro ⟨location, keys, fields, reaches, h⟩
    obtain ⟨g, hg, rfl⟩ := List.mem_map.mp h
    cases reaches with
    | wrapper hw hv =>
      exact .inl ((mem_atWrapper_iff hf.isOfForm_eq_false).mpr ⟨hw, hv ▸ hg⟩)
    | place hr holds hk =>
      exact .inr ⟨_, hr, _, holds, List.mem_map_of_mem ((mem_own_of_concernsKey (f := g) hf).mpr
        ⟨keys, hk, hg⟩)⟩

/-! ## Keys that are missing or undeclared -/

/-- A declared key of an object that is reached is absent. -/
def Lacks (schema : Schema) (v : Json) (location : Location) (name : String) : Prop :=
  ∃ keys fields, schema.ReachesObject v location keys fields ∧ name ∈ keys ∧
    Json.lookup name fields = none

/-- A key of an object that is reached is not declared. -/
def Adds (schema : Schema) (v : Json) (location : Location) (name : String) : Prop :=
  ∃ keys fields, schema.ReachesObject v location keys fields ∧ name ∉ keys ∧
    (Json.lookup name fields).isSome

/-- Findings of one of the sorts that concern keys are those of that sort about the objects that are
reached. -/
theorem found_of_sort_iff {reason : Reason}
    (hr : reason = .missingRequired ∨ reason = .unexpectedProperty) :
    ((f ∈ schema.atWrapper v ∨ ∃ root ∈ schema.roots v, schema.Finds root f) ∧
      f.violation.reason = reason) ↔
        ∃ location keys fields g, schema.ReachesObject v location keys fields ∧
          (g ∈ Finding.keyed keys (.obj fields) ∧ g.violation.reason = reason) ∧
          f = g.beneath location := by
  constructor
  · rintro ⟨h, rfl⟩
    obtain ⟨location, keys, fields, reaches, h⟩ := (found_iff_of_concernsKey hr).mp h
    obtain ⟨g, hg, rfl⟩ := List.mem_map.mp h
    exact ⟨location, keys, fields, g, reaches, ⟨hg, rfl⟩, rfl⟩
  · rintro ⟨location, keys, fields, g, reaches, ⟨hg, rfl⟩, rfl⟩
    exact ⟨(found_iff_of_concernsKey (f := g.beneath location) hr).mpr
      ⟨location, keys, fields, reaches, List.mem_map_of_mem hg⟩, rfl⟩

/-- Missing keys are found exactly where the value lacks one. -/
theorem found_missing_iff : ((f ∈ schema.atWrapper v ∨ ∃ root ∈ schema.roots v, schema.Finds root f) ∧
    f.violation.reason = .missingRequired) ↔
      ∃ location name, schema.Lacks v location name ∧ f = ⟨location ++ [.key name], .missing name⟩ := by
  rw [found_of_sort_iff (.inl rfl)]
  simp only [Finding.mem_keyed_missing]
  constructor
  · rintro ⟨location, keys, _, _, reaches, ⟨_, name, ⟨⟩, hn, hl, rfl⟩, rfl⟩
    exact ⟨location, name, ⟨keys, _, reaches, hn, hl⟩, rfl⟩
  · rintro ⟨location, name, ⟨keys, fields, reaches, hn, hl⟩, rfl⟩
    exact ⟨location, keys, fields, _, reaches, ⟨fields, name, rfl, hn, hl, rfl⟩, rfl⟩

/-- Surplus keys are found exactly where the value adds one. -/
theorem found_unexpected_iff : ((f ∈ schema.atWrapper v ∨ ∃ root ∈ schema.roots v, schema.Finds root f) ∧
    f.violation.reason = .unexpectedProperty) ↔
      ∃ location name, schema.Adds v location name ∧ f = ⟨location ++ [.key name], .unexpected name⟩ := by
  rw [found_of_sort_iff (.inr rfl)]
  simp only [Finding.mem_keyed_unexpected]
  constructor
  · rintro ⟨location, keys, _, _, reaches, ⟨_, name, ⟨⟩, hl, hn, rfl⟩, rfl⟩
    exact ⟨location, name, ⟨keys, _, reaches, hn, hl⟩, rfl⟩
  · rintro ⟨location, name, ⟨keys, fields, reaches, hn, hl⟩, rfl⟩
    exact ⟨location, keys, fields, _, reaches, ⟨fields, name, rfl, hl, hn, rfl⟩, rfl⟩

/-- Where a key of an object stands, or should, is known by its pointer. -/
theorem ReachesObject.eq_of_pointer {location other : Location} {keys keys' : List String}
    {fields fields' : List (String × Json)} {name name' : String}
    (h : schema.ReachesObject v location keys fields) (ho : schema.ReachesObject v other keys' fields')
    (same : Location.pointer (location ++ [.key name]) = Location.pointer (other ++ [.key name'])) :
    location = other ∧ name = name' := by
  have names := Pointer.ofNames_injective same
  rw [List.map_append, List.map_append] at names
  obtain ⟨front, last⟩ := List.append_inj' names rfl
  exact ⟨Json.location_unique h.at? ho.at? front, (List.cons.inj last).1⟩

/-- Findings about keys that have the same pointer and the same sort are the same. -/
theorem eq_of_concernsKey {g : Finding} (hf : f.ConcernsKey)
    (h : f ∈ schema.atWrapper v ∨ ∃ root ∈ schema.roots v, schema.Finds root f)
    (hg : g ∈ schema.atWrapper v ∨ ∃ root ∈ schema.roots v, schema.Finds root g)
    (path : f.path = g.path) (reason : f.violation.reason = g.violation.reason) : f = g := by
  rcases hf with hr | hr
  · obtain ⟨location, name, ⟨_, _, reaches, -⟩, rfl⟩ := found_missing_iff.mp ⟨h, hr⟩
    obtain ⟨other, name', ⟨_, _, reaches', -⟩, rfl⟩ := found_missing_iff.mp ⟨hg, reason ▸ hr⟩
    obtain ⟨rfl, rfl⟩ := reaches.eq_of_pointer reaches' path
    rfl
  · obtain ⟨location, name, ⟨_, _, reaches, -⟩, rfl⟩ := found_unexpected_iff.mp ⟨h, hr⟩
    obtain ⟨other, name', ⟨_, _, reaches', -⟩, rfl⟩ := found_unexpected_iff.mp ⟨hg, reason ▸ hr⟩
    obtain ⟨rfl, rfl⟩ := reaches.eq_of_pointer reaches' path
    rfl

end Schema

/-! ## The main result -/

namespace Checker

/-- Raise the first finding in a value, if there is one. -/
def check (c : Checker) (value : Json) : Except Raised Unit :=
  match c.findings value with
  | .ok [] => .ok ()
  | .ok (first :: _) => .error (.failure first.toFailure)
  | .error fault => .error (.fault fault)

end Checker

namespace Schema

/-- Before a value is decoded, it is checked: what the check raises is raised. -/
theorem decodeChecked_eq_check {σ : Type} (schema : Schema) {depth : Nat} (host : Host σ) {v : Json}
    (shallow : v.depth ≤ depth) : (schema.decodeChecked depth host v).1 =
      match schema.checker.check v with
      | .ok () => schema.decode host v
      | .error e => throw e := by
  rw [decodeChecked, if_neg (not_lt.mpr shallow), Checker.check]
  rcases schema.checker.findings v with fault | (_ | ⟨first, rest⟩) <;> rfl

/-- What a check says of the keys of a value, and how it lists and raises what it finds. -/
structure ReportsKeys (schema : Schema) (v : Json) (found : List Finding) : Prop where
  /-- Each declared key that is absent is missing, and nothing else is. -/
  missing : ∀ f, f ∈ found ∧ f.violation.reason = .missingRequired ↔
    ∃ location name, schema.Lacks v location name ∧ f = ⟨location ++ [.key name], .missing name⟩
  /-- Each key that is not declared is unexpected, and nothing else is. -/
  unexpected : ∀ f, f ∈ found ∧ f.violation.reason = .unexpectedProperty ↔
    ∃ location name, schema.Adds v location name ∧ f = ⟨location ++ [.key name], .unexpected name⟩
  /-- No key is reported missing twice, or unexpected twice: such findings have pointers of their own. -/
  once : ∀ reason, reason = .missingRequired ∨ reason = .unexpectedProperty →
    ((found.filter (·.violation.reason = reason)).map Finding.path).Nodup
  /-- No two findings have the same pointer, sort and wording. -/
  distinct : (found.map Finding.key).Nodup
  /-- The shallowest come first, and those of the same depth by their pointers. -/
  sorted : found.Pairwise fun f g => f.path.toList.count '/' < g.path.toList.count '/' ∨
    (f.path.toList.count '/' = g.path.toList.count '/' ∧ f.path ≤ g.path)
  /-- A check raises the first finding, or nothing. -/
  raises : schema.checker.check v = match found.head? with
    | some first => .error (.failure first.toFailure)
    | none => .ok ()

/-- **A check reports every missing and every undeclared key exactly once, shallowest first**, in any
value and by any schema that was built, where names are plain. -/
theorem checks_keys_once {source : Source} {kind : Kind} {schema : Schema}
    (built : schema.Built source kind) (plain : source.PlainNames) (v : Json) :
    ∃ found, schema.checker.findings v = .ok found ∧ schema.ReportsKeys v found := by
  obtain ⟨raw, hraw, found_iff⟩ := built.mem_raw_iff plain v
  have findings := Checker.findings_of_raw hraw
  -- What says the same as a finding about a key is that finding.
  have same {f g : Finding} (hf : f.ConcernsKey) (h : f ∈ raw) (hg : g ∈ raw) (path : f.path = g.path)
      (reason : f.violation.reason = g.violation.reason) : f = g :=
    eq_of_concernsKey hf ((found_iff f).mp h) ((found_iff g).mp hg) path reason
  have listed {f : Finding} (hf : f.ConcernsKey) : f ∈ Finding.listed raw ↔
      (f ∈ schema.atWrapper v ∨ ∃ root ∈ schema.roots v, schema.Finds root f) := by
    rw [← found_iff]
    refine ⟨Finding.mem_of_mem_listed, fun h => ?_⟩
    obtain ⟨g, hg, hk⟩ := Finding.exists_mem_listed h
    obtain ⟨path, rest⟩ := Prod.mk.inj hk
    rwa [same hf h (Finding.mem_of_mem_listed hg) path.symm (Prod.mk.inj rest).1.symm]
  refine ⟨_, findings, ?missing, ?unexpected, ?once, Finding.nodup_listed raw, ?sorted, ?raises⟩
  case missing =>
    intro f
    rw [← found_missing_iff]
    exact and_congr_left fun hr => listed (.inl hr)
  case unexpected =>
    intro f
    rw [← found_unexpected_iff]
    exact and_congr_left fun hr => listed (.inr hr)
  case once =>
    intro reason hr
    refine List.Nodup.map_on (fun f hf g hg path => ?_) ((Finding.nodup_listed raw).of_map.filter _)
    obtain ⟨inf, rf⟩ := List.mem_filter.mp hf
    obtain ⟨ing, rg⟩ := List.mem_filter.mp hg
    have sort : f.violation.reason = reason := of_decide_eq_true rf
    have about : f.ConcernsKey := by rwa [Finding.ConcernsKey, sort]
    exact same about (Finding.mem_of_mem_listed inf) (Finding.mem_of_mem_listed ing) path
      (sort.trans (of_decide_eq_true rg).symm)
  case sorted =>
    refine (Finding.pairwise_listed raw).imp fun {f g} order => ?_
    simp only [Finding.before, Bool.or_eq_true, Bool.and_eq_true, decide_eq_true_eq] at order
    exact order
  case raises =>
    rw [Checker.check, findings]
    cases Finding.listed raw <;> rfl

/-- A person of whom only the name and the age are told. -/
def stranger : Json :=
  .obj [("name", .str "Eve"), ("age", .int 7)]

/-- The mood and the friends of a stranger are missing, and an age is not expected. -/
theorem checks_keys_once_stranger :
    ∃ schema found, (buildClass people.source "Person" "").run.1 = .ok schema ∧
      schema.checker.findings stranger = .ok found ∧
      ⟨[.key "mood"], .missing "mood"⟩ ∈ found ∧ ⟨[.key "friends"], .missing "friends"⟩ ∈ found ∧
      ⟨[.key "age"], .unexpected "age"⟩ ∈ found := by
  obtain ⟨schema, h⟩ := exists_schema_person
  have built := Schema.Built.class h
  obtain ⟨found, hf, reports⟩ := checks_keys_once built plainNames_people stranger
  obtain ⟨names, shared, presents⟩ := built.presents
  obtain ⟨hroot, hw⟩ := buildClass_root h
  obtain ⟨c, hc, describes⟩ := presents.complete.classes
    (people.source.reaches_self (List.mem_singleton.mpr rfl))
  obtain rfl := Except.ok.inj (describes.symm.trans describeClass_person)
  have root : ⟨.object "Person", stranger, []⟩ ∈ schema.roots stranger := by
    rw [roots, hw, hroot]
    exact List.mem_singleton.mpr rfl
  have reaches : schema.ReachesObject stranger [] ["name", "mood", "friends"] _ :=
    .place root .refl (by rw [declaredKeys, hc]; rfl)
  refine ⟨schema, found, h, hf, ?_, ?_, ?_⟩
  · exact ((reports.missing _).mpr ⟨[], "mood", ⟨_, _, reaches, by decide, by decide⟩, rfl⟩).1
  · exact ((reports.missing _).mpr ⟨[], "friends", ⟨_, _, reaches, by decide, by decide⟩, rfl⟩).1
  · exact ((reports.unexpected _).mpr ⟨[], "age", ⟨_, _, reaches, by decide, by decide⟩, rfl⟩).1

end Schema

end ReflectedSchema
