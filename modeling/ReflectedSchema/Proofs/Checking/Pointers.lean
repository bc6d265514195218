import ReflectedSchema.Proofs.Checking.Listing
import ReflectedSchema.Proofs.Checking.Locations

/-!
# Findings keep their places

Whatever a check finds concerns a place that the value has, or a key that one of its objects lacks, and
such a place is known by its pointer.  So listing each finding once, by its pointer, its sort and its
wording, never takes two places for one, whatever the document is that a value is checked against.
`pointers_are_faithful` puts this together with what the pointer of a location says.

The descent is that of the check: keyword by keyword at one value, and from a value into its parts.
-/

namespace ReflectedSchema

/-! ## What is found concerns places of the value -/

namespace Checked

/-- Whatever a check finds concerns a place of a value. -/
def FindsIn (v : Json) (check : Checked) : Prop :=
  ∀ found, check = .ok found → ∀ f ∈ found, v.Bears f.location

namespace FindsIn

variable {v w : Json}

/-- Nothing is found anywhere. -/
theorem none : FindsIn v (.ok []) := by
  rintro found ⟨⟩ f hf
  cases hf

/-- A fault finds nothing. -/
theorem error (e : Fault) : FindsIn v (.error e) := by
  rintro found ⟨⟩

/-- A violation at the value itself. -/
theorem one (violation : Violation) : FindsIn v (one violation) := by
  rintro found ⟨⟩ f hf
  obtain rfl := List.mem_singleton.mp hf
  exact .here v

/-- A violation at the value itself, perhaps. -/
theorem oneIf (condition : Bool) (violation : Violation) : FindsIn v (oneIf condition violation) := by
  cases condition with
  | false => exact none
  | true => exact one violation

/-- Findings about keys of an object. -/
theorem keys (fields : List (String × Json)) (names : List String) (violation : String → Violation) :
    FindsIn (.obj fields) (.ok (names.map fun name => ⟨[.key name], violation name⟩)) := by
  rintro found ⟨⟩ f hf
  obtain ⟨name, -, rfl⟩ := List.mem_map.mp hf
  exact .key fields name

/-- Checks in a row find what each of them does. -/
theorem all {checks : List Checked} (h : ∀ check ∈ checks, FindsIn v check) :
    FindsIn v (all checks) := by
  induction checks with
  | nil => exact none
  | cons check rest ih =>
    obtain ⟨first, later⟩ := List.forall_mem_cons.mp h
    cases check with
    | error e => exact error e
    | ok found =>
      specialize ih later
      simp only [Checked.all]
      generalize Checked.all rest = more at ih ⊢
      cases more with
      | error e => exact error e
      | ok more =>
        rintro found ⟨⟩ f hf
        exact (List.mem_append.mp hf).elim (first _ rfl f) (ih _ rfl f)

/-- Checks that are made of a list find what each of them does. -/
theorem all_map {α : Type} {xs : List α} {f : α → Checked} (h : ∀ x ∈ xs, FindsIn v (f x)) :
    FindsIn v (Checked.all (xs.map f)) :=
  all (List.forall_mem_map.mpr h)

/-- What is found inside a value is found in it, one step further out. -/
theorem under {step : Step} {check : Checked} (h : v.part? step = some w) (hw : FindsIn w check) :
    FindsIn v (check.under step) := by
  cases check with
  | error e => exact error e
  | ok inner =>
    rintro found ⟨⟩ f hf
    obtain ⟨g, hg, rfl⟩ := List.mem_map.mp hf
    exact .inside h (hw inner rfl g hg)

end FindsIn

end Checked

namespace Checker

open Checked (FindsIn)

variable {c : Checker} {v : Json} {child : Json → Json → Checked}
  (parts : ∀ step w, v.part? step = some w → ∀ schema, FindsIn w (child w schema))

include parts in
/-- What is found under declared names is found in the value. -/
theorem declared_findsIn (properties : List (String × Json)) :
    FindsIn v (declared (v.inside child) properties) := by
  cases v with
  | obj fields =>
    refine .all_map fun (name, sub) _ => ?_
    dsimp only
    rw [Json.lookup_map]
    cases found : Json.lookup name fields with
    | none => exact .none
    | some w =>
      have step : (Json.obj fields).part? (.key name) = some w := found
      exact .under step (parts _ w step sub)
  | _ => exact .none

/-- An absent name is a place of the object that lacks it. -/
theorem required_findsIn (names : List String) : FindsIn v (required (v.inside child) names) := by
  cases v with
  | obj fields =>
    rw [Json.inside, required, Finding.absent, ← List.map_flatMap]
    exact .keys fields _ Violation.missing
  | _ => exact .none

/-- An undeclared name is a place of the object that has it. -/
theorem undeclared_findsIn (properties : List (String × Json)) :
    FindsIn v (undeclared (v.inside child) properties) := by
  cases v with
  | obj fields =>
    have keys := FindsIn.keys fields
      (((fields.map fun field => (field.1, child field.2)).filter fun field =>
        (Json.lookup field.1 properties).isNone).map (·.1)) Violation.unexpected
    rwa [List.map_map] at keys
  | _ => exact .none

/-- What is found in items is found in the value, under their indexes. -/
theorem itemsFrom_findsIn (sub : Json) {checks : List (Json → Checked)} (index : Nat)
    (each : ∀ (i : Nat) check, checks[i]? = some check →
      FindsIn v ((check sub).under (.index (index + i)))) :
    ∀ check ∈ itemsFrom sub index checks, FindsIn v check := by
  induction checks generalizing index with
  | nil => exact fun check hc => nomatch hc
  | cons first rest ih =>
    refine List.forall_mem_cons.mpr ⟨each 0 first rfl, ih (index + 1) fun i check hi => ?_⟩
    have later := each (i + 1) check hi
    rwa [Nat.add_comm i, ← Nat.add_assoc] at later

/-- That a value is no member is found at the value itself. -/
theorem member_findsIn (members : List Json) : FindsIn v (c.member v members) := by
  unfold member
  extract_lets isMember
  split
  · exact .none
  · split
    · exact .one _
    · exact .error _
    · exact .none

include parts in
/-- **What keywords find concerns places of the value**, if what is found inside it concerns places there. -/
theorem keyword_findsIn {follow : Json → Checked} (followed : ∀ target, FindsIn v (follow target))
    (schema : List (String × Json)) (name : String) (argument : Json) :
    FindsIn v (c.keyword v (v.inside child) follow schema name argument) := by
  unfold keyword
  split
  · split
    · exact followed _
    · exact .error _
  · exact .oneIf _ _
  · exact declared_findsIn parts _
  · exact required_findsIn _
  · exact undeclared_findsIn _
  · cases v with
    | arr items =>
      refine .all (itemsFrom_findsIn _ 0 fun i check hi => ?_)
      rw [Nat.zero_add]
      rw [List.getElem?_map, Option.map_eq_some_iff] at hi
      obtain ⟨w, hw, rfl⟩ := hi
      have step : (Json.arr items).part? (.index i) = some w := hw
      exact .under step (parts _ w step _)
    | _ => exact .none
  · split
    · exact .oneIf _ _
    · exact .none
  · split
    · exact .oneIf _ _
    · exact .none
  · exact .oneIf _ _
  · exact .oneIf _ _
  · exact member_findsIn _
  · exact .none

include parts in
/-- A schema finds places of the value, if what its references lead to does. -/
theorem visit_findsIn_of_followed {references : Nat}
    (followed : ∀ target, FindsIn v (c.followed v (v.inside child) references target)) (schema : Json) :
    FindsIn v (c.visit v (v.inside child) references schema) := by
  cases schema with
  | obj keywords =>
    rw [visit_obj]
    exact .all_map fun k _ => keyword_findsIn parts followed keywords k.1 k.2
  | bool allowed =>
    unfold visit
    cases allowed with
    | true => exact .none
    | false => exact .one _
  | _ =>
    unfold visit
    exact .error _

include parts in
/-- What a schema finds is in the value, also behind references. -/
theorem visit_findsIn (references : Nat) (schema : Json) :
    FindsIn v (c.visit v (v.inside child) references schema) := by
  induction references generalizing schema with
  | zero => exact visit_findsIn_of_followed parts (fun _ => .error _) schema
  | succ references ih =>
    have followed (target : Json) : FindsIn v (c.followed v (v.inside child) (references + 1) target) :=
      ih target
    exact visit_findsIn_of_followed parts followed schema

end Checker

/-- **Whatever a check finds concerns a place of the value**, for any document and any value. -/
theorem Json.check_findsIn (c : Checker) (references : Nat) (v : Json) (schema : Json) :
    Checked.FindsIn v (v.check c references schema) := by
  refine v.inductionOnParts (P := fun v => ∀ schema, Checked.FindsIn v (v.check c references schema))
    (fun v parts schema => ?_) schema
  rw [Json.check_eq_visit]
  exact Checker.visit_findsIn (fun _ w h => parts w (Json.mem_parts_of_part? h)) references schema

/-! ## Each finding once -/

/-- What becomes of findings that are listed once each. -/
structure Finding.KeepsPlaces (found listed : List Finding) : Prop where
  /-- Findings that say the same concern the same place. -/
  same : ∀ f ∈ found, ∀ g ∈ found, f.key = g.key → f.location = g.location
  /-- Nothing is listed that was not found. -/
  sound : ∀ g ∈ listed, g ∈ found
  /-- At each place, whatever is found there is listed in its wording. -/
  complete : ∀ f ∈ found, ∃ g ∈ listed,
    g.location = f.location ∧ g.violation.wording = f.violation.wording
  /-- At no place is a wording listed twice. -/
  once : (listed.map fun f => (f.location, f.violation.wording)).Nodup
  /-- The places with the fewest steps come first, and those of as many by their pointers. -/
  sorted : listed.Pairwise fun f g => f.location.length < g.location.length ∨
    (f.location.length = g.location.length ∧ f.path ≤ g.path)

/-- Findings in a value are listed without taking two places for one. -/
theorem Finding.keepsPlaces_listed {v : Json} {found : List Finding}
    (places : ∀ f ∈ found, v.Bears f.location) : KeepsPlaces found (listed found) := by
  have same : ∀ f ∈ found, ∀ g ∈ found, f.key = g.key → f.location = g.location :=
    fun f hf g hg h => (places f hf).eq_of_texts (places g hg)
      (Location.pointer_eq_iff.mp (congrArg Prod.fst h))
  refine ⟨same, fun g hg => mem_of_mem_listed hg, fun f hf => ?complete, ?once, ?sorted⟩
  case complete =>
    obtain ⟨g, hg, hk⟩ := exists_mem_listed hf
    exact ⟨g, hg, same g (mem_of_mem_listed hg) f hf hk, congrArg Prod.snd hk⟩
  case once =>
    refine List.Nodup.map_on (fun f hf g hg both => ?_) (nodup_listed found).of_map
    obtain ⟨location, wording⟩ := Prod.mk.inj both
    have keys : f.key = g.key := Prod.ext (congrArg Location.pointer location) wording
    exact List.inj_on_of_nodup_map (nodup_listed found) hf hg keys
  case sorted =>
    have depth (f : Finding) : Pointer.depth f.path = f.location.length := f.location.depth_pointer
    refine (pairwise_listed found).imp fun {f g} order => ?_
    simp only [before, depth, Bool.or_eq_true, Bool.and_eq_true, decide_eq_true_eq] at order
    exact order

/-- **Pointers are faithful.**  The pointer of a location has as many slashes as the location has steps,
it is read back into the texts of the steps, so that locations with different texts have different
pointers, and pointers are joined as locations are.  In a check of any value against any document, findings
that say the same, pointer included, concern the same place, so that each place keeps what is found
there. -/
theorem pointers_are_faithful :
    (∀ location : Location, Pointer.depth location.pointer = location.length ∧
      Pointer.decode location.pointer = some (location.map Step.text)) ∧
    (∀ location other : Location, location.pointer = other.pointer ↔
      location.map Step.text = other.map Step.text) ∧
    (∀ front back : Location, (front ++ back).pointer = front.pointer ++ back.pointer) ∧
    ∀ (c : Checker) (v : Json) (found : List Finding), c.raw v = .ok found →
      ∃ listed, c.findings v = .ok listed ∧ Finding.KeepsPlaces found listed := by
  refine ⟨fun location => ⟨location.depth_pointer, location.decode_pointer⟩,
    fun _ _ => Location.pointer_eq_iff, Location.pointer_append, fun c v found raw => ?_⟩
  have places := v.check_findsIn c c.document.size c.document found raw
  exact ⟨_, Checker.findings_of_raw raw, Finding.keepsPlaces_listed places⟩

/-- A document that wants texts under `a/b` and, one inside the other, under `a` and `b`. -/
def slashed : Json :=
  .obj [("properties", .obj [
    ("a/b", .obj [("type", .str "string")]),
    ("a", .obj [("properties", .obj [("b", .obj [("type", .str "string")])])])])]

/-- A number in each of the two places is found in both, though the same is said of each. -/
theorem pointers_are_faithful_slashed :
    ∃ listed, (Checker.mk slashed []).findings (.obj [("a", .obj [("b", .int 1)]), ("a/b", .int 1)]) =
        .ok listed ∧
      (∃ f ∈ listed, f.location = [.key "a/b"] ∧
        f.violation.wording = (Violation.wrongType (.int 1) ["string"]).wording) ∧
      ∃ f ∈ listed, f.location = [.key "a", .key "b"] ∧
        f.violation.wording = (Violation.wrongType (.int 1) ["string"]).wording := by
  have raw : (Checker.mk slashed []).raw (.obj [("a", .obj [("b", .int 1)]), ("a/b", .int 1)]) =
      .ok [⟨[.key "a/b"], .wrongType (.int 1) ["string"]⟩,
        ⟨[.key "a", .key "b"], .wrongType (.int 1) ["string"]⟩] := rfl
  obtain ⟨-, -, -, kept⟩ := pointers_are_faithful
  obtain ⟨listed, findings, keeps⟩ := kept _ _ _ raw
  obtain ⟨outer, rest⟩ := List.forall_mem_cons.mp keeps.complete
  exact ⟨listed, findings, outer, rest _ List.mem_cons_self⟩

end ReflectedSchema
