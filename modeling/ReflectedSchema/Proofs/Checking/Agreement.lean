import ReflectedSchema.Proofs.Checking.Shape

/-!
# Interpreted documents agree with shapes

`Json.check_eq_findings`: where the references of a document lead to the definitions of a glossary,
checking a value against a rendered shape gives the findings of the shape.
-/

namespace ReflectedSchema

/-! ## Lists of checks -/

namespace Checked

/-- Findings of checks in a row are put together. -/
theorem all_cons_ok {first : Checked} {rest : List Checked} {found more : List Finding}
    (h : first = .ok found) (hr : all rest = .ok more) : all (first :: rest) = .ok (found ++ more) := by
  subst h
  simp only [all, hr]

/-- Checks that end without a fault find what they find one after the other. -/
theorem all_map_ok {α : Type} {f : α → Checked} {g : α → List Finding} {xs : List α}
    (h : ∀ x ∈ xs, f x = .ok (g x)) : all (xs.map f) = .ok (xs.flatMap g) := by
  induction xs with
  | nil => rfl
  | cons x xs ih =>
    exact all_cons_ok (h x List.mem_cons_self) (ih fun y hy => h y (List.mem_cons_of_mem _ hy))

/-- Checks that find nothing can stand in front of others. -/
theorem all_append_left {front back : List Checked} (h : ∀ c ∈ front, c = .ok []) :
    all (front ++ back) = all back := by
  induction front with
  | nil => rfl
  | cons first rest ih =>
    rw [List.cons_append, h first List.mem_cons_self]
    simp only [all, ih fun c hc => h c (List.mem_cons_of_mem _ hc)]
    cases all back <;> rfl

/-- Checks that find nothing can stand behind others. -/
theorem all_append_right {front back : List Checked} (h : ∀ c ∈ back, c = .ok []) :
    all (front ++ back) = all front := by
  induction front with
  | nil =>
    have none : all (back ++ []) = all [] := all_append_left h
    rwa [List.append_nil] at none
  | cons first rest ih =>
    rw [List.cons_append]
    simp only [all, ih]

/-- One finding under a condition is found without fail. -/
theorem oneIf_eq_when (condition : Bool) (v : Violation) :
    oneIf condition v = .ok (Finding.when condition v) := by
  cases condition <;> rfl

/-- A single check in a row finds what it finds. -/
theorem all_one {only : Checked} {found : List Finding} (h : only = .ok found) :
    all [only] = .ok found := by
  have none : all [] = .ok [] := rfl
  simpa using all_cons_ok h none

/-- Two checks in a row find what both find. -/
theorem all_two {first second : Checked} {found more : List Finding} (hf : first = .ok found)
    (hs : second = .ok more) : all [first, second] = .ok (found ++ more) :=
  all_cons_ok hf (all_one hs)

/-- Findings are moved one step further out. -/
theorem under_ok (step : Step) (found : List Finding) :
    under step (.ok found) = .ok (found.map (Finding.under step)) := rfl

end Checked

/-! ## Keywords -/

namespace Checker

variable (c : Checker) (value : Json) (inside : Inside (Json → Checked))

/-- What following a reference at a value finds, with a number of references left. -/
def followed : (references : Nat) → Json → Checked
  | 0 => fun _ => .error .endlessReference
  | references + 1 => c.visit value inside references

/-- A schema object is checked keyword by keyword. -/
theorem visit_obj (references : Nat) (keywords : List (String × Json)) :
    c.visit value inside references (.obj keywords) = .all (keywords.map fun k =>
      c.keyword value inside (c.followed value inside references) keywords k.1 k.2) := by
  cases references <;> rfl

variable (follow : Json → Checked) (schema : List (String × Json))

/-- The type keyword finds a value of another type. -/
theorem keyword_type (type : String) :
    c.keyword value inside follow schema "type" (.str type) = .ok (Glossary.typed value type) := by
  refine Eq.trans ?_ (Checked.oneIf_eq_when _ _)
  simp [keyword, Json.typeNames]

/-- The properties keyword checks what is declared. -/
theorem keyword_properties (properties : List (String × Json)) :
    c.keyword value inside follow schema "properties" (.obj properties) =
      declared inside properties := rfl

/-- The keyword of required names finds what is absent. -/
theorem keyword_required (names : List Json) :
    c.keyword value inside follow schema "required" (.arr names) =
      required inside (names.filterMap Json.str?) := rfl

/-- Names beside the declared ones are found if the keyword excludes them. -/
theorem keyword_additionalProperties :
    c.keyword value inside follow schema "additionalProperties" (.bool false) =
      undeclared inside ((Json.lookup "properties" schema).bind Json.obj? |>.getD []) := rfl

/-- The enum keyword looks for the value among the members. -/
theorem keyword_enum (members : List Json) :
    c.keyword value inside follow schema "enum" (.arr members) = c.member value members := rfl

/-- A reference is followed to where it leads. -/
theorem keyword_reference {reference : String} {target : Json}
    (h : c.document.follow? reference = some target) :
    c.keyword value inside follow schema "$ref" (.str reference) = follow target := by
  simp only [keyword, h]

/-- Annotations of a schema find nothing. -/
theorem keyword_annotation {k : String × Json} (h : k.1 ∈ Shape.annotations) :
    c.keyword value inside follow schema k.1 k.2 = .ok [] := by
  obtain ⟨name, argument⟩ := k
  simp only [Shape.annotations, List.mem_cons, List.not_mem_nil, or_false] at h
  rcases h with rfl | rfl | rfl <;> cases argument <;> rfl

/-- A keyword looks at the others only for the declared properties. -/
theorem keyword_congr {schema other : List (String × Json)}
    (h : Json.lookup "properties" schema = Json.lookup "properties" other) (name : String)
    (argument : Json) :
    c.keyword value inside follow schema name argument =
      c.keyword value inside follow other name argument := by
  unfold keyword
  simp only [h]

/-- Checking against a rendered shape checks the keywords of the shape. -/
theorem visit_renders {s : Shape} {j : Json} (h : s.Renders j) (references : Nat) :
    c.visit value inside references j = c.visit value inside references (.obj s.fields) := by
  obtain ⟨before, after, hb, ha⟩ := h
  have skip : ∀ keywords : List (String × Json), (∀ k ∈ keywords, k.1 ∈ Shape.annotations) →
      ∀ found ∈ keywords.map (fun k => c.keyword value inside (c.followed value inside references)
        (before ++ s.fields ++ after) k.1 k.2), found = .ok [] := by
    intro keywords hk found hf
    obtain ⟨k, hm, rfl⟩ := List.mem_map.mp hf
    exact c.keyword_annotation value inside _ _ (hk k hm)
  rw [visit_obj, visit_obj, List.map_append, List.map_append, List.append_assoc,
    Checked.all_append_left (skip before hb), Checked.all_append_right (skip after ha)]
  refine congrArg Checked.all (List.map_congr_left fun k _ => ?_)
  refine c.keyword_congr value inside _ ?_ k.1 k.2
  have absent : ∀ keywords : List (String × Json), (∀ k ∈ keywords, k.1 ∈ Shape.annotations) →
      Json.lookup "properties" keywords = none := by
    intro keywords hk
    rw [Json.lookup_eq_none_iff, List.mem_map]
    rintro ⟨k, hm, hp⟩
    exact absurd (hp ▸ hk k hm) (by decide)
  simp [Json.lookup_append, absent before hb, absent after ha]

end Checker

/-! ## Agreement -/

/-- A glossary that says what a document says: references lead to the definitions of the glossary,
which reference each other. -/
structure Glossary.Describes (g : Glossary) (c : Checker) : Prop where
  follow : ∀ {name : String} {d : Definition}, g.definition? name = some d →
    c.document.follow? (referenceTo name) = some d.toJson
  closed : ∀ {name : String} {d : Definition}, g.definition? name = some d →
    ∀ t ∈ d.targets, (g.definition? t).isSome
  enumNameOf : ∀ members : List String, g.enumNameOf members = c.enumNameOf members

/-- Every reference of a shape has a definition. -/
def Glossary.Resolves (g : Glossary) (s : Shape) : Prop :=
  ∀ t ∈ s.targets, (g.definition? t).isSome

namespace Checker

variable {c : Checker} {g : Glossary} {references : Nat}

/-- Checking a value against rendered shapes gives their findings. -/
def Agrees (c : Checker) (g : Glossary) (references : Nat) (v : Json) : Prop :=
  ∀ s : Shape, g.Resolves s → ∀ j : Json, s.Renders j →
    v.check c references j = .ok (v.findings g s)

/-- The items of an array are checked in turn. -/
theorem all_itemsFrom {s : Shape} {j : Json} {items : List Json}
    (h : ∀ item ∈ items, item.check c references j = .ok (item.findings g s)) (index : Nat) :
    Checked.all (itemsFrom j index (items.map (·.check c references))) =
      .ok (Glossary.itemsFrom s index (items.map (·.findings g))) := by
  induction items generalizing index with
  | nil => rfl
  | cons item rest ih =>
    have here : (item.check c references j).under (.index index) =
        .ok ((item.findings g s).map (Finding.under (.index index))) := by
      rw [h item List.mem_cons_self, Checked.under_ok]
    exact Checked.all_cons_ok here (ih (fun w hw => h w (List.mem_cons_of_mem _ hw)) (index + 1))

/-- The items keyword finds in each item what the shape of the items finds. -/
theorem keyword_items {v : Json} {s : Shape} {j : Json} (hs : g.Resolves s) (hj : s.Renders j)
    (parts : ∀ w ∈ v.parts, c.Agrees g references w) (follow : Json → Checked)
    (schema : List (String × Json)) :
    c.keyword v (v.inside (·.check c references)) follow schema "items" j =
      .ok (Glossary.inItems (v.inside (·.findings g)) s) := by
  cases v with
  | arr items => exact all_itemsFrom (fun item hm => parts item hm s hs j hj) 0
  | _ => rfl

/-- The keywords of a fixed length find another length. -/
theorem keyword_length (v : Json) (inside : Inside (Json → Checked)) (follow : Json → Checked)
    (schema : List (String × Json)) (length : Option Int) :
    Checked.all ((Node.lengthFields length).map fun k =>
      c.keyword v inside follow schema k.1 k.2) = .ok (Glossary.sized v length) := by
  cases length with
  | none => cases v <;> rfl
  | some n =>
    cases v with
    | arr items =>
      exact Checked.all_two (Checked.oneIf_eq_when (items.length < n) (.tooShort (.arr items) n))
        (Checked.oneIf_eq_when (n < items.length) (.tooLong (.arr items) n))
    | _ => rfl

/-- The keywords of a range find what is outside. -/
theorem keyword_range (v : Json) (inside : Inside (Json → Checked)) (follow : Json → Checked)
    (schema : List (String × Json)) (range : Option (Int × Int)) :
    Checked.all ((Node.rangeFields range).map fun k =>
      c.keyword v inside follow schema k.1 k.2) = .ok (Glossary.bounded v range) := by
  cases range with
  | none => rfl
  | some bounds =>
    obtain ⟨least, most⟩ := bounds
    exact Checked.all_two (Checked.oneIf_eq_when (v.lessThan least) (.tooSmall v least))
      (Checked.oneIf_eq_when (v.greaterThan most) (.tooLarge v most))

/-- A declared property is checked if it is present. -/
theorem declared_property {fields : List (String × Json)} {p : NodeProperty}
    (hp : g.Resolves (.node p.node))
    (parts : ∀ w ∈ (Json.obj fields).parts, c.Agrees g references w) :
    (match Json.lookup p.name (fields.map fun (k, w) => (k, w.check c references)) with
      | some child => (child p.toJson).under (.key p.name)
      | none => .ok []) =
    Except.ok (Glossary.inProperty (fields.map fun (k, w) => (k, w.findings g)) p) := by
  rw [Glossary.inProperty, Json.lookup_map, Json.lookup_map]
  cases hl : Json.lookup p.name fields with
  | none => rfl
  | some w =>
    have hw : w.check c references p.toJson = .ok (w.findings g (.node p.node)) :=
      parts w (Json.mem_parts_of_lookup hl) _ hp _ (.property p)
    simp only [Option.map_some, hw, Checked.under_ok]

/-- An object is checked for its declared properties, for absent ones and for undeclared ones. -/
theorem keywords_object {v : Json} {properties : List NodeProperty}
    (hp : ∀ p ∈ properties, g.Resolves (.node p.node))
    (parts : ∀ w ∈ v.parts, c.Agrees g references w) (follow : Json → Checked) :
    Checked.all ((Definition.object properties).fields.tail.map fun k =>
      c.keyword v (v.inside (·.check c references)) follow (Definition.object properties).fields k.1 k.2) =
      .ok (Glossary.inProperties (v.inside (·.findings g)) properties) := by
  cases v with
  | obj fields =>
    have names : (properties.map fun p => Json.str p.name).filterMap Json.str? =
        properties.map (·.name) := by
      simp [List.filterMap_map, Function.comp_def, Json.str?]
    simp only [Json.inside, Glossary.inProperties, List.append_assoc]
    refine Checked.all_cons_ok ?declared (Checked.all_two ?absent ?undeclared)
    case declared =>
      refine (keyword_properties ..).trans ?_
      rw [declared, List.map_map]
      exact Checked.all_map_ok fun p hm => declared_property (hp p hm) parts
    case absent =>
      refine (keyword_required ..).trans ?_
      rw [required, names, Finding.absent_map, Finding.absent_map]
    case undeclared =>
      have known : ∀ name, (Json.lookup name (properties.map fun p => (p.name, p.toJson))).isNone =
          decide (name ∉ properties.map (·.name)) := by
        intro name
        rw [Bool.eq_iff_iff, Option.isNone_iff_eq_none, Json.lookup_eq_none_iff, decide_eq_true_iff,
          List.map_map]
        rfl
      have declared : ((Json.lookup "properties" (Definition.object properties).fields).bind
          Json.obj?).getD [] = properties.map fun p => (p.name, p.toJson) := rfl
      refine (keyword_additionalProperties ..).trans ?_
      rw [declared]
      simp only [undeclared, known, List.filter_map, List.map_map]
      rfl
  | _ => rfl

/-- Members that are texts are told as they are. -/
theorem memberTexts_map_str (members : List String) :
    memberTexts (members.map .str) = .ok members := by
  have texts : (members.map Json.str).findIdx? (fun m => m.str?.isNone) = none := by
    simp [List.findIdx?_eq_none_iff, Json.str?]
  rw [memberTexts, texts]
  simp [List.filterMap_map, Function.comp_def, Json.str?]

/-- A value is looked for among the members. -/
theorem member_eq (hg : g.Describes c) (v : Json) (members : List String) :
    c.member v (members.map .str) = .ok (g.member v members) := by
  have isMember (text : String) : ((members.map Json.str).any fun m => m.str? = some text) =
      members.any fun m => (Json.str text).str? = some m := by
    rw [List.any_map]
    refine congrArg members.any (funext fun m => ?_)
    rw [Function.comp_apply, decide_eq_decide, Json.str?, Json.str?]
    exact eq_comm
  rw [Glossary.member, Finding.when, hg.enumNameOf]
  cases v with
  | str text =>
    simp only [member, isMember, memberTexts_map_str]
    cases members.any fun m => (Json.str text).str? = some m <;> rfl
  | _ => simp [member, memberTexts_map_str, Json.str?, Checked.one]

/-- A definition finds what it says, however many references are left. -/
theorem visit_definition {v : Json} {d : Definition} (hd : g.Resolves (.definition d))
    (parts : ∀ w ∈ v.parts, c.Agrees g references w) (hg : g.Describes c) (left : Nat) :
    c.visit v (v.inside (·.check c references)) left (.obj d.fields) =
      .ok (g.inDefinition v (v.inside (·.findings g)) d) := by
  rw [visit_obj]
  cases d with
  | object properties =>
    refine Checked.all_cons_ok (keyword_type ..) (keywords_object ?_ parts _)
    intro p hp t ht
    exact hd t (List.mem_filterMap.mpr ⟨p, hp, by simpa [Shape.targets] using ht⟩)
  | enumeration members =>
    refine Checked.all_two (keyword_type ..) ?_
    exact (keyword_enum ..).trans (member_eq hg v members)

/-- A node finds what it says, if a reference is left. -/
theorem visit_node {v : Json} {n : Node} (hn : g.Resolves (.node n))
    (parts : ∀ w ∈ v.parts, c.Agrees g references w) (hg : g.Describes c) (left : Nat) :
    c.visit v (v.inside (·.check c references)) (left + 1) (.obj n.fields) =
      .ok (g.inNode v (v.inside (·.findings g)) n) := by
  rw [visit_obj]
  cases n with
  | scalar type range => exact Checked.all_cons_ok (keyword_type ..) (keyword_range ..)
  | anyObject => exact Checked.all_one (keyword_type ..)
  | anyArray length => exact Checked.all_cons_ok (keyword_type ..) (keyword_length ..)
  | array items length =>
    have hi : g.Resolves (.node items) := hn
    rw [Glossary.inNode, List.append_assoc]
    exact Checked.all_cons_ok (keyword_type ..) (Checked.all_cons_ok
      (keyword_items hi (.self (.node items)) parts ..) (keyword_length ..))
  | ref name =>
    -- Following a reference spends one, and the definition behind it is none itself.
    obtain ⟨d, hd⟩ := Option.isSome_iff_exists.mp (hn name (by simp [Shape.targets, Node.target?]))
    refine Checked.all_one ?_
    simp only [Glossary.inNode, hd]
    exact (keyword_reference _ _ _ _ _ (hg.follow hd)).trans
      (visit_definition (fun t ht => hg.closed hd t ht) parts hg left)

/-- A shape finds what it says, if a reference is left. -/
theorem visit_shape {v : Json} {s : Shape} (hs : g.Resolves s)
    (parts : ∀ w ∈ v.parts, c.Agrees g references w) (hg : g.Describes c) (left : Nat) :
    c.visit v (v.inside (·.check c references)) (left + 1) (.obj s.fields) =
      .ok (g.inShape v (v.inside (·.findings g)) s) := by
  cases s with
  | node n => exact visit_node hs parts hg left
  | definition d => exact visit_definition hs parts hg (left + 1)
  | items s =>
    rw [visit_obj]
    exact Checked.all_two (keyword_type ..)
      (keyword_items (s := s) hs (.self s) parts ..)

end Checker

/-- **Checking is by shape**: a checker whose references lead to the definitions of a glossary finds in
a value exactly what the rendered shape says of it, and never ends in a fault. -/
theorem Json.check_eq_findings {c : Checker} {g : Glossary} (hg : g.Describes c) {references : Nat}
    (hr : 0 < references) (v : Json) {s : Shape} (hs : g.Resolves s) {j : Json} (hj : s.Renders j) :
    v.check c references j = .ok (v.findings g s) := by
  suffices h : c.Agrees g references v from h s hs j hj
  -- References may lead in circles, but every round goes into a part of the value.
  refine v.inductionOnParts fun v parts s hs j hj => ?_
  obtain ⟨left, rfl⟩ : ∃ left, references = left + 1 := ⟨references - 1, by omega⟩
  rw [check_eq_visit, findings_eq_inShape, c.visit_renders _ _ hj]
  exact Checker.visit_shape hs parts hg left

end ReflectedSchema
