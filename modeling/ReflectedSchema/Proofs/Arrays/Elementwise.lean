import ReflectedSchema.Library
import ReflectedSchema.Proofs.Arrays.Findings
import ReflectedSchema.Proofs.Arrays.Wrapping
import ReflectedSchema.Proofs.Decoding.Location

/-!
# Arrays are elementwise

The schema of an array says of a list what the schema of the items says of each item: it accepts the
list if it accepts the items, it finds in the list what it finds in the items, and it decodes the list
item by item.  This is so for arrays around any schema that was built, whatever the kind at its bottom
and however often it was wrapped before.

A wrapper around a bare kind is taken off on the way: its items stand in the list as they are, and what
is found in them is found where they stand, and not under the property `value`.
-/

namespace ReflectedSchema

namespace Schema

/-! ## Items as they are handed to their schema -/

/-- An item as the schema of the items takes it: under the property `value` if that is wrapped. -/
def given (item : Schema) (e : Json) : Json :=
  if item.wrapped then .obj [("value", e)] else e

/-- What was found in an item, as the schema of the items reports it. -/
def inWrapper (item : Schema) (f : Finding) : Finding :=
  if item.wrapped then f.under (.key "value") else f

/-- The schema of an array and that of its items: whatever the one does with a list, the other does with
the items. -/
structure Elementwise (item array : Schema) : Prop where
  accepts : ∀ l, array.accepts (.arr l) ↔ ∀ e ∈ l, item.accepts (item.given e)
  /-- What is found in the items is found in the list, each under its index, and sorted again. -/
  findings : ∃ found : Json → List Finding,
    (∀ e, item.checker.findings (item.given e) = .ok ((found e).map item.inWrapper)) ∧
    ∀ l, array.checker.findings (.arr l) =
      .ok ((Finding.inItems (l.map found)).mergeSort Finding.before)
  other : ∀ v, (∀ l, v ≠ .arr l) → array.checker.findings v = .ok [⟨[], .wrongType v ["array"]⟩]
  /-- Items are decoded in their order, and the first that raises something ends it. -/
  decode : ∀ {σ : Type} (host : Host σ) (l : List Json), array.accepts (.arr l) →
    array.decode host (.arr l) = do
      return .list (← l.mapM fun e => item.decode host (item.given e))
  /-- So it is with checks in front, however deep they go, unless the list nests deeper. -/
  decodeChecked : ∀ {σ : Type} (depth : Nat) (host : Host σ) (l : List Json), array.accepts (.arr l) →
    (Json.arr l).depth ≤ depth → (array.decodeChecked depth host (.arr l)).1 = do
      return .list (← l.mapM fun e => (item.decodeChecked depth host (item.given e)).1)

end Schema

/-! ## What is found -/

namespace Finding

/-- Nothing is found in a list exactly when nothing is found in the items. -/
theorem inItems_eq_nil {found : List (List Finding)} : inItems found = [] ↔ ∀ f ∈ found, f = [] := by
  rw [inItems, List.flatMap_eq_nil_iff]
  constructor
  · intro h f hf
    obtain ⟨i, hi, rfl⟩ := List.getElem_of_mem hf
    exact List.map_eq_nil_iff.mp (h _ (List.mk_mem_zipIdx_iff_getElem?.mpr (List.getElem?_eq_getElem hi)))
  · intro h x hx
    exact List.map_eq_nil_iff.mpr (h x.1 (List.fst_mem_of_mem_zipIdx hx))

/-- A single finding is listed as it is. -/
theorem listed_singleton (f : Finding) : listed [f] = [f] := by
  simp [listed, distinct, distinctFrom]

end Finding

/-- A check lists what it finds. -/
theorem Checker.findings_of_raw {c : Checker} {v : Json} {found : List Finding}
    (h : c.raw v = .ok found) : c.findings v = .ok (Finding.listed found) := by
  rw [findings, h]
  rfl

/-- What is found in the items of an array, item by item. -/
theorem Glossary.itemsFrom_eq_flatMap (s : Shape) (index : Nat)
    (children : List (Shape → List Finding)) :
    itemsFrom s index children = ((children.map fun child => child s).zipIdx index).flatMap
      fun (found, i) => found.map (Finding.under (.index i)) := by
  induction children generalizing index with
  | nil => rfl
  | cons child rest ih => rw [itemsFrom, ih]; rfl

/-- What is found in a list for the shape of an array. -/
theorem Json.findings_items (g : Glossary) (s : Shape) (l : List Json) :
    (Json.arr l).findings g (.items s) = Finding.inItems (l.map fun e => e.findings g s) := by
  rw [findings_eq_inShape]
  show Glossary.itemsFrom s 0 (l.map fun e => e.findings g) = _
  rw [Glossary.itemsFrom_eq_flatMap, List.map_map]
  rfl

/-- What is found in a value that is no list for the shape of an array. -/
theorem Json.findings_items_of_ne (g : Glossary) (s : Shape) {v : Json} (h : ∀ l, v ≠ .arr l) :
    v.findings g (.items s) = [⟨[], .wrongType v ["array"]⟩] := by
  cases v with
  | arr l => exact absurd rfl (h l)
  | _ => rfl

section Given

variable {item : Schema}

/-- A schema that is not wrapped takes an item as it is. -/
theorem Schema.given_of_plain (hw : item.wrapped = false) (e : Json) : item.given e = e := by
  rw [given, hw, if_neg (by decide)]

/-- A wrapped schema takes an item under its property. -/
theorem Schema.given_of_wrapped (hw : item.wrapped = true) (e : Json) :
    item.given e = .obj [("value", e)] := by
  rw [given, hw, if_pos rfl]

/-- A schema that is not wrapped reports findings where they are. -/
theorem Schema.inWrapper_of_plain (hw : item.wrapped = false) : item.inWrapper = id := by
  funext f
  rw [inWrapper, hw, if_neg (by decide), id]

/-- A wrapped schema reports findings below its property. -/
theorem Schema.inWrapper_of_wrapped (hw : item.wrapped = true) :
    item.inWrapper = Finding.under (.key "value") := by
  funext f
  rw [inWrapper, hw, if_pos rfl]

/-- What is found in an item that is given as its schema takes it. -/
theorem Schema.Unwraps.findings_given {names : String → Option String} {s inner : Shape}
    (h : item.Unwraps names s inner) (g : Glossary) (e : Json) :
    (item.given e).findings g s = (e.findings g inner).map item.inWrapper := by
  cases h with
  | plain hw => rw [given_of_plain hw, inWrapper_of_plain hw, List.map_id]
  | wrapped hw =>
    rw [given_of_wrapped hw, inWrapper_of_wrapped hw, Json.findings_eq_inShape]
    -- The object has the one property that the wrapper declares, so only what is under it counts.
    show Glossary.typed _ _ ++ Glossary.inProperties (.fields [("value", e.findings g)])
      [⟨"value", item.root.node names, none⟩] = _
    simp [Glossary.typed, Finding.when, Json.isOfType, Glossary.inProperties, Glossary.inProperty,
      Finding.absent_eq_nil_iff, Json.lookup]

/-- A wrapper in front does not change which findings are listed. -/
theorem Schema.listed_inWrapper (item : Schema) (found : List Finding) :
    Finding.listed (found.map item.inWrapper) = (Finding.listed found).map item.inWrapper := by
  cases hw : item.wrapped with
  | false => rw [inWrapper_of_plain hw, List.map_id, List.map_id]
  | true =>
    rw [inWrapper_of_wrapped hw]
    exact Finding.listed_under _ _

end Given

/-! ## How lists are decoded -/

/-- What a schema says of an item that it is given, it says of the item as its root kind. -/
theorem Source.ConformsAtRoot.of_given {source : Source} {item : Schema} {e : Json}
    (h : source.ConformsAtRoot item.root item.wrapped (item.given e)) :
    source.Conforms item.root e := by
  unfold ConformsAtRoot at h
  cases hw : item.wrapped with
  | false =>
    rw [hw, if_neg (by decide), Schema.given_of_plain hw] at h
    exact h
  | true =>
    rw [hw, if_pos rfl, Schema.given_of_wrapped hw] at h
    obtain ⟨fields, hf, -, conforms⟩ := h
    cases hf
    exact conforms e rfl

namespace Schema

variable {σ : Type} {source : Source} {kind : Kind} {names : String → Option String}
  {shared : List (String × Definition)} {item : Schema}

/-- **An item that conforms is decoded in a list as by its own schema**, since it is decoded the same
wherever it stands. -/
theorem Presents.decode_given (h : item.Presents source kind names shared) (host : Host σ) {e : Json}
    (conforms : source.Conforms item.root e) (inner : Shape) (title : String) (location : Location) :
    e.decode ⟨host, .ofArray item inner shared title⟩ item.root location =
      item.decode host (item.given e) := by
  have anywhere := Json.decode_anywhere (d := ⟨host, item⟩) h.complete e item.root h.wellFormed
    (fun e he => source.reaches_self (h.mentions ▸ he)) conforms
  rw [Decoding.decode_congr host (.ofArray item inner shared title) item rfl rfl]
  cases hw : item.wrapped with
  | false =>
    rw [given_of_plain hw, decode, hw, if_neg (by decide)]
    exact anywhere ..
  | true =>
    rw [given_of_wrapped hw, decode, hw, if_pos rfl]
    exact anywhere ..

/-- The schema of an array decodes a list item by item. -/
theorem decode_list {host : Host σ} {inner : Shape} {title : String} {l : List Json}
    {decoded : Json → HostM σ HostValue} (h : ∀ e ∈ l, ∀ location,
      e.decode ⟨host, .ofArray item inner shared title⟩ item.root location = decoded e) :
    (Schema.ofArray item inner shared title).decode host (.arr l) = do
      return .list (← l.mapM decoded) := by
  show (Json.arr l).decode ⟨host, .ofArray item inner shared title⟩ (.array item.root none) [] = _
  rw [Json.decode_eq_visit]
  simp only [Json.inside, Decoding.visit, List.length_map,
    Decoding.checkLength_eq_pure (HasLength.none l), Decoding.itemsFrom_eq_mapM h, pure_bind]

/-- An accepted value that does not nest too deeply is decoded. -/
theorem decodeChecked_of_accepts {schema : Schema} {v : Json} (h : schema.accepts v) {depth : Nat}
    (shallow : v.depth ≤ depth) (host : Host σ) :
    schema.decodeChecked depth host v = (schema.decode host v, []) := by
  rw [decodeChecked, if_neg (Nat.not_lt.mpr shallow), show schema.checker.findings v = .ok [] from h]

end Schema

/-- An item nests less deeply than its list. -/
theorem Json.depth_lt_of_mem {l : List Json} {e : Json} (h : e ∈ l) : e.depth < (Json.arr l).depth := by
  rw [depth]
  induction l with
  | nil => cases h
  | cons item rest ih =>
    rw [depthOfItems]
    rcases List.mem_cons.mp h with rfl | h
    · omega
    · have := ih h
      omega

/-- The wrapper of an item nests no deeper than the list does. -/
theorem Schema.depth_given_le (item : Schema) {l : List Json} {e : Json} (h : e ∈ l) :
    (item.given e).depth ≤ (Json.arr l).depth := by
  have inner := Json.depth_lt_of_mem h
  cases hw : item.wrapped with
  | false => rw [given_of_plain hw]; omega
  | true =>
    rw [given_of_wrapped hw]
    simp only [Json.depth, Json.depthOfFields] at inner ⊢
    omega

/-! ## The main result -/

namespace Schema.Presents

variable {source : Source} {kind : Kind} {names : String → Option String}
  {shared : List (String × Definition)} {item : Schema} {s inner : Shape}

/-- What the schema of the items finds in an item is found for the shape of the items. -/
theorem findings_given (h : item.Presents source kind names shared)
    (hg : (Source.Shares.glossary shared item.checker.enumNameOf).Describes item.checker)
    (hs : item.HasShape source (source.Live kind) names s) (hd : item.document = s.document shared)
    (hu : item.Unwraps names s inner) (e : Json) : item.checker.findings (item.given e) =
      .ok ((Finding.listed (e.findings (Source.Shares.glossary shared item.checker.enumNameOf)
        inner)).map item.inWrapper) := by
  have raw := h.raw_of_shape hg hs hd (item.given e)
  rw [hu.findings_given] at raw
  rw [Checker.findings_of_raw raw, item.listed_inWrapper]

/-- What the schema of the array finds is found for the shape of the array, by the same glossary. -/
theorem findings_ofArray (h : item.Presents source kind names shared)
    (hi : item.root.HasShape source (source.Live kind) names inner) {title : String}
    (hg : (Source.Shares.glossary shared item.checker.enumNameOf).Describes
      (Schema.ofArray item inner shared title).checker) (v : Json) :
    (Schema.ofArray item inner shared title).checker.findings v =
      .ok (Finding.listed (v.findings (Source.Shares.glossary shared item.checker.enumNameOf)
        (.items inner))) :=
  Checker.findings_of_raw ((h.ofArray hi title).raw_of_shape hg (.plain rfl (.items hi)) rfl v)

/-- An item that its schema accepts conforms to the root kind. -/
theorem conforms_of_accepts (h : item.Presents source kind names shared)
    (hg : (Source.Shares.glossary shared item.checker.enumNameOf).Describes item.checker) {e : Json}
    (accepted : item.accepts (item.given e)) : source.Conforms item.root e := by
  obtain ⟨found, hf, hn⟩ := h.decides hg (item.given e)
  exact (hn.mp (Except.ok.inj (hf.symm.trans accepted))).of_given

end Schema.Presents

/-- **Arrays are elementwise.**  A schema that was built, and whose references lead to their
definitions, can be wrapped as that of an array.  The schema of the array was built too, its references
lead to their definitions, and it checks and decodes lists by what the schema of the items does with the
items. -/
theorem array_is_elementwise {source : Source} {kind : Kind} {item : Schema}
    (h : item.Built source kind) (resolvable : item.Resolvable) (title : String) :
    ∃ array, arraySchema item title = .ok array ∧ array.Built source kind ∧ array.Resolvable ∧
      item.Elementwise array := by
  obtain ⟨names, shared, presents⟩ := h.presents
  obtain ⟨s, inner, hs, hd, hu, hi, built⟩ := h.arraySchema_eq presents title
  have leads := resolvable.ofArray hd hu title
  have describes := presents.describes_of_resolvable h resolvable
  have given := presents.findings_given describes hs hd hu
  have array := presents.findings_ofArray hi
    ((presents.ofArray hi title).describes_of_resolvable (.array h built) leads)
  generalize Source.Shares.glossary shared item.checker.enumNameOf = g at given array
  have list (l : List Json) : (Schema.ofArray item inner shared title).checker.findings (.arr l) =
      .ok ((Finding.inItems (l.map fun e => Finding.listed (e.findings g inner))).mergeSort
        Finding.before) := by
    rw [array, Json.findings_items, Finding.listed_inItems, List.map_map]
    rfl
  have accepts (l : List Json) : (Schema.ofArray item inner shared title).accepts (.arr l) ↔
      ∀ e ∈ l, item.accepts (item.given e) := by
    rw [Schema.accepts, list, Except.ok.injEq, Finding.mergeSort_eq_nil, Finding.inItems_eq_nil,
      List.forall_mem_map]
    refine forall₂_congr fun e _ => ?_
    rw [Schema.accepts, given, Except.ok.injEq, List.map_eq_nil_iff]
  refine ⟨_, built, .array h built, leads, accepts, ⟨_, given, list⟩, ?other, ?decode, ?checked⟩
  case other =>
    intro v hv
    rw [array, Json.findings_items_of_ne g inner hv, Finding.listed_singleton]
  case decode =>
    intro σ host l accepted
    refine Schema.decode_list fun e he => ?_
    have ok := (accepts l).mp accepted e he
    exact presents.decode_given host (presents.conforms_of_accepts describes ok) inner title
  case checked =>
    intro σ depth host l accepted shallow
    rw [Schema.decodeChecked_of_accepts accepted shallow]
    refine Schema.decode_list fun e he => ?_
    have ok := (accepts l).mp accepted e he
    rw [Schema.decodeChecked_of_accepts ok ((item.depth_given_le he).trans shallow)]
    exact presents.decode_given host (presents.conforms_of_accepts describes ok) inner title

/-- Homes can be wrapped as rows, and rows as a table. -/
theorem array_is_elementwise_homes : ∃ home row table,
    (buildClass homes.source "Home" "").run.1 = .ok home ∧ arraySchema home "Row" = .ok row ∧
      arraySchema row "Table" = .ok table ∧ home.Elementwise row ∧ row.Elementwise table := by
  obtain ⟨home, h, keys⟩ := exists_schema_home
  have readable : ∀ name ∈ ["Mood", "Room", "Room.Mood"], ReadsBack name := by decide
  have leads : home.Resolvable := Schema.Built.resolvable (.class h) fun e he =>
    readable e.1 (keys ▸ List.mem_map_of_mem he)
  obtain ⟨row, hr, built, resolvable, rows⟩ := array_is_elementwise (.class h) leads "Row"
  obtain ⟨table, ht, -, -, tables⟩ := array_is_elementwise built resolvable "Table"
  exact ⟨home, row, table, h, hr, ht, rows, tables⟩

end ReflectedSchema
