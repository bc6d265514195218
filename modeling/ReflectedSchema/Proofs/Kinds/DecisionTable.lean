import Mathlib
import ReflectedSchema.Resolve

/-!
# The decision table of kinds

What kind a property has is decided by the rows of a table, of which the first that covers the property
counts: it gives the property a kind, or none.  The items of an array have rows of their own, which go by
the hint that names them.  `resolve_eq_ok_iff` says that resolving a property is looking it up in
`propertyRows`, and `resolve_ofProperty` lists the kinds that come out: what else is known of resolved kinds
is known from that list.
-/

namespace ReflectedSchema

/-! ## Tables -/

/-- A row of a table: what it covers, and which kind it gives to that, if any. -/
structure KindRow (α : Type) where
  covers : α → Prop
  gives : α → Kind → Prop

/-- The first row that covers something gives it a kind. -/
inductive Decides {α : Type} : List (KindRow α) → α → Kind → Prop
  | here {row : KindRow α} {rows : List (KindRow α)} {a : α} {kind : Kind} (covered : row.covers a)
      (given : row.gives a kind) : Decides (row :: rows) a kind
  | there {row : KindRow α} {rows : List (KindRow α)} {a : α} {kind : Kind} (other : ¬ row.covers a)
      (later : Decides rows a kind) : Decides (row :: rows) a kind

namespace Decides

variable {α : Type} {row : KindRow α} {rows : List (KindRow α)} {a : α} {kind : Kind}

/-- Without rows nothing is decided. -/
@[simp] theorem nil_iff : Decides [] a kind ↔ False :=
  iff_false_intro nofun

/-- The first row decides what it covers, and the others the rest. -/
theorem cons_iff : Decides (row :: rows) a kind ↔
    (row.covers a ∧ row.gives a kind) ∨ (¬ row.covers a ∧ Decides rows a kind) := by
  constructor
  · rintro (⟨covered, given⟩ | ⟨other, later⟩)
    · exact .inl ⟨covered, given⟩
    · exact .inr ⟨other, later⟩
  · rintro (⟨covered, given⟩ | ⟨other, later⟩)
    · exact .here covered given
    · exact .there other later

/-- A row that does not cover something is passed over. -/
theorem of_not_covers (h : ¬ row.covers a) : Decides (row :: rows) a kind ↔ Decides rows a kind := by
  rw [cons_iff, and_iff_right h, or_iff_right fun here => h here.1]

/-- A row that covers something hides the rows behind it. -/
theorem of_covers (h : row.covers a) : Decides (row :: rows) a kind ↔ row.gives a kind := by
  rw [cons_iff, and_iff_right h, or_iff_left fun later => later.1 h]

end Decides

/-! ## The rows -/

/-- A name that can stand on either side of the dot in the path of an enumeration. -/
def IsUndotted (name : String) : Prop := name ≠ "" ∧ '.' ∉ name.toList

/-- A path names an enumeration of a class. -/
structure NamesEnum (known : String → Bool) (path owner name : String) : Prop where
  path_eq : path = enumPath owner name
  owner_undotted : IsUndotted owner
  name_undotted : IsUndotted name
  owner_known : known owner = true

namespace Kind

/-- The kinds that have names of their own. -/
def named : List (String × Kind) :=
  [("bool", boolean), ("int", integer), ("float", number), ("String", string),
    ("Dictionary", dictionary), ("Array", anyArray none)] ++
  StructTag.all.map (fun tag => (tag.name, struct tag)) ++
  PackedTag.all.map (fun tag => (tag.name, packed tag))

/-- The kinds that a type tag alone stands for. -/
def tagged : List (TypeTag × Kind) :=
  [(TypeTag.bool, boolean), (TypeTag.int, integer), (TypeTag.float, number), (TypeTag.string, string),
    (TypeTag.dictionary, dictionary), (TypeTag.rid, integer)] ++
  StructTag.all.map (fun tag => (TypeTag.struct tag, struct tag)) ++
  PackedTag.all.map (fun tag => (TypeTag.packed tag, packed tag))

end Kind

/-- The rows for the items of an array, which go by the hint that names them. -/
def itemRows (known : String → Bool) : List (KindRow String) :=
  [{ covers := fun hint => hint ∈ Kind.named.map (·.1)
     gives := fun hint kind => (hint, kind) ∈ Kind.named },
   { covers := fun hint => known hint = true
     gives := fun hint kind => kind = .object hint },
   { covers := fun hint => '.' ∈ hint.toList
     gives := fun hint kind =>
       ∃ owner name, NamesEnum known hint owner name ∧ kind = .enum owner name false }]

/-- The rows for properties.  The two lowest usage bits of an integer make it an enumeration and a set of
flags; the hint of an object counts only where its class name is empty. -/
def propertyRows (known : String → Bool) : List (KindRow PropertyInfo) :=
  [{ covers := fun p => p.type = .int ∧ (p.usage.bits.testBit 0 = true ∨ p.usage.bits.testBit 1 = true)
     gives := fun p kind => ∃ owner name, NamesEnum known p.className owner name ∧
       kind = .enum owner name (p.usage.bits.testBit 1) },
   { covers := fun p => p.type = .object ∧ p.className ≠ ""
     gives := fun p kind => known p.className = true ∧ kind = .object p.className },
   { covers := fun p => p.type = .object ∧ p.hintText ≠ ""
     gives := fun p kind => known p.hintText = true ∧ kind = .object p.hintText },
   { covers := fun p => p.type = .array ∧ p.hint = .arrayType ∧ p.hintText ≠ ""
     gives := fun p kind => ∃ item, Decides (itemRows known) p.hintText item ∧ kind = .array item none },
   { covers := fun p => p.type = .array
     gives := fun _ kind => kind = .anyArray none },
   { covers := fun p => p.type ∈ Kind.tagged.map (·.1)
     gives := fun p kind => (p.type, kind) ∈ Kind.tagged }]

/-! ## Names and paths -/

namespace Text

/-- No piece of a text holds the separator. -/
theorem not_mem_of_mem_splitFrom {separator : Char} {piece cs : List Char} (h : separator ∉ piece) :
    ∀ part ∈ splitFrom separator piece cs, separator ∉ part := by
  induction cs generalizing piece with
  | nil =>
    intro part hp
    rw [List.mem_singleton.mp hp]
    exact fun hm => h (List.mem_reverse.mp hm)
  | cons c cs ih =>
    rw [splitFrom]
    split
    · refine List.forall_mem_cons.mpr ⟨fun hm => h (List.mem_reverse.mp hm), ih (by simp)⟩
    · rename_i hc
      exact ih fun hm => (List.mem_cons.mp hm).elim (fun he => hc he.symm) h

/-- No part of a text that is cut at a separator has the separator. -/
theorem not_mem_of_mem_split {separator : Char} {cs part : List Char}
    (h : part ∈ split separator cs) : separator ∉ part :=
  not_mem_of_mem_splitFrom (by simp) part h

/-- The pieces of a text make it up again, with separators between them. -/
theorem intercalate_splitFrom (separator : Char) (piece cs : List Char) :
    [separator].intercalate (splitFrom separator piece cs) = piece.reverse ++ cs := by
  induction cs generalizing piece with
  | nil => simp [splitFrom]
  | cons c cs ih =>
    rw [splitFrom]
    split
    · rename_i hc
      subst hc
      have more : splitFrom c [] cs ≠ [] := by
        intro h
        have length := length_splitFrom c [] cs
        rw [h] at length
        cases length
      obtain ⟨next, rest, hs⟩ := List.exists_cons_of_ne_nil more
      have joined := ih []
      rw [hs] at joined ⊢
      rw [List.intercalate_cons_cons, joined]
      simp
    · rw [ih]
      simp

/-- The parts of a text with the separator between them are the text. -/
theorem intercalate_split (separator : Char) (cs : List Char) :
    [separator].intercalate (split separator cs) = cs :=
  intercalate_splitFrom separator [] cs

end Text

/-- The path of an enumeration falls into its owner and its name. -/
theorem split_enumPath {owner name : String} (ho : '.' ∉ owner.toList) (hn : '.' ∉ name.toList) :
    Text.split '.' (enumPath owner name).toList = [owner.toList, name.toList] := by
  have joined : (enumPath owner name).toList = owner.toList ++ '.' :: name.toList := by simp [enumPath]
  rw [joined, Text.split_append_cons ho, Text.split_of_not_mem hn]

/-- A path tells the owner and the name of an enumeration. -/
theorem enumPath_injective {owner name owner' name' : String} (ho : '.' ∉ owner.toList)
    (hn : '.' ∉ name.toList) (ho' : '.' ∉ owner'.toList) (hn' : '.' ∉ name'.toList)
    (h : enumPath owner name = enumPath owner' name') : owner = owner' ∧ name = name' := by
  have parts := split_enumPath ho hn
  rw [h, split_enumPath ho' hn'] at parts
  injection parts with first rest
  injection rest with second
  exact ⟨String.toList_injective first.symm, String.toList_injective second.symm⟩

/-- A text is the path of two names without dots exactly if it falls into them. -/
theorem split_eq_iff {path owner name : String} :
    (Text.split '.' path.toList).map String.ofList = [owner, name] ↔
      path = enumPath owner name ∧ '.' ∉ owner.toList ∧ '.' ∉ name.toList := by
  constructor
  · intro parts
    have pieces : Text.split '.' path.toList = [owner.toList, name.toList] := by
      have texts := congrArg (List.map String.toList) parts
      simpa [Function.comp_def] using texts
    have joined := Text.intercalate_split '.' path.toList
    have dots : ∀ piece ∈ Text.split '.' path.toList, '.' ∉ piece :=
      fun piece => Text.not_mem_of_mem_split
    rw [pieces] at joined dots
    refine ⟨?_, dots _ List.mem_cons_self, dots _ (List.mem_cons_of_mem _ List.mem_cons_self)⟩
    rw [← String.toList_inj, ← joined]
    simp [enumPath, List.intercalate]
  · rintro ⟨rfl, ho, hn⟩
    simp [split_enumPath ho hn]

/-- Resolving an enumeration is reading its path. -/
theorem resolveEnum_eq_ok_iff {known : String → Bool} {path : String} {flags : Bool} {kind : Kind} :
    resolveEnum known path flags = .ok kind ↔
      ∃ owner name, NamesEnum known path owner name ∧ kind = .enum owner name flags := by
  constructor
  · intro h
    unfold resolveEnum at h
    split at h
    · cases h
    · cases h
    · rename_i owner name parts
      split_ifs at h with empty hk
      cases h
      rw [Bool.or_eq_true, String.isEmpty_iff, String.isEmpty_iff, not_or] at empty
      obtain ⟨path_eq, ho, hn⟩ := split_eq_iff.mp parts
      exact ⟨owner, name, ⟨path_eq, ⟨empty.1, ho⟩, ⟨empty.2, hn⟩, hk⟩, rfl⟩
    · cases h
  · rintro ⟨owner, name, ⟨rfl, ⟨ho, hod⟩, ⟨hn, hnd⟩, hk⟩, rfl⟩
    simp [resolveEnum, split_enumPath hod hnd, ho, hn, hk]

namespace Kind

/-- Each struct is named as it is tagged. -/
theorem struct_mem_named (tag : StructTag) : (tag.name, .struct tag) ∈ named := by
  rw [named, List.mem_append, List.mem_append]
  exact .inl (.inr (List.mem_map.mpr ⟨tag, tag.mem_all, rfl⟩))

/-- So is each packed array. -/
theorem packed_mem_named (tag : PackedTag) : (tag.name, .packed tag) ∈ named := by
  rw [named, List.mem_append]
  exact .inr (List.mem_map.mpr ⟨tag, tag.mem_all, rfl⟩)

/-- What a type tag stands for by itself. -/
theorem mem_tagged_iff {type : TypeTag} {kind : Kind} : (type, kind) ∈ tagged ↔
    (type = .bool ∧ kind = .boolean) ∨ (type = .int ∧ kind = .integer) ∨
      (type = .float ∧ kind = .number) ∨ (type = .string ∧ kind = .string) ∨
      (type = .dictionary ∧ kind = .dictionary) ∨ (type = .rid ∧ kind = .integer) ∨
      (∃ tag, type = .struct tag ∧ kind = .struct tag) ∨
      ∃ tag, type = .packed tag ∧ kind = .packed tag := by
  simp [tagged, StructTag.mem_all, PackedTag.mem_all, eq_comm]

end Kind

/-- A hint names a kind without a class exactly by the kind's own name. -/
theorem primitiveHint?_eq_some_iff {hintText : String} {kind : Kind} :
    primitiveHint? hintText = some kind ↔ (hintText, kind) ∈ Kind.named := by
  constructor
  · intro h
    unfold primitiveHint? at h
    split_ifs at h
    all_goals first
      | (subst_vars; cases h; simp [Kind.named])
      | skip
    split at h
    · rename_i tag found
      cases h
      obtain rfl : tag.name = hintText := by simpa using List.find?_some found
      exact Kind.struct_mem_named tag
    · obtain ⟨tag, found, rfl⟩ := Option.map_eq_some_iff.mp h
      obtain rfl : tag.name = hintText := by simpa using List.find?_some found
      exact Kind.packed_mem_named tag
  · intro h
    have all : ∀ entry ∈ Kind.named, primitiveHint? entry.1 = some entry.2 := by decide
    exact all _ h

/-- A hint is no primitive word exactly if no kind is named so. -/
theorem primitiveHint?_eq_none_iff {hintText : String} :
    primitiveHint? hintText = none ↔ hintText ∉ Kind.named.map (·.1) := by
  simp only [Option.eq_none_iff_forall_ne_some, ne_eq, primitiveHint?_eq_some_iff, List.mem_map,
    Prod.exists, exists_and_right, exists_eq_right, not_exists]

namespace Usage

/-- The lowest bit tells an enumeration. -/
theorem hasEnum_eq (u : Usage) : u.hasEnum = u.bits.testBit 0 := by
  simp [hasEnum, Nat.testBit_zero]

/-- The second bit tells a set of flags. -/
theorem hasBitfield_eq (u : Usage) : u.hasBitfield = u.bits.testBit 1 := by
  simp [hasBitfield, Nat.testBit_succ, Nat.testBit_zero]

end Usage

/-! ## Resolving is looking up -/

/-- **The kind of items is that of the first row that covers the hint.** -/
theorem resolveElement_eq_ok_iff {known : String → Bool} {hintText : String} {kind : Kind} :
    resolveElement known hintText = .ok kind ↔ Decides (itemRows known) hintText kind := by
  rw [itemRows]
  cases hp : primitiveHint? hintText with
  | some k =>
    have named := primitiveHint?_eq_some_iff.mp hp
    rw [Decides.of_covers (List.mem_map.mpr ⟨_, named, rfl⟩), resolveElement, hp]
    dsimp only
    rw [← primitiveHint?_eq_some_iff, hp, Except.ok.injEq, Option.some.injEq]
  | none =>
    rw [Decides.of_not_covers (primitiveHint?_eq_none_iff.mp hp), resolveElement, hp]
    dsimp only
    by_cases hk : known hintText = true
    · rw [Decides.of_covers hk, if_pos hk, Except.ok.injEq, eq_comm]
    · rw [Decides.of_not_covers hk, if_neg hk]
      by_cases dotted : '.' ∈ hintText.toList
      · rw [Decides.of_covers dotted, if_pos (List.contains_iff_mem.mpr dotted)]
        exact resolveEnum_eq_ok_iff
      · rw [Decides.of_not_covers dotted, if_neg (mt List.contains_iff_mem.mp dotted)]
        simp

section

variable {known : String → Bool} {info : PropertyInfo} {kind : Kind}

/-- The rows for objects: the class name counts or, where it is empty, the hint. -/
theorem resolveObject_eq_ok_iff (object : info.type = .object) :
    resolveObject known info = .ok kind ↔ Decides (propertyRows known) info kind := by
  rw [propertyRows, resolveObject]
  by_cases named : info.className = ""
  · by_cases hinted : info.hintText = ""
    · simp [Decides.cons_iff, object, named, hinted, Kind.mem_tagged_iff]
    · by_cases hk : known info.hintText = true <;>
        simp [Decides.cons_iff, object, named, hinted, hk, eq_comm (a := kind)]
  · by_cases hk : known info.className = true <;>
      simp [Decides.cons_iff, object, named, hk, eq_comm (a := kind)]

/-- **A property has the kind that the first row that covers it gives.** -/
theorem resolve_eq_ok_iff :
    resolve known info = .ok kind ↔ Decides (propertyRows known) info kind := by
  cases type : info.type
  case object =>
    rw [← resolveObject_eq_ok_iff type, resolve, type]
  case int =>
    by_cases flagged : info.usage.bits.testBit 0 = true ∨ info.usage.bits.testBit 1 = true
    · simp [resolve, propertyRows, Decides.cons_iff, type, Usage.hasEnum_eq, Usage.hasBitfield_eq,
        flagged, resolveEnum_eq_ok_iff, -Nat.testBit_zero]
    · simp [resolve, propertyRows, Decides.cons_iff, type, Usage.hasEnum_eq, Usage.hasBitfield_eq,
        flagged, Kind.mem_tagged_iff, eq_comm (a := kind), -Nat.testBit_zero]
  case array =>
    by_cases typed : info.hint = .arrayType ∧ info.hintText ≠ ""
    · simp only [resolve, propertyRows, Decides.cons_iff, type, typed, ← resolveElement_eq_ok_iff]
      cases resolveElement known info.hintText <;> simp [Except.map, typed, eq_comm (a := kind)]
    · simp [resolve, propertyRows, Decides.cons_iff, type, typed, eq_comm (a := kind)]
  all_goals
    simp [resolve, propertyRows, Decides.cons_iff, type, Kind.mem_tagged_iff, eq_comm (a := kind)]

end

/-! ## The kinds that come out -/

namespace Kind

/-- A kind that mentions no class: it has a name or a tag of its own. -/
inductive IsBuiltIn : Kind → Prop
  | boolean : IsBuiltIn .boolean
  | integer : IsBuiltIn .integer
  | number : IsBuiltIn .number
  | string : IsBuiltIn .string
  | dictionary : IsBuiltIn .dictionary
  | anyArray : IsBuiltIn (.anyArray none)
  | struct (tag : StructTag) : IsBuiltIn (.struct tag)
  | packed (tag : PackedTag) : IsBuiltIn (.packed tag)

/-- A kind of items. -/
inductive OfItem (known : String → Bool) : Kind → Prop
  | builtIn {kind : Kind} (h : kind.IsBuiltIn) : OfItem known kind
  | object {className : String} (h : known className = true) : OfItem known (.object className)
  | enum {path owner name : String} (h : NamesEnum known path owner name) (flags : Bool) :
      OfItem known (.enum owner name flags)

/-- A kind of properties: any that items have, or that of an array of such items. -/
inductive OfProperty (known : String → Bool) : Kind → Prop
  | single {kind : Kind} (h : kind.OfItem known) : OfProperty known kind
  | array {item : Kind} (h : item.OfItem known) : OfProperty known (.array item none)

variable {known : String → Bool} {kind : Kind}

/-- A named kind is built in. -/
theorem isBuiltIn_of_mem_named {name : String} (h : (name, kind) ∈ named) : kind.IsBuiltIn := by
  rw [named, List.mem_append, List.mem_append] at h
  obtain (simple | struct) | packed := h
  · simp only [List.mem_cons, Prod.mk.injEq, List.not_mem_nil, or_false] at simple
    obtain ⟨-, rfl⟩ | ⟨-, rfl⟩ | ⟨-, rfl⟩ | ⟨-, rfl⟩ | ⟨-, rfl⟩ | ⟨-, rfl⟩ := simple
    all_goals constructor
  · obtain ⟨tag, -, ⟨⟩⟩ := List.mem_map.mp struct
    exact .struct tag
  · obtain ⟨tag, -, ⟨⟩⟩ := List.mem_map.mp packed
    exact .packed tag

/-- A tagged kind is built in. -/
theorem isBuiltIn_of_mem_tagged {type : TypeTag} (h : (type, kind) ∈ tagged) : kind.IsBuiltIn := by
  obtain ⟨-, rfl⟩ | ⟨-, rfl⟩ | ⟨-, rfl⟩ | ⟨-, rfl⟩ | ⟨-, rfl⟩ | ⟨-, rfl⟩ | ⟨tag, -, rfl⟩ |
    ⟨tag, -, rfl⟩ := mem_tagged_iff.mp h
  all_goals constructor

/-- What the rows for items decide is a kind of items. -/
theorem ofItem_of_decides {hint : String} (h : Decides (itemRows known) hint kind) :
    kind.OfItem known := by
  simp only [itemRows, Decides.cons_iff, Decides.nil_iff, and_false, or_false] at h
  obtain ⟨-, named⟩ | ⟨-, ⟨hk, rfl⟩ | ⟨-, -, owner, name, names, rfl⟩⟩ := h
  · exact .builtIn (isBuiltIn_of_mem_named named)
  · exact .object hk
  · exact .enum names false

end Kind

/-- **What a property resolves to** is a kind of properties. -/
theorem resolve_ofProperty {known : String → Bool} {info : PropertyInfo} {kind : Kind}
    (h : resolve known info = .ok kind) : kind.OfProperty known := by
  rw [resolve_eq_ok_iff] at h
  simp only [propertyRows, Decides.cons_iff, Decides.nil_iff, and_false, or_false] at h
  obtain ⟨-, owner, name, names, rfl⟩ | ⟨-, ⟨-, hk, rfl⟩ | ⟨-, ⟨-, hk, rfl⟩ |
    ⟨-, ⟨-, item, decided, rfl⟩ | ⟨-, ⟨-, rfl⟩ | ⟨-, -, tagged⟩⟩⟩⟩⟩ := h
  · exact .single (.enum names _)
  · exact .single (.object hk)
  · exact .single (.object hk)
  · exact .array (Kind.ofItem_of_decides decided)
  · exact .single (.builtIn .anyArray)
  · exact .single (.builtIn (Kind.isBuiltIn_of_mem_tagged tagged))

end ReflectedSchema
