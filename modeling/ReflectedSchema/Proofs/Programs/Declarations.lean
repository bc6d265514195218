import Mathlib.Data.List.Basic
import ReflectedSchema.Annotated.Program

/-!
# Declarations of programs

Executing the statements of a program numbers its classes and enumerations and enters each under its name, among
the attributes of the class around it or among the outermost names of its module, from which other modules may
take it.  What is entered in a class keeps its name: a declaration that is the attribute of a class is called as
the attribute is, belongs to the module of the class, and its qualified name is that of the class, a dot, and the
name.  `Program.Sound` collects these facts; every program of statements is sound.
-/

namespace ReflectedSchema

/-- What stands among entries after one was set stood there before, or it is what was set. -/
theorem Json.mem_of_mem_set {κ α : Type} [DecidableEq κ] {key : κ} {value : α} {entries : List (κ × α)}
    {entry : κ × α} (h : entry ∈ Json.set key value entries) : entry = (key, value) ∨ entry ∈ entries := by
  induction entries with
  | nil => exact .inl (List.mem_singleton.mp h)
  | cons first rest ih =>
    obtain ⟨k, v⟩ := first
    rw [Json.set] at h
    split at h
    · rename_i same
      rcases List.mem_cons.mp h with rfl | h
      · exact .inl (by rw [same])
      · exact .inr (List.mem_cons_of_mem _ h)
    · rcases List.mem_cons.mp h with rfl | h
      · exact .inr List.mem_cons_self
      · exact (ih h).imp_right (List.mem_cons_of_mem _)

namespace Annotated

/-! ## Sound programs -/

/-- A number is that of a declaration of a module with a name, inside the classes whose names stand in front. -/
def Program.Declares (p : Program) (module outer name : String) (number : Nat) : Prop :=
  ∃ d, p.type? number = some d ∧ d.name = name ∧ d.qualifiedName = outer ++ name ∧ d.module = module

/-- A number is that of a declaration outside of all classes. -/
def Program.IsOutermost (p : Program) (number : Nat) : Prop :=
  ∃ module name, p.Declares module "" name number

/-- Each name stands once among the attributes of a class, and the declarations among them are called as the
attributes are. -/
structure ClassBody.Sound (body : ClassBody) (p : Program) (module outer : String) : Prop where
  keys : (body.attributes.map (·.1)).Nodup
  types : ∀ name number, (name, .type number) ∈ body.attributes → p.Declares module outer name number

/-- What is declared in classes goes by the names under which it is entered, the outermost names stand for what
is declared outside of classes, and each declaration comes first among its ancestors. -/
structure Program.Sound (p : Program) : Prop where
  bodies : ∀ number d body, p.type? number = some d → d.body = .class body →
    body.Sound p d.module (d.qualifiedName ++ ".")
  itself : ∀ number d, p.type? number = some d → d.linearization.head? = some (.declared number)
  globals : ∀ module name number, (name, number) ∈ p.globals module → p.IsOutermost number

/-- Every declaration of a program is one of another with the same number. -/
def Program.Grows (p next : Program) : Prop :=
  ∀ number d, p.type? number = some d → next.type? number = some d

variable {p next last : Program} {module outer name : String} {number : Nat} {body : ClassBody}
  {d : Declared}

/-- A program has its own declarations. -/
theorem Program.Grows.refl (p : Program) : p.Grows p := fun _ _ h => h

/-- Growth step by step is growth. -/
theorem Program.Grows.trans (h : p.Grows next) (h' : next.Grows last) : p.Grows last :=
  fun number d hd => h' number d (h number d hd)

/-- A declaration stays what it is in a larger program. -/
theorem Program.Declares.mono (h : p.Declares module outer name number) (grows : p.Grows next) :
    next.Declares module outer name number := by
  obtain ⟨d, known, rest⟩ := h
  exact ⟨d, grows number d known, rest⟩

/-- A declaration outside of classes stays outside. -/
theorem Program.IsOutermost.mono (h : p.IsOutermost number) (grows : p.Grows next) :
    next.IsOutermost number := by
  obtain ⟨module, name, declares⟩ := h
  exact ⟨module, name, declares.mono grows⟩

namespace ClassBody.Sound

/-- A sound body stays sound in a larger program. -/
theorem mono (h : body.Sound p module outer) (grows : p.Grows next) : body.Sound next module outer where
  keys := h.keys
  types name number entered := (h.types name number entered).mono grows

/-- A body without attributes is sound. -/
theorem of_nil (h : body.attributes = []) : body.Sound p module outer where
  keys := by
    rw [h]
    exact List.nodup_nil
  types name number entered := by
    rw [h] at entered
    cases entered

/-- A declaration that is called as an attribute can be the attribute. -/
theorem set_type (h : body.Sound p module outer) (declares : p.Declares module outer name number) :
    { body with
      attributes := Json.set name (.type number) body.attributes : ClassBody }.Sound p module outer where
  keys := Json.nodup_keys_set name _ h.keys
  types name' number' entered := by
    rcases Json.mem_of_mem_set entered with same | before
    · cases same
      exact declares
    · exact h.types name' number' before

/-- Anything but a declaration can be any attribute. -/
theorem set_other (h : body.Sound p module outer) (a : Attribute) (other : ∀ number, a ≠ .type number)
    (name : String) :
    { body with attributes := Json.set name a body.attributes : ClassBody }.Sound p module outer where
  keys := Json.nodup_keys_set name _ h.keys
  types name' number' entered := by
    rcases Json.mem_of_mem_set entered with same | before
    · exact absurd (congrArg Prod.snd same).symm (other number')
    · exact h.types name' number' before

/-- Slots can be any attributes. -/
theorem set_slots (h : body.Sound p module outer) (names : List String) :
    { body with
      hasSlots := true
      attributes := names.foldl (fun attributes name => Json.set name .slot attributes)
        body.attributes : ClassBody }.Sound p module outer := by
  induction names generalizing body with
  | nil => exact ⟨h.keys, h.types⟩
  | cons name rest ih => exact ih (h.set_other .slot (fun _ => nofun) name)

end ClassBody.Sound

/-! ## Declaring items -/

namespace Program

/-- The declarations of a program with one more are the old ones, and the new one at the end. -/
theorem type?_add (p : Program) (d : Declared) (number : Nat) :
    (p.add d).type? number = if number = p.types.length then some d else p.type? number := by
  unfold type? add
  dsimp only
  rcases Nat.lt_trichotomy number p.types.length with before | rfl | behind
  · rw [List.getElem?_append_left before, if_neg (Nat.ne_of_lt before)]
  · rw [List.getElem?_concat_length, if_pos rfl]
  · rw [if_neg (Nat.ne_of_gt behind), List.getElem?_eq_none (by simp; omega),
      List.getElem?_eq_none (Nat.le_of_lt behind)]

/-- An added declaration changes none of the others. -/
theorem grows_add (p : Program) (d : Declared) : p.Grows (p.add d) := by
  intro number d' h
  rw [type?_add, if_neg, h]
  rintro rfl
  rw [type?, List.getElem?_eq_none (Nat.le_refl _)] at h
  cases h

/-- An added declaration is declared under its name. -/
theorem declares_add (p : Program) (outer : String) (d : Declared) (h : d.qualifiedName = outer ++ d.name) :
    (p.add d).Declares d.module outer d.name p.types.length :=
  ⟨d, by rw [type?_add, if_pos rfl], rfl, h, rfl⟩

/-- A program stays sound when a declaration is added whose body is. -/
theorem Sound.add (h : p.Sound) (itself : d.linearization.head? = some (.declared p.types.length))
    (sound : ∀ body, d.body = .class body → body.Sound p d.module (d.qualifiedName ++ ".")) :
    (p.add d).Sound where
  bodies number d' body known hb := by
    rw [type?_add] at known
    split at known
    · cases known
      exact (sound body hb).mono (p.grows_add d)
    · exact (h.bodies number d' body known hb).mono (p.grows_add d)
  itself number d' known := by
    rw [type?_add] at known
    split at known
    · rename_i same
      cases known
      rw [itself, same]
    · exact h.itself number d' known
  globals module name number entered := (h.globals module name number entered).mono (p.grows_add d)

/-- What declaring keeps: the program and the body so far stay sound, and nothing that is declared changes. -/
structure Kept (p : Program) (module outer : String) (result : Program × ClassBody) : Prop where
  program : result.1.Sound
  body : result.2.Sound result.1 module outer
  grows : p.Grows result.1

/-- Declaring nothing keeps everything. -/
theorem Kept.same (h : p.Sound) (hb : body.Sound p module outer) : Kept p module outer (p, body) :=
  ⟨h, hb, .refl p⟩

mutual

/-- **Declaring an item keeps a program sound.** -/
theorem declareItem_kept {p : Program} {module outer : String} {body : ClassBody} (h : p.Sound)
    (hb : body.Sound p module outer) : (item : Item) →
      Kept p module outer (declareItem module outer p body item)
  | .property name type => .same h ⟨hb.keys, hb.types⟩
  | .enum name base members => by
    rw [declareItem]
    refine ⟨h.add rfl fun body hb => ?_, ?_, p.grows_add _⟩
    · cases hb
    · exact (hb.mono (p.grows_add _)).set_type (p.declares_add outer ⟨name, _, module, _, _⟩ rfl)
  | .class name bases items => by
    rw [declareItem]
    have inner : Kept p module (outer ++ name ++ ".") (declareItems module (outer ++ name ++ ".") p
        { bases := bases.filterMap (p.base? module body.attributes) } items) :=
      declareItems_kept h (.of_nil rfl) items
    refine ⟨inner.program.add rfl fun body hb => ?_, ?_, inner.grows.trans (grows_add _ _)⟩
    · cases hb
      exact inner.body
    · exact (hb.mono (inner.grows.trans (grows_add _ _))).set_type
        (declares_add _ outer ⟨name, _, module, _, _⟩ rfl)
  | .readOnly name => .same h (hb.set_other .readOnly (fun _ => nofun) name)
  | .rejects name thrown => .same h (hb.set_other (.rejects thrown) (fun _ => nofun) name)
  | .slots names => .same h (hb.set_slots names)
  | .constructor parameters thrown => .same h ⟨hb.keys, hb.types⟩

/-- Declaring items keeps a program sound. -/
theorem declareItems_kept {p : Program} {module outer : String} {body : ClassBody} (h : p.Sound)
    (hb : body.Sound p module outer) : (items : List Item) →
      Kept p module outer (declareItems module outer p body items)
  | [] => .same h hb
  | item :: rest => by
    rw [declareItems]
    have first := declareItem_kept h hb item
    have others := declareItems_kept first.program first.body rest
    exact ⟨others.program, others.body, first.grows.trans others.grows⟩

end

/-- The outermost names of the other modules stay as they are when some are entered. -/
theorem globals_enter (p : Program) (module other : String) (names : List (String × Nat)) :
    (p.enter module names).globals other =
      if other = module then names.foldl (fun globals (n, k) => Json.set n k globals) (p.globals module)
      else p.globals other := by
  unfold globals enter
  dsimp only
  rw [Json.lookup_set]
  split_ifs <;> rfl

/-- What stands among outermost names that are entered stood there before, or it is entered. -/
theorem mem_of_mem_enter {names before : List (String × Nat)} {entry : String × Nat}
    (h : entry ∈ names.foldl (fun globals (n, k) => Json.set n k globals) before) :
    entry ∈ names ∨ entry ∈ before := by
  induction names generalizing before with
  | nil => exact .inr h
  | cons first rest ih =>
    rcases ih h with later | set
    · exact .inl (List.mem_cons_of_mem _ later)
    · refine (Json.mem_of_mem_set set).imp_left fun same => ?_
      rw [same]
      exact List.mem_cons_self

/-- A program stays sound when declarations outside of classes are entered among outermost names. -/
theorem Sound.enter (h : p.Sound) (module : String) {names : List (String × Nat)}
    (outermost : ∀ name number, (name, number) ∈ names → p.IsOutermost number) :
    (p.enter module names).Sound where
  bodies number d body known hb := (h.bodies number d body known hb).mono fun _ _ known => known
  itself := h.itself
  globals other name number entered := by
    show p.IsOutermost number
    rw [globals_enter] at entered
    split_ifs at entered
    · exact (mem_of_mem_enter entered).elim (outermost name number) (h.globals module name number)
    · exact h.globals other name number entered

/-- What a body declares are the declarations among its attributes. -/
theorem mem_declaredIn : (name, number) ∈ declaredIn body ↔ (name, .type number) ∈ body.attributes := by
  unfold declaredIn
  rw [List.mem_filterMap]
  constructor
  · rintro ⟨⟨name', a⟩, entered, same⟩
    cases a with
    | type k =>
      cases same
      exact entered
    | _ => cases same
  · exact fun entered => ⟨_, entered, rfl⟩

/-- **Executing a statement keeps a program sound.** -/
theorem Sound.execute (h : p.Sound) (module : String) (statement : Statement) :
    (p.execute module statement).Sound := by
  cases statement with
  | item i =>
    have kept : Kept p module "" (declareItem module "" p {} i) := declareItem_kept h (.of_nil rfl) i
    exact kept.program.enter module fun name number entered =>
      ⟨module, name, kept.body.types name number (mem_declaredIn.mp entered)⟩
  | take source name called =>
    unfold Program.execute
    dsimp only
    split
    · rename_i number found
      refine h.enter module fun name' number' entered => ?_
      cases List.mem_singleton.mp entered
      exact h.globals source name number (Json.mem_of_lookup found)
    · exact h

/-- **Every program of statements is sound.** -/
theorem ofStatements_sound (structModule : String) (statements : List (String × Statement)) :
    (ofStatements structModule statements).Sound := by
  have empty : ({ structModule } : Program).Sound := by
    have undeclared (number : Nat) : ({ structModule } : Program).type? number = none := List.getElem?_nil
    refine ⟨fun number d body known => ?_, fun number d known => ?_, fun _ _ _ entered => (nomatch entered)⟩
    · cases (undeclared number).symm.trans known
    · cases (undeclared number).symm.trans known
  unfold ofStatements
  generalize ({ structModule } : Program) = p at empty
  induction statements generalizing p with
  | nil => exact empty
  | cons statement rest ih => exact ih _ (empty.execute statement.1 statement.2)

/-! ## Attributes -/

/-- A declaration has a name: it stands among the outermost names or among the attributes of a class. -/
def Named (p : Program) (number : Nat) : Prop :=
  (∃ module name, (name, number) ∈ p.globals module) ∨
    ∃ owner body name, p.classBody? owner = some body ∧ (name, .type number) ∈ body.attributes

/-- The body of a number is that of a declaration of a class. -/
theorem classBody?_eq_some_iff {number : Nat} {body : ClassBody} : p.classBody? number = some body ↔
    ∃ d, p.type? number = some d ∧ d.body = .class body := by
  unfold classBody?
  split
  · rename_i found
    refine ⟨fun h => ⟨_, found, congrArg Body.class (Option.some.inj h)⟩, ?_⟩
    rintro ⟨d, known, hb⟩
    cases found.symm.trans known
    cases hb
    rfl
  · rename_i other
    refine iff_of_false (fun h => nomatch h) ?_
    rintro ⟨⟨name, qualified, module, _, linearization⟩, known, rfl⟩
    exact other name qualified module body linearization known

/-- The first among the bodies of a class is its own. -/
theorem Sound.bodies_eq (h : p.Sound) (own : p.classBody? number = some body) :
    ∃ rest, p.bodies number = (number, body) :: rest := by
  obtain ⟨d, known, hb⟩ := classBody?_eq_some_iff.mp own
  have first := h.itself number d known
  obtain ⟨rest, ancestors⟩ := List.head?_eq_some_iff.mp first
  have linear : p.ancestors number = .declared number :: rest := by
    rw [Program.ancestors, known, ← ancestors]
    rfl
  rw [Program.bodies, linear, List.filterMap_cons]
  simp only [own, Option.map_some]
  exact ⟨_, rfl⟩

/-- Each body on the way up the linearisation belongs to its owner. -/
theorem classBody?_of_mem_bodies {owner : Nat} (h : (owner, body) ∈ p.bodies number) :
    p.classBody? owner = some body := by
  obtain ⟨ancestor, -, found⟩ := List.mem_filterMap.mp h
  split at found
  · obtain ⟨body', known, same⟩ := Option.map_eq_some_iff.mp found
    cases same
    exact known
  · cases found

/-- **A class has what stands among its own attributes**, whatever its ancestors have. -/
theorem Sound.attribute?_own (h : p.Sound) (own : p.classBody? number = some body) {a : Attribute}
    (entered : (name, a) ∈ body.attributes) : p.attribute? number name = some a := by
  obtain ⟨d, known, hb⟩ := classBody?_eq_some_iff.mp own
  obtain ⟨rest, bodies⟩ := h.bodies_eq own
  have found := (Json.lookup_eq_some_iff (h.bodies number d body known hb).keys).mpr entered
  rw [attribute?, bodies, List.findSome?_cons]
  simp only [found]

end Program

end Annotated

end ReflectedSchema
