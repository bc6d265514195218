import ReflectedSchema.Proofs.Programs.Troubles

/-!
# Inherited annotations

A name can be annotated by several classes of a linearisation.  The last of its annotations to be evaluated is
that of the first class that has one, which is the most derived: `Program.Inherits` says which annotation this
is, and `Program.Inherits.typeIn` that its type is the one that is collected.  It does not matter here in which
modules the classes are declared, although a walk passes over those of some modules (`Program.Walks`): a name
that is met in one class may get its type from another one, which the walk passes over.

This needs that no class annotates a name twice, as holds of every program of statements: an annotation that is
repeated in a body takes the place of the earlier one.
-/

namespace ReflectedSchema.Annotated

namespace Program

variable {p : Program} {number : Nat} {name : String} {ancestor : Ancestor} {body : ClassBody}

/-! ## Classes that annotate names once -/

/-- No class annotates a name twice. -/
def AnnotatesOnce (p : Program) : Prop :=
  ∀ d ∈ p.types, ∀ body, d.body = .class body → (body.annotations.map (·.1)).Nodup

/-- A declaration whose annotations have distinct names may be added. -/
theorem AnnotatesOnce.add (h : p.AnnotatesOnce) {d : Declared}
    (once : ∀ body, d.body = .class body → (body.annotations.map (·.1)).Nodup) : (p.add d).AnnotatesOnce :=
  List.forall_mem_append.mpr ⟨h, List.forall_mem_singleton.mpr once⟩

mutual

/-- **Declaring an item** adds a class that annotates each name once, if it adds one, and annotates no name of
the body twice. -/
theorem declareItem_once {p : Program} {body : ClassBody} (module outer : String) (h : p.AnnotatesOnce)
    (hb : (body.annotations.map (·.1)).Nodup) : (item : Item) →
      (declareItem module outer p body item).1.AnnotatesOnce ∧
        ((declareItem module outer p body item).2.annotations.map (·.1)).Nodup
  | .property name type => ⟨h, Json.nodup_keys_set name type hb⟩
  | .enum name base members => by
    rw [declareItem]
    exact ⟨h.add fun _ other => (nomatch other), hb⟩
  | .class name bases items => by
    rw [declareItem]
    let empty : ClassBody := { bases := bases.filterMap (p.base? module body.attributes) }
    have none : (empty.annotations.map (·.1)).Nodup := List.nodup_nil
    have inner := declareItems_once module (outer ++ name ++ ".") h none items
    refine ⟨inner.1.add fun own same => ?_, hb⟩
    cases same
    exact inner.2
  | .readOnly name => ⟨h, hb⟩
  | .rejects name thrown => ⟨h, hb⟩
  | .slots names => ⟨h, hb⟩
  | .constructor parameters thrown => ⟨h, hb⟩

/-- Declaring items, one after the other, does so too. -/
theorem declareItems_once {p : Program} {body : ClassBody} (module outer : String) (h : p.AnnotatesOnce)
    (hb : (body.annotations.map (·.1)).Nodup) : (items : List Item) →
      (declareItems module outer p body items).1.AnnotatesOnce ∧
        ((declareItems module outer p body items).2.annotations.map (·.1)).Nodup
  | [] => ⟨h, hb⟩
  | item :: rest => by
    rw [declareItems]
    have first := declareItem_once module outer h hb item
    exact declareItems_once module outer first.1 first.2 rest

end

/-- Executing a statement enters names, and it declares an item if it is one. -/
theorem AnnotatesOnce.execute (h : p.AnnotatesOnce) (module : String) (statement : Statement) :
    (p.execute module statement).AnnotatesOnce := by
  cases statement with
  | item i =>
    have none : (({} : ClassBody).annotations.map (·.1)).Nodup := List.nodup_nil
    exact (declareItem_once module "" h none i).1
  | take source name called =>
    unfold Program.execute
    dsimp only
    split <;> exact h

/-- **Every program of statements annotates names once.** -/
theorem ofStatements_once (structModule : String) (statements : List (String × Statement)) :
    (ofStatements structModule statements).AnnotatesOnce := by
  have empty : ({ structModule } : Program).AnnotatesOnce := fun _ none => nomatch none
  unfold ofStatements
  generalize ({ structModule } : Program) = p at empty
  induction statements generalizing p with
  | nil => exact empty
  | cons statement rest ih => exact ih _ (empty.execute statement.1 statement.2)

/-! ## Annotations of a single class -/

/-- The annotations of a class itself, as they are written. -/
def ownWritten (p : Program) : Ancestor → List Written
  | .declared owner => match p.classBody? owner with
    | some body => body.annotations.map fun (name, e) => ⟨p.scope owner body, name, e⟩
    | none => []
  | .dictionary | .list => []

/-- The names that a class annotates are those of its annotations as they are written. -/
theorem ownNames_eq (p : Program) (ancestor : Ancestor) :
    p.ownNames ancestor = (p.ownWritten ancestor).map (·.name) := by
  cases ancestor with
  | declared owner =>
    unfold ownNames ownWritten
    dsimp only
    cases p.classBody? owner with
    | none => rfl
    | some body =>
      dsimp only [Option.map_some, Option.getD_some]
      rw [List.map_map]
      rfl
  | dictionary => rfl
  | list => rfl

/-- The annotations of a class are those of its ancestors, the farthest first, and then its own. -/
theorem written_eq (typed : p.isUntyped number = false) :
    p.written number = (p.ancestors number).reverse.flatMap p.ownWritten := by
  rw [written, typed, if_neg Bool.false_ne_true, bodies, ← List.filterMap_reverse]
  induction (p.ancestors number).reverse with
  | nil => rfl
  | cons ancestor rest ih =>
    rw [List.flatMap_cons, ← ih]
    cases ancestor with
    | declared owner =>
      rw [ownWritten, List.filterMap_cons]
      dsimp only
      cases p.classBody? owner <;> rfl
    | dictionary => rfl
    | list => rfl

/-- A class that annotates names once does so once each. -/
theorem AnnotatesOnce.ownNames (h : p.AnnotatesOnce) (ancestor : Ancestor) :
    (p.ownNames ancestor).Nodup := by
  cases ancestor with
  | declared owner =>
    unfold Program.ownNames
    dsimp only
    cases known : p.classBody? owner with
    | none => exact List.nodup_nil
    | some body =>
      obtain ⟨d, declared, hd⟩ := classBody?_eq_some_iff.mp known
      exact h d (List.mem_of_getElem? declared) body hd
  | dictionary => exact List.nodup_nil
  | list => exact List.nodup_nil

/-! ## The most derived annotation -/

/-- A walk meets a name: a class of the linearisation that is not of a skipped module annotates it. -/
def Walks (p : Program) (number : Nat) (name : String) : Prop :=
  ∃ ancestor ∈ p.ancestors number, p.moduleOf ancestor ∉ skippedModules ∧ name ∈ p.ownNames ancestor

/-- An annotation of a name is that of the first of some classes that has one. -/
def AnnotatesFirst (p : Program) (classes : List Ancestor) (name : String) (a : Written) : Prop :=
  ∃ nearer ancestor farther, classes = nearer ++ ancestor :: farther ∧
    (∀ other ∈ nearer, name ∉ p.ownNames other) ∧ a ∈ p.ownWritten ancestor ∧ a.name = name

/-- An annotation of a name is the most derived one: that of the first class of the linearisation that has one,
whatever its module. -/
def Inherits (p : Program) (number : Nat) : String → Written → Prop :=
  p.AnnotatesFirst (p.ancestors number)

/-- What a class gives a name as its type: that of its most derived annotation, or the absent value if its
annotations are no types. -/
inductive GivesType (p : Program) (number : Nat) (name : String) : Form → Prop
  | inherited {a : Written} {type : Form} (typed : p.isUntyped number = false)
      (h : p.Inherits number name a) (value : a.scope.typeOf a.type = .ok type) : GivesType p number name type
  | untyped (h : p.isUntyped number = true) : GivesType p number name (.atom .none)

/-- The names on a walk are those that it meets. -/
theorem mem_walk_iff : name ∈ p.walk number ↔ p.Walks number name := by
  simp [walk, Walks, and_assoc]

/-- A name that is annotated at all has a most derived annotation. -/
theorem exists_inherits (listed : ancestor ∈ p.ancestors number) (named : name ∈ p.ownNames ancestor) :
    ∃ a, p.Inherits number name a := by
  have isSome : ((p.ancestors number).find? (name ∈ p.ownNames ·)).isSome :=
    List.find?_isSome.mpr ⟨ancestor, listed, decide_eq_true named⟩
  obtain ⟨first, found⟩ := Option.isSome_iff_exists.mp isSome
  obtain ⟨firstOne, nearer, farther, line, before⟩ := List.find?_eq_some_iff_append.mp found
  have named := of_decide_eq_true firstOne
  rw [ownNames_eq] at named
  obtain ⟨a, written, called⟩ := List.mem_map.mp named
  refine ⟨a, nearer, first, farther, line, fun other near named => ?_, written, called⟩
  have none := before other near
  rw [decide_eq_true named] at none
  cases none

end Program

/-! ## Collected types -/

variable {types all : List (String × Form)} {annotations : List Written} {name : String}

/-- Collecting annotations of other names does not change the type of a name. -/
theorem lookup_collected (h : annotations.foldlM Written.collect types = .ok all)
    (others : ∀ a ∈ annotations, a.name ≠ name) : Json.lookup name all = Json.lookup name types := by
  induction annotations generalizing types with
  | nil =>
    cases h
    rfl
  | cons a rest ih =>
    obtain ⟨other, others⟩ := List.forall_mem_cons.mp others
    obtain ⟨next, collected, h⟩ := bind_eq_ok.mp h
    obtain ⟨type, -, same⟩ := bind_eq_ok.mp collected
    cases same
    rw [ih h others, Json.lookup_set, if_neg (Ne.symm other)]

/-- The last annotation of a name gives it its type. -/
theorem lookup_last {before after : List Written} {a : Written}
    (h : (before ++ a :: after).foldlM Written.collect types = .ok all)
    (last : ∀ later ∈ after, later.name ≠ a.name) :
    ∃ type, a.scope.typeOf a.type = .ok type ∧ Json.lookup a.name all = some type := by
  rw [List.foldlM_append] at h
  obtain ⟨earlier, -, h⟩ := bind_eq_ok.mp h
  rw [List.foldlM_cons] at h
  obtain ⟨next, collected, h⟩ := bind_eq_ok.mp h
  obtain ⟨type, value, same⟩ := bind_eq_ok.mp collected
  cases same
  exact ⟨type, value, by rw [lookup_collected h last, Json.lookup_set, if_pos rfl]⟩

/-- **The most derived annotation of a name gives it its type.** -/
theorem Program.Inherits.typeIn {p : Program} {number : Nat} {a : Written} (h : p.Inherits number name a)
    (typed : p.isUntyped number = false) (once : p.AnnotatesOnce)
    (collected : p.annotations number = .ok all) : a.scope.typeOf a.type = .ok (typeIn all name) := by
  obtain ⟨nearer, ancestor, farther, line, others, written, rfl⟩ := h
  obtain ⟨before, after, own⟩ := List.append_of_mem written
  -- Behind the annotation stand others of its class, which have other names, and those of nearer classes.
  have rest : ∀ later ∈ after ++ nearer.reverse.flatMap p.ownWritten, later.name ≠ a.name := by
    refine List.forall_mem_append.mpr ⟨fun later hl same => ?_, fun later hl same => ?_⟩
    · have distinct := once.ownNames ancestor
      rw [ownNames_eq, own, List.map_append, List.map_cons] at distinct
      have apart := (List.nodup_cons.mp (List.nodup_append.mp distinct).2.1).1
      exact apart (same ▸ List.mem_map_of_mem hl)
    · obtain ⟨other, near, hl⟩ := List.mem_flatMap.mp hl
      refine others other (List.mem_reverse.mp near) ?_
      rw [ownNames_eq, ← same]
      exact List.mem_map_of_mem hl
  have split : p.written number = (farther.reverse.flatMap p.ownWritten ++ before) ++
      a :: (after ++ nearer.reverse.flatMap p.ownWritten) := by
    rw [written_eq typed, line]
    simp [own]
  rw [annotations_eq, split] at collected
  obtain ⟨type, value, found⟩ := lookup_last collected rest
  rw [value, Annotated.typeIn, found]
  rfl

/-- **What a class gives a name as its type** is the type that is collected, for every name that is annotated. -/
theorem Program.givesType_iff {p : Program} {number : Nat} {ancestor : Ancestor} {type : Form}
    (once : p.AnnotatesOnce) (collected : p.annotations number = .ok all)
    (listed : ancestor ∈ p.ancestors number) (named : name ∈ p.ownNames ancestor) :
    p.GivesType number name type ↔ type = typeIn all name := by
  cases typed : p.isUntyped number with
  | true =>
    have none : all = [] := by
      rw [annotations, if_pos typed] at collected
      exact (Except.ok.inj collected).symm
    have absent : typeIn all name = .atom .none := by
      rw [none]
      rfl
    rw [absent]
    refine ⟨fun h => ?_, fun same => same ▸ .untyped typed⟩
    cases h with
    | inherited other => cases typed.symm.trans other
    | untyped => rfl
  | false =>
    obtain ⟨a, inherits⟩ := exists_inherits listed named
    refine ⟨fun h => ?_, fun same => ?_⟩
    · cases h with
      | inherited _ h value => exact Except.ok.inj (value.symm.trans (h.typeIn typed once collected))
      | untyped other => cases typed.symm.trans other
    · exact .inherited typed inherits (same ▸ inherits.typeIn typed once collected)

end ReflectedSchema.Annotated
