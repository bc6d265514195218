import ReflectedSchema.Proofs.Building.Lockstep
import ReflectedSchema.Proofs.References.Identity

/-!
# Bare types and their boxes

A bare type that is no object stands in a document under the property `value`, just as it would as the only
property of a class.  A class with that property is a box of the type.  Both are built from the same node,
and what the type reaches is what the box leads to, so the documents are the same.
-/

namespace ReflectedSchema

open Build

/-- A class is the box of a kind that is wrapped when it stands alone. -/
structure Source.Boxes (source : Source) (className : String) (kind : Kind) : Prop where
  own : source.OwnsName className
  described : describeClass source className = .ok (box className kind)
  wrapped : kind.isWrapped = true
  wellFormed : kind.WellFormed source.hasClass

/-- A class that owns its name is described if its only property is. -/
theorem Source.OwnsName.describeClass_eq {source : Source} {className : String} {info : PropertyInfo}
    (own : source.OwnsName className) (only : source.properties className = .ok [info]) :
    describeClass source className =
      (describeProperty source.hasClass className info).map fun p => ⟨className, [p]⟩ := by
  have free : StructTag.names.contains className = false := by simpa using own.free
  simp only [describeClass, own.known, free, only]
  show List.mapM (describeProperty source.hasClass className) [info] >>= _ = _
  rw [List.mapM_cons, List.mapM_nil]
  cases describeProperty source.hasClass className info <;> rfl

/-- A class whose only property is a bare type under the name `value`, without description, is its box. -/
theorem Source.boxes_of_properties {source : Source} {className : String} {info : PropertyInfo}
    {kind : Kind} (own : source.OwnsName className) (hk : resolve source.hasClass info = .ok kind)
    (wrapped : kind.isWrapped = true)
    (only : source.properties className = .ok [{ info with name := "value", description := none }]) :
    source.Boxes className kind where
  own := own
  described := by
    have same : resolve source.hasClass { info with name := "value", description := none } = .ok kind := hk
    rw [own.describeClass_eq only, describeProperty, same]
    rfl
  wrapped := wrapped
  wellFormed := resolve_wellFormed hk

namespace Source.Boxes

variable {source : Source} {className : String} {kind : Kind}

/-- The box leads to what its kind reaches. -/
theorem live_iff (h : source.Boxes className kind) {e : Entity} :
    source.Live (.object className) e ↔ source.Reaches kind e := by
  refine Relation.TransGen.head'_iff.trans (exists_congr fun first => and_congr_left fun _ => ?_)
  constructor
  · intro hm
    cases hm with
    | property hd hp he =>
      obtain rfl := Except.ok.inj (hd.symm.trans h.described)
      rwa [List.mem_singleton.mp hp] at he
  · exact fun he => .property h.described (List.mem_singleton.mpr rfl) he

end Source.Boxes

/-- Shared definitions are told by the live entities and by the names of the enumerations. -/
theorem Source.Shares.finished_eq {source : Source} {described described' live live' : Entity → Prop}
    {names : String → Option String} {d e : Shared} {classes classes' : List ClassDescriptor}
    {enums enums' : List EnumDescriptor}
    (h : source.Shares described live names d.finished classes enums)
    (g : source.Shares described' live' names e.finished classes' enums')
    (same : ∀ e, live e ↔ live' e) : d.finished = e.finished := by
  have increasing : ∀ {d : Shared}, (d.finished.map (·.1)).Pairwise (· < ·) →
      d.finished.Pairwise fun x y => x.1 < y.1 := List.pairwise_map.mp
  refine List.Perm.eq_of_pairwise (fun x y _ _ hxy hyx => absurd hxy hyx.asymm)
    (increasing h.increasing) (increasing g.increasing) ?_
  refine (List.perm_ext_iff_of_nodup h.distinct.of_map g.distinct.of_map).mpr ?_
  rintro ⟨name, definition⟩
  rw [h.mem_iff, g.mem_iff]
  simp only [same]

/-! ## Layouts -/

namespace Build

variable {source : Source} {kind : Kind} {title : String} {node : Node} {m : Building}

/-- A kind that is wrapped is built as the only property of an object. -/
theorem buildKind_eq (wrapped : kind.isWrapped = true) :
    buildKind source kind title = (do
      let node ← within title "value" (nodeOf source (openClass source source.depth) kind)
      let d ← definitions
      let root : Definition := .object [⟨"value", node, none⟩]
      ExceptT.mk (pure (Schema.checked
        { name := title, document := assemble d.toJson root.fields, root := kind
          classes := d.classes.map (·.2), enums := d.enums.map (·.2), wrapped := true }))) := by
  cases kind with
  | object className => cases wrapped
  | dictionary => cases wrapped
  | _ => rfl

/-- The build of a kind that is wrapped ends by laying out its schema. -/
theorem run_buildKind_of_ok (wrapped : kind.isWrapped = true)
    (h : (ExceptT.run (nodeOf source (openClass source source.depth) kind)).run {} = (.ok node, m))
    (hn : node = kind.node m.definitions.enumName?) :
    (buildKind source kind title).run.1 = (Schema.ofKind kind title m.definitions).checked := by
  subst hn
  rw [buildKind_eq wrapped]
  exact congrArg Prod.fst (run_bind_of_ok (run_within_of_ok h))

/-- It fails if no node comes out. -/
theorem run_buildKind_of_error {e : Raised} (wrapped : kind.isWrapped = true)
    (h : (ExceptT.run (nodeOf source (openClass source source.depth) kind)).run {} = (.error e, m)) :
    ∃ f, (buildKind source kind title).run.1 = .error f := by
  rw [buildKind_eq wrapped]
  exact ⟨_, congrArg Prod.fst (run_bind_of_error (run_within_of_error h))⟩

variable {className : String}

/-- The build of a class ends by laying out its schema. -/
theorem run_buildClass_of_ok {c : ClassDescriptor} {entered m : Building} {u : Unit} {root : Definition}
    (reserved : (ExceptT.run (reserve c.name (.class c.name))).run {} = (.ok u, entered))
    (h : (ExceptT.run (classDefinition source (openClass source source.depth) c.name)).run entered =
      (.ok root, m))
    (hr : root = c.definition m.definitions.enumName?) :
    (buildClass source c.name title).run.1 = (Schema.ofClass c title m.definitions).checked := by
  subst hr
  show ((ExceptT.run (buildClass source c.name title)).run {}).1 = _
  rw [buildClass, run_bind_of_ok reserved, run_bind_of_ok h, run_definitions_bind]
  rw [Schema.ofClass, Opens.finish]
  cases m.definitions.isReferenced c.name <;> rfl

/-- It fails with what kept the definition from coming out. -/
theorem run_buildClass_of_error {entered m : Building} {u : Unit} {e : Raised}
    (reserved : (ExceptT.run (reserve className (.class className))).run {} = (.ok u, entered))
    (h : (ExceptT.run (classDefinition source (openClass source source.depth) className)).run entered =
      (.error e, m)) : (buildClass source className title).run.1 = .error e := by
  show ((ExceptT.run (buildClass source className title)).run {}).1 = _
  rw [buildClass, run_bind_of_ok reserved, run_bind_of_error h]

/-- The build of a class that is not described fails with the reason for it. -/
theorem run_buildClass_of_undescribed {e : Raised} (h : describeClass source className = .error e)
    (title : String) : (buildClass source className title).run.1 = .error e := by
  have fails (b : Building) : ∃ m, (ExceptT.run (classDefinition source
      (openClass source source.depth) className)).run b = (.error e, m) := by
    unfold classDefinition
    rw [run_ask_bind, h]
    exact ⟨_, rfl⟩
  obtain ⟨m, failed⟩ := fails { definitions := Definitions.opened .empty className (.class className) }
  exact run_buildClass_of_error (run_reserve className (.class className) {}) failed

end Build

/-- What is left of the builds of a bare kind and of its box when both have ended. -/
structure Source.Boxes.Leaves (source : Source) (className : String) (kind : Kind) (d e : Shared) :
    Prop where
  boxes : source.Boxes className kind
  bare : ∃ node, Stands source kind .empty node d
  boxed : Opens source (box className kind) .empty ((box className kind).definition e.enumName?) e
  similar : Sim className (fun _ => False) d e

namespace Source.Boxes

variable {source : Source} {className : String} {kind : Kind}

/-- **A bare kind and its box are built side by side**: both builds fail, or both lay out what is left. -/
theorem build_together (h : source.Boxes className kind) (title other : String) :
    ((∃ e, (buildKind source kind title).run.1 = .error e) ∧
      ∃ e, (buildClass source className other).run.1 = .error e) ∨
    ∃ d e, (buildKind source kind title).run.1 = (Schema.ofKind kind title d).checked ∧
      (buildClass source className other).run.1 =
        (Schema.ofClass (box className kind) other e).checked ∧ Leaves source className kind d e := by
  let entered : Building := { definitions := Definitions.opened .empty className (.class className) }
  have reserved : (ExceptT.run (reserve className (.class className))).run {} = (.ok (), entered) :=
    run_reserve className (.class className) {}
  have definition : (ExceptT.run (classDefinition source (openClass source source.depth) className)).run
      entered = _ := run_classDefinition_box h.described entered
  cases nodeOf_box_together (c := describing entered (box className kind)) h.own h.described rfl with
  | error bare boxed =>
    exact .inl ⟨run_buildKind_of_error h.wrapped bare, _, run_buildClass_of_error reserved
      (definition.trans (run_bind_of_error (run_within_of_error boxed)))⟩
  | @ok node m n bare boxed similar =>
    have stands : Stands source kind .empty node m.definitions :=
      nodeOf_stands openClass_stands h.wellFormed ⟨{}, m, rfl, rfl, bare⟩ (.empty source) .empty
    have laid := definition.trans (run_bind_of_ok (run_within_of_ok boxed))
    obtain ⟨c, hc, opens⟩ := classDefinition_opens openClass_stands ⟨{}, entered, rfl, rfl, reserved⟩
      ⟨entered, n, rfl, rfl, laid⟩ (.empty source) .empty
    obtain rfl : box className kind = c := Except.ok.inj (h.described.symm.trans (hc ▸ opens.describes))
    have made := opens.definition
    exact .inr ⟨m.definitions, n.definitions, run_buildKind_of_ok h.wrapped bare stands.node,
      run_buildClass_of_ok (c := box className kind) reserved laid made,
      h, ⟨node, stands⟩, made ▸ opens, similar⟩

namespace Leaves

variable {d e : Shared}

/-- Enumerations have the same names in both builds. -/
theorem enumName?_eq (h : Leaves source className kind d e) : d.enumName? = e.enumName? :=
  funext h.similar.enumName?

/-- The same definitions are finished, in the same order. -/
theorem finished_eq (h : Leaves source className kind d e) : d.finished =
      (Opens.finish (box className kind) ((box className kind).definition e.enumName?) e).finished := by
  obtain ⟨node, stands⟩ := h.bare
  have shares := stands.settled.shares
  rw [h.enumName?_eq] at shares
  exact shares.finished_eq h.boxed.settled.shares fun _ => h.boxes.live_iff.symm

/-- The documents of both builds are the same. -/
theorem document_eq (h : Leaves source className kind d e) (title other : String) :
    (Schema.ofKind kind title d).document = (Schema.ofClass (box className kind) other e).document := by
  show assemble d.toJson (kind.wrapper d.enumName?).fields = assemble (Definitions.toJson _) _
  rw [Definitions.toJson, Definitions.toJson, h.finished_eq, h.enumName?_eq]
  rfl

/-- The enumerations of both builds are the same. -/
theorem enums_eq (h : Leaves source className kind d e) (title other : String) :
    (Schema.ofKind kind title d).enums = (Schema.ofClass (box className kind) other e).enums := by
  show d.enums.map (·.2) = (Opens.finish _ _ e).enums.map (·.2)
  rw [Opens.enums_finish, h.similar.enums]

end Leaves

end Source.Boxes

/-- The builds of a bare type and of a class that has nothing else fail, or they lay out what is left of
building the kind and its box. -/
theorem buildType_together {source : Source} {className : String} {info : PropertyInfo}
    (own : source.OwnsName className)
    (only : source.properties className = .ok [{ info with name := "value", description := none }])
    (wrapped : ∀ kind, resolve source.hasClass info = .ok kind → kind.isWrapped = true) (title : String) :
    ((∃ e, (buildType source info).run.1 = .error e) ∧
      ∃ e, (buildClass source className title).run.1 = .error e) ∨
    ∃ kind name d e, (buildType source info).run.1 = (Schema.ofKind kind name d).checked ∧
      (buildClass source className title).run.1 = (Schema.ofClass (box className kind) title e).checked ∧
        Source.Boxes.Leaves source className kind d e := by
  unfold buildType
  cases hk : resolve source.hasClass info with
  | error u =>
    have same : resolve source.hasClass { info with name := "value", description := none } = .error u := hk
    have undescribed := own.describeClass_eq only
    rw [describeProperty, same] at undescribed
    exact .inl ⟨⟨.unsupported u, rfl⟩, _, run_buildClass_of_undescribed undescribed title⟩
  | ok kind =>
    have boxes := source.boxes_of_properties own hk (wrapped kind hk) only
    obtain fails | ⟨d, e, bare, boxed, leaves⟩ := boxes.build_together
      (if info.name.isEmpty then kind.describe else info.name) title
    · exact .inl fails
    · exact .inr ⟨kind, _, d, e, bare, boxed, leaves⟩

end ReflectedSchema
