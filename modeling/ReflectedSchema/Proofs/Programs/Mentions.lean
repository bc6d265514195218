import ReflectedSchema.Annotated.Registry
import ReflectedSchema.Proofs.Programs.Declarations
import ReflectedSchema.Proofs.Programs.Walks

/-!
# Declarations in annotations

An annotation is evaluated in a scope, in which a name stands for a declaration only if the declaration is
entered under it.  So whatever an annotation evaluates to, with its quoted parts or without, mentions named
declarations only.  Every step of the evaluation keeps this; `Scope.typeOf_within` says it of whole
annotations, and `Registry.annotatedProperties_within` of the properties of a class.
-/

namespace ReflectedSchema.Annotated

/-! ## Results -/

/-- What a computation yields, if it yields anything, has a property. -/
def Yields {ε α : Type} (P : α → Prop) (x : Except ε α) : Prop :=
  ∀ a, x = .ok a → P a

namespace Yields

variable {ε α β : Type} {P : α → Prop} {Q : β → Prop}

/-- A result that has the property. -/
theorem ok {a : α} (h : P a) : Yields P (.ok a : Except ε α) := by
  rintro _ ⟨⟩
  exact h

/-- An error yields nothing. -/
theorem error (e : ε) : Yields P (.error e : Except ε α) := by
  rintro _ ⟨⟩

/-- A sequence yields what its second step does, given what the first one yields. -/
theorem bind {x : Except ε β} {f : β → Except ε α} (hx : Yields Q x) (hf : ∀ b, Q b → Yields P (f b)) :
    Yields P (x >>= f) := by
  cases x with
  | error e => exact error e
  | ok b => exact hf b (hx b rfl)

/-- Nothing needs to be known of a check. -/
theorem check {x : Except ε β} {f : β → Except ε α} (hf : ∀ b, Yields P (f b)) : Yields P (x >>= f) :=
  bind (fun _ _ => trivial) fun b (_ : True) => hf b

/-- A result is mapped to one with the property. -/
theorem map {x : Except ε β} {f : β → α} (hx : Yields Q x) (hf : ∀ b, Q b → P (f b)) :
    Yields P (x.map f) := by
  cases x with
  | error e => exact error e
  | ok b => exact ok (hf b (hx b rfl))

/-- A loop yields results that all have the property. -/
theorem mapM {f : β → Except ε α} {xs : List β} (h : ∀ x ∈ xs, Yields P (f x)) :
    Yields (fun ys => ∀ y ∈ ys, P y) (xs.mapM f) := by
  induction xs with
  | nil => exact ok (by simp)
  | cons x rest ih =>
    rw [List.mapM_cons]
    refine bind (h x List.mem_cons_self) fun y hy => ?_
    refine bind (ih fun x hx => h x (List.mem_cons_of_mem _ hx)) fun ys hys => ok ?_
    exact List.forall_mem_cons.mpr ⟨hy, hys⟩

/-- A fold keeps the property of its state. -/
theorem foldlM {f : α → β → Except ε α} {xs : List β} (h : ∀ a, ∀ x ∈ xs, P a → Yields P (f a x))
    {start : α} (hs : P start) : Yields P (xs.foldlM f start) := by
  induction xs generalizing start with
  | nil => exact ok hs
  | cons x rest ih =>
    exact bind (h start x List.mem_cons_self hs) fun a ha =>
      ih (fun a x hx => h a x (List.mem_cons_of_mem _ hx)) ha

end Yields

/-! ## Types -/

namespace Form

mutual

/-- The numbers of the declarations that a type mentions. -/
def mentions : Form → List Nat
  | .atom (.declared number) => [number]
  | .atom _ => []
  | .generic _ args | .alias _ args | .union args | .either args => mentionsAll args
  | .applied number args => number :: mentionsAll args
  | .annotated inner _ => inner.mentions

/-- The numbers of the declarations that types mention. -/
def mentionsAll : List Form → List Nat
  | [] => []
  | form :: rest => form.mentions ++ mentionsAll rest

end

/-- What several types mention is what one of them does. -/
theorem mem_mentionsAll {forms : List Form} {number : Nat} :
    number ∈ mentionsAll forms ↔ ∃ form ∈ forms, number ∈ form.mentions := by
  induction forms with
  | nil => simp [mentionsAll]
  | cons form rest ih => simp [mentionsAll, ih]

/-- A type mentions only declarations with a property. -/
def Within (P : Nat → Prop) (form : Form) : Prop :=
  ∀ number ∈ form.mentions, P number

variable {P : Nat → Prop} {form : Form} {forms args : List Form}

/-- Types that mention only such declarations do so together. -/
theorem within_args (h : ∀ arg ∈ args, arg.Within P) : ∀ number ∈ mentionsAll args, P number := by
  intro number hn
  obtain ⟨arg, ha, hn⟩ := mem_mentionsAll.mp hn
  exact h arg ha number hn

/-- A type still mentions them only as an argument. -/
theorem Within.asArgument (h : form.Within P) : form.asArgument.Within P := by
  unfold Form.asArgument
  split
  · exact fun _ hn => nomatch hn
  · exact h

/-- Metadata mentions no declarations. -/
theorem Within.withMetadata (h : form.Within P) (metadata : List Metadata) :
    (form.withMetadata metadata).Within P := by
  unfold Form.withMetadata
  split <;> exact h

/-- Nor does taking it off. -/
theorem Within.withoutMetadata (h : form.Within P) : form.withoutMetadata.1.Within P := by
  unfold Form.withoutMetadata
  split <;> exact h

/-- The members of a union mention what the union does. -/
theorem Within.members (h : form.Within P) : ∀ member ∈ form.members, member.Within P := by
  unfold Form.members
  split
  · exact fun member hm number hn => h number (mem_mentionsAll.mpr ⟨member, hm, hn⟩)
  · exact fun member hm number hn => h number (mem_mentionsAll.mpr ⟨member, hm, hn⟩)
  · intro member hm
    rwa [List.mem_singleton.mp hm]

/-- What is left without repetitions was there before. -/
theorem mem_of_mem_distinct (h : form ∈ distinct forms) : form ∈ forms := by
  induction forms with
  | nil => exact h
  | cons first rest ih =>
    rw [distinct] at h
    rcases List.mem_cons.mp h with rfl | h
    · exact List.mem_cons_self
    · exact List.mem_cons_of_mem _ (ih (List.mem_of_mem_filter h))

/-- The members of a union of types are among the members of the types. -/
theorem within_distinct (h : ∀ arg ∈ args, arg.Within P) :
    ∀ member ∈ distinct ((args.map Form.asArgument).flatMap Form.members), member.Within P := by
  intro member hm
  obtain ⟨form, hf, hm⟩ := List.mem_flatMap.mp (mem_of_mem_distinct hm)
  obtain ⟨arg, ha, rfl⟩ := List.mem_map.mp hf
  exact (h arg ha).asArgument.members member hm

/-- A union mentions what its arguments do. -/
theorem within_unionOf (h : ∀ arg ∈ args, arg.Within P) : (unionOf args).Within P := by
  have members := within_distinct h
  unfold unionOf
  split
  · rename_i single only
    exact members single (only ▸ List.mem_singleton_self single)
  · exact within_args members

/-- So does a bar union. -/
theorem within_eitherOf (h : ∀ arg ∈ args, arg.Within P) : (eitherOf args).Within P := by
  have members := within_distinct h
  unfold eitherOf
  split
  · rename_i single only
    exact members single (only ▸ List.mem_singleton_self single)
  · exact within_args members

end Form

/-! ## Evaluation -/

/-- The forms of an evaluated expression mention only declarations with a property. -/
structure Evaluated.Within (P : Nat → Prop) (v : Evaluated) : Prop where
  now : v.now.Within P
  final : ∀ whole, Yields (Form.Within P) (v.final whole)

/-- What is evaluated to a type at once mentions what the type does. -/
theorem Evaluated.within_of {P : Nat → Prop} {form : Form} (h : form.Within P) : (Evaluated.of form).Within P :=
  ⟨h, fun _ => .ok h⟩

namespace Scope

/-- What a scope enters under names are named declarations. -/
structure Enters (s : Scope) (P : Nat → Prop) : Prop where
  globals : ∀ name number, (name, number) ∈ s.program.globals s.module → P number
  own : ∀ name form, (name, form) ∈ s.own → form.Within P
  attributes : ∀ owner name form, s.program.attributeForm? owner name = some form → form.Within P

variable {s : Scope} {P : Nat → Prop} {args : List Evaluated} {arg : Evaluated} {form : Form}

/-- The special words and the value structs mention no declaration. -/
theorem mentions_of_word? {name : String} {atom : Atom} (h : word? name = some atom) :
    (Form.atom atom).mentions = [] := by
  unfold word? at h
  split at h
  case h_16 =>
    obtain ⟨tag, -, rfl⟩ := Option.map_eq_some_iff.mp h
    rfl
  all_goals
    cases h
    rfl

/-- A name leads to what its scope enters, to a word or to a built-in class. -/
theorem Enters.lookup (h : s.Enters P) (name : String) : Yields (Form.Within P) (s.lookup name) := by
  have declared {number : Nat} (hn : P number) : (Form.atom (.declared number)).Within P :=
    fun _ hm => List.mem_singleton.mp hm ▸ hn
  have plain {a : Atom} (ha : (Form.atom a).mentions = []) : (Form.atom a).Within P := by
    intro number hn
    rw [ha] at hn
    cases hn
  unfold Scope.lookup
  split
  · rename_i number found
    exact .ok (declared (h.globals name number (Json.mem_of_lookup ‹_›)))
  · rename_i atom _ found
    exact .ok (plain (mentions_of_word? ‹_›))
  · exact .ok (h.own name _ (Json.mem_of_lookup ‹_›))
  · split
    · exact .ok (plain rfl)
    split
    · exact .ok (plain rfl)
    split
    · exact .ok (plain rfl)
    split_ifs
    · exact .ok (plain rfl)
    · exact .error _

/-- The members of an enumeration are values. -/
theorem within_of_memberForms? {p : Program} {members : List (String × Form)} {name : String} {member : Form}
    (h : memberForms? p form = some members) (found : Json.lookup name members = some member) :
    member.Within P := by
  have listed := Json.mem_of_lookup found
  unfold memberForms? at h
  split at h
  · cases h
    cases listed
  · obtain ⟨⟨base, values⟩, -, rfl⟩ := Option.map_eq_some_iff.mp h
    obtain ⟨⟨value, shown⟩, -, same⟩ := List.mem_map.mp listed
    cases same
    exact fun _ hn => nomatch hn
  · cases h

/-- An attribute is one that its owner enters. -/
theorem Enters.attributeOf (h : s.Enters P) (form : Form) (name : String) :
    Yields (Form.Within P) (s.attributeOf form name) := by
  unfold Scope.attributeOf
  split
  · rename_i members enumeration
    split
    · exact .ok (within_of_memberForms? ‹_› ‹_›)
    · exact .error _
  · split
    · exact .ok (h.attributes _ name _ ‹_›)
    · exact .error _
  · exact .error _

/-- Arguments that are settled mention what they did before. -/
theorem finals_within (h : ∀ arg ∈ args, arg.Within P) :
    Yields (fun forms => ∀ form ∈ forms, form.Within P) (finals args) :=
  .mapM fun arg ha => (h arg ha).final false

/-- A type that is built anew of settled arguments mentions what these do. -/
theorem rebuilt_within (h : ∀ arg ∈ args, arg.Within P) {build : List Form → Form}
    (hb : ∀ forms : List Form, (∀ form ∈ forms, form.Within P) → (build forms).Within P) :
    (rebuilt args build).Within P where
  now := hb _ (List.forall_mem_map.mpr fun arg ha => (h arg ha).now)
  final _ := (finals_within h).map hb

/-- A union that is settled later mentions what its arguments do. -/
theorem union_within (h : ∀ arg ∈ args, arg.Within P) {build : List Form → Form}
    (hb : ∀ forms : List Form, (∀ form ∈ forms, form.Within P) → (build forms).Within P) :
    Yields (Evaluated.Within P) (s.union args build) := by
  refine .check fun _ => .ok ⟨hb _ (List.forall_mem_map.mpr fun arg ha => (h arg ha).now), fun _ => ?_⟩
  exact (finals_within h).bind fun forms hf => .check fun _ => .ok (hb forms hf)

/-- Metadata that is put around a type adds no mention. -/
theorem withMetadata_within (h : form.Within P) (metadata : List Metadata) :
    Yields (Form.Within P) (withMetadata metadata form) := by
  unfold Scope.withMetadata
  split
  · exact .ok (h.asArgument.withMetadata metadata)
  · exact .ok (h.asArgument.withMetadata metadata)
  · exact .error _

/-- An annotated argument mentions what the argument does. -/
theorem annotate_within (h : arg.Within P) (metadata : List Metadata) :
    Yields (Evaluated.Within P) (s.annotate arg metadata) :=
  .check fun _ => .bind (withMetadata_within h.now metadata) fun _ hf => .ok ⟨hf, fun _ =>
    .bind (h.final true) fun _ hf => withMetadata_within hf metadata⟩

/-- A member of an enumeration mentions what the enumeration enters under it. -/
theorem memberAt_within {members : List (String × Form)} (hm : memberForms? s.program form = some members) :
    Yields (Evaluated.Within P) (s.memberAt members args) := by
  unfold Scope.memberAt
  split
  · split
    · exact .ok (Evaluated.within_of (within_of_memberForms? hm ‹_›))
    · exact .error _
  · exact .error _
  · exact .error _

/-- A type that is applied to arguments mentions what it does itself and what they do. -/
theorem apply_within (hf : form.Within P) (h : ∀ arg ∈ args, arg.Within P) :
    Yields (Evaluated.Within P) (s.apply form args) := by
  have asAlias {word : String} (forms : List Form) (hb : ∀ form ∈ forms, form.Within P) :
      (Form.alias word (forms.map Form.asArgument)).Within P :=
    Form.within_args (List.forall_mem_map.mpr fun form hm => (hb form hm).asArgument)
  unfold Scope.apply
  split
  · exact memberAt_within ‹_›
  · split_ifs
    · exact .ok (rebuilt_within h fun _ => Form.within_args)
    · exact .error _
  case h_3 word _ =>
    have built : (rebuilt args fun forms => .alias word (forms.map Form.asArgument)).Within P :=
      rebuilt_within h asAlias
    refine .check fun _ => ?_
    split
    · split_ifs
      · exact .check fun _ => .ok built
      · exact .ok built
    · exact .ok built
  case h_4 =>
    refine .check fun _ => union_within h fun forms hf => Form.within_unionOf fun form hm => ?_
    rcases List.mem_append.mp hm with hm | hm
    · exact hf form hm
    · rw [List.mem_singleton.mp hm]
      exact fun _ hn => nomatch hn
  case h_5 => exact union_within h fun _ => Form.within_unionOf
  case h_6 => exact .check fun _ => .ok (rebuilt_within h asAlias)
  case h_7 =>
    split
    · exact annotate_within (h _ List.mem_cons_self) _
    · exact .error _
  case h_8 number _ =>
    split_ifs
    · refine .ok (rebuilt_within h fun forms hb number' hn => ?_)
      rcases List.mem_cons.mp hn with rfl | hn
      · exact hf _ List.mem_cons_self
      · exact Form.within_args hb number' hn
    · exact .error _
  all_goals first | exact .error _ | (split <;> exact .error _)

/-- A bar between two types mentions what both sides do. -/
theorem either_within {left right : Evaluated} (hl : left.Within P) (hr : right.Within P) :
    Yields (Evaluated.Within P) (s.either left right) := by
  have both : ∀ arg ∈ [left, right], arg.Within P :=
    List.forall_mem_cons.mpr ⟨hl, List.forall_mem_singleton.mpr hr⟩
  unfold Scope.either
  split_ifs
  · exact union_within both fun _ => Form.within_unionOf
  · exact .error _
  · exact .ok (rebuilt_within both fun _ => Form.within_eitherOf)

mutual

/-- **An expression mentions only what its scope enters.** -/
theorem evaluate_within (h : s.Enters P) : (e : Expr) → Yields (Evaluated.Within P) (s.evaluate e)
  | .name head path => by
    rw [evaluate]
    refine .bind (h.lookup head) fun form hf => ?_
    exact .bind (.foldlM (fun form name _ _ => h.attributeOf form name) hf) fun form hf =>
      .ok (Evaluated.within_of hf)
  | .apply head args => by
    rw [evaluate]
    refine .bind (evaluate_within h head) fun head hh => ?_
    split_ifs
    · exact .bind (literals_within h args) fun forms hf =>
        .ok (Evaluated.within_of (Form.within_args hf))
    · exact .bind (evaluateAll_within h args) fun args ha => apply_within hh.now ha
  | .annotated type metadata => by
    rw [evaluate]
    exact .bind (evaluate_within h type) fun arg ha => annotate_within ha metadata
  | .either left right => by
    rw [evaluate]
    exact .bind (evaluate_within h left) fun left hl =>
      .bind (evaluate_within h right) fun right hr => either_within hl hr
  | .quoted inner => by
    rw [evaluate]
    refine .ok ⟨(fun _ hn => nomatch hn), fun whole => ?_⟩
    exact .bind (evaluate_within h inner) fun inner hi => .check fun _ =>
      .bind (hi.final whole) fun form hf => .ok hf.asArgument

/-- So it is for expressions in a row. -/
theorem evaluateAll_within (h : s.Enters P) :
    (es : List Expr) → Yields (fun args => ∀ arg ∈ args, arg.Within P) (s.evaluateAll es)
  | [] => by
    rw [evaluateAll]
    exact .ok fun _ hm => nomatch hm
  | e :: rest => by
    rw [evaluateAll]
    exact .bind (evaluate_within h e) fun first hf => .bind (evaluateAll_within h rest) fun others ho =>
      .ok (List.forall_mem_cons.mpr ⟨hf, ho⟩)

/-- And for what stands inside literals. -/
theorem literals_within (h : s.Enters P) :
    (es : List Expr) → Yields (fun forms => ∀ form ∈ forms, form.Within P) (s.literals es)
  | [] => by
    rw [literals]
    exact .ok fun _ hm => nomatch hm
  | e :: rest => by
    have first := evaluate_within h e
    have others := literals_within h rest
    unfold Scope.literals
    split
    · rename_i nil
      cases nil
    · rename_i same
      cases same
      exact .bind others fun others ho =>
        .ok (List.forall_mem_cons.mpr ⟨(fun _ hn => nomatch hn), ho⟩)
    · rename_i same
      cases same
      exact .bind first fun first hf => .bind others fun others ho =>
        .ok (List.forall_mem_cons.mpr ⟨hf.now, ho⟩)

end

/-- Annotations as a whole mention only what their scope enters. -/
theorem typeOf_within (h : s.Enters P) (e : Expr) : Yields (Form.Within P) (s.typeOf e) :=
  .bind (evaluate_within h e) fun _ hv => .check fun _ =>
    .bind (hv.final true) fun _ hf => .ok hf.asArgument

end Scope

/-! ## Annotations of classes -/

variable {p : Program} {number : Nat} {body : ClassBody}

/-- An attribute of a class stands for a declaration only if it is named by it. -/
theorem Program.within_form {p : Program} (known : p.classBody? number = some body) {name : String}
    {a : Attribute} (listed : (name, a) ∈ body.attributes) : (a.form number name).Within p.Named := by
  intro k hk
  cases a with
  | type inner =>
    obtain rfl := List.mem_singleton.mp hk
    exact .inr ⟨number, body, name, known, listed⟩
  | _ => cases hk

/-- The scope of the annotations of a class enters named declarations only. -/
theorem Program.enters_named (p : Program) (known : p.classBody? number = some body) :
    (p.scope number body).Enters p.Named where
  globals name number entered := .inl ⟨_, name, entered⟩
  own name form entered := by
    obtain ⟨⟨name', a⟩, listed, same⟩ := List.mem_map.mp entered
    cases same
    exact within_form known listed
  attributes owner name form found := by
    obtain ⟨⟨owner', body'⟩, listed, found⟩ := List.exists_of_findSome?_eq_some found
    obtain ⟨a, entered, rfl⟩ := Option.map_eq_some_iff.mp found
    exact within_form (Program.classBody?_of_mem_bodies listed) (Json.mem_of_lookup entered)

/-- **Annotations mention only named declarations.** -/
theorem Program.annotations_within (p : Program) (number : Nat) :
    Yields (fun types => ∀ entry ∈ types, entry.2.Within p.Named) (p.annotations number) := by
  unfold Program.annotations
  split_ifs
  · exact .ok fun _ hm => nomatch hm
  refine .foldlM (fun types entry listed hs => ?_) (fun _ hm => nomatch hm)
  obtain ⟨owner, body⟩ := entry
  have known := Program.classBody?_of_mem_bodies (List.mem_reverse.mp listed)
  refine .foldlM (fun types annotation _ hs => ?_) hs
  refine .bind (Scope.typeOf_within (p.enters_named known) annotation.2) fun form hf => .ok ?_
  intro entry hm
  rcases Json.mem_of_mem_set hm with rfl | before
  · exact hf
  · exact hs entry before

/-- The types of the properties of a class mention only named declarations. -/
theorem Registry.annotatedProperties_within {r : Registry} {types : List (String × Form)}
    (h : r.annotatedProperties number = .ok types) :
    ∀ entry ∈ types, entry.2.Within r.program.Named := by
  have within := r.program.annotations_within number
  unfold Registry.annotatedProperties at h
  dsimp only at h
  split at h
  · rename_i all annotated
    cases h
    intro entry hm
    rw [(reflected all _).typed entry hm, typeIn]
    cases found : Json.lookup entry.1 all with
    | none =>
      intro k mentioned
      cases mentioned
    | some type => exact within all annotated _ (Json.mem_of_lookup found)
  all_goals cases h

end ReflectedSchema.Annotated
