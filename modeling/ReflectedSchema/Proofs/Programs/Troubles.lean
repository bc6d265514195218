import ReflectedSchema.Proofs.Building.Failing
import ReflectedSchema.Proofs.Programs.Mentions

/-!
# Annotations without a value

An annotation has no value because a name stands for nothing, because a type is misused, or because
something is missing: an attribute of what a dotted name begins with, a member of an enumeration in front of
brackets, or the module of a value that is given metadata.  What is missing can be told from a part of the
annotation, quoted or not (`Scope.typeOf_told`).

The annotations of a class are evaluated one after the other, those of the farthest ancestor first, so the
trouble of a class is that of the first annotation without a value (`Program.annotations_eq_error_iff`).
-/

namespace ReflectedSchema.Annotated

/-! ## Ends of computations -/

/-- A computation ends in a result with one property or in an error with another. -/
def Ends {ε α : Type} (P : α → Prop) (Q : ε → Prop) (x : Except ε α) : Prop :=
  Yields P x ∧ ∀ e, x = .error e → Q e

namespace Ends

variable {ε α β : Type} {P : α → Prop} {R : β → Prop} {Q : ε → Prop}

/-- A result that has the property. -/
theorem ok {a : α} (h : P a) : Ends P Q (.ok a : Except ε α) :=
  ⟨.ok h, fun _ he => nomatch he⟩

/-- An error that has the property. -/
theorem error {e : ε} (h : Q e) : Ends P Q (.error e : Except ε α) :=
  ⟨.error e, by rintro _ ⟨⟩; exact h⟩

/-- A sequence ends as its second step does, or already with the error of the first. -/
theorem bind {x : Except ε β} {f : β → Except ε α} (hx : Ends R Q x) (hf : ∀ b, R b → Ends P Q (f b)) :
    Ends P Q (x >>= f) := by
  cases x with
  | error e => exact error (hx.2 e rfl)
  | ok b => exact hf b (hx.1 b rfl)

/-- A result is mapped, and an error stays. -/
theorem map {x : Except ε β} {f : β → α} (hx : Ends R Q x) (hf : ∀ b, R b → P (f b)) :
    Ends P Q (x.map f) := by
  cases x with
  | error e => exact error (hx.2 e rfl)
  | ok b => exact ok (hf b (hx.1 b rfl))

/-- A loop ends with the errors of its rounds only. -/
theorem mapM {f : β → Except ε α} {xs : List β} (h : ∀ x ∈ xs, Ends P Q (f x)) :
    Ends (fun _ => True) Q (xs.mapM f) :=
  ⟨fun _ _ => trivial, fun e he => by
    obtain ⟨x, hx, hf⟩ := exists_of_mapM_error he
    exact (h x hx).2 e hf⟩

/-- A loop that yields nothing ends with the errors of its rounds only. -/
theorem forM {f : β → Except ε Unit} {xs : List β} (h : ∀ x ∈ xs, Ends (fun _ => True) Q (f x)) :
    Ends (fun _ => True) Q (xs.forM f) := by
  induction xs with
  | nil => exact ok trivial
  | cons x rest ih =>
    exact (h x List.mem_cons_self).bind fun _ _ => ih fun x hx => h x (List.mem_cons_of_mem _ hx)

end Ends

/-- A loop that fails does so in a step, after the steps before it. -/
theorem exists_of_foldlM_error {α β ε : Type} {f : α → β → Except ε α} {xs : List β} {start : α} {e : ε}
    (h : xs.foldlM f start = .error e) : ∃ before x after a, xs = before ++ x :: after ∧
      before.foldlM f start = .ok a ∧ f a x = .error e := by
  induction xs generalizing start with
  | nil => cases h
  | cons x rest ih =>
    rw [List.foldlM_cons] at h
    rcases bind_eq_error.mp h with hx | ⟨next, hx, h⟩
    · exact ⟨[], x, rest, start, rfl, rfl, hx⟩
    · obtain ⟨before, y, after, a, rfl, ha, hy⟩ := ih h
      refine ⟨x :: before, y, after, a, rfl, ?_, hy⟩
      rw [List.foldlM_cons, hx]
      exact ha

/-! ## What is missing -/

namespace Expr

mutual

/-- An expression and all expressions inside it. -/
def parts : Expr → List Expr
  | .name head path => [.name head path]
  | .apply head args => .apply head args :: (head.parts ++ partsAll args)
  | .annotated type metadata => .annotated type metadata :: type.parts
  | .either left right => .either left right :: (left.parts ++ right.parts)
  | .quoted inner => .quoted inner :: inner.parts

/-- Expressions and all expressions inside them. -/
def partsAll : List Expr → List Expr
  | [] => []
  | e :: rest => e.parts ++ partsAll rest

end

/-- An expression is a part of itself. -/
theorem mem_parts (e : Expr) : e ∈ e.parts := by
  cases e <;> exact List.mem_cons_self

/-- An expression in a row is a part of the row. -/
theorem mem_partsAll {e : Expr} {es : List Expr} (h : e ∈ es) : e ∈ partsAll es := by
  induction es with
  | nil => cases h
  | cons first rest ih =>
    rcases List.mem_cons.mp h with rfl | h
    · exact List.mem_append_left _ e.mem_parts
    · exact List.mem_append_right _ (ih h)

end Expr

/-- What is raised in place of an error of the library when something is missing. -/
def Trouble.fault? : Trouble → Option Fault
  | .missingAttribute holder word => some (.missingAttribute holder word)
  | .missingMember shown => some (.raised (.builtIn "KeyError") shown)
  | .undefined _ | .misused _ => none

/-- What an expression stands for where it is given metadata, before or after its quoted parts are
evaluated. -/
def Evaluated.StandsFor (v : Evaluated) (form : Form) : Prop :=
  form = v.now ∨ v.final true = .ok form

/-- What makes an expression itself fail because something is missing. -/
inductive Scope.Lacks (s : Scope) : Expr → Trouble → Prop
  /-- What a dotted name stands for up to a dot has no attribute of the name behind it. -/
  | attribute {head : String} {before after : List String} {name : String} {first form : Form}
      {t : Trouble} (found : s.lookup head = .ok first) (holder : before.foldlM s.attributeOf first = .ok form)
      (missing : s.attributeOf form name = .error t) : Lacks s (.name head (before ++ name :: after)) t
  /-- An enumeration has no member that is called what stands in brackets. -/
  | member {head : Expr} {args : List Expr} {value : Evaluated} {members : List (String × Form)}
      {values : List Evaluated} {t : Trouble} (enum : s.evaluate head = .ok value)
      (listed : Scope.memberForms? s.program value.now = some members)
      (given : s.evaluateAll args = .ok values) (missing : s.memberAt members values = .error t) :
      Lacks s (.apply head args) t
  /-- What an expression stands for has no module that metadata could be put in. -/
  | metadata {e : Expr} {value : Evaluated} {form : Form} {items : List Metadata} {t : Trouble}
      (evaluated : s.evaluate e = .ok value) (stands : value.StandsFor form)
      (missing : Scope.withMetadata items form = .error t) : Lacks s e t

/-- If a trouble is that something is missing, one of some expressions shows it. -/
def Scope.Told (s : Scope) (parts : List Expr) (t : Trouble) : Prop :=
  ∀ f, t.fault? = some f → ∃ part ∈ parts, s.Lacks part t

/-- So it is for the quoted parts of an evaluated expression. -/
def Evaluated.Told (s : Scope) (parts : List Expr) (v : Evaluated) : Prop :=
  ∀ whole, Ends (fun _ => True) (s.Told parts) (v.final whole)

namespace Scope

variable {s : Scope} {parts : List Expr} {args : List Evaluated} {arg : Evaluated} {form : Form}

/-- What is misused is not missing. -/
theorem Told.misused (misuse : Misuse) : s.Told parts (.misused misuse) := fun _ h => nomatch h

/-- A name that is looked up may be undefined, but then nothing is missing. -/
theorem lookup_told (s : Scope) (parts : List Expr) (name : String) :
    Ends (fun _ => True) (s.Told parts) (s.lookup name) := by
  unfold Scope.lookup
  split
  · exact .ok trivial
  · exact .ok trivial
  · exact .ok trivial
  · split
    · exact .ok trivial
    split
    · exact .ok trivial
    split
    · exact .ok trivial
    split_ifs
    · exact .ok trivial
    · refine .error fun _ h => ?_
      cases h

/-- Checking a type for its place only finds misuse. -/
theorem check_told (s : Scope) (parts : List Expr) (whole : Bool) (form : Form) :
    Ends (fun _ => True) (s.Told parts) (s.check whole form) := by
  unfold Scope.check
  split <;> first | exact .ok trivial | (split_ifs <;> first | exact .ok trivial | exact .error (.misused _))

/-- What is evaluated to a type at once has no quoted parts left. -/
theorem told_of (form : Form) : (Evaluated.of form).Told s parts := fun _ => .ok trivial

/-- Settling arguments ends with what their quoted parts end with. -/
theorem finals_told (h : ∀ arg ∈ args, arg.Told s parts) :
    Ends (fun _ => True) (s.Told parts) (finals args) :=
  .mapM fun arg ha => h arg ha false

/-- A type that is built anew of settled arguments ends with what these end with. -/
theorem rebuilt_told (h : ∀ arg ∈ args, arg.Told s parts) (build : List Form → Form) :
    (rebuilt args build).Told s parts :=
  fun _ => (finals_told h).map fun _ _ => trivial

/-- So does a union that is settled later. -/
theorem union_told (h : ∀ arg ∈ args, arg.Told s parts) (build : List Form → Form) :
    Ends (Evaluated.Told s parts) (s.Told parts) (s.union args build) := by
  refine (Ends.forM fun arg _ => s.check_told parts false arg.now).bind fun _ _ => .ok fun _ => ?_
  exact (finals_told h).bind fun forms _ =>
    (Ends.forM fun form _ => s.check_told parts false form).bind fun _ _ => .ok trivial

/-- A word that takes a single argument is misused with any other number. -/
theorem single_told (s : Scope) (parts : List Expr) (word verb : String) (args : List Evaluated) :
    Ends (fun _ => True) (s.Told parts) (s.single word verb args) := by
  unfold Scope.single
  split
  · exact s.check_told parts false _
  · exact .error (.misused _)

/-- An annotated argument lacks what it lacks itself, or a module for its metadata. -/
theorem annotate_told (h : arg.Told s parts) (metadata : List Metadata)
    (placed : ∀ form t, arg.StandsFor form → withMetadata metadata form = .error t → s.Told parts t) :
    Ends (Evaluated.Told s parts) (s.Told parts) (s.annotate arg metadata) := by
  refine (s.check_told parts true arg.now).bind fun _ _ => ?_
  have now : Ends (fun _ => True) (s.Told parts) (withMetadata metadata arg.now) :=
    ⟨fun _ _ => trivial, fun t => placed _ t (.inl rfl)⟩
  refine now.bind fun _ _ => .ok fun _ => ?_
  cases final : arg.final true with
  | error t => exact .error ((h true).2 t final)
  | ok form => exact ⟨fun _ _ => trivial, fun t => placed form t (.inr final)⟩

/-- A type that is applied lacks a member, a module for metadata, or what its arguments lack. -/
theorem apply_told (h : ∀ arg ∈ args, arg.Told s parts)
    (member : ∀ members t, memberForms? s.program form = some members →
      s.memberAt members args = .error t → s.Told parts t)
    (placed : ∀ arg ∈ args, ∀ metadata form t, arg.StandsFor form →
      withMetadata metadata form = .error t → s.Told parts t) :
    Ends (Evaluated.Told s parts) (s.Told parts) (s.apply form args) := by
  unfold Scope.apply
  split
  case h_1 members listed =>
    refine ⟨fun v hv => ?_, fun t ht => member members t listed ht⟩
    unfold Scope.memberAt at hv
    split at hv
    · split at hv
      · cases hv
        exact told_of _
      · cases hv
    all_goals cases hv
  case h_2 =>
    split_ifs
    · exact .ok (rebuilt_told h _)
    · exact .error (.misused _)
  case h_3 =>
    refine (Ends.forM fun arg _ => s.check_told parts false arg.now).bind fun _ _ => ?_
    split
    · split_ifs
      · exact .error (.misused _)
      · exact .ok (rebuilt_told h _)
    · exact .ok (rebuilt_told h _)
  case h_4 => exact (s.single_told parts _ _ _).bind fun _ _ => union_told h _
  case h_5 => exact union_told h _
  case h_6 => exact (s.single_told parts _ _ _).bind fun _ _ => .ok (rebuilt_told h _)
  case h_7 =>
    split
    · exact annotate_told (h _ List.mem_cons_self) _ (placed _ List.mem_cons_self _)
    · exact .error (.misused _)
  case h_8 =>
    split_ifs
    · exact .ok (rebuilt_told h _)
    · exact .error (.misused _)
  all_goals first | exact .error (.misused _) | (split <;> exact .error (.misused _))

/-- A bar between two types lacks what its sides lack. -/
theorem either_told {left right : Evaluated} (hl : left.Told s parts) (hr : right.Told s parts) :
    Ends (Evaluated.Told s parts) (s.Told parts) (s.either left right) := by
  have both : ∀ arg ∈ [left, right], arg.Told s parts :=
    List.forall_mem_cons.mpr ⟨hl, List.forall_mem_singleton.mpr hr⟩
  unfold Scope.either
  split_ifs
  · exact union_told both _
  · exact .error (.misused _)
  · exact .ok (rebuilt_told both _)

/-- Evaluated expressions come from expressions one by one. -/
theorem exists_of_evaluateAll {es : List Expr} {values : List Evaluated}
    (h : s.evaluateAll es = .ok values) : ∀ value ∈ values, ∃ e ∈ es, s.evaluate e = .ok value := by
  induction es generalizing values with
  | nil =>
    rw [evaluateAll] at h
    cases h
    exact List.forall_mem_nil _
  | cons e rest ih =>
    rw [evaluateAll] at h
    obtain ⟨first, evaluated, h⟩ := bind_eq_ok.mp h
    obtain ⟨others, later, h⟩ := bind_eq_ok.mp h
    cases h
    refine List.forall_mem_cons.mpr ⟨⟨e, List.mem_cons_self, evaluated⟩, fun value hv => ?_⟩
    obtain ⟨e', he, evaluated⟩ := ih later value hv
    exact ⟨e', List.mem_cons_of_mem _ he, evaluated⟩

mutual

/-- What is missing when an expression fails is shown by it or by an expression inside it. -/
theorem evaluate_told (s : Scope) {parts : List Expr} : (e : Expr) → e.parts ⊆ parts →
    Ends (Evaluated.Told s parts) (s.Told parts) (s.evaluate e)
  | .name head path, sub => by
    rw [evaluate]
    have itself : Expr.name head path ∈ parts := sub (List.mem_singleton_self _)
    refine ⟨fun v hv => ?_, fun t ht => ?_⟩
    · obtain ⟨first, -, hv⟩ := bind_eq_ok.mp hv
      obtain ⟨form, -, hv⟩ := bind_eq_ok.mp hv
      cases hv
      exact told_of form
    · rcases bind_eq_error.mp ht with undefined | ⟨first, found, ht⟩
      · exact (s.lookup_told parts head).2 t undefined
      rcases bind_eq_error.mp ht with missing | ⟨form, -, ht⟩
      · obtain ⟨before, name, after, form, rfl, holder, missing⟩ := exists_of_foldlM_error missing
        exact fun _ _ => ⟨_, itself, .attribute found holder missing⟩
      · cases ht
  | .apply head args, sub => by
    rw [evaluate]
    obtain ⟨itself, sub⟩ := List.cons_subset.mp sub
    obtain ⟨ofHead, ofArgs⟩ := List.append_subset.mp sub
    have inner := evaluate_told s head ofHead
    cases enum : s.evaluate head with
    | error t => exact .error (inner.2 t enum)
    | ok value =>
      show Ends _ _ (if _ then _ else _)
      split_ifs
      · exact (literals_told s args ofArgs).bind fun forms _ => .ok (told_of _)
      · have each := evaluateAll_told s args ofArgs
        cases given : s.evaluateAll args with
        | error t => exact .error (each.2 t given)
        | ok values =>
          refine apply_told (each.1 values given) (fun members t listed missing _ _ =>
            ⟨_, itself, .member enum listed given missing⟩) fun arg ha metadata form t stands missing => ?_
          obtain ⟨e, he, evaluated⟩ := exists_of_evaluateAll given arg ha
          exact fun _ _ => ⟨e, ofArgs (Expr.mem_partsAll he), .metadata evaluated stands missing⟩
  | .annotated type metadata, sub => by
    rw [evaluate]
    have ofType := (List.cons_subset.mp sub).2
    have inner := evaluate_told s type ofType
    cases evaluated : s.evaluate type with
    | error t => exact .error (inner.2 t evaluated)
    | ok arg =>
      exact annotate_told (inner.1 arg evaluated) metadata fun form t stands missing _ _ =>
        ⟨type, ofType type.mem_parts, .metadata evaluated stands missing⟩
  | .either left right, sub => by
    rw [evaluate]
    obtain ⟨ofLeft, ofRight⟩ := List.append_subset.mp (List.cons_subset.mp sub).2
    exact (evaluate_told s left ofLeft).bind fun left hl =>
      (evaluate_told s right ofRight).bind fun right hr => either_told hl hr
  | .quoted inner, sub => by
    rw [evaluate]
    refine .ok fun whole => ?_
    exact (evaluate_told s inner (List.cons_subset.mp sub).2).bind fun value hv =>
      (s.check_told parts whole value.now).bind fun _ _ => (hv whole).bind fun _ _ => .ok trivial

/-- Expressions in a row tell what is missing in one of their parts. -/
theorem evaluateAll_told (s : Scope) {parts : List Expr} : (es : List Expr) → Expr.partsAll es ⊆ parts →
    Ends (fun args => ∀ arg ∈ args, arg.Told s parts) (s.Told parts) (s.evaluateAll es)
  | [], _ => by
    rw [evaluateAll]
    exact .ok fun _ hm => nomatch hm
  | e :: rest, sub => by
    rw [evaluateAll]
    obtain ⟨ofFirst, ofRest⟩ := List.append_subset.mp sub
    exact (evaluate_told s e ofFirst).bind fun first hf => (evaluateAll_told s rest ofRest).bind
      fun others ho => .ok (List.forall_mem_cons.mpr ⟨hf, ho⟩)

/-- So does what stands inside literals. -/
theorem literals_told (s : Scope) {parts : List Expr} : (es : List Expr) → Expr.partsAll es ⊆ parts →
    Ends (fun _ => True) (s.Told parts) (s.literals es)
  | [], _ => by
    rw [literals]
    exact .ok trivial
  | e :: rest, sub => by
    obtain ⟨ofFirst, ofRest⟩ := List.append_subset.mp sub
    have first := evaluate_told s e ofFirst
    have others := literals_told s rest ofRest
    unfold Scope.literals
    split
    · rename_i nil
      cases nil
    · rename_i same
      cases same
      exact others.bind fun _ _ => .ok trivial
    · rename_i same
      cases same
      exact first.bind fun _ _ => others.bind fun _ _ => .ok trivial

end

end Scope

/-! ## Annotations of classes -/

/-- An annotation as it is written, with the scope in which it is evaluated. -/
structure Written where
  scope : Scope
  name : String
  type : Expr

/-- The annotations of a class and of its ancestors, in the order in which they are evaluated; none is, if they
are no types. -/
def Program.written (p : Program) (number : Nat) : List Written :=
  if p.isUntyped number then []
  else (p.bodies number).reverse.flatMap fun (owner, body) =>
    body.annotations.map fun (name, e) => ⟨p.scope owner body, name, e⟩

/-- The types of annotations, each of which takes the place of an earlier one of its name. -/
def Written.collect (types : List (String × Form)) (a : Written) :
    Except Trouble (List (String × Form)) := do
  return Json.set a.name (← a.scope.typeOf a.type) types

/-- A loop over lists that are put together goes over one after the other. -/
theorem foldlM_flatMap {α β γ ε : Type} (f : α → β → Except ε α) (parts : γ → List β) (xs : List γ)
    (start : α) : (xs.flatMap parts).foldlM f start =
      xs.foldlM (fun a x => (parts x).foldlM f a) start := by
  induction xs generalizing start with
  | nil => rfl
  | cons x rest ih => simp only [List.flatMap_cons, List.foldlM_append, List.foldlM_cons, ih]

/-- The annotations of a class are collected in the order in which they are written along its
linearisation. -/
theorem Program.annotations_eq (p : Program) (number : Nat) :
    p.annotations number = (p.written number).foldlM Written.collect [] := by
  unfold annotations written
  split_ifs
  · rfl
  · rw [foldlM_flatMap]
    simp only [List.foldlM_map]
    rfl

/-- The first annotation of a class or of an ancestor without a value is in trouble. -/
def Program.Fails (p : Program) (number : Nat) (t : Trouble) : Prop :=
  ∃ before a after, p.written number = before ++ a :: after ∧
    (∀ earlier ∈ before, ∃ type, earlier.scope.typeOf earlier.type = .ok type) ∧
    a.scope.typeOf a.type = .error t

/-- An annotation fails to be collected for the trouble of its type. -/
theorem Written.collect_eq_error {types : List (String × Form)} {a : Written} {t : Trouble} :
    collect types a = .error t ↔ a.scope.typeOf a.type = .error t := by
  rw [collect, bind_eq_error]
  simp [pure, Except.pure]

/-- Annotations that all have a value are collected. -/
theorem exists_collected {annotations : List Written} (types : List (String × Form)) :
    (∃ all, annotations.foldlM Written.collect types = .ok all) ↔
      ∀ a ∈ annotations, ∃ type, a.scope.typeOf a.type = .ok type := by
  induction annotations generalizing types with
  | nil => exact ⟨fun _ _ hm => (nomatch hm), fun _ => ⟨types, rfl⟩⟩
  | cons a rest ih =>
    rw [List.forall_mem_cons, List.foldlM_cons]
    cases value : a.scope.typeOf a.type with
    | error t =>
      rw [Written.collect_eq_error.mpr value]
      exact ⟨fun ⟨_, h⟩ => (nomatch h), fun ⟨⟨_, h⟩, _⟩ => (nomatch h)⟩
    | ok type =>
      have kept : Written.collect types a = .ok (Json.set a.name type types) := by
        rw [Written.collect, value]
        rfl
      rw [kept]
      exact (ih _).trans ⟨fun h => ⟨⟨type, rfl⟩, h⟩, fun h => h.2⟩

/-- **The trouble of a class is that of the first annotation without a value.** -/
theorem Program.annotations_eq_error_iff {p : Program} {number : Nat} {t : Trouble} :
    p.annotations number = .error t ↔ p.Fails number t := by
  rw [annotations_eq]
  constructor
  · intro h
    obtain ⟨before, a, after, types, split, collected, fails⟩ := exists_of_foldlM_error h
    exact ⟨before, a, after, split, (exists_collected []).mp ⟨types, collected⟩,
      Written.collect_eq_error.mp fails⟩
  · rintro ⟨before, a, after, split, earlier, fails⟩
    obtain ⟨types, collected⟩ := (exists_collected []).mpr earlier
    rw [split, List.foldlM_append, collected, bind_eq_error]
    exact .inr ⟨types, rfl, bind_eq_error.mpr (.inl (Written.collect_eq_error.mpr fails))⟩

end ReflectedSchema.Annotated
