import ReflectedSchema.Proofs.Checking.Listing
import ReflectedSchema.Proofs.Json.Order

/-!
# A check does not see the order of keys

What a check finds at a place is a remark on the value there: the wording shows the value, and nothing
else in it depends on the value.  So two values that differ only in the order of keys are checked alike:
at each place the same remarks are made, in the same order, and the undeclared keys of an object, which
come in the order of the value, stand at places of their own.  The lists that callers see tell the same.
-/

namespace ReflectedSchema

/-! ## Remarks -/

/-- What a check remarks on a value, without the value. -/
inductive Remark where
  | missing (name : String)
  | unexpected (name : String)
  | wrongType (allowed : List String)
  | tooShort (least : Int)
  | tooLong (most : Int)
  | tooSmall (least : Int)
  | tooLarge (most : Int)
  | unknownMember (enumName : String) (members : List String)
  /-- No value is allowed. -/
  | disallowed

namespace Remark

/-- A remark on a value as a violation. -/
def about (v : Json) : Remark → Violation
  | .missing name => .missing name
  | .unexpected name => .unexpected name
  | .wrongType allowed => .wrongType v allowed
  | .tooShort least => .tooShort v least
  | .tooLong most => .tooLong v most
  | .tooSmall least => .tooSmall v least
  | .tooLarge most => .tooLarge v most
  | .unknownMember enumName members => .unknownMember enumName v members
  | .disallowed => .stated .constraint ("False schema does not allow " ++ v.literal)

/-- The sort of a remark, what stands in front of the value in its wording and, if the value is shown,
what stands behind it. -/
def template : Remark → Reason × String × Option String
  | .missing name => (.missingRequired, "Missing required property '" ++ name ++ "'", none)
  | .unexpected name => (.unexpectedProperty, "Unexpected property '" ++ name ++ "'", none)
  | .wrongType allowed =>
    (.typeMismatch, "", some (" is not of type " ++ ", ".intercalate (allowed.map Text.quoted)))
  | .tooShort least =>
    (.constraint, "", some (if least = 1 then " should be non-empty" else " is too short"))
  | .tooLong most =>
    (.constraint, "", some (if most = 0 then " is expected to be empty" else " is too long"))
  | .tooSmall least => (.constraint, "", some (" is less than the minimum of " ++ toString least))
  | .tooLarge most => (.constraint, "", some (" is greater than the maximum of " ++ toString most))
  | .unknownMember enumName members =>
    (.enumMismatch, "Unknown member ",
      some (" for enum '" ++ enumName ++ "'. Expected one of: " ++ ", ".intercalate members))
  | .disallowed => (.constraint, "False schema does not allow ", some "")

/-- A template with the literal of a value filled in. -/
def fill (literal : String) : Reason × String × Option String → Reason × String
  | (reason, front, back) => (reason, front ++ (back.map (literal ++ ·)).getD "")

/-- What is said of a value is the template with the literal of the value in it. -/
theorem wording_about (v : Json) (r : Remark) : (r.about v).wording = fill v.literal r.template := by
  unfold Violation.wording Violation.reason Violation.message
  cases r <;> simp only [about, template, fill, Option.map_some, Option.map_none, Option.getD_some,
    Option.getD_none, String.append_assoc, String.empty_append, String.append_empty]

/-! What is filled into a template with one value is told apart with any other. -/

section Fill

variable {reason other : Reason} {front front' back back' literal : String}

/-- A template that does not show the value is known from what it gives. -/
theorem fill_none_injective (h : fill literal (reason, front, none) = fill literal (reason, front', none)) :
    front = front' :=
  (String.append_left_inj "").mp (Prod.mk.inj h).2

/-- A template that shows the value is known from what it gives, if what stands in front is known. -/
theorem fill_some_injective
    (h : fill literal (reason, front, some back) = fill literal (reason, front, some back')) :
    back = back' :=
  (String.append_right_inj literal).mp ((String.append_right_inj front).mp (Prod.mk.inj h).2)

/-- Two templates that give the same are equally long around the value. -/
theorem length_of_fill
    (h : fill literal (reason, front, some back) = fill literal (other, front', some back')) :
    front.length + back.length = front'.length + back'.length := by
  have text : front ++ (literal ++ back) = front' ++ (literal ++ back') := (Prod.mk.inj h).2
  have size := congrArg String.length text
  simp only [String.length_append] at size
  omega

end Fill

/-- The remark that no value is allowed is the only constraint that says something in front of the value,
and its wording is too long or too short to be that of another. -/
theorem template_constraint {r : Remark} (h : r.template.1 = .constraint) :
    (∃ back, r.template = (.constraint, "", some back) ∧ back.length ≠ 28) ∨ r = .disallowed := by
  cases r with
  | disallowed => exact .inr rfl
  | tooShort least => exact .inl ⟨_, rfl, by split <;> decide⟩
  | tooLong most => exact .inl ⟨_, rfl, by split <;> decide⟩
  | tooSmall least =>
    refine .inl ⟨_, rfl, ?_⟩
    rw [String.length_append, show " is less than the minimum of ".length = 29 from by decide]
    omega
  | tooLarge most =>
    refine .inl ⟨_, rfl, ?_⟩
    rw [String.length_append, show " is greater than the maximum of ".length = 32 from by decide]
    omega
  | _ => cases h

/-- No bound on a value is worded as the remark that no value is allowed. -/
theorem template_ne_disallowed {r : Remark} {back literal : String}
    (hr : r.template = (.constraint, "", some back)) (size : back.length ≠ 28) :
    fill literal r.template ≠ fill literal disallowed.template := by
  intro h
  have same := length_of_fill (hr ▸ h :
    fill literal (.constraint, "", some back) = fill literal (.constraint, _, some ""))
  rw [show "False schema does not allow ".length = 28 from by decide, String.length_empty] at same
  omega

/-- A template is known from what it gives with a literal filled in. -/
theorem template_eq_of_fill {r s : Remark} {literal : String}
    (h : fill literal r.template = fill literal s.template) : r.template = s.template := by
  have sort : r.template.1 = s.template.1 := (Prod.ext_iff.mp h).1
  by_cases hr : r.template.1 = .constraint
  · rcases template_constraint hr with ⟨back, tr, size⟩ | rfl <;>
      rcases template_constraint (sort ▸ hr) with ⟨back', ts, size'⟩ | rfl
    · rw [tr, ts] at h ⊢
      rw [fill_some_injective h]
    · exact absurd h (template_ne_disallowed tr size)
    · exact absurd h.symm (template_ne_disallowed ts size')
    · rfl
  · cases r with
    | missing name =>
      cases s with
      | missing name' => exact congrArg (Reason.missingRequired, ·, none) (fill_none_injective h)
      | _ => cases sort
    | unexpected name =>
      cases s with
      | unexpected name' => exact congrArg (Reason.unexpectedProperty, ·, none) (fill_none_injective h)
      | _ => cases sort
    | wrongType allowed =>
      cases s with
      | wrongType allowed' => exact congrArg (Reason.typeMismatch, "", some ·) (fill_some_injective h)
      | _ => cases sort
    | unknownMember enumName members =>
      cases s with
      | unknownMember enumName' members' =>
        exact congrArg (Reason.enumMismatch, "Unknown member ", some ·) (fill_some_injective h)
      | _ => cases sort
    | _ => exact absurd rfl hr

/-- **Remarks are told apart on all values alike.** -/
theorem wording_eq_iff {r s : Remark} (v : Json) :
    (r.about v).wording = (s.about v).wording ↔ r.template = s.template := by
  rw [wording_about, wording_about]
  exact ⟨template_eq_of_fill, congrArg _⟩

/-- Remarks without those that are worded like an earlier one. -/
def distinct (remarks : List Remark) : List Remark :=
  distinctFrom [] (remarks.map fun r => (r.template, r))

/-- Remarks that are worded differently of a value are different remarks, so their repetitions are dropped
alike. -/
theorem distinct_about (v : Json) (remarks : List Remark) :
    Violation.distinct (remarks.map (about v)) = (distinct remarks).map (about v) :=
  distinctFrom_map [] remarks fun _ _ _ _ => wording_eq_iff v

/-- Callers are told the same of a remark, whatever the value. -/
theorem toldAt_about (names : List String) (v w : Json) (r : Remark) :
    Finding.toldAt names (r.about v) = Finding.toldAt names (r.about w) := by
  cases r <;> rfl

end Remark

/-! ## Findings that are alike -/

/-- The value that names lead to, and nothing where they lead nowhere. -/
def Json.atNames (v : Json) (names : List String) : Json :=
  (v.descend? names).getD .null

/-- Going down by names begins with the part that the first name leads to. -/
theorem Json.atNames_part {v a : Json} {step : Step} (h : v.part? step = some a) (names : List String) :
    v.atNames (step.text :: names) = a.atNames names := by
  cases step with
  | index i =>
    cases v with
    | arr items =>
      have item : items[i]? = some a := h
      have index : (Step.index i).text.toNat? = some i := Nat.toNat?_repr i
      rw [atNames, descend?, index, Option.bind_some, item]
      rfl
    | _ => cases h
  | key name =>
    cases v with
    | obj fields =>
      have field : lookup name fields = some a := h
      rw [atNames, Step.text, descend?, field]
      rfl
    | _ => cases h

namespace Finding

/-- What is found at a place in two lists one after the other. -/
theorem violationsAt_append (names : List String) (front back : List Finding) :
    violationsAt names (front ++ back) = violationsAt names front ++ violationsAt names back := by
  rw [violationsAt, List.filter_append, List.map_append]
  rfl

/-- What is found at a place among findings that are made one for each of a list. -/
theorem violationsAt_map {α : Type} (names : List String) (location : α → Location)
    (violation : α → Violation) (l : List α) :
    violationsAt names (l.map fun a => ⟨location a, violation a⟩) =
      (l.filter fun a => (location a).map Step.text = names).map violation := by
  rw [violationsAt, List.filter_map, List.map_map]
  rfl

/-- What is found in a part is found behind its name. -/
theorem violationsAt_under (step : Step) (names : List String) (found : List Finding) :
    violationsAt (step.text :: names) (found.map (under step)) = violationsAt names found := by
  have here (f : Finding) : (f.under step).names = step.text :: names ↔ f.names = names :=
    List.cons_inj_right (step.text)
  simp only [violationsAt, List.filter_map, List.map_map, Function.comp_def, here]
  rfl

/-- Findings in a part are at no place that does not begin with its name. -/
theorem violationsAt_under_eq_nil {step : Step} {names : List String} (found : List Finding)
    (h : ∀ rest, names ≠ step.text :: rest) : violationsAt names (found.map (under step)) = [] := by
  rw [violationsAt, List.map_eq_nil_iff, List.filter_eq_nil_iff, List.forall_mem_map]
  exact fun f _ same => h f.names (of_decide_eq_true same).symm

/-- The same remarks are made on two values and on what is inside them, at each place in the same
order. -/
def Alike (v w : Json) (found other : List Finding) : Prop :=
  ∀ names, ∃ remarks : List Remark,
    violationsAt names found = remarks.map (Remark.about (v.atNames names)) ∧
    violationsAt names other = remarks.map (Remark.about (w.atNames names))

variable {v w : Json} {found other : List Finding}

/-- **Callers are told the same** by lists of findings that are alike. -/
theorem Alike.told (h : Alike v w found other) : (listed found).map told = (listed other).map told := by
  refine told_listed_congr fun names => ?_
  obtain ⟨remarks, here, there⟩ := h names
  rw [here, there, Remark.distinct_about, Remark.distinct_about, List.map_map, List.map_map]
  exact List.map_congr_left fun r _ => Remark.toldAt_about names _ _ r

namespace Alike

/-- Findings one after the other are alike if they are in both parts. -/
theorem append {more further : List Finding} (h : Alike v w found other) (hm : Alike v w more further) :
    Alike v w (found ++ more) (other ++ further) := by
  intro names
  obtain ⟨remarks, here, there⟩ := h names
  obtain ⟨later, here', there'⟩ := hm names
  refine ⟨remarks ++ later, ?_, ?_⟩
  · rw [violationsAt_append, here, here', List.map_append]
  · rw [violationsAt_append, there, there', List.map_append]

/-- Remarks on the two values themselves. -/
theorem own (remarks : List Remark) :
    Alike v w (remarks.map fun r => ⟨[], r.about v⟩) (remarks.map fun r => ⟨[], r.about w⟩) := by
  intro names
  rw [violationsAt_map, violationsAt_map]
  cases names with
  | nil => exact ⟨remarks.filter fun _ => [] = ([] : List String), rfl, rfl⟩
  | cons name rest => exact ⟨[], by simp, by simp⟩

/-- The same remark on several keys of the two values, whatever the order of the keys. -/
theorem keyed {keys others : List String} (h : keys.Perm others) (remark : String → Remark)
    (violation : String → Violation) (free : ∀ name x, (remark name).about x = violation name) :
    Alike v w (keys.map fun name => ⟨[.key name], violation name⟩)
      (others.map fun name => ⟨[.key name], violation name⟩) := by
  intro names
  -- At one place there is one key, as often as it occurs.
  have same : keys.filter (fun name => [Step.key name].map Step.text = names) =
      others.filter (fun name => [Step.key name].map Step.text = names) := by
    have unordered (l : List String) : l.Pairwise fun _ _ => True := List.pairwise_of_forall fun _ _ => trivial
    refine List.Perm.eq_of_pairwise (fun a b ha hb _ _ => ?_) (unordered _) (unordered _) (h.filter _)
    have ha := of_decide_eq_true (List.mem_filter.mp ha).2
    have hb := of_decide_eq_true (List.mem_filter.mp hb).2
    exact (List.cons.inj (ha.trans hb.symm)).1
  rw [violationsAt_map, violationsAt_map, ← same]
  refine ⟨(keys.filter fun name => [Step.key name].map Step.text = names).map remark, ?_, ?_⟩
  · simp only [List.map_map, Function.comp_def, free]
  · simp only [List.map_map, Function.comp_def, free]

/-- What is alike inside two values is alike from one step further out. -/
theorem under {step : Step} {a b : Json} (ha : v.part? step = some a) (hb : w.part? step = some b)
    (h : Alike a b found other) : Alike v w (found.map (under step)) (other.map (Finding.under step)) := by
  intro names
  by_cases inside : ∃ rest, names = step.text :: rest
  · obtain ⟨rest, rfl⟩ := inside
    rw [violationsAt_under, violationsAt_under, Json.atNames_part ha, Json.atNames_part hb]
    exact h rest
  · have outside := not_exists.mp inside
    exact ⟨[], violationsAt_under_eq_nil found outside, violationsAt_under_eq_nil other outside⟩

end Alike

end Finding

/-! ## Checks that are alike -/

/-- Two checks end in the same fault, or they find what is alike. -/
inductive Checked.Alike (v w : Json) : Checked → Checked → Prop
  | ok {found other : List Finding} (h : Finding.Alike v w found other) : Alike v w (.ok found) (.ok other)
  | error (e : Fault) : Alike v w (.error e) (.error e)

namespace Checked.Alike

variable {v w : Json}

/-- Two checks that find nothing. -/
theorem none : Alike v w (.ok []) (.ok []) :=
  .ok (.own [])

/-- The same remark on both values. -/
theorem one (r : Remark) : Alike v w (one (r.about v)) (one (r.about w)) :=
  .ok (.own [r])

/-- The same remark on both values under the same condition. -/
theorem oneIf (condition : Bool) (r : Remark) :
    Alike v w (oneIf condition (r.about v)) (oneIf condition (r.about w)) := by
  cases condition with
  | false => exact none
  | true => exact one r

/-- Checks in a row are alike if they are one by one; the first fault ends both. -/
theorem all {checks others : List Checked} (h : List.Forall₂ (Alike v w) checks others) :
    Alike v w (all checks) (all others) := by
  induction h with
  | nil => exact none
  | @cons check other checks others first rest ih =>
    cases first with
    | error e => exact error e
    | ok found =>
      simp only [Checked.all]
      generalize Checked.all checks = more, Checked.all others = further at ih ⊢
      cases ih with
      | error e => exact error e
      | ok later => exact ok (found.append later)

/-- Checks that are made of the same list. -/
theorem all_map {α : Type} {xs : List α} {f g : α → Checked} (h : ∀ x ∈ xs, Alike v w (f x) (g x)) :
    Alike v w (Checked.all (xs.map f)) (Checked.all (xs.map g)) :=
  all (List.forall₂_map_left_iff.mpr (List.forall₂_map_right_iff.mpr (List.forall₂_same.mpr h)))

/-- What is alike of two parts is alike of the values, if the same step leads to both. -/
theorem under {step : Step} {a b : Json} {check other : Checked} (ha : v.part? step = some a)
    (hb : w.part? step = some b) (h : Alike a b check other) :
    Alike v w (check.under step) (other.under step) := by
  cases h with
  | ok found => exact ok (found.under ha hb)
  | error e => exact error e

end Checked.Alike

namespace Json.Reordered

variable {v w : Json} (h : v.Reordered w)

include h

/-! What keywords ask of a value does not depend on the order of keys. -/

/-- The order of keys does not matter for the type of a value. -/
theorem isOfType_eq (type : String) : v.isOfType type = w.isOfType type := by
  cases h <;> rfl

/-- Nor for whether it is smaller than a number. -/
theorem lessThan_eq (n : Int) : v.lessThan n = w.lessThan n := by
  cases h <;> rfl

/-- Nor for whether it is larger. -/
theorem greaterThan_eq (n : Int) : v.greaterThan n = w.greaterThan n := by
  cases h <;> rfl

/-- Nor for whether it is a text, and which. -/
theorem str?_eq : v.str? = w.str? := by
  cases h <;> rfl

end Json.Reordered

namespace Checker

variable {c : Checker} {v w : Json} {inside inside' : Inside (Json → Checked)}

/-- What is inside two values is checked alike against every schema. -/
abbrev Inner (v w : Json) (inside inside' : Inside (Json → Checked)) : Prop :=
  inside.Related (fun step child child' => ∀ schema,
    Checked.Alike v w ((child schema).under step) ((child' schema).under step)) inside'

/-- The declared properties are found in both by their names, whatever the order. -/
theorem declared_alike (h : Inner v w inside inside') (properties : List (String × Json)) :
    Checked.Alike v w (declared inside properties) (declared inside' properties) := by
  cases h with
  | @fields xs ys keys each =>
    refine .all_map fun (name, sub) _ => ?_
    dsimp only
    have found := Json.rel_lookup keys (each name)
    generalize Json.lookup name xs = x, Json.lookup name ys = y at found ⊢
    cases found with
    | some h => exact h sub
    | none => exact .none
  | _ => exact .none

/-- The same names are absent in both. -/
theorem required_alike (h : Inner v w inside inside') (names : List String) :
    Checked.Alike v w (required inside names) (required inside' names) := by
  cases h with
  | fields keys each =>
    simp only [required, Finding.absent, Json.isNone_lookup_congr keys, ← List.map_flatMap]
    exact .ok (.keyed (.refl _) Remark.missing Violation.missing fun _ _ => rfl)
  | _ => exact .none

/-- The names that are not declared are the same in both, but for their order. -/
theorem undeclared_alike (h : Inner v w inside inside') (properties : List (String × Json)) :
    Checked.Alike v w (undeclared inside properties) (undeclared inside' properties) := by
  cases h with
  | @fields xs ys keys each =>
    -- What is found is known from the names alone.
    have named {α : Type} (entries : List (String × α)) :
        (entries.filter fun e => (Json.lookup e.1 properties).isNone).map
            (fun e => (⟨[.key e.1], .unexpected e.1⟩ : Finding)) =
          ((entries.map (·.1)).filter fun name => (Json.lookup name properties).isNone).map
            fun name => ⟨[.key name], .unexpected name⟩ := by
      rw [List.filter_map, List.map_map]
      rfl
    rw [undeclared, undeclared, named, named]
    exact .ok (.keyed (keys.filter _) Remark.unexpected Violation.unexpected fun _ _ => rfl)
  | _ => exact .none

/-- Items are checked in the same order on both sides. -/
theorem itemsFrom_alike (sub : Json) {xs ys : List (Json → Checked)} (length : xs.length = ys.length)
    (index : Nat) (each : ∀ (i : Nat) x y, xs[i]? = some x → ys[i]? = some y →
      Checked.Alike v w ((x sub).under (.index (index + i))) ((y sub).under (.index (index + i)))) :
    List.Forall₂ (Checked.Alike v w) (itemsFrom sub index xs) (itemsFrom sub index ys) := by
  induction xs generalizing ys index with
  | nil =>
    obtain rfl := List.length_eq_zero_iff.mp length.symm
    exact .nil
  | cons x xs ih =>
    cases ys with
    | nil => cases length
    | cons y ys =>
      refine .cons (each 0 x y rfl rfl) (ih (Nat.succ.inj length) (index + 1) fun i x y hx hy => ?_)
      have later := each (i + 1) x y hx hy
      rwa [Nat.add_comm i, ← Nat.add_assoc] at later

/-- Values that are no members are refused alike. -/
theorem refused_alike (members : List Json) :
    Checked.Alike v w
      (match memberTexts members with
        | .ok names => .one (.unknownMember (c.enumNameOf names) v names)
        | .error (.fault e) => .error e
        | .error (.failure _) => .ok [])
      (match memberTexts members with
        | .ok names => .one (.unknownMember (c.enumNameOf names) w names)
        | .error (.fault e) => .error e
        | .error (.failure _) => .ok []) := by
  split
  · exact .one (.unknownMember _ _)
  · exact .error _
  · exact .none

/-- Whether a value is a member does not depend on the order of keys. -/
theorem member_alike (h : v.Reordered w) (members : List Json) :
    Checked.Alike v w (c.member v members) (c.member w members) := by
  cases h with
  | str s =>
    simp only [member]
    split
    · exact .none
    · exact refused_alike members
  | _ => exact refused_alike members

/-- **Keywords are checked alike.** -/
theorem keyword_alike (h : v.Reordered w) (inner : Inner v w inside inside')
    {follow follow' : Json → Checked} (followed : ∀ target, Checked.Alike v w (follow target) (follow' target))
    (schema : List (String × Json)) (name : String) (argument : Json) :
    Checked.Alike v w (c.keyword v inside follow schema name argument)
      (c.keyword w inside' follow' schema name argument) := by
  unfold keyword
  split
  · split
    · exact followed _
    · exact .error _
  · rw [funext h.isOfType_eq]
    exact .oneIf _ (.wrongType _)
  · exact declared_alike inner _
  · exact required_alike inner _
  · exact undeclared_alike inner _
  · cases inner with
    | items length each =>
      refine .all (itemsFrom_alike _ length 0 fun i x y hx hy => ?_)
      rw [Nat.zero_add]
      exact each i x y hx hy _
    | _ => exact .none
  · cases h with
    | arr length each =>
      simp only [length]
      exact .oneIf _ (.tooShort _)
    | _ => exact .none
  · cases h with
    | arr length each =>
      simp only [length]
      exact .oneIf _ (.tooLong _)
    | _ => exact .none
  · rw [h.lessThan_eq]
    exact .oneIf _ (.tooSmall _)
  · rw [h.greaterThan_eq]
    exact .oneIf _ (.tooLarge _)
  · exact member_alike h _
  · exact .none

/-- A schema is checked alike, if what its references lead to is. -/
theorem visit_alike_of_followed (h : v.Reordered w) (inner : Inner v w inside inside') {references : Nat}
    (followed : ∀ target,
      Checked.Alike v w (c.followed v inside references target) (c.followed w inside' references target))
    (schema : Json) :
    Checked.Alike v w (c.visit v inside references schema) (c.visit w inside' references schema) := by
  cases schema with
  | obj keywords =>
    rw [visit_obj, visit_obj]
    exact .all_map fun k _ => keyword_alike h inner followed keywords k.1 k.2
  | bool allowed =>
    unfold visit
    cases allowed with
    | true => exact .none
    | false => exact .one .disallowed
  | _ =>
    unfold visit
    exact .error _

/-- A schema finds what is alike, if its keywords do so in the values and in their parts. -/
theorem visit_alike (h : v.Reordered w) (inner : Inner v w inside inside') (references : Nat)
    (schema : Json) :
    Checked.Alike v w (c.visit v inside references schema) (c.visit w inside' references schema) := by
  induction references generalizing schema with
  | zero => exact visit_alike_of_followed h inner (fun _ => .error _) schema
  | succ references ih =>
    have followed (target : Json) : Checked.Alike v w (c.followed v inside (references + 1) target)
        (c.followed w inside' (references + 1) target) := ih target
    exact visit_alike_of_followed h inner followed schema

end Checker

/-- **A check does not see the order of keys.** -/
theorem Json.Reordered.check_alike {v w : Json} (h : v.Reordered w) (c : Checker) (references : Nat)
    (schema : Json) : Checked.Alike v w (v.check c references schema) (w.check c references schema) := by
  refine h.inductionOnParts (P := fun v w => ∀ schema,
    Checked.Alike v w (v.check c references schema) (w.check c references schema)) ?_ schema
  intro v w h parts schema
  rw [Json.check_eq_visit, Json.check_eq_visit]
  refine Checker.visit_alike h (h.inside fun step a b ha hb schema => ?_) references schema
  exact .under ha hb (parts step a b ha hb schema)

/-- **Callers are told the same about values that differ only in the order of keys**: the same faults, or
the same codes, pointers and sorts in the same order. -/
theorem Json.Reordered.told_findings {v w : Json} (h : v.Reordered w) (c : Checker) :
    (c.findings v).map (·.map Finding.told) = (c.findings w).map (·.map Finding.told) := by
  have alike := h.check_alike c c.document.size c.document
  rw [Checker.findings, Checker.findings, Checker.raw, Checker.raw]
  generalize v.check c c.document.size c.document = found, w.check c c.document.size c.document = other
    at alike
  cases alike with
  | error e => rfl
  | ok found => exact congrArg Except.ok found.told

end ReflectedSchema
