import ReflectedSchema.Proofs.Json.Parts

/-!
# What decoding ensures

A call to a host ensures a property of its result and a property of what it raises, from every state
of the host.  There is one rule for each way in which decoding goes over the parts of a value, so that
a statement about decoding is proved for the kinds, one by one.
-/

namespace ReflectedSchema

variable {σ : Type}

namespace HostM

variable {α β : Type}

/-- A call during which a property is handled runs as without, and what it raises is annotated. -/
theorem run_within (owner property : String) (call : HostM σ α) (s : σ) :
    (ExceptT.run (within owner property call)).run s =
      match (ExceptT.run call).run s with
      | (.ok a, after) => (.ok a, after)
      | (.error e, after) => (.error (e.annotate owner property), after) := by
  simp only [within, tryCatch, tryCatchThe, MonadExceptOf.tryCatch, ExceptT.tryCatch, ExceptT.run_mk,
    StateT.run_bind]
  rw [ExceptT.run]
  rcases StateT.run call s with ⟨e | a, after⟩ <;> rfl

/-- A call ends in a result with one property or raises something with another, in every state. -/
def Ensures (P : α → Prop) (Q : Raised → Prop) (call : HostM σ α) : Prop :=
  ∀ s, match ((ExceptT.run call).run s).1 with
    | .ok a => P a
    | .error e => Q e

namespace Ensures

variable {P P' : α → Prop} {R : β → Prop} {Q Q' : Raised → Prop} {call : HostM σ α}

/-- A result that has the property. -/
theorem of_pure {a : α} (h : P a) : Ensures (σ := σ) P Q (pure a) := fun _ => h

/-- An error that has the property. -/
theorem of_throw {e : Raised} (h : Q e) : Ensures (σ := σ) P Q (throw e) := fun _ => h

/-- A result that needs no state is as it is, if there is one. -/
theorem of_except {e : Except Raised α} (h : ∀ a, e = .ok a → P a) :
    Ensures (σ := σ) P (fun _ => True) (ofExcept e) := by
  cases e with
  | ok a => exact of_pure (h a rfl)
  | error e => exact of_throw True.intro

/-- Every call ensures nothing. -/
theorem trivial (call : HostM σ α) : Ensures (fun _ => True) (fun _ => True) call := by
  intro s
  split <;> trivial

/-- A sequence ensures what its second call does, given what the first one ensures. -/
theorem bind {next : α → HostM σ β} (h : Ensures P Q call)
    (hn : ∀ a, P a → Ensures R Q (next a)) : Ensures R Q (call >>= next) := by
  intro s
  rw [ExceptT.run_bind, StateT.run_bind]
  have hs := h s
  rcases hr : (ExceptT.run call).run s with ⟨e | a, after⟩
  · rw [hr] at hs
    exact hs
  · rw [hr] at hs
    exact hn a hs after

/-- What is ensured may be weakened. -/
theorem mono (h : Ensures P Q call) (hp : ∀ a, P a → P' a) (hq : ∀ e, Q e → Q' e) :
    Ensures P' Q' call := by
  intro s
  have hs := h s
  cases hr : ((ExceptT.run call).run s).1 with
  | ok a =>
    rw [hr] at hs
    exact hp a hs
  | error e =>
    rw [hr] at hs
    exact hq e hs

/-- Noting a property ensures of what is raised what holds of it as it is annotated. -/
theorem within {owner property : String} (h : Ensures P Q call)
    (hq : ∀ e, Q e → Q' (e.annotate owner property)) : Ensures P Q' (within owner property call) := by
  intro s
  have hs := h s
  rw [run_within]
  rcases hr : (ExceptT.run call).run s with ⟨e | a, after⟩ <;> rw [hr] at hs
  · exact hq e hs
  · exact hs

/-- What a call ensures of a result that it ends in. -/
theorem result {s after : σ} {a : α} (h : Ensures P Q call)
    (hr : (ExceptT.run call).run s = (.ok a, after)) : P a := by
  have hs := h s
  rwa [hr] at hs

/-- What a call ensures of something that it raises. -/
theorem raised {s after : σ} {e : Raised} (h : Ensures P Q call)
    (hr : (ExceptT.run call).run s = (.error e, after)) : Q e := by
  have hs := h s
  rwa [hr] at hs

end Ensures

end HostM

namespace Decoding

open HostM

variable {P : HostValue → Prop} {Q : Raised → Prop}

/-! ## Arrays -/

/-- Decoded items belong to the items, one by one, each at its index. -/
theorem itemsFrom_ensures_at {α : Type} {R : α → HostValue → Prop} {decoder : α → Decoder σ}
    {kind : Kind} {location : Location} {xs : List α} {index : Nat}
    (h : ∀ i x, xs[i]? = some x →
      Ensures (R x) Q (decoder x kind (location ++ [.index (index + i)]))) :
    Ensures (List.Forall₂ R xs) Q (itemsFrom kind location index (xs.map decoder)) := by
  induction xs generalizing index with
  | nil => exact .of_pure .nil
  | cons x rest ih =>
    have later : ∀ i y, rest[i]? = some y →
        Ensures (R y) Q (decoder y kind (location ++ [.index (index + 1 + i)])) := by
      intro i y hy
      rw [Nat.add_right_comm, Nat.add_assoc]
      exact h (i + 1) y hy
    exact (h 0 x rfl).bind fun first hf => (ih later).bind fun more hm => .of_pure (.cons hf hm)

/-- Decoded items belong to the items, one by one, wherever they are. -/
theorem itemsFrom_ensures {α : Type} {R : α → HostValue → Prop} {decoder : α → Decoder σ} {kind : Kind}
    {location : Location} {xs : List α}
    (h : ∀ x ∈ xs, ∀ location, Ensures (R x) Q (decoder x kind location)) (index : Nat) :
    Ensures (List.Forall₂ R xs) Q (itemsFrom kind location index (xs.map decoder)) :=
  itemsFrom_ensures_at fun _ x hx => h x (List.mem_of_getElem? hx) _

/-- A length that is fixed is that of the array. -/
theorem checkLength_ensures {length : Option Int} {count : Nat} {location : Location}
    (h : ∀ n, length = some n → (count : Int) ≠ n → Q (.violation location (.itemCount n count))) :
    Ensures (σ := σ) (fun _ => ∀ n, length = some n → (count : Int) = n) Q
      (checkLength length count location) := by
  cases length with
  | none => exact .of_pure fun n hn => by cases hn
  | some n =>
    rw [checkLength]
    split
    · rename_i hc
      exact .of_pure fun m hm => by cases hm; exact hc
    · rename_i hc
      exact .of_throw (h n rfl hc)

/-- The items of a packed array of integers are inside its range. -/
theorem rangeFrom_ensures {tag : PackedTag} {least most : Int} {location : Location}
    {items : List HostValue}
    (h : ∀ item ∈ items, ∀ n, item.int? = some n → (n < least ∨ most < n) →
      ∀ i, Q (.violation (location ++ [.index i]) (.itemRange n tag least most))) (index : Nat) :
    Ensures (σ := σ) (fun _ => ∀ item ∈ items, ∀ n, item.int? = some n → least ≤ n ∧ n ≤ most) Q
      (rangeFrom tag least most location index items) := by
  induction items generalizing index with
  | nil => exact .of_pure fun item hi => absurd hi List.not_mem_nil
  | cons item rest ih =>
    obtain ⟨hitem, hrest⟩ := List.forall_mem_cons.mp h
    have later := ih hrest (index + 1)
    cases hn : item.int? with
    | none =>
      simp only [rangeFrom, hn]
      refine later.mono (fun _ hr => List.forall_mem_cons.mpr ⟨fun n hm => ?_, hr⟩) fun _ => id
      rw [hn] at hm
      cases hm
    | some n =>
      simp only [rangeFrom, hn]
      split
      · rename_i outside
        -- Nothing comes after an item that is outside, so nothing has to be said of it.
        exact .bind (P := fun _ => False) (.of_throw (hitem n hn outside _)) fun _ h => h.elim
      · rename_i inside
        refine later.mono (fun _ hr => List.forall_mem_cons.mpr ⟨fun m hm => ?_, hr⟩) fun _ => id
        cases hn.symm.trans hm
        omega

/-! ## Enumerations -/

/-- A member name stands for the value of its member. -/
theorem memberValue_ensures {e : EnumDescriptor} {value : Json} {location : Location}
    (h : value.str?.bind e.lookup = none →
      Q (.violation location (.unknownMember e.name value e.memberNames))) :
    Ensures (σ := σ) (fun v => value.str?.bind e.lookup = some v) Q (memberValue e value location) := by
  unfold memberValue
  split
  · rename_i v hv
    exact .of_pure hv
  · rename_i hv
    exact .of_throw (h hv)

/-- The union of the values of members. -/
theorem unionFrom_ensures {e : EnumDescriptor} {location : Location} {names : List Json}
    (h : ∀ name ∈ names, name.str?.bind e.lookup = none → ∀ i,
      Q (.violation (location ++ [.index i]) (.unknownMember e.name name e.memberNames)))
    (index : Nat) (start : EnumValue) :
    Ensures (σ := σ) (fun v => ∃ values, List.Forall₂ (fun name v => name.str?.bind e.lookup = some v)
      names values ∧ v = values.foldl EnumValue.union start) Q
      (unionFrom e location index start names) := by
  induction names generalizing index start with
  | nil => exact .of_pure ⟨[], .nil, rfl⟩
  | cons name rest ih =>
    obtain ⟨hname, hrest⟩ := List.forall_mem_cons.mp h
    refine (memberValue_ensures fun hv => hname hv _).bind fun value hvalue => ?_
    refine (ih hrest (index + 1) (start.union value)).mono (fun v ⟨values, hv, hu⟩ => ?_) fun _ => id
    exact ⟨value :: values, .cons hvalue hv, hu⟩

/-- The empty set of flags has a value if the enumeration has members. -/
theorem noFlags_ensures {e : EnumDescriptor} (h : e.members ≠ []) :
    Ensures (σ := σ) (fun v => v.toInt = 0) Q (noFlags e) := by
  unfold noFlags
  split
  · exact .of_pure (EnumValue.toInt_empty _)
  · exact absurd ‹_› h

/-! ## Fields -/

/-- Decode the field of an object as a component or a property of a kind. -/
def field (children : List (String × Decoder σ)) (name : String) (kind : Kind) (location : Location) :
    HostM σ HostValue :=
  match Json.lookup name children with
  | none => violated (location ++ [.key name]) (.missing name)
  | some child => child kind (location ++ [.key name])

/-- Components are decoded one by one. -/
theorem components_cons (children : List (String × Decoder σ)) (location : Location)
    (component : String × Kind) (rest : List (String × Kind)) :
    components children location (component :: rest) = (do
      let value ← field children component.1 component.2 location
      return (component.1, value) :: (← components children location rest)) := by
  obtain ⟨name, kind⟩ := component
  rw [components, field]
  cases Json.lookup name children with
  | none => rfl
  | some child => rfl

/-- Components are decoded to values with their names, each as its field ensures. -/
theorem components_ensures {R : String × Kind → HostValue → Prop}
    {children : List (String × Decoder σ)} {location : Location} {layout : List (String × Kind)}
    (h : ∀ component ∈ layout,
      Ensures (R component) Q (field children component.1 component.2 location)) :
    Ensures (List.Forall₂ (fun component out => out.1 = component.1 ∧ R component out.2) layout) Q
      (components children location layout) := by
  induction layout with
  | nil => exact .of_pure .nil
  | cons component rest ih =>
    obtain ⟨hc, hrest⟩ := List.forall_mem_cons.mp h
    rw [components_cons]
    exact hc.bind fun value hv => (ih hrest).bind fun more hm => .of_pure (.cons ⟨rfl, hv⟩ hm)

/-- Properties are decoded one by one, each while it is noted. -/
theorem properties_ensures_within {R : PropertyDescriptor → HostValue → Prop} {className : String}
    {children : List (String × Decoder σ)} {location : Location} {ps : List PropertyDescriptor}
    (h : ∀ p ∈ ps,
      Ensures (R p) Q (HostM.within className p.name (field children p.name p.kind location))) :
    Ensures (List.Forall₂ (fun p out => out.1 = p.name ∧ R p out.2) ps) Q
      (properties className children location ps) := by
  induction ps with
  | nil => exact .of_pure .nil
  | cons p rest ih =>
    obtain ⟨hp, hrest⟩ := List.forall_mem_cons.mp h
    rw [properties]
    exact hp.bind fun value hv => (ih hrest).bind fun more hm => .of_pure (.cons ⟨rfl, hv⟩ hm)

/-- Properties are decoded to values with their names, each as its field ensures, and what is raised has
them noted. -/
theorem properties_ensures {R : PropertyDescriptor → HostValue → Prop} {className : String}
    {children : List (String × Decoder σ)} {location : Location} {ps : List PropertyDescriptor}
    (hq : ∀ owner property e, Q e → Q (e.annotate owner property))
    (h : ∀ p ∈ ps, Ensures (R p) Q (field children p.name p.kind location)) :
    Ensures (List.Forall₂ (fun p out => out.1 = p.name ∧ R p out.2) ps) Q
      (properties className children location ps) :=
  properties_ensures_within fun p hp => (h p hp).within (hq _ _)

/-- What was decoded under names stands under them, in their order. -/
theorem names_of_forall₂ {α : Type} {key : α → String} {R : α → String × HostValue → Prop}
    {declared : List α} {results : List (String × HostValue)} (h : List.Forall₂ R declared results)
    (name : ∀ x out, R x out → out.1 = key x) : results.map (·.1) = declared.map key := by
  induction h with
  | nil => rfl
  | cons hx _ ih => rw [List.map_cons, List.map_cons, name _ _ hx, ih]

end Decoding

end ReflectedSchema
