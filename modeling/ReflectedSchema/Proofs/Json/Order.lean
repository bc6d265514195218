import ReflectedSchema.Json.Pointer
import ReflectedSchema.Proofs.Json.Parts

/-!
# Values up to the order of keys

Two values are reorderings of each other when they differ only in the order of keys inside objects, at
any depth.  Such values nest equally deep, and they have the same inside: the same items at each index
and the same values under each key, up to reordering.  `Json.Reordered.inductionOnParts` is the induction
over two values at a time that checking and decoding follow.
-/

namespace ReflectedSchema

/-- Two values that differ only in the order of keys inside objects.  An object has each key once. -/
inductive Json.Reordered : Json → Json → Prop
  | null : Reordered .null .null
  | bool (b : Bool) : Reordered (.bool b) (.bool b)
  | int (n : Int) : Reordered (.int n) (.int n)
  | float (x : Binary64) : Reordered (.float x) (.float x)
  | str (s : String) : Reordered (.str s) (.str s)
  | arr {items others : List Json} (length : items.length = others.length)
      (each : ∀ (i : Nat) v w, items[i]? = some v → others[i]? = some w → Reordered v w) :
      Reordered (.arr items) (.arr others)
  | obj {fields others : List (String × Json)} (distinct : (fields.map (·.1)).Nodup)
      (keys : (fields.map (·.1)).Perm (others.map (·.1)))
      (each : ∀ key v w, lookup key fields = some v → lookup key others = some w → Reordered v w) :
      Reordered (.obj fields) (.obj others)

/-! ## What two values have inside -/

/-- What is inside two values is related, step by step into them. -/
inductive Inside.Related {α β : Type} (R : Step → α → β → Prop) : Inside α → Inside β → Prop
  | nothing : Related R .nothing .nothing
  | items {xs : List α} {ys : List β} (length : xs.length = ys.length)
      (each : ∀ (i : Nat) x y, xs[i]? = some x → ys[i]? = some y → R (.index i) x y) :
      Related R (.items xs) (.items ys)
  | fields {xs : List (String × α)} {ys : List (String × β)}
      (keys : (xs.map (·.1)).Perm (ys.map (·.1)))
      (each : ∀ key x y, Json.lookup key xs = some x → Json.lookup key ys = some y → R (.key key) x y) :
      Related R (.fields xs) (.fields ys)

namespace Json

/-- The value that one step leads to. -/
def part? : Step → Json → Option Json
  | .index i, .arr items => items[i]?
  | .key name, .obj fields => lookup name fields
  | _, _ => none

variable {v w : Json}

/-- In lists with the same keys, the same keys are found. -/
theorem isNone_lookup_congr {α β : Type} {key : String} {entries : List (String × α)}
    {others : List (String × β)} (keys : (entries.map (·.1)).Perm (others.map (·.1))) :
    (lookup key entries).isNone = (lookup key others).isNone := by
  rw [Bool.eq_iff_iff, Option.isNone_iff_eq_none, Option.isNone_iff_eq_none, lookup_eq_none_iff,
    lookup_eq_none_iff, keys.mem_iff]

/-- So a relation between what is found is one between the results. -/
theorem rel_lookup {α β : Type} {R : α → β → Prop} {key : String} {entries : List (String × α)}
    {others : List (String × β)} (keys : (entries.map (·.1)).Perm (others.map (·.1)))
    (each : ∀ a b, lookup key entries = some a → lookup key others = some b → R a b) :
    Option.Rel R (lookup key entries) (lookup key others) := by
  have found : (lookup key entries).isNone = (lookup key others).isNone := isNone_lookup_congr keys
  cases ha : lookup key entries <;> cases hb : lookup key others <;>
    simp only [ha, hb, Option.isNone_none, Option.isNone_some, reduceCtorEq] at found
  · exact .none
  · exact .some (each _ _ ha hb)

/-- In lists with the same keys, a key of some sort is found alike. -/
theorem isSome_find?_congr {α β : Type} {entries : List (String × α)} {others : List (String × β)}
    (keys : (entries.map (·.1)).Perm (others.map (·.1))) (p : String → Bool) :
    (entries.find? fun e => p e.1).isSome = (others.find? fun e => p e.1).isSome := by
  have named {γ : Type} (l : List (String × γ)) :
      (l.find? fun e => p e.1).isSome ↔ ∃ name ∈ l.map (·.1), p name = true := by
    simp only [List.find?_isSome, List.mem_map, exists_exists_and_eq_and]
  rw [Bool.eq_iff_iff, named, named]
  exact exists_congr fun name => and_congr_left fun _ => keys.mem_iff

/-- Lists of the same length are related item by item if they are at each index. -/
theorem forall₂_of_getElem? {α β : Type} {R : α → β → Prop} {xs : List α} {ys : List β}
    (length : xs.length = ys.length)
    (each : ∀ (i : Nat) x y, xs[i]? = some x → ys[i]? = some y → R x y) : List.Forall₂ R xs ys :=
  List.forall₂_iff_get.mpr ⟨length, fun i hx hy =>
    each i _ _ (List.getElem?_eq_getElem hx) (List.getElem?_eq_getElem hy)⟩

namespace Reordered

/-- Functions that are related on the parts of two values are related on what the values have inside. -/
theorem inside {α β : Type} {R : Step → α → β → Prop} {f : Json → α} {g : Json → β}
    (h : v.Reordered w)
    (parts : ∀ step a b, v.part? step = some a → w.part? step = some b → R step (f a) (g b)) :
    (v.inside f).Related R (w.inside g) := by
  cases h with
  | arr length each =>
    refine .items (by simpa using length) fun i x y hx hy => ?_
    rw [List.getElem?_map, Option.map_eq_some_iff] at hx hy
    obtain ⟨a, ha, rfl⟩ := hx
    obtain ⟨b, hb, rfl⟩ := hy
    exact parts (.index i) a b ha hb
  | obj distinct keys each =>
    refine .fields (by simpa [Function.comp_def] using keys) fun key x y hx hy => ?_
    rw [lookup_map, Option.map_eq_some_iff] at hx hy
    obtain ⟨a, ha, rfl⟩ := hx
    obtain ⟨b, hb, rfl⟩ := hy
    exact parts (.key key) a b ha hb
  | _ => exact .nothing

/-- Induction over two values at a time, by way of the parts that the same steps lead to. -/
theorem inductionOnParts {P : Json → Json → Prop} (h : v.Reordered w)
    (step : ∀ v w, v.Reordered w →
      (∀ s a b, v.part? s = some a → w.part? s = some b → P a b) → P v w) : P v w := by
  induction h with
  | arr length each ih =>
    refine step _ _ (.arr length each) fun s a b ha hb => ?_
    cases s with
    | index i => exact ih i a b ha hb
    | key name => cases ha
  | obj distinct keys each ih =>
    refine step _ _ (.obj distinct keys each) fun s a b ha hb => ?_
    cases s with
    | index i => cases ha
    | key name => exact ih name a b ha hb
  | null | bool | int | float | str =>
    refine step _ _ (by constructor) fun s a b ha hb => ?_
    cases s <;> cases ha

/-- An object that has each key once, with its fields in another order. -/
theorem perm {fields others : List (String × Json)} (h : (Json.obj fields).Reordered (.obj fields))
    (order : fields.Perm others) : (Json.obj fields).Reordered (.obj others) := by
  cases h with
  | obj distinct keys each =>
    refine .obj distinct (order.map _) fun key v w hv hw => ?_
    have distinct' : (others.map (·.1)).Nodup := (order.map _).nodup distinct
    have there := (lookup_eq_some_iff distinct').mpr (order.mem_iff.mp (mem_of_lookup hv))
    obtain rfl := Option.some.inj (hw.symm.trans there)
    exact each key w w hv hv

/-- The items of arrays are reorderings of each other. -/
theorem items {items others : List Json} (h : (Json.arr items).Reordered (.arr others)) :
    List.Forall₂ Reordered items others := by
  cases h with
  | arr length each => exact forall₂_of_getElem? length each

/-- The same fields are found, with values that are reorderings of each other. -/
theorem field? (h : v.Reordered w) (key : String) : Option.Rel Reordered (v.field? key) (w.field? key) := by
  cases h with
  | obj distinct keys each => exact rel_lookup keys (each key)
  | _ => exact .none

end Reordered

/-! ## Depth -/

/-- Items are as deep as the deepest of them. -/
theorem depthOfItems_eq (items : List Json) : depthOfItems items = (items.map depth).foldr max 0 := by
  induction items with
  | nil => rfl
  | cons item rest ih => rw [depthOfItems, ih, List.map_cons, List.foldr_cons]

/-- With distinct keys, the depth of the fields is bounded by what bounds each value that is found. -/
theorem depthOfFields_le_iff {n : Nat} {fields : List (String × Json)}
    (distinct : (fields.map (·.1)).Nodup) : depthOfFields fields ≤ n ↔
      ∀ key value, lookup key fields = some value → value.depth ≤ n := by
  have bound : depthOfFields fields ≤ n ↔ ∀ f ∈ fields, f.2.depth ≤ n := by
    clear distinct
    induction fields with
    | nil => simp [depthOfFields]
    | cons f rest ih => rw [depthOfFields, max_le_iff, ih, List.forall_mem_cons]
  simp only [bound, lookup_eq_some_iff distinct, Prod.forall]

/-- Reordering keys changes no depth. -/
theorem Reordered.depth_eq (h : v.Reordered w) : v.depth = w.depth := by
  induction h with
  | @arr items others length each ih =>
    have same : items.map depth = others.map depth := by
      refine List.ext_getElem (by simpa using length) fun i hi ho => ?_
      rw [List.getElem_map, List.getElem_map]
      exact ih i _ _ (List.getElem?_eq_getElem _) (List.getElem?_eq_getElem _)
    rw [depth, depth, depthOfItems_eq, depthOfItems_eq, same]
  | @obj fields others distinct keys each ih =>
    have found (key : String) : (lookup key fields).isSome ↔ (lookup key others).isSome := by
      rw [isSome_lookup_iff, isSome_lookup_iff, keys.mem_iff]
    refine congrArg (· + 1) (eq_of_forall_ge_iff fun n => ?_)
    rw [depthOfFields_le_iff distinct, depthOfFields_le_iff (keys.nodup distinct)]
    refine forall_congr' fun key => ⟨fun le b hb => ?_, fun le a ha => ?_⟩
    · obtain ⟨a, ha⟩ := Option.isSome_iff_exists.mp ((found key).mpr (Option.isSome_of_mem hb))
      exact ih key a b ha hb ▸ le a ha
    · obtain ⟨b, hb⟩ := Option.isSome_iff_exists.mp ((found key).mp (Option.isSome_of_mem ha))
      exact ih key a b ha hb ▸ le b hb
  | _ => rfl

end Json

end ReflectedSchema
