import ReflectedSchema.Payload
import ReflectedSchema.Proofs.Json.Order

/-!
# Values that are read have each key once

An object is read field by field, and a key that comes again takes its new value in its old place.  So the
values that payloads are read as have each key once, at any depth, which makes them reorderings of
themselves.
-/

namespace ReflectedSchema

namespace Json

variable {α : Type}

/-! ## Merged entries -/

/-- Entries that are merged have no key twice. -/
theorem nodup_keys_merge (entries : List (String × α)) : ((merge entries).map (·.1)).Nodup := by
  suffices h : ∀ merged : List (String × α), (merged.map (·.1)).Nodup →
      ((entries.foldl (fun merged e => set e.1 e.2 merged) merged).map (·.1)).Nodup from h [] .nil
  induction entries with
  | nil => exact fun _ distinct => distinct
  | cons e entries ih => exact fun _ distinct => ih _ (nodup_keys_set e.1 e.2 distinct)

/-- What is set among entries with a property has the property. -/
theorem forall_set {P : α → Prop} {key : String} {value : α} {entries : List (String × α)}
    (hv : P value) (h : ∀ e ∈ entries, P e.2) : ∀ e ∈ set key value entries, P e.2 := by
  induction entries with
  | nil => exact List.forall_mem_singleton.mpr hv
  | cons e entries ih =>
    obtain ⟨k, old⟩ := e
    obtain ⟨first, rest⟩ := List.forall_mem_cons.mp h
    by_cases hk : k = key
    · rw [set, if_pos hk]
      exact List.forall_mem_cons.mpr ⟨hv, rest⟩
    · rw [set, if_neg hk]
      exact List.forall_mem_cons.mpr ⟨first, ih rest⟩

/-- What holds of all values that are merged holds of those that are kept. -/
theorem forall_merge {P : α → Prop} {entries : List (String × α)} (h : ∀ e ∈ entries, P e.2) :
    ∀ e ∈ merge entries, P e.2 := by
  suffices hm : ∀ merged : List (String × α), (∀ e ∈ merged, P e.2) →
      ∀ e ∈ entries.foldl (fun merged e => set e.1 e.2 merged) merged, P e.2 from
    hm [] fun _ he => absurd he List.not_mem_nil
  induction entries with
  | nil => exact fun _ kept => kept
  | cons e entries ih =>
    obtain ⟨first, rest⟩ := List.forall_mem_cons.mp h
    exact fun _ kept => ih rest _ (forall_set first kept)

/-! ## The reader -/

/-- A step of the reader yields only values whose objects have each key once. -/
def Read.Yields (r : Read Json) : Prop :=
  ∀ v rest, r = .ok (v, rest) → v.Reordered v

/-- Arrays and objects of such values are such values. -/
theorem reordered_arr {items : List Json} (h : ∀ item ∈ items, item.Reordered item) :
    (Json.arr items).Reordered (.arr items) := by
  refine .arr rfl fun i v w hv hw => ?_
  obtain rfl := Option.some.inj (hv.symm.trans hw)
  exact h v (List.mem_of_getElem? hv)

/-- An object with distinct keys is the same as itself but for the order. -/
theorem reordered_obj {fields : List (String × Json)} (distinct : (fields.map (·.1)).Nodup)
    (h : ∀ f ∈ fields, f.2.Reordered f.2) : (Json.obj fields).Reordered (.obj fields) := by
  refine .obj distinct (.refl _) fun key v w hv hw => ?_
  obtain rfl := Option.some.inj (hv.symm.trans hw)
  exact h _ (mem_of_lookup hv)

/-- An error yields nothing. -/
theorem yields_error (e : ReadError) : Read.Yields (.error e) := by
  rintro v rest ⟨⟩

/-- A number that is read has no keys. -/
theorem readNumber_yields (negative : Bool) (start cs : List Char) :
    (readNumber negative start cs).Yields := by
  unfold readNumber
  dsimp only
  split
  · exact yields_error _
  · split
    · split
      · exact yields_error _
      · rintro v rest ⟨⟩
        exact .int _
    · rintro v rest ⟨⟩
      exact .float _

/-- Nor has a word. -/
theorem readScalar_yields (cs : List Char) : (readScalar cs).Yields := by
  unfold readScalar
  dsimp only
  split
  · rename_i done found
    obtain ⟨⟨w, value⟩, hw, hd⟩ := List.exists_of_findSome?_eq_some found
    obtain ⟨rest, -, rfl⟩ := Option.map_eq_some_iff.mp hd
    rintro v after ⟨⟩
    simp only [List.mem_cons, Prod.mk.injEq, List.not_mem_nil, or_false] at hw
    rcases hw with ⟨-, rfl⟩ | ⟨-, rfl⟩ | ⟨-, rfl⟩ | ⟨-, rfl⟩ | ⟨-, rfl⟩ | ⟨-, rfl⟩ <;> constructor
  · split
    · exact readNumber_yields true _ _
    · exact readNumber_yields false _ _

/-- Items are read one by one, so an array of them is well-formed if they are. -/
theorem readItems_yields {value : List Char → Read Json} (hv : ∀ cs, (value cs).Yields)
    (bound : List Char) {read : List Json} (hr : ∀ item ∈ read, item.Reordered item) (cs : List Char) :
    (readItems value bound read cs).Yields := by
  induction bound generalizing read cs with
  | nil => exact yields_error _
  | cons c bound ih =>
    rw [readItems]
    cases first : value cs with
    | error e => exact yields_error e
    | ok done =>
      obtain ⟨item, rest⟩ := done
      have kept : ∀ x ∈ item :: read, x.Reordered x :=
        List.forall_mem_cons.mpr ⟨hv cs item rest first, hr⟩
      dsimp only
      split
      · rintro v after ⟨⟩
        exact reordered_arr fun x hx => kept x (List.mem_reverse.mp hx)
      · exact ih kept _
      · exact yields_error _

/-- Fields are read one by one, and a name that is repeated replaces the earlier one. -/
theorem readFields_yields {value : List Char → Read Json} (hv : ∀ cs, (value cs).Yields)
    (bound : List Char) {read : List (String × Json)} (hr : ∀ f ∈ read, f.2.Reordered f.2)
    (cs : List Char) : (readFields value bound read cs).Yields := by
  induction bound generalizing read cs with
  | nil => exact yields_error _
  | cons c bound ih =>
    unfold readFields
    split
    · split
      · exact yields_error _
      · rename_i name afterName _
        split
        · rename_i afterColon _
          cases field : value (skip afterColon) with
          | error e => exact yields_error e
          | ok done =>
            obtain ⟨v, rest⟩ := done
            have kept : ∀ f ∈ (name, v) :: read, f.2.Reordered f.2 :=
              List.forall_mem_cons.mpr ⟨hv _ v rest field, hr⟩
            dsimp only
            split
            · rintro object after ⟨⟩
              refine reordered_obj (nodup_keys_merge _) ?_
              exact forall_merge (P := fun v => v.Reordered v) fun f hf => kept f (List.mem_reverse.mp hf)
            · exact ih kept _
            · exact yields_error _
        · exact yields_error _
    · exact yields_error _

/-- What is read to any depth is well-formed. -/
theorem readValue_yields (levels : Nat) (cs : List Char) : (readValue levels cs).Yields := by
  induction levels using Nat.strongRecOn generalizing cs with
  | ind levels ih =>
    unfold readValue
    split
    · split
      · exact yields_error _
      · rintro v rest ⟨⟩
        exact .str _
    · exact yields_error _
    · exact yields_error _
    · split
      · rintro v rest ⟨⟩
        exact reordered_arr fun item h => absurd h List.not_mem_nil
      · exact readItems_yields (ih _ (Nat.lt_succ_self _)) _ (fun item h => absurd h List.not_mem_nil) _
    · split
      · rintro v rest ⟨⟩
        exact reordered_obj .nil fun f h => absurd h List.not_mem_nil
      · exact readFields_yields (ih _ (Nat.lt_succ_self _)) _ (fun f h => absurd h List.not_mem_nil) _
    · exact readScalar_yields _

/-- A value that was read has no key twice, wherever. -/
theorem reordered_of_read {levels : Nat} {cs : List Char} {v : Json} (h : read levels cs = .ok v) :
    v.Reordered v := by
  unfold read at h
  split at h
  · split at h
    · cases h
    · split at h
      · cases h
      · rename_i value rest done
        dsimp only at h
        split at h
        · cases h
          exact readValue_yields _ _ v rest done
        · cases h
  · cases h

end Json

/-- **Whatever a payload is read as has each key once**, so it is a reordering of itself. -/
theorem Payload.reordered_of_read {payload : Payload} {levels : Nat} {v : Json}
    (h : payload.read levels = .ok v) : v.Reordered v := by
  have chars {cs : List Char} (h : readChars levels cs = .ok v) : v.Reordered v := by
    unfold readChars at h
    dsimp only at h
    split at h
    · rename_i value read
      cases h
      exact Json.reordered_of_read read
    all_goals cases h
  cases payload with
  | text s => exact chars h
  | bytes content =>
    unfold read at h
    dsimp only at h
    split at h
    · exact chars h
    · cases h
  | other typeName => cases h

end ReflectedSchema
