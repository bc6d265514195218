import Mathlib.Data.List.Basic
import Mathlib.Data.List.Induction
import ReflectedSchema.Annotated.Registry

/-!
# Walks over annotated classes

The types of the annotations of a class are known before the class is walked, and a name has the same type
wherever the walk meets it.  So what a walk has listed depends on the names that it has met and not on where:
`Reflected` says what is listed, `Reflected.step` that one more name keeps it so, and `reflected` that it holds
after the whole walk.
-/

namespace ReflectedSchema.Annotated

/-- The type that is listed for a name. -/
def typeIn (types : List (String × Form)) (name : String) : Form :=
  (Json.lookup name types).getD (.atom .none)

/-- Names that start with an underscore are private. -/
def IsPrivate (name : String) : Prop := name.toList.head? = some '_'

instance (name : String) : Decidable (IsPrivate name) := inferInstanceAs (Decidable (_ = _))

/-- A name with a type is listed if it is not private and no annotation of the class itself. -/
def IsListed (types : List (String × Form)) (name : String) : Prop :=
  ¬ IsPrivate name ∧ (typeIn types name).isClassWide = false

instance (types : List (String × Form)) (name : String) : Decidable (IsListed types name) :=
  inferInstanceAs (Decidable (_ ∧ _))

/-- What is listed when a walk has met some names: each of them that is to be listed, with its type, and in
the order in which they were met first. -/
structure Reflected (types : List (String × Form)) (met : List String) (listed : List (String × Form)) :
    Prop where
  typed : ∀ entry ∈ listed, entry.2 = typeIn types entry.1
  names : ∀ name, name ∈ listed.map (·.1) ↔ name ∈ met ∧ IsListed types name
  order : (listed.map (·.1)).Pairwise fun a b => met.idxOf a < met.idxOf b

variable {types listed : List (String × Form)} {met : List String}

/-- A name is listed where it is met first, if it is to be listed at all. -/
theorem reflect_eq (types listed : List (String × Form)) (name : String) : reflect types listed name =
    if IsListed types name ∧ name ∉ listed.map (·.1) then listed ++ [(name, typeIn types name)]
    else listed := by
  have present : listed.any (·.1 = name) = true ↔ name ∈ listed.map (·.1) := by
    simp [List.any_eq_true, List.mem_map]
  unfold reflect
  dsimp only
  rw [← typeIn]
  by_cases shown : IsListed types name ∧ name ∉ listed.map (·.1)
  · rw [if_pos shown, if_neg]
    obtain ⟨⟨named, member⟩, absent⟩ := shown
    rw [Bool.or_eq_true, Bool.or_eq_true, decide_eq_true_eq, present, member]
    rintro ((private_ | twice) | wide)
    · exact named private_
    · exact absent twice
    · cases wide
  · rw [if_neg shown, if_pos]
    rw [Bool.or_eq_true, Bool.or_eq_true, decide_eq_true_eq, present]
    by_contra none
    rw [not_or, not_or, Bool.not_eq_true] at none
    exact shown ⟨⟨none.1.1, none.2⟩, none.1.2⟩

namespace Reflected

/-- No name is listed twice. -/
theorem nodup (h : Reflected types met listed) : (listed.map (·.1)).Nodup :=
  h.order.imp fun before => by
    rintro rfl
    exact Nat.lt_irrefl _ before

/-- What is listed was met, in places that no later name changes. -/
theorem order_append (h : Reflected types met listed) (later : List String) :
    (listed.map (·.1)).Pairwise fun a b => (met ++ later).idxOf a < (met ++ later).idxOf b := by
  refine h.order.imp_of_mem fun {a b} ha hb before => ?_
  rwa [List.idxOf_append_of_mem ((h.names a).mp ha).1, List.idxOf_append_of_mem ((h.names b).mp hb).1]

/-- **One more name** is listed behind the others, unless it is one of them or none is to be listed. -/
theorem step (h : Reflected types met listed) (name : String) :
    Reflected types (met ++ [name]) (reflect types listed name) := by
  rw [reflect_eq]
  split_ifs with shown
  · obtain ⟨isListed, absent⟩ := shown
    have fresh : name ∉ met := fun known => absent ((h.names name).mpr ⟨known, isListed⟩)
    refine ⟨?_, fun other => ?_, ?_⟩
    · exact List.forall_mem_append.mpr ⟨h.typed, List.forall_mem_singleton.mpr rfl⟩
    · rw [List.map_append, List.mem_append, h.names, List.mem_append, List.map_singleton,
        List.mem_singleton, or_and_right]
      exact or_congr_right ⟨fun same => ⟨same, same ▸ isListed⟩, And.left⟩
    · rw [List.map_append, List.map_singleton, List.pairwise_append]
      refine ⟨h.order_append [name], List.pairwise_singleton _ _, fun a ha b hb => ?_⟩
      obtain rfl := List.mem_singleton.mp hb
      have known := ((h.names a).mp ha).1
      rw [List.idxOf_append_of_mem known, List.idxOf_append_of_notMem fresh]
      exact Nat.lt_of_lt_of_le (List.idxOf_lt_length_of_mem known) (Nat.le_add_right _ _)
  · refine ⟨h.typed, fun other => ?_, h.order_append [name]⟩
    rw [h.names, List.mem_append, List.mem_singleton, or_and_right]
    refine ⟨Or.inl, fun known => known.elim id ?_⟩
    rintro ⟨rfl, isListed⟩
    by_contra missing
    exact shown ⟨isListed, fun present => missing ((h.names other).mp present)⟩

end Reflected

/-- **What a walk lists.** -/
theorem reflected (types : List (String × Form)) (met : List String) :
    Reflected types met (met.foldl (reflect types) []) := by
  induction met using List.reverseRecOn with
  | nil => exact ⟨nofun, by simp, .nil⟩
  | append_singleton met name ih =>
    rw [List.foldl_append]
    exact ih.step name

end ReflectedSchema.Annotated
