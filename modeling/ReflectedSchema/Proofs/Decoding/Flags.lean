import ReflectedSchema.Annotated.Instance
import ReflectedSchema.Proofs.Decoding.Location
import ReflectedSchema.Proofs.Decoding.Soundness
import ReflectedSchema.Proofs.RoundTrip.Inverse
import ReflectedSchema.Table

/-!
# Lists of flags are sets

A list of member names is decoded by uniting the values of the members one after the other.  The union is known
by its bits and by the flag class that it is of, and both go by which names are there, not by how often or
where: `flag_lists_are_sets` says that a list stands for the set of its names.  If no two members have a bit in
common and none is zero, the members can be told from the union, so that different sets have different values.

Integers may be negative, and then have all but finitely many bits.
-/

namespace ReflectedSchema

/-! ## Integers by their bits -/

/-- The bits of an integer are those that it is tested for. -/
theorem testBit_eq_bit (n : Int) (i : Nat) : n.testBit i = bit n i := by
  cases n <;> rfl

/-- A common bit is a bit of both. -/
theorem bit_land (m n : Int) (i : Nat) : bit (Int.land m n) i = (bit m i && bit n i) := by
  rw [← testBit_eq_bit, Int.testBit_land, testBit_eq_bit, testBit_eq_bit]

/-- It does not matter which integer comes first. -/
theorem land_comm (m n : Int) : Int.land m n = Int.land n m :=
  eq_of_bit fun i => by rw [bit_land, bit_land, Bool.and_comm]

/-- An integer other than zero has a bit. -/
theorem exists_bit_of_ne_zero {n : Int} (h : n ≠ 0) : ∃ i, bit n i = true := by
  by_contra none
  exact h (eq_of_bit fun i => (Bool.eq_false_iff.mpr fun hi => none ⟨i, hi⟩).trans
    (Nat.zero_testBit i).symm)

/-- Integers without a bit in common. -/
theorem bit_of_land_eq_zero {m n : Int} (h : Int.land m n = 0) {i : Nat} (hm : bit m i = true) :
    bit n i = false := by
  have both : (bit m i && bit n i) = false := by
    rw [← bit_land, h]
    exact Nat.zero_testBit i
  rwa [hm, Bool.true_and] at both

/-- An integer that has all the bits of another. -/
theorem land_eq_right_iff {m n : Int} : Int.land m n = n ↔ ∀ i, bit n i = true → bit m i = true := by
  refine ⟨fun h i hi => ?_, fun h => eq_of_bit fun i => ?_⟩
  · have both := bit_land m n i
    rw [h, hi, Bool.and_true] at both
    exact both.symm
  · rw [bit_land]
    cases hi : bit n i with
    | false => rw [Bool.and_false]
    | true => rw [h i hi, Bool.true_and]

namespace EnumValue

/-- The union of integers is their bitwise disjunction. -/
theorem orInt_eq_lor (m n : Int) : orInt m n = Int.lor m n :=
  eq_of_bit fun i => by
    rw [bit_orInt, ← testBit_eq_bit (Int.lor m n), Int.testBit_lor, testBit_eq_bit, testBit_eq_bit]

/-! ## The class of a union -/

/-- The flag class that a value is of. -/
def flagClass? : EnumValue → Option String
  | .flags className _ => some className
  | _ => none

/-- A union is of the flag class of its first part that has one. -/
theorem flagClass?_union (v w : EnumValue) : (v.union w).flagClass? = v.flagClass?.or w.flagClass? := by
  cases v <;> cases w <;> rfl

/-- A union of many is of the first flag class among them. -/
theorem flagClass?_foldl (start : EnumValue) (values : List EnumValue) :
    (values.foldl union start).flagClass? = start.flagClass?.or (values.findSome? flagClass?) := by
  induction values generalizing start with
  | nil => exact Option.or_none.symm
  | cons v rest ih =>
    rw [List.foldl_cons, ih, flagClass?_union, Option.or_assoc, List.findSome?_cons]
    cases v.flagClass? <;> rfl

/-- A value that a union may have: it is not a member that goes by its name. -/
def IsUnion : EnumValue → Prop
  | .member .. => False
  | _ => True

/-- The empty set may be a union. -/
theorem isUnion_empty (v : EnumValue) : v.empty.IsUnion := by
  cases v <;> exact trivial

/-- A union of two values may be a union. -/
theorem isUnion_union (v w : EnumValue) : (v.union w).IsUnion := by
  cases v <;> cases w <;> exact trivial

/-- So may a union of many. -/
theorem isUnion_foldl {start : EnumValue} (h : start.IsUnion) (values : List EnumValue) :
    (values.foldl union start).IsUnion := by
  induction values generalizing start with
  | nil => exact h
  | cons v rest ih => exact ih (isUnion_union start v)

/-- A union is known by its class and its bits. -/
theorem IsUnion.ext {v w : EnumValue} (hv : v.IsUnion) (hw : w.IsUnion) (sort : v.flagClass? = w.flagClass?)
    (same : v.toInt = w.toInt) : v = w := by
  cases v <;> cases w <;> simp_all [IsUnion, flagClass?, toInt]

end EnumValue

/-! ## The union of named members -/

namespace EnumDescriptor

/-- The union of the members with given names, after a start. -/
def unite (e : EnumDescriptor) (start : EnumValue) (names : List String) : EnumValue :=
  (names.filterMap e.lookup).foldl EnumValue.union start

variable {e : EnumDescriptor} {start : EnumValue} {l k : List String}

/-- A member that is found by its name is one of the members. -/
theorem mem_of_lookup {name : String} {v : EnumValue} (h : e.lookup name = some v) : (name, v) ∈ e.members := by
  have found : (Json.str name).str?.bind e.lookup = some v := h
  obtain ⟨_, same, hm⟩ := Decoding.mem_of_lookup found
  cases same
  exact hm

/-- The union of named members may be a union. -/
theorem isUnion_unite (h : start.IsUnion) (l : List String) : (e.unite start l).IsUnion :=
  EnumValue.isUnion_foldl h _

/-- A union of members has the bits of the members that are named. -/
theorem bit_unite (zero : start.toInt = 0) (l : List String) (i : Nat) :
    bit (e.unite start l).toInt i = true ↔ ∃ n ∈ l, ∃ v, e.lookup n = some v ∧ bit v.toInt i = true := by
  rw [unite, EnumValue.bit_foldl_of_zero zero, List.any_eq_true]
  constructor
  · rintro ⟨v, hv, hi⟩
    obtain ⟨n, hn, found⟩ := List.mem_filterMap.mp hv
    exact ⟨n, hn, v, found, hi⟩
  · rintro ⟨n, hn, v, found, hi⟩
    exact ⟨v, List.mem_filterMap.mpr ⟨n, hn, found⟩, hi⟩

/-- A union as an integer goes by which names are there. -/
theorem toInt_unite_congr (zero : start.toInt = 0) (h : ∀ n, n ∈ l ↔ n ∈ k) :
    (e.unite start l).toInt = (e.unite start k).toInt :=
  eq_of_bit fun i => Bool.eq_iff_iff.mpr <| by simp only [bit_unite zero, h]

/-- The members are of at most one flag class. -/
def OneClass (members : List (String × EnumValue)) : Prop :=
  ∀ m ∈ members, ∀ n ∈ members, ∀ c, m.2.flagClass? = some c → ∀ c', n.2.flagClass? = some c' → c = c'

/-- The first class that is met is that of some member that is named, and there is no other. -/
theorem findSome?_flagClass?_eq_some_iff (one : OneClass e.members) {c : String} :
    (l.filterMap e.lookup).findSome? EnumValue.flagClass? = some c ↔
      ∃ n ∈ l, ∃ v, e.lookup n = some v ∧ v.flagClass? = some c := by
  have named : ∀ {c}, (l.filterMap e.lookup).findSome? EnumValue.flagClass? = some c →
      ∃ n ∈ l, ∃ v, e.lookup n = some v ∧ v.flagClass? = some c := fun found => by
    obtain ⟨v, hv, hc⟩ := List.exists_of_findSome?_eq_some found
    obtain ⟨n, hn, hl⟩ := List.mem_filterMap.mp hv
    exact ⟨n, hn, v, hl, hc⟩
  refine ⟨named, fun ⟨n, hn, v, hv, hc⟩ => ?_⟩
  have met : ((l.filterMap e.lookup).findSome? EnumValue.flagClass?).isSome :=
    List.findSome?_isSome_iff.mpr ⟨v, List.mem_filterMap.mpr ⟨n, hn, hv⟩, by rw [hc]; rfl⟩
  obtain ⟨c', found⟩ := Option.isSome_iff_exists.mp met
  obtain ⟨n', hn', v', hv', hc'⟩ := named found
  have same := one _ (mem_of_lookup hv) _ (mem_of_lookup hv') c hc c' hc'
  rw [found, same]

/-- A union goes by which names are there. -/
theorem unite_congr (union : start.IsUnion) (zero : start.toInt = 0) (one : OneClass e.members)
    (h : ∀ n, n ∈ l ↔ n ∈ k) : e.unite start l = e.unite start k := by
  refine (isUnion_unite union l).ext (isUnion_unite union k) ?_ (toInt_unite_congr zero h)
  have first : (l.filterMap e.lookup).findSome? EnumValue.flagClass? =
      (k.filterMap e.lookup).findSome? EnumValue.flagClass? :=
    Option.ext fun c => by simp only [findSome?_flagClass?_eq_some_iff one, h]
  rw [unite, unite, EnumValue.flagClass?_foldl, EnumValue.flagClass?_foldl, first]

/-- Names one after the other give the union of both. -/
theorem unite_append (union : start.IsUnion) (zero : start.toInt = 0) (l k : List String) :
    e.unite start (l ++ k) = (e.unite start l).union (e.unite start k) := by
  refine (isUnion_unite union _).ext (EnumValue.isUnion_union _ _) ?_ (eq_of_bit fun i => ?_)
  · rw [EnumValue.flagClass?_union, unite, unite, unite]
    simp only [EnumValue.flagClass?_foldl, List.filterMap_append, List.findSome?_append]
    cases start.flagClass? <;> simp
  · rw [EnumValue.toInt_union, EnumValue.bit_orInt, Bool.eq_iff_iff, Bool.or_eq_true]
    simp only [bit_unite zero, List.mem_append, or_and_right, exists_or]

/-! ## Members without a bit in common -/

/-- The values of the members are not zero, and no two have a bit in common. -/
structure HasDisjointFlags (members : List (String × EnumValue)) : Prop where
  nonzero : ∀ m ∈ members, m.2.toInt ≠ 0
  disjoint : members.Pairwise fun m n => Int.land m.2.toInt n.2.toInt = 0

/-- The members that a union contains are those that are named. -/
theorem land_unite_iff (zero : start.toInt = 0) (distinct : e.memberNames.Nodup)
    (flags : HasDisjointFlags e.members) {m : String × EnumValue} (hm : m ∈ e.members) :
    Int.land (e.unite start l).toInt m.2.toInt = m.2.toInt ↔ m.1 ∈ l := by
  rw [land_eq_right_iff]
  constructor
  · intro h
    obtain ⟨i, hi⟩ := exists_bit_of_ne_zero (flags.nonzero m hm)
    obtain ⟨n, hn, v, hv, shared⟩ := (bit_unite zero l i).mp (h i hi)
    by_contra absent
    -- The bit is also one of a member with another name.
    have other : m ≠ (n, v) := fun same => absent (congrArg Prod.fst same ▸ hn)
    have symmetric : Std.Symm fun m n : String × EnumValue => Int.land m.2.toInt n.2.toInt = 0 :=
      ⟨fun _ _ h => (land_comm _ _).trans h⟩
    have apart := flags.disjoint.forall hm (mem_of_lookup hv) other
    exact Bool.false_ne_true ((bit_of_land_eq_zero apart hi).symm.trans shared)
  · intro hn i hi
    exact (bit_unite zero l i).mpr ⟨m.1, hn, m.2, Decoding.lookup_of_mem distinct hm, hi⟩

/-! ## Lists as sets -/

/-- A value for each list of member names, which is the value of the set of the names.  Values that are equal as
integers can differ in their class only if the members are of several classes. -/
structure ReadsSets (e : EnumDescriptor) (value : List String → EnumValue) : Prop where
  same : ∀ l k, (∀ n, n ∈ l ↔ n ∈ k) →
    (value l).toInt = (value k).toInt ∧ (OneClass e.members → value l = value k)
  append : ∀ l k, value (l ++ k) = (value l).union (value k)
  or : ∀ l k, (value (l ++ k)).toInt = Int.lor (value l).toInt (value k).toInt
  zero : (value []).toInt = 0
  none : ∀ m rest className n, e.members = m :: rest → m.2 = .flags className n →
    value [] = .flags className 0
  contains : HasDisjointFlags e.members → ∀ l, ∀ m ∈ e.members,
    Int.land (value l).toInt m.2.toInt = m.2.toInt ↔ m.1 ∈ l
  distinct : HasDisjointFlags e.members → ∀ l k, l ⊆ e.memberNames → k ⊆ e.memberNames →
    (value l).toInt = (value k).toInt → ∀ n, n ∈ l ↔ n ∈ k

/-- An enumeration without repeated names reads lists of names as sets. -/
theorem readsSets_unite {first : String × EnumValue} {rest : List (String × EnumValue)}
    (split : e.members = first :: rest) (distinct : e.memberNames.Nodup) :
    e.ReadsSets (e.unite first.2.empty) := by
  have zero := EnumValue.toInt_empty first.2
  have union := EnumValue.isUnion_empty first.2
  have appended := unite_append (e := e) union zero
  have contains : HasDisjointFlags e.members → ∀ l, ∀ m ∈ e.members,
      Int.land (e.unite first.2.empty l).toInt m.2.toInt = m.2.toInt ↔ m.1 ∈ l :=
    fun flags l m hm => land_unite_iff zero distinct flags hm
  constructor
  case same => exact fun l k h => ⟨toInt_unite_congr zero h, fun one => unite_congr union zero one h⟩
  case append => exact appended
  case or => exact fun l k => by rw [appended, EnumValue.toInt_union, EnumValue.orInt_eq_lor]
  case zero => exact zero
  case none =>
    intro m others className n split' flags
    obtain ⟨rfl, -⟩ := List.cons.inj (split.symm.trans split')
    rw [flags]
    rfl
  case contains => exact contains
  case distinct =>
    intro flags l k hl hk same n
    have iff : ∀ m ∈ e.members, m.1 ∈ l ↔ m.1 ∈ k := fun m hm => by
      rw [← contains flags l m hm, same, contains flags k m hm]
    refine ⟨fun hn => ?_, fun hn => ?_⟩
    · obtain ⟨m, hm, rfl⟩ := List.mem_map.mp (hl hn)
      exact (iff m hm).mp hn
    · obtain ⟨m, hm, rfl⟩ := List.mem_map.mp (hk hn)
      exact (iff m hm).mpr hn

end EnumDescriptor

namespace Decoding

variable {σ : Type} {d : Decoding σ} {e : EnumDescriptor} {location : Location}

/-- Member names are decoded as the union of the members. -/
theorem unionFrom_names {names : List String} (h : names ⊆ e.memberNames) (index : Nat)
    (start : EnumValue) :
    unionFrom (σ := σ) e location index start (names.map .str) = pure (e.unite start names) := by
  induction names generalizing index start with
  | nil => rfl
  | cons name rest ih =>
    obtain ⟨hname, hrest⟩ := List.cons_subset.mp h
    obtain ⟨v, value⟩ : ∃ v, (Json.str name).str?.bind e.lookup = some v :=
      Option.ne_none_iff_exists'.mp fun absent => lookup_eq_none_iff.mp absent ⟨name, hname, rfl⟩
    have found : e.lookup name = some v := value
    rw [List.map_cons, unionFrom, memberValue_eq_pure value, pure_bind, ih hrest]
    simp only [EnumDescriptor.unite, List.filterMap_cons, found, List.foldl_cons]

/-- **A list of flags is a set.**  Every list of member names is decoded, without a call to the host, and its
value goes by which names are there.  No names have the empty value of the flag class, or zero; names one after
the other have the union of both values; and members without a bit in common can be told from the value.  A build
takes up no enumeration without members. -/
theorem flag_lists_are_sets {owner name : String} (captured : d.schema.enum? (enumPath owner name) = some e)
    (nonempty : e.members ≠ []) (distinct : e.memberNames.Nodup) :
    ∃ value : List String → EnumValue, e.ReadsSets value ∧
      ∀ names, names ⊆ e.memberNames → ∀ location,
        (Json.arr (names.map .str)).decode d (.enum owner name true) location =
          pure (.enum (value names)) := by
  obtain ⟨first, rest, split⟩ := List.exists_cons_of_ne_nil nonempty
  refine ⟨e.unite first.2.empty, e.readsSets_unite split distinct, fun names h location => ?_⟩
  have start : noFlags (σ := σ) e = pure first.2.empty := by simp only [noFlags, split]
  rw [Json.decode_eq_visit]
  simp only [visit, enumValue, captured, if_true, start, pure_bind, unionFrom_names h]

/-- What may be done with a room; the last member has all bits but the two lowest. -/
def grants : EnumDescriptor where
  owner := "Room"
  name := "Grant"
  members := [("Look", .int 1), ("Enter", .int 2), ("Else", .int (-4))]
  flags := true

/-- A schema for grants. -/
def grantsSchema : Schema where
  name := "Grants"
  document := .null
  root := .enum "Room" "Grant" true
  enums := [grants]

/-- Grants that are repeated and reordered are the same, and which they are can be read off. -/
theorem flag_lists_are_sets_grants : grantsSchema.enum? (enumPath "Room" "Grant") = some grants ∧
    grants.members ≠ [] ∧ grants.memberNames.Nodup ∧ ∃ value : List String → EnumValue,
      (∀ location, (Json.arr (["Else", "Look", "Else"].map .str)).decode
        (⟨people.host, grantsSchema⟩ : Decoding Unit) (.enum "Room" "Grant" true) location =
          pure (.enum (value ["Else", "Look", "Else"]))) ∧
      value ["Else", "Look", "Else"] = value ["Look", "Else"] ∧ (value []).toInt = 0 ∧
      Int.land (value ["Look", "Else"]).toInt (-4) = -4 ∧
      Int.land (value ["Look", "Else"]).toInt 2 ≠ 2 := by
  have captured : grantsSchema.enum? (enumPath "Room" "Grant") = some grants := by decide +kernel
  have flags : EnumDescriptor.HasDisjointFlags grants.members := ⟨by decide, by decide +kernel⟩
  have one : EnumDescriptor.OneClass grants.members := by
    simp [EnumDescriptor.OneClass, grants, EnumValue.flagClass?]
  obtain ⟨value, reads, decoded⟩ := flag_lists_are_sets (d := (⟨people.host, grantsSchema⟩ : Decoding Unit))
    captured (by decide) (by decide)
  have contains := reads.contains flags ["Look", "Else"]
  refine ⟨captured, by decide, by decide, value, decoded ["Else", "Look", "Else"] (by decide),
    (reads.same _ _ fun n => ?_).2 one, reads.zero, ?_, ?_⟩
  · simp [or_comm]
  · exact (contains ("Else", .int (-4)) (by decide)).mpr (by decide)
  · exact fun h => absurd ((contains ("Enter", .int 2) (by decide)).mp h) (by decide)

end Decoding

/-! ## The members that a source lists -/

/-- Members of a tabulated enumeration are integers. -/
theorem Table.oneClass_members {t : Table} {owner name : String} {members : List (String × EnumValue)}
    (h : t.source.members owner name = .ok members) : EnumDescriptor.OneClass members := by
  obtain ⟨c, declared, -, -, rfl⟩ := t.members_eq_ok h
  intro m hm
  obtain ⟨n, -, rfl⟩ := List.mem_map.mp hm
  simp [EnumValue.flagClass?]

/-- Members of an annotated enumeration are values of the enumeration. -/
theorem Annotated.Registry.oneClass_members {r : Annotated.Registry} {owner name : String}
    {members : List (String × EnumValue)} (h : r.source.members owner name = .ok members) :
    EnumDescriptor.OneClass members := by
  obtain ⟨number, -, h⟩ := bind_eq_ok.mp h
  split at h
  · split at h
    · split at h
      · cases h
        intro m hm
        obtain ⟨n, -, rfl⟩ := List.mem_map.mp hm
        simp [EnumValue.flagClass?]
      · cases h
        intro m hm n hn
        obtain ⟨_, -, rfl⟩ := List.mem_map.mp hm
        obtain ⟨_, -, rfl⟩ := List.mem_map.mp hn
        simp only [EnumValue.flagClass?, Option.some.injEq]
        grind
      · cases h
    · cases h
  · cases h

end ReflectedSchema
