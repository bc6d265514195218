import Mathlib
import ReflectedSchema.Decode

/-!
# Sets of flags

A set of flags is an integer, known by its bits, and a union of flags has the bits of all of them.  So
a union of members of an enumeration is the union of all the members that it contains, which may be
more than those it was made of.
-/

namespace ReflectedSchema

/-! ## Integers by their bits -/

/-- What is left of a number without the bits of another. -/
theorem testBit_sub_and (m n i : Nat) :
    (n - (m &&& n)).testBit i = (n.testBit i && !m.testBit i) := by
  have odd := @Nat.and_mod_two_eq_one m n
  have half : (m &&& n) / 2 = m / 2 &&& n / 2 := Nat.and_div_two
  have le := @Nat.and_le_right m n
  have half_le := @Nat.and_le_right (m / 2) (n / 2)
  induction i generalizing m n with
  | zero =>
    simp only [Nat.testBit_zero]
    by_cases hm : m % 2 = 1 <;> by_cases hn : n % 2 = 1 <;> simp [hm, hn] <;> omega
  | succ i ih =>
    have step : (n - (m &&& n)) / 2 = n / 2 - (m / 2 &&& n / 2) := by omega
    rw [Nat.testBit_succ, Nat.testBit_succ, Nat.testBit_succ, step]
    exact ih _ _ Nat.and_mod_two_eq_one Nat.and_div_two Nat.and_le_right Nat.and_le_right

/-- A bit of an integer in two's complement. -/
def bit : Int → Nat → Bool
  | .ofNat k, i => k.testBit i
  | .negSucc k, i => !k.testBit i

/-- Integers with the same bits are the same. -/
theorem eq_of_bit {m n : Int} (h : ∀ i, bit m i = bit n i) : m = n := by
  -- Far up, the bits of a negative integer are set and those of any other are not.
  have far : ∀ k l : Nat, ∃ i, k.testBit i = false ∧ l.testBit i = false := fun k l =>
    ⟨k + l, Nat.testBit_lt_two_pow (Nat.lt_of_le_of_lt (by omega) Nat.lt_two_pow_self),
      Nat.testBit_lt_two_pow (Nat.lt_of_le_of_lt (by omega) Nat.lt_two_pow_self)⟩
  cases m with
  | ofNat k =>
    cases n with
    | ofNat l => exact congrArg _ (Nat.eq_of_testBit_eq h)
    | negSucc l =>
      obtain ⟨i, hk, hl⟩ := far k l
      have same := h i
      simp [bit, hk, hl] at same
  | negSucc k =>
    cases n with
    | ofNat l =>
      obtain ⟨i, hk, hl⟩ := far k l
      have same := h i
      simp [bit, hk, hl] at same
    | negSucc l =>
      refine congrArg _ (Nat.eq_of_testBit_eq fun i => ?_)
      simpa [bit] using h i

namespace EnumValue

/-- A union has the bits of both. -/
theorem bit_orInt (m n : Int) (i : Nat) : bit (orInt m n) i = (bit m i || bit n i) := by
  cases m with
  | ofNat k =>
    cases n with
    | ofNat l => simp [orInt, bit]
    | negSucc l => simp [orInt, bit, testBit_sub_and, Bool.or_comm]
  | negSucc k =>
    cases n with
    | ofNat l => simp [orInt, bit, Nat.and_comm k l, testBit_sub_and]
    | negSucc l => simp [orInt, bit]

/-- A union of many has the bits of all. -/
theorem bit_foldl (start : EnumValue) (values : List EnumValue) (i : Nat) :
    bit (values.foldl union start).toInt i =
      (bit start.toInt i || values.any fun v => bit v.toInt i) := by
  induction values generalizing start with
  | nil => simp
  | cons value rest ih =>
    rw [List.foldl_cons, ih, toInt_union, bit_orInt, List.any_cons, Bool.or_assoc]

/-- A bit of a union is one of the united values, if the union starts without bits. -/
theorem bit_foldl_of_zero {start : EnumValue} (h : start.toInt = 0) (values : List EnumValue)
    (i : Nat) : bit (values.foldl union start).toInt i = values.any fun v => bit v.toInt i := by
  have zero : bit 0 i = false := Nat.zero_testBit i
  rw [bit_foldl, h, zero, Bool.false_or]

/-! ## Members that a set contains -/

/-- A set of flags contains another if the other adds nothing to it. -/
def Contains (v w : EnumValue) : Prop :=
  orInt v.toInt w.toInt = v.toInt

instance (v w : EnumValue) : Decidable (v.Contains w) :=
  inferInstanceAs (Decidable (_ = _))

/-- A set of flags contains another exactly if it has all its bits. -/
theorem contains_iff {v w : EnumValue} :
    v.Contains w ↔ ∀ i, bit w.toInt i = true → bit v.toInt i = true := by
  refine ⟨fun h i hi => ?_, fun h => eq_of_bit fun i => ?_⟩
  · rw [← h, bit_orInt, hi, Bool.or_true]
  · rw [bit_orInt]
    cases hi : bit w.toInt i with
    | false => rw [Bool.or_false]
    | true => rw [h i hi, Bool.or_true]

end EnumValue

/-- The members that a set of flags contains, in the order of their declaration. -/
def containedMembers (members : List (String × EnumValue)) (v : EnumValue) :
    List (String × EnumValue) :=
  members.filter fun (_, w) => v.Contains w

/-- A set of flags is a union of members. -/
def IsUnionOf (members : List (String × EnumValue)) (v : EnumValue) : Prop :=
  ∃ values : List EnumValue, (∀ w ∈ values, w ∈ members.map (·.2)) ∧
    v.toInt = (values.foldl EnumValue.union (.int 0)).toInt

/-- **A union of members is the union of all members that it contains.** -/
theorem toInt_union_contained {members : List (String × EnumValue)} {v start : EnumValue}
    (h : IsUnionOf members v) (hs : start.toInt = 0) :
    (((containedMembers members v).map (·.2)).foldl EnumValue.union start).toInt = v.toInt := by
  obtain ⟨values, hm, hv⟩ := h
  -- A bit of the set is one of a member that it was made of, which the set contains.
  have made : ∀ i, bit v.toInt i = values.any fun w => bit w.toInt i := fun i =>
    hv ▸ EnumValue.bit_foldl_of_zero rfl values i
  refine eq_of_bit fun i => ?_
  rw [EnumValue.bit_foldl_of_zero hs, Bool.eq_iff_iff]
  constructor
  · intro hany
    obtain ⟨w, hw, hi⟩ := List.any_eq_true.mp hany
    obtain ⟨m, hm, rfl⟩ := List.mem_map.mp hw
    have contains := of_decide_eq_true (List.mem_filter.mp hm).2
    exact EnumValue.contains_iff.mp contains i hi
  · intro hi
    rw [made, List.any_eq_true] at hi
    obtain ⟨w, hw, hwi⟩ := hi
    obtain ⟨m, hmem, rfl⟩ := List.mem_map.mp (hm w hw)
    have contains : v.Contains m.2 := EnumValue.contains_iff.mpr fun j hj =>
      (made j).trans (List.any_eq_true.mpr ⟨m.2, hw, hj⟩)
    refine List.any_eq_true.mpr ⟨m.2, List.mem_map.mpr ⟨m, ?_, rfl⟩, hwi⟩
    exact List.mem_filter.mpr ⟨hmem, decide_eq_true contains⟩

end ReflectedSchema
