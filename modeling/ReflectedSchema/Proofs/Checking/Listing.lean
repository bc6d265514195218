import ReflectedSchema.Proofs.Checking.Places

/-!
# Listing findings

What is found in a value is listed without repetitions and sorted by the pointers of the places.  Sorting
is stable and findings at different places say different things, so the list is known from what is found
at each place by itself, in the order of the check: `Finding.told_listed_congr` compares two lists in
that way.
-/

namespace ReflectedSchema

/-! ## Sorting keeps the order among equals -/

section Sorting

variable {α : Type} {le : α → α → Bool} (trans : ∀ a b c, le a b = true → le b c = true → le a c = true)

/-- Inserting into a list keeps the order among items that are tied. -/
theorem filter_orderedInsert {p : α → Bool} (tied : ∀ a b, p a = true → p b = true → le a b = true)
    (a : α) (l : List α) : (l.orderedInsert (le · · = true) a).filter p = (a :: l).filter p := by
  induction l with
  | nil => rfl
  | cons b l ih =>
    by_cases h : le a b = true
    · rw [List.orderedInsert_cons, if_pos h]
    · rw [List.orderedInsert_cons, if_neg h, List.filter_cons, ih]
      by_cases ha : p a = true
      · have hb : ¬ p b = true := fun hb => h (tied a b ha hb)
        rw [if_neg hb, List.filter_cons_of_pos ha, List.filter_cons_of_pos ha, List.filter_cons_of_neg hb]
      · rw [List.filter_cons_of_neg ha, List.filter_cons_of_neg ha, List.filter_cons]

include trans

/-- **Sorting keeps the order among items that are tied.** -/
theorem filter_mergeSort (total : ∀ a b, (le a b || le b a) = true) {p : α → Bool}
    (tied : ∀ a b, p a = true → p b = true → le a b = true) (l : List α) :
    (l.mergeSort le).filter p = l.filter p := by
  induction l with
  | nil => simp
  | cons a l ih =>
    rw [mergeSort_cons_eq trans total, filter_orderedInsert tied, List.filter_cons, ih, List.filter_cons]

/-- In a sorted list, the first item comes before whatever has a key that occurs. -/
theorem le_of_key_mem {κ : Type} {key : α → κ} (tied : ∀ a b, key a = key b → le a b = true) {a b : α} {s : List α}
    (sorted : (a :: s).Pairwise (le · · = true)) (h : key b ∈ (a :: s).map key) : le a b = true := by
  obtain ⟨c, hc, same⟩ := List.mem_map.mp h
  rcases List.mem_cons.mp hc with rfl | hc
  · exact tied c b same
  · exact trans a c b ((List.pairwise_cons.mp sorted).1 c hc) (tied c b same)

/-- **Sorted lists agree if they agree key by key.** -/
theorem map_eq_of_sorted {γ κ : Type} [DecidableEq κ] {key : α → κ} {g : α → γ}
    (tied : ∀ a b, key a = key b → le a b = true)
    (apart : ∀ a b, le a b = true → le b a = true → key a = key b) {s t : List α}
    (hs : s.Pairwise (le · · = true)) (ht : t.Pairwise (le · · = true))
    (same : ∀ k, (s.filter (key · = k)).map g = (t.filter (key · = k)).map g) : s.map g = t.map g := by
  have occurs (l : List α) (k : κ) : k ∈ l.map key ↔ (l.filter (key · = k)).map g ≠ [] := by
    simp [List.filter_eq_nil_iff]
  have keys {s t : List α} (same : ∀ k, (s.filter (key · = k)).map g = (t.filter (key · = k)).map g)
      {k : κ} (h : k ∈ s.map key) : k ∈ t.map key := by
    rwa [occurs, ← same k, ← occurs]
  induction s generalizing t with
  | nil =>
    cases t with
    | nil => rfl
    | cons b t => exact absurd (keys (fun k => (same k).symm) List.mem_cons_self) List.not_mem_nil
  | cons a s ih =>
    cases t with
    | nil => exact absurd (keys same List.mem_cons_self) List.not_mem_nil
    | cons b t =>
      -- Each of the two first items has a key that occurs in the other list, so they are tied.
      have first : key a = key b := apart a b
        (le_of_key_mem trans tied hs (keys (fun k => (same k).symm) List.mem_cons_self))
        (le_of_key_mem trans tied ht (keys same List.mem_cons_self))
      have here := same (key a)
      rw [List.filter_cons_of_pos (by simp), List.filter_cons_of_pos (by simp [first])] at here
      obtain ⟨hg, rest⟩ := List.cons.inj here
      rw [List.map_cons, List.map_cons, hg]
      refine congrArg (g b :: ·) (ih (List.pairwise_cons.mp hs).2 (List.pairwise_cons.mp ht).2 fun k => ?_)
      by_cases hk : key a = k
      · exact hk ▸ rest
      · have later := same k
        rwa [List.filter_cons_of_neg (by simpa using hk),
          List.filter_cons_of_neg (by simpa using first ▸ hk)] at later

end Sorting

/-! ## Repetitions, sort by sort -/

/-- Values of some sort are made distinct among themselves, if a key tells the sort. -/
theorem filter_distinctFrom {α β : Type} [DecidableEq α] {keyOf : β → α} {p : β → Bool}
    (sort : ∀ a b, keyOf a = keyOf b → p a = p b) (seen : List α) (l : List β) :
    (distinctFrom seen (l.map fun b => (keyOf b, b))).filter p =
      distinctFrom seen ((l.filter p).map fun b => (keyOf b, b)) := by
  induction l generalizing seen with
  | nil => rfl
  | cons b l ih =>
    rw [List.map_cons, distinctFrom]
    by_cases hp : p b = true
    · rw [List.filter_cons_of_pos hp, List.map_cons, distinctFrom]
      by_cases known : keyOf b ∈ seen
      · rw [if_pos known, if_pos known, ih]
      · rw [if_neg known, if_neg known, List.filter_cons_of_pos hp, ih]
    · rw [List.filter_cons_of_neg hp]
      by_cases known : keyOf b ∈ seen
      · rw [if_pos known, ih]
      · rw [if_neg known, List.filter_cons_of_neg hp, ih]
        -- The key of another sort is not seen again.
        refine distinctFrom_congr fun e he => ?_
        obtain ⟨c, hc, rfl⟩ := List.mem_map.mp he
        have other : keyOf c ≠ keyOf b := fun same => hp (sort c b same ▸ (List.mem_filter.mp hc).2)
        exact ⟨fun h => (List.mem_cons.mp h).resolve_left other, List.mem_cons_of_mem _⟩

/-! ## Lists of findings -/

/-- The sort of a violation and its wording. -/
def Violation.wording (v : Violation) : Reason × String :=
  (v.reason, v.message)

/-- Violations without those that are worded like an earlier one. -/
def Violation.distinct (l : List Violation) : List Violation :=
  distinctFrom [] (l.map fun v => (v.wording, v))

namespace Finding

/-- The names of the steps to a place. -/
def names (f : Finding) : List String :=
  f.location.map Step.text

/-- What callers are told of a finding: the code of its cause, the pointer of its place and its sort. -/
def told (f : Finding) : String × String × Reason :=
  (f.toFailure.cause.code, f.path, f.violation.reason)

/-- The violations at the place with given names, in the order of the check. -/
def violationsAt (names : List String) (found : List Finding) : List Violation :=
  (found.filter (·.names = names)).map (·.violation)

/-- What callers are told of a violation at the place with given names. -/
def toldAt (names : List String) (v : Violation) : String × String × Reason :=
  ((Cause.violation (Pointer.ofNames names) v).code, Pointer.ofNames names, v.reason)

/-- A finding is told by the names of its place and by its violation. -/
theorem told_eq (f : Finding) : f.told = toldAt f.names f.violation := rfl

variable {f g : Finding}

/-- Where findings stand is known from their pointers. -/
theorem names_eq_iff : f.names = g.names ↔ f.path = g.path :=
  ⟨congrArg Pointer.ofNames, fun h => Pointer.ofNames_injective h⟩

/-- Findings at the same place may come in any order, and only those may. -/
theorem before_of_names_eq (h : f.names = g.names) : f.before g = true := by
  simp [before, names_eq_iff.mp h]

/-- Findings that neither stands before the other are at the same place. -/
theorem names_eq_of_before (hf : f.before g = true) (hg : g.before f = true) : f.names = g.names := by
  simp only [before, Bool.or_eq_true, Bool.and_eq_true, decide_eq_true_eq] at hf hg
  have path : f.path ≤ g.path ∧ g.path ≤ f.path := by
    rcases hf with hf | ⟨depth, hf⟩ <;> rcases hg with hg | ⟨_, hg⟩
    · omega
    · omega
    · omega
    · exact ⟨hf, hg⟩
  exact names_eq_iff.mpr (le_antisymm path.1 path.2)

/-- At one place, each wording is listed once, in the order of the check. -/
theorem told_filter_listed (names : List String) (found : List Finding) :
    ((listed found).filter (·.names = names)).map told =
      (Violation.distinct (violationsAt names found)).map (toldAt names) := by
  have here {f : Finding} (h : f ∈ found.filter (·.names = names)) : f.names = names :=
    of_decide_eq_true (List.mem_filter.mp h).2
  have once : Violation.distinct (violationsAt names found) =
      (distinct (found.filter (·.names = names))).map (·.violation) := by
    refine distinctFrom_map [] _ fun f hf g hg => ?_
    have path : f.path = g.path := names_eq_iff.mp ((here hf).trans (here hg).symm)
    simp only [Violation.wording, key, path, Prod.mk.injEq, true_and]
  have sort (f g : Finding) (h : f.key = g.key) : decide (f.names = names) = decide (g.names = names) := by
    rw [names_eq_iff.mpr (congrArg Prod.fst h : f.path = g.path)]
  rw [once, listed, filter_mergeSort before_trans before_total (fun f g hf hg => ?_), distinct,
    filter_distinctFrom sort, List.map_map]
  · refine List.map_congr_left fun f hf => ?_
    rw [told_eq, here (mem_of_mem_distinctFrom hf).1]
    rfl
  · exact before_of_names_eq ((of_decide_eq_true hf).trans (of_decide_eq_true hg).symm)

/-- **Lists tell the same if they do at each place**, where the order is that of the check. -/
theorem told_listed_congr {found other : List Finding}
    (same : ∀ names, (Violation.distinct (violationsAt names found)).map (toldAt names) =
      (Violation.distinct (violationsAt names other)).map (toldAt names)) :
    (listed found).map told = (listed other).map told :=
  map_eq_of_sorted before_trans (fun _ _ => before_of_names_eq) (fun _ _ => names_eq_of_before)
    (pairwise_listed found) (pairwise_listed other) fun names => by
      rw [told_filter_listed, told_filter_listed, same]

end Finding

end ReflectedSchema
