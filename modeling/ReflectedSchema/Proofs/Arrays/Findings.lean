import ReflectedSchema.Proofs.Checking.Agreement

/-!
# Findings seen from further out

A check lists each finding once, and it sorts what it lists.  Both go by the pointers of places, and
neither notices a step in front of all places.  So the list for an array comes from the lists for its
items: they have no finding in common, and sorting what was sorted part by part is sorting.
-/

namespace ReflectedSchema

/-! ## Pointers are read back -/

namespace Pointer

/-- The names of a pointer stand between its slashes, escaped. -/
theorem split_encodeChars (name : String) (names : List String) :
    Text.split '/' (escape name.toList ++ encodeChars names) =
      (name :: names).map fun name => escape name.toList := by
  induction names generalizing name with
  | nil =>
    rw [encodeChars, List.flatMap_nil, List.append_nil,
      Text.split_of_not_mem (slash_not_mem_escape _)]
    rfl
  | cons next names ih =>
    rw [encodeChars, List.flatMap_cons, ← encodeChars, List.cons_append,
      Text.split_append_cons (slash_not_mem_escape _), ih]
    rfl

/-- **A pointer is read back** into the names that it was made of. -/
theorem decode_ofNames (names : List String) : decode (ofNames names) = some names := by
  cases names with
  | nil => rfl
  | cons name names =>
    have chars : (ofNames (name :: names)).toList = '/' :: (escape name.toList ++ encodeChars names) := by
      rw [ofNames, String.toList_ofList, encodeChars, List.flatMap_cons]
      rfl
    have read (name : String) : String.ofList (unescape (escape name.toList)) = name := by
      rw [unescape_escape, String.ofList_toList]
    simp only [decode, chars]
    rw [split_encodeChars, List.map_map]
    refine congrArg some ?_
    conv_rhs => rw [← List.map_id (name :: names)]
    exact List.map_congr_left fun name _ => read name

/-- Pointers of different names differ. -/
theorem ofNames_injective {names other : List String} (h : ofNames names = ofNames other) :
    names = other := by
  have read := decode_ofNames names
  rw [h, decode_ofNames] at read
  exact (Option.some.inj read).symm

end Pointer

namespace Step

/-- An item is known by the text of its index. -/
theorem index_text_injective {i j : Nat} (h : (Step.index i).text = (Step.index j).text) : i = j :=
  Nat.repr_inj.mp h

end Step

/-! ## A step in front -/

namespace Finding

/-- The pointer from one step further out has a piece in front. -/
theorem toList_path_under (step : Step) (f : Finding) :
    (f.under step).path.toList = ('/' :: Pointer.escape step.text.toList) ++ f.path.toList := by
  simp only [path, Location.pointer, Pointer.ofNames, String.toList_ofList, Pointer.encodeChars, under,
    List.map_cons, List.flatMap_cons, List.cons_append]

/-- The order of findings does not see a step in front. -/
theorem before_under (step : Step) (f g : Finding) :
    (f.under step).before (g.under step) = f.before g := by
  have depth (f : Finding) : Pointer.depth (f.under step).path = Pointer.depth f.path + 1 := by
    rw [Pointer.depth, Pointer.depth, toList_path_under, List.count_append, List.count_cons_self,
      List.count_eq_zero_of_not_mem (Pointer.slash_not_mem_escape _)]
    omega
  have lt {f g : Finding} (h : f.path < g.path) : (f.under step).path < (g.under step).path := by
    rw [String.lt_iff_toList_lt, toList_path_under, toList_path_under]
    exact List.append_left_lt (String.lt_iff_toList_lt.mp h)
  have order : (f.under step).path ≤ (g.under step).path ↔ f.path ≤ g.path := by
    refine ⟨fun h => le_of_not_gt fun later => absurd h (not_le_of_gt (lt later)), fun h => ?_⟩
    rcases h.lt_or_eq with h | h
    · exact (lt h).le
    · refine le_of_eq (String.toList_inj.mp ?_)
      rw [toList_path_under, toList_path_under, h]
  simp only [before, depth, order, Nat.add_lt_add_iff_right, Nat.add_right_cancel_iff]

/-- The order of findings is that of numbers and texts. -/
theorem before_trans (f g h : Finding) (hfg : f.before g = true) (hgh : g.before h = true) :
    f.before h = true := by
  simp only [before, Bool.or_eq_true, Bool.and_eq_true, decide_eq_true_eq] at *
  rcases hfg with hfg | ⟨hfg, pfg⟩
  · exact .inl (hgh.elim (hfg.trans) fun hgh => hgh.1 ▸ hfg)
  · rcases hgh with hgh | ⟨hgh, pgh⟩
    · exact .inl (hfg ▸ hgh)
    · exact .inr ⟨hfg.trans hgh, pfg.trans pgh⟩

/-- Any two findings can be put in order. -/
theorem before_total (f g : Finding) : (f.before g || g.before f) = true := by
  simp only [before, Bool.or_eq_true, Bool.and_eq_true, decide_eq_true_eq]
  rcases Nat.lt_trichotomy (Pointer.depth f.path) (Pointer.depth g.path) with h | h | h
  · exact .inl (.inl h)
  · exact (le_total f.path g.path).imp (fun p => .inr ⟨h, p⟩) fun p => .inr ⟨h.symm, p⟩
  · exact .inr (.inl h)

/-- From one step further out, findings say the same if they did before. -/
theorem key_under_iff {step : Step} {f g : Finding} :
    (f.under step).key = (g.under step).key ↔ f.key = g.key := by
  have paths : (f.under step).path = (g.under step).path ↔ f.path = g.path := by
    rw [← String.toList_inj, toList_path_under, toList_path_under, List.append_cancel_left_eq,
      String.toList_inj]
  rw [key, key, Prod.mk.injEq, paths]
  exact Prod.mk.injEq .. ▸ Iff.rfl

/-- Findings in two items say different things. -/
theorem ne_key_under_index {i j : Nat} (h : i ≠ j) (f g : Finding) :
    (f.under (.index i)).key ≠ (g.under (.index j)).key := by
  intro same
  have names := Pointer.ofNames_injective (congrArg Prod.fst same)
  exact h (Step.index_text_injective (List.cons.inj names).1)

end Finding

/-! ## Sorting part by part -/

section Sorting

variable {α ι : Type} {le : α → α → Bool} (trans : ∀ a b c, le a b = true → le b c = true → le a c = true)
  (total : ∀ a b, (le a b || le b a) = true)

include trans total

/-- To sort a list is to insert its first item into the rest. -/
theorem mergeSort_cons_eq (a : α) (l : List α) :
    (a :: l).mergeSort le = (l.mergeSort le).orderedInsert (le · · = true) a := by
  obtain ⟨front, back, here, rest, before⟩ := List.mergeSort_cons trans total a l
  have sorted := List.pairwise_mergeSort trans total (a :: l)
  rw [here] at sorted ⊢
  rw [rest]
  clear here rest
  induction front with
  | nil =>
    cases back with
    | nil => rfl
    | cons b back =>
      have first : le a b = true := (List.pairwise_cons.mp sorted).1 b List.mem_cons_self
      simp [first]
  | cons b front ih =>
    have passed : ¬ le a b = true := by
      simpa using before b List.mem_cons_self
    rw [List.cons_append, List.cons_append, List.orderedInsert_cons, if_neg passed]
    exact congrArg (b :: ·)
      (ih (fun c hc => before c (List.mem_cons_of_mem _ hc)) (List.pairwise_cons.mp sorted).2)

/-- An item can be inserted before or after one that it does not come before. -/
theorem orderedInsert_comm {a b : α} (h : ¬ le a b = true) (l : List α) :
    (l.orderedInsert (le · · = true) a).orderedInsert (le · · = true) b =
      (l.orderedInsert (le · · = true) b).orderedInsert (le · · = true) a := by
  have later : le b a = true := (Bool.or_eq_true_iff.mp (total a b)).resolve_left h
  induction l with
  | nil => simp [h, later]
  | cons c l ih =>
    by_cases hac : le a c = true
    · have hbc : le b c = true := trans b a c later hac
      simp [hac, hbc, h, later]
    · by_cases hbc : le b c = true
      · simp [hac, hbc, h]
      · simp [hac, hbc, ih]

/-- Inserting a list that an item was inserted into is inserting the list and then the item. -/
theorem foldr_orderedInsert (a : α) (l acc : List α) :
    (l.orderedInsert (le · · = true) a).foldr (List.orderedInsert (le · · = true)) acc =
      (l.foldr (List.orderedInsert (le · · = true)) acc).orderedInsert (le · · = true) a := by
  induction l with
  | nil => rfl
  | cons b l ih =>
    by_cases h : le a b = true
    · rw [List.orderedInsert_cons, if_pos h]
      rfl
    · rw [List.orderedInsert_cons, if_neg h, List.foldr_cons, ih, List.foldr_cons]
      exact orderedInsert_comm trans total h _

/-- Inserting a list is inserting it sorted. -/
theorem foldr_mergeSort (l acc : List α) :
    (l.mergeSort le).foldr (List.orderedInsert (le · · = true)) acc =
      l.foldr (List.orderedInsert (le · · = true)) acc := by
  induction l with
  | nil => simp
  | cons a l ih =>
    rw [mergeSort_cons_eq trans total, foldr_orderedInsert trans total, ih, List.foldr_cons]

/-- A stable sort inserts the front, one finding after the other, into the sorted rest. -/
theorem mergeSort_append (front back : List α) :
    (front ++ back).mergeSort le =
      front.foldr (List.orderedInsert (le · · = true)) (back.mergeSort le) := by
  induction front with
  | nil => rfl
  | cons a front ih => rw [List.cons_append, mergeSort_cons_eq trans total, ih, List.foldr_cons]

/-- **Sorting what was sorted part by part** is sorting. -/
theorem mergeSort_flatMap (xs : List ι) (f : ι → List α) :
    (xs.flatMap f).mergeSort le = (xs.flatMap fun x => (f x).mergeSort le).mergeSort le := by
  induction xs with
  | nil => rfl
  | cons x xs ih =>
    rw [List.flatMap_cons, List.flatMap_cons, mergeSort_append trans total, ih,
      mergeSort_append trans total, foldr_mergeSort trans total]

end Sorting

/-! ## Each finding once -/

section Distinct

variable {α β : Type} [DecidableEq α]

/-- It matters only which keys were seen. -/
theorem distinctFrom_congr {seen other : List α} {entries : List (α × β)}
    (h : ∀ e ∈ entries, e.1 ∈ seen ↔ e.1 ∈ other) :
    distinctFrom seen entries = distinctFrom other entries := by
  induction entries generalizing seen other with
  | nil => rfl
  | cons e entries ih =>
    obtain ⟨key, value⟩ := e
    obtain ⟨here, rest⟩ := List.forall_mem_cons.mp h
    by_cases hk : key ∈ seen
    · rw [distinctFrom, distinctFrom, if_pos hk, if_pos (here.mp hk), ih rest]
    · rw [distinctFrom, distinctFrom, if_neg hk, if_neg (mt here.mpr hk)]
      refine congrArg (value :: ·) (ih fun e he => ?_)
      rw [List.mem_cons, List.mem_cons, rest e he]

/-- What has no key in common with what stands in front of it is taken by itself. -/
theorem distinctFrom_append {seen : List α} {front back : List (α × β)}
    (h : ∀ e ∈ back, e.1 ∉ front.map (·.1)) :
    distinctFrom seen (front ++ back) = distinctFrom seen front ++ distinctFrom seen back := by
  induction front generalizing seen with
  | nil => rfl
  | cons e front ih =>
    obtain ⟨key, value⟩ := e
    have rest : ∀ e ∈ back, e.1 ∉ front.map (·.1) := fun e he hm => h e he (List.mem_cons_of_mem _ hm)
    by_cases hk : key ∈ seen
    · rw [List.cons_append, distinctFrom, distinctFrom, if_pos hk, if_pos hk, ih rest]
    · rw [List.cons_append, distinctFrom, distinctFrom, if_neg hk, if_neg hk, ih rest, List.cons_append]
      refine congrArg (value :: _ ++ ·) (distinctFrom_congr fun e he => ?_)
      exact ⟨fun hm => (List.mem_cons.mp hm).resolve_left fun same => h e he (same ▸ List.mem_cons_self),
        List.mem_cons_of_mem _⟩

/-- Whatever tells the same values apart leaves the same values. -/
theorem distinctFrom_map {γ δ : Type} [DecidableEq δ] {f : γ → β} {keyOf : β → α} {keyOf' : γ → δ}
    (seen l : List γ) (h : ∀ a ∈ l, ∀ b ∈ seen ++ l, keyOf (f a) = keyOf (f b) ↔ keyOf' a = keyOf' b) :
    distinctFrom (seen.map fun a => keyOf (f a)) ((l.map f).map fun b => (keyOf b, b)) =
      (distinctFrom (seen.map keyOf') (l.map fun a => (keyOf' a, a))).map f := by
  induction l generalizing seen with
  | nil => rfl
  | cons a l ih =>
    have known : keyOf (f a) ∈ seen.map (fun a => keyOf (f a)) ↔ keyOf' a ∈ seen.map keyOf' := by
      rw [List.mem_map, List.mem_map]
      refine exists_congr fun b => and_congr_right fun hb => ?_
      rw [eq_comm, h a List.mem_cons_self b (List.mem_append_left _ hb), eq_comm]
    simp only [List.map_cons, distinctFrom]
    by_cases hk : keyOf' a ∈ seen.map keyOf'
    · rw [if_pos (known.mpr hk), if_pos hk]
      refine ih seen fun b hb c hc => h b (List.mem_cons_of_mem _ hb) c ?_
      rcases List.mem_append.mp hc with hc | hc
      · exact List.mem_append_left _ hc
      · exact List.mem_append_right _ (List.mem_cons_of_mem _ hc)
    · rw [if_neg (mt known.mp hk), if_neg hk, List.map_cons]
      refine congrArg (f a :: ·) (ih (a :: seen) fun b hb c hc => ?_)
      exact h b (List.mem_cons_of_mem _ hb) c (List.perm_middle.mem_iff.mpr hc)

end Distinct

namespace Finding

/-- Parts without a common finding are made distinct part by part. -/
theorem distinct_flatMap {ι : Type} {xs : List ι} {f : ι → List Finding}
    (h : xs.Pairwise fun x y => ∀ a ∈ f x, ∀ b ∈ f y, a.key ≠ b.key) :
    distinct (xs.flatMap f) = xs.flatMap fun x => distinct (f x) := by
  induction xs with
  | nil => rfl
  | cons x xs ih =>
    obtain ⟨first, rest⟩ := List.pairwise_cons.mp h
    rw [List.flatMap_cons, List.flatMap_cons, ← ih rest]
    rw [distinct, List.map_append]
    refine distinctFrom_append fun e he hm => ?_
    obtain ⟨b, hb, rfl⟩ := List.mem_map.mp he
    obtain ⟨y, hy, hb⟩ := List.mem_flatMap.mp hb
    rw [List.map_map] at hm
    obtain ⟨a, ha, same⟩ := List.mem_map.mp hm
    exact first y hy a ha b hb same

/-- A step in front of all places keeps findings apart. -/
theorem distinct_under (step : Step) (found : List Finding) :
    distinct (found.map (under step)) = (distinct found).map (under step) :=
  distinctFrom_map [] found fun _ _ _ _ => key_under_iff

/-- Findings as a check lists them: each once, shallowest first. -/
def listed (found : List Finding) : List Finding :=
  (distinct found).mergeSort before

/-- Listing does not see a step in front. -/
theorem listed_under (step : Step) (found : List Finding) :
    listed (found.map (under step)) = (listed found).map (under step) := by
  rw [listed, listed, distinct_under]
  exact (List.map_mergeSort fun f _ g _ => (before_under step f g).symm).symm

/-- What was found in items, seen from the array. -/
def inItems (found : List (List Finding)) : List Finding :=
  found.zipIdx.flatMap fun (found, i) => found.map (under (.index i))

/-- **The list for an array** is made of the lists for its items. -/
theorem listed_inItems (found : List (List Finding)) :
    listed (inItems found) = (inItems (found.map listed)).mergeSort before := by
  have apart : found.zipIdx.Pairwise fun x y => ∀ a ∈ x.1.map (under (.index x.2)),
      ∀ b ∈ y.1.map (under (.index y.2)), a.key ≠ b.key := by
    have indexes : (found.zipIdx.map Prod.snd).Nodup := by
      rw [List.zipIdx_map_snd]
      exact List.nodup_range'
    refine (List.pairwise_map.mp indexes).imp fun {x y} hne a ha b hb => ?_
    obtain ⟨f, -, rfl⟩ := List.mem_map.mp ha
    obtain ⟨g, -, rfl⟩ := List.mem_map.mp hb
    exact ne_key_under_index hne f g
  rw [listed, inItems, distinct_flatMap apart, mergeSort_flatMap before_trans before_total, inItems,
    List.zipIdx_map, List.flatMap_map]
  refine congrArg (List.mergeSort · before) (List.flatMap_congr fun x _ => ?_)
  exact listed_under (.index x.2) x.1

end Finding

end ReflectedSchema
