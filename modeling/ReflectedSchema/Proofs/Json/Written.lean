import Mathlib
import ReflectedSchema.Proofs.Json.Parts
import ReflectedSchema.Proofs.Json.Quoting
import ReflectedSchema.Proofs.Json.Scanning

/-!
# Values are read back

A value without doubles whose integers are not too long and whose objects have each key once is `Legible`: it
is read back from its text in every layout.  The reader stops where a value nests too deep, so what it makes
of the text of a value is `told` by the depth of the value alone.  Items and fields are read back one by one,
each with everything behind it as the rest; the induction is on the value.
-/

namespace ReflectedSchema.Json

variable {layout : Layout} {level levels : Nat} {rest : List Char} {c : Char}
  {value : List Char → Read Json}

/-! ## Integers -/

/-- Digits begin with a zero for zero only. -/
theorem head_toDigits {n : Nat} (h : (Nat.toDigits 10 n).head? = some '0') :
    Nat.toDigits 10 n = ['0'] := by
  induction n using Nat.strongRecOn with
  | ind n ih =>
    by_cases small : n < 10
    · rw [Nat.toDigits_of_lt_base small] at h ⊢
      exact congrArg (· :: []) (Option.some.inj h)
    · rw [Nat.toDigits_of_base_le (by decide) (Nat.le_of_not_lt small),
        List.head?_append_of_ne_nil _ Nat.toDigits_ne_nil] at h
      have front := ih (n / 10) (by omega) h
      have zero := Nat.ofDigitChars_ten_toDigits (n := n / 10)
      rw [front] at zero
      exact absurd zero (by show (0 : Nat) ≠ _; omega)

/-- Reading the digits of a number gives the number. -/
theorem digitsValue_toDigits (n : Nat) : digitsValue (Nat.toDigits 10 n) = n :=
  (Nat.ofDigitChars_eq_foldl (b := 10)).symm.trans Nat.ofDigitChars_ten_toDigits

/-- What a number is written with are digits. -/
theorem isDigit_of_mem_toDigits {n : Nat} (h : c ∈ Nat.toDigits 10 n) : c.isDigit = true :=
  Nat.isDigit_of_mem_toDigits (by decide) (by decide) h

/-- A number is read back from its digits. -/
theorem readNumber_toDigits {n : Nat} (short : (Nat.toDigits 10 n).length ≤ maxDigits) (h : Closes rest)
    (negative : Bool) (start : List Char) :
    readNumber negative start (Nat.toDigits 10 n ++ rest) =
      .ok (.int (if negative then -n else n), rest) := by
  obtain ⟨noDigit, noPart, noPower⟩ := h.ends
  rw [readNumber_eq,
    whole?_append (fun _ => isDigit_of_mem_toDigits) Nat.toDigits_ne_nil head_toDigits noDigit]
  simp only [noPart, noPower, digitsValue_toDigits]
  rw [if_neg (Nat.not_lt.mpr short)]

/-- An integer is written as its digits, behind a sign if it is negative. -/
theorem toList_toString (n : Int) : (toString n).toList =
    if n < 0 then '-' :: Nat.toDigits 10 n.natAbs else Nat.toDigits 10 n.natAbs := by
  cases n with
  | ofNat n =>
    rw [if_neg (by simp)]
    exact Nat.toList_repr
  | negSucc n =>
    rw [if_pos (Int.negSucc_lt_zero n)]
    show ("-" ++ Nat.repr (n + 1)).toList = _
    rw [String.toList_append, Nat.toList_repr]
    rfl

/-- An integer that is not too long to be read. -/
def Short (n : Int) : Prop := (Nat.toDigits 10 n.natAbs).length ≤ maxDigits

/-- Integers of up to twenty digits are short. -/
theorem short_of_lt {n : Int} (h : n.natAbs < 10 ^ 20) : Short n := by
  refine (Nat.length_toDigits_le_iff (by decide) (by decide)).mpr (h.trans_le ?_)
  exact Nat.pow_le_pow_right (by decide) (by decide)

/-- The text of an integer begins with a minus or a digit. -/
theorem exists_toString (n : Int) :
    ∃ c cs, (toString n).toList = c :: cs ∧ (c = '-' ∨ c.isDigit = true) := by
  obtain ⟨c, cs, digits⟩ := List.exists_cons_of_ne_nil (Nat.toDigits_ne_nil (b := 10) (n := n.natAbs))
  rw [toList_toString]
  split_ifs with negative
  · exact ⟨'-', _, rfl, .inl rfl⟩
  · exact ⟨c, cs, digits, .inr (isDigit_of_mem_toDigits (digits ▸ List.mem_cons_self))⟩

/-- **An integer is read back from its text.** -/
theorem readScalar_toString {n : Int} (short : Short n) (h : Closes rest) :
    readScalar ((toString n).toList ++ rest) = .ok (.int n, rest) := by
  obtain ⟨c, cs, digits⟩ := List.exists_cons_of_ne_nil (Nat.toDigits_ne_nil (b := 10) (n := n.natAbs))
  have digit : c.isDigit = true := isDigit_of_mem_toDigits (digits ▸ List.mem_cons_self)
  rw [toList_toString]
  split_ifs with negative
  · have sign : -(n.natAbs : Int) = n := by omega
    rw [digits, List.cons_append, List.cons_append, readScalar_minus digit, ← List.cons_append, ← digits,
      readNumber_toDigits short h, if_pos rfl, sign]
  · have sign : (n.natAbs : Int) = n := by omega
    rw [digits, List.cons_append, readScalar_digit digit, ← List.cons_append, ← digits,
      readNumber_toDigits short h, if_neg (by decide), sign]

/-! ## Legible values -/

/-- Values that can be told from their texts: they hold no doubles, their integers are not too long, and
their objects have each key once. -/
inductive Legible : Json → Prop
  | null : Legible .null
  | bool (b : Bool) : Legible (.bool b)
  | int {n : Int} (short : Short n) : Legible (.int n)
  | str (s : String) : Legible (.str s)
  | arr {items : List Json} (each : ∀ item ∈ items, Legible item) : Legible (.arr items)
  | obj {fields : List (String × Json)} (distinct : (fields.map (·.1)).Nodup)
      (each : ∀ f ∈ fields, Legible f.2) : Legible (.obj fields)

/-- How a text is read that holds a value: one that nests too deep is refused. -/
def told (levels : Nat) (v : Json) (rest : List Char) : Read Json :=
  if v.depth ≤ levels then .ok (v, rest) else .error .tooDeep

/-- A value is read back from its text, whatever may stand behind it. -/
def ReadsBack (value : List Char → Read Json) (layout : Layout) (level levels : Nat) (v : Json) : Prop :=
  ∀ rest, Closes rest → value (write layout level v ++ rest) = told levels v rest

/-! ## Blanks -/

/-- What stands between items is blank. -/
theorem gap_blank (layout : Layout) (level : Nat) : ∀ c ∈ layout.gap level, isSpace c = true := by
  intro c hc
  cases layout with
  | compact => cases hc
  | spaced =>
    cases List.mem_singleton.mp hc
    rfl
  | indented =>
    rcases List.mem_cons.mp hc with rfl | hc
    · rfl
    · rw [List.eq_of_mem_replicate hc]
      rfl

/-- What stands inside the brackets is blank. -/
theorem edge_blank (layout : Layout) (level : Nat) : ∀ c ∈ layout.edge level, isSpace c = true := by
  cases layout with
  | indented => exact gap_blank .indented level
  | _ => nofun

/-- A colon stands in front of blanks only. -/
theorem colon_blank (layout : Layout) :
    ∃ blank, layout.colon = ':' :: blank ∧ ∀ c ∈ blank, isSpace c = true := by
  cases layout with
  | compact => exact ⟨[], rfl, nofun⟩
  | _ => exact ⟨[' '], rfl, by simp [isSpace]⟩

/-- The text of a value begins with a character that may open one. -/
theorem Legible.exists_write {v : Json} (h : v.Legible) (layout : Layout) (level : Nat) :
    ∃ c cs, write layout level v = c :: cs ∧ Opening c := by
  have opens {c : Char} (h : c ∈ ['n', 'f', 't', '-', '"', '[', '\x7b']) : Opening c := by
    simp only [List.mem_cons, List.not_mem_nil, or_false] at h
    rcases h with rfl | rfl | rfl | rfl | rfl | rfl | rfl <;>
      exact ⟨rfl, by decide, by decide, by decide⟩
  cases h with
  | null => exact ⟨'n', _, rfl, opens (by decide)⟩
  | bool b =>
    cases b with
    | false => exact ⟨'f', _, rfl, opens (by decide)⟩
    | true => exact ⟨'t', _, rfl, opens (by decide)⟩
  | @int n short =>
    obtain ⟨c, cs, text, first⟩ := exists_toString n
    rcases first with rfl | digit
    · exact ⟨'-', cs, text, opens (by decide)⟩
    · exact ⟨c, cs, text, .of_digit digit⟩
  | str s => exact ⟨'"', _, rfl, opens (by decide)⟩
  | @arr items each => cases items <;> exact ⟨'[', _, rfl, opens (by decide)⟩
  | @obj fields distinct each => cases fields <;> exact ⟨'\x7b', _, rfl, opens (by decide)⟩

/-- Blanks in front of a value are skipped, and nothing of the value. -/
theorem skip_write {v : Json} (h : v.Legible) {blank : List Char} (hb : ∀ c ∈ blank, isSpace c = true) :
    skip (blank ++ (write layout level v ++ rest)) = write layout level v ++ rest := by
  obtain ⟨c, cs, text, opening⟩ := h.exists_write layout level
  refine skip_append hb ?_
  rw [text]
  rintro d ⟨⟩
  exact opening.space

/-! ## Elements -/

/-- There are at least as many characters as items, because each has a comma. -/
theorem length_le_flatMap {α : Type} {text : α → List Char} (xs : List α) :
    xs.length ≤ (xs.flatMap fun x => ',' :: text x).length := by
  induction xs with
  | nil => exact Nat.le_refl _
  | cons x xs ih =>
    rw [List.flatMap_cons]
    simp only [List.length_cons, List.length_append]
    omega

section

variable {α : Type} {element : List Char → Read α} {text : α → List Char} {fits : α → Prop}
  [DecidablePred fits]
  {opening close : Char} {finish : List α → Json} {d : Defect} {edge gap blank bound : List Char}

/-- **Separated elements are read back**, if each of them is and begins with no blank. -/
theorem readSeparated_write (hc : close = ']' ∨ close = '\x7d') (hg : ∀ c ∈ gap, isSpace c = true)
    (hb : ∀ c ∈ blank, isSpace c = true) {x : α} {xs : List α}
    (opens : ∀ y ∈ x :: xs, ∃ c cs, text y = c :: cs ∧ isSpace c = false)
    (back : ∀ y ∈ x :: xs, ∀ rest, Closes rest →
      element (text y ++ rest) = if fits y then .ok (y, rest) else .error .tooDeep)
    (room : xs.length < bound.length) (done : List α) (rest : List Char) :
    readSeparated element close finish d bound done
        (text x ++ (xs.flatMap (fun y => ',' :: (gap ++ text y)) ++ (blank ++ close :: rest))) =
      if ∀ y ∈ x :: xs, fits y then .ok (finish (done.reverse ++ x :: xs), rest) else .error .tooDeep := by
  have comma : close ≠ ',' := by rcases hc with rfl | rfl <;> decide
  have noBlank : isSpace close = false := by rcases hc with rfl | rfl <;> rfl
  induction xs generalizing x done bound with
  | nil =>
    obtain ⟨b, bound, rfl⟩ := List.exists_cons_of_length_pos room
    have first := back x List.mem_cons_self (blank ++ close :: rest) (.append hb (closes_cons (.inr hc) rest))
    rw [List.flatMap_nil, List.nil_append]
    by_cases shallow : fits x
    · rw [if_pos shallow] at first
      rw [readSeparated_last first (skip_append hb (by simpa using noBlank)), if_pos (by simpa using shallow)]
    · rw [if_neg shallow] at first
      rw [readSeparated_of_error first, if_neg (by simpa using shallow)]
  | cons next xs ih =>
    obtain ⟨b, bound, rfl⟩ := List.exists_cons_of_length_pos (Nat.zero_lt_of_lt room)
    obtain ⟨-, opensRest⟩ := List.forall_mem_cons.mp opens
    obtain ⟨firstBack, restBack⟩ := List.forall_mem_cons.mp back
    have shape : (next :: xs).flatMap (fun y => ',' :: (gap ++ text y)) ++ (blank ++ close :: rest) =
        ',' :: (gap ++ (text next ++ (xs.flatMap (fun y => ',' :: (gap ++ text y)) ++
          (blank ++ close :: rest)))) := by
      simp
    have first := firstBack _ (closes_cons (.inl rfl) (gap ++ (text next ++
      (xs.flatMap (fun y => ',' :: (gap ++ text y)) ++ (blank ++ close :: rest)))))
    rw [shape]
    by_cases shallow : fits x
    · rw [if_pos shallow] at first
      obtain ⟨c, cs, begins, open_⟩ := opensRest next List.mem_cons_self
      rw [readSeparated_more comma first rfl, skip_append hg (by rw [begins]; simpa using open_),
        ih opensRest restBack (Nat.lt_of_succ_lt_succ room)]
      simp [shallow]
    · rw [if_neg shallow] at first
      rw [readSeparated_of_error first, if_neg fun h => shallow (h x List.mem_cons_self)]

/-- Elements in brackets are read back, if each of them is and begins with no blank and does not close. -/
theorem readBracketed_write (hc : close = ']' ∨ close = '\x7d') (he : ∀ c ∈ edge, isSpace c = true)
    (hg : ∀ c ∈ gap, isSpace c = true) (hb : ∀ c ∈ blank, isSpace c = true) {x : α} {xs : List α}
    (opens : ∀ y ∈ x :: xs, ∃ c cs, text y = c :: cs ∧ isSpace c = false ∧ c ≠ close)
    (back : ∀ y ∈ x :: xs, ∀ rest, Closes rest →
      element (text y ++ rest) = if fits y then .ok (y, rest) else .error .tooDeep) (rest : List Char) :
    readBracketed element opening close finish d
        (edge ++ (text x ++ (xs.flatMap (fun y => ',' :: (gap ++ text y)) ++ (blank ++ close :: rest)))) =
      if ∀ y ∈ x :: xs, fits y then .ok (finish (x :: xs), rest) else .error .tooDeep := by
  obtain ⟨c, cs, begins, open_, unclosed⟩ := opens x List.mem_cons_self
  have room : xs.length ≤ (xs.flatMap fun y => ',' :: (gap ++ text y)).length := length_le_flatMap xs
  rw [readBracketed, skip_append he (by rw [begins]; simpa using open_),
    if_neg (by rw [begins]; simpa using unclosed),
    readSeparated_write hc hg hb (fun y hy => ?_) back (by simp; omega) [] rest]
  · rfl
  · obtain ⟨c, cs, begins, open_, -⟩ := opens y hy
    exact ⟨c, cs, begins, open_⟩

end

/-- Items are written one after the other, each behind a comma. -/
theorem writeItems_eq (layout : Layout) (level : Nat) (items : List Json) : writeItems layout level items =
    items.flatMap fun item => ',' :: (layout.gap level ++ write layout level item) := by
  induction items with
  | nil => rfl
  | cons item items ih => rw [writeItems, ih, List.flatMap_cons, List.cons_append]

/-- The text of a field. -/
def fieldText (layout : Layout) (level : Nat) (f : String × Json) : List Char :=
  stringText f.1 ++ (layout.colon ++ write layout level f.2)

/-- Fields are written one after the other, each behind a comma. -/
theorem writeFields_eq (layout : Layout) (level : Nat) (fields : List (String × Json)) :
    writeFields layout level fields =
      fields.flatMap fun f => ',' :: (layout.gap level ++ fieldText layout level f) := by
  induction fields with
  | nil => rfl
  | cons f fields ih =>
    rw [writeFields, ih, List.flatMap_cons, fieldText]
    simp

/-- Items are at most so deep exactly if each of them is. -/
theorem depthOfItems_le_iff {n : Nat} {items : List Json} :
    depthOfItems items ≤ n ↔ ∀ item ∈ items, item.depth ≤ n := by
  induction items with
  | nil => simp [depthOfItems]
  | cons item rest ih => rw [depthOfItems, max_le_iff, ih, List.forall_mem_cons]

/-- Fields are at most so deep exactly if each value is. -/
theorem depthOfFields_le_iff_forall {n : Nat} {fields : List (String × Json)} :
    depthOfFields fields ≤ n ↔ ∀ f ∈ fields, f.2.depth ≤ n := by
  induction fields with
  | nil => simp [depthOfFields]
  | cons f rest ih => rw [depthOfFields, max_le_iff, ih, List.forall_mem_cons]

/-- A field is read back if its value is. -/
theorem readField_write {f : String × Json} (legible : f.2.Legible)
    (back : ReadsBack value layout level levels f.2) (h : Closes rest) :
    readField value (fieldText layout level f ++ rest) =
      if f.2.depth ≤ levels then .ok (f, rest) else .error .tooDeep := by
  obtain ⟨blank, colon, hb⟩ := colon_blank layout
  have shape : fieldText layout level f ++ rest = '"' :: (f.1.toList.flatMap stringChar ++ '"' ::
      (':' :: (blank ++ (write layout level f.2 ++ rest)))) := by
    rw [fieldText, stringText, colon]
    simp
  have behind : skip (':' :: (blank ++ (write layout level f.2 ++ rest))) =
      ':' :: (blank ++ (write layout level f.2 ++ rest)) := rfl
  rw [shape, readField_quoted, readString_stringText]
  simp only [behind, skip_write legible hb, back rest h, told]
  split_ifs <;> rfl

/-- Entries with distinct keys are merged already. -/
theorem merge_of_distinct {α : Type} {entries : List (String × α)} (h : (entries.map (·.1)).Nodup) :
    merge entries = entries := by
  suffices hm : ∀ merged : List (String × α), ((merged ++ entries).map (·.1)).Nodup →
      entries.foldl (fun merged e => set e.1 e.2 merged) merged = merged ++ entries from hm [] h
  clear h
  induction entries with
  | nil => simp
  | cons e entries ih =>
    intro merged distinct
    have absent : e.1 ∉ merged.map (·.1) := by
      rw [List.map_append, List.nodup_append] at distinct
      exact fun hm => distinct.2.2 _ hm _ (by simp) rfl
    rw [List.foldl_cons, set_of_not_mem absent, ih _ (by simpa using distinct)]
    simp

/-! ## Values -/

/-- **What is written is read back**, in every layout and at every level, unless it nests too deep. -/
theorem Legible.readsBack {v : Json} (h : v.Legible) (layout : Layout) (level levels : Nat) :
    ReadsBack (readValue levels) layout level levels v := by
  induction h generalizing level levels with
  | null =>
    intro rest _
    show readValue levels ('n' :: _) = _
    rw [readValue_scalar (by rintro c ⟨⟩; decide)]
    rfl
  | bool b =>
    intro rest _
    cases b with
    | false =>
      show readValue levels ('f' :: _) = _
      rw [readValue_scalar (by rintro c ⟨⟩; decide)]
      rfl
    | true =>
      show readValue levels ('t' :: _) = _
      rw [readValue_scalar (by rintro c ⟨⟩; decide)]
      rfl
  | @int n short =>
    intro rest closes
    obtain ⟨c, cs, text, first⟩ := exists_toString n
    have noBracket : ∀ d ∈ ((toString n).toList ++ rest).head?, d ≠ '"' ∧ d ≠ '[' ∧ d ≠ '\x7b' := by
      rw [text]
      rintro d ⟨⟩
      rcases first with rfl | digit
      · decide
      · exact ⟨digit_ne digit rfl, digit_ne digit rfl, digit_ne digit rfl⟩
    rw [write, readValue_scalar noBracket, readScalar_toString short closes]
    rfl
  | str s =>
    intro rest _
    simp only [write, stringText, List.cons_append, List.append_assoc, List.nil_append]
    rw [readValue_string, readString_stringText]
    rfl
  | @arr items each ih =>
    intro rest _
    cases levels with
    | zero => cases items <;> rfl
    | succ levels =>
      cases items with
      | nil => rfl
      | cons item items =>
        have opens : ∀ v ∈ item :: items, ∃ c cs, write layout (level + 1) v = c :: cs ∧
            isSpace c = false ∧ c ≠ ']' := fun v hv => by
          obtain ⟨c, cs, begins, opening⟩ := (each v hv).exists_write layout (level + 1)
          exact ⟨c, cs, begins, opening.space, opening.bracket⟩
        have back : ∀ v ∈ item :: items, ∀ rest, Closes rest →
            readValue levels (write layout (level + 1) v ++ rest) =
              if v.depth ≤ levels then .ok (v, rest) else .error .tooDeep :=
          fun v hv => ih v hv (level + 1) levels
        rw [write, writeItems_eq]
        simp only [List.cons_append, List.append_assoc, List.nil_append]
        rw [readValue_array, readBracketed_write (.inl rfl) (edge_blank layout (level + 1))
          (gap_blank layout (level + 1)) (edge_blank layout level) opens back rest, told, depth]
        simp only [Nat.add_le_add_iff_right, depthOfItems_le_iff]
  | @obj fields distinct each ih =>
    intro rest _
    cases levels with
    | zero => cases fields <;> rfl
    | succ levels =>
      cases fields with
      | nil => rfl
      | cons f fields =>
        have opens : ∀ g ∈ f :: fields, ∃ c cs, fieldText layout (level + 1) g = c :: cs ∧
            isSpace c = false ∧ c ≠ '\x7d' :=
          fun g _ => ⟨'"', _, rfl, rfl, by decide⟩
        have back : ∀ g ∈ f :: fields, ∀ rest, Closes rest →
            readField (readValue levels) (fieldText layout (level + 1) g ++ rest) =
              if g.2.depth ≤ levels then .ok (g, rest) else .error .tooDeep :=
          fun g hg rest => readField_write (each g hg) (ih g hg (level + 1) levels)
        have shape : write layout level (.obj (f :: fields)) ++ rest = '\x7b' :: (layout.edge (level + 1) ++
            (fieldText layout (level + 1) f ++
              (fields.flatMap (fun f => ',' :: (layout.gap (level + 1) ++ fieldText layout (level + 1) f)) ++
                (layout.edge level ++ '\x7d' :: rest)))) := by
          rw [write, writeFields_eq, fieldText]
          simp
        rw [shape, readValue_object, readBracketed_write (.inr rfl) (edge_blank layout (level + 1))
          (gap_blank layout (level + 1)) (edge_blank layout level) opens back rest, told, depth]
        simp only [Nat.add_le_add_iff_right, depthOfFields_le_iff_forall, merge_of_distinct distinct]

/-- **A text that holds a legible value is read as this value**, or refused because it nests too deep. -/
theorem Legible.read_text {v : Json} (h : v.Legible) (layout : Layout) (levels : Nat) :
    read levels (v.text layout).toList = if v.depth ≤ levels then .ok v else .error .tooDeep := by
  have back := h.readsBack layout 0 levels [] closes_nil
  have blankless : skip ([] ++ (write layout 0 v ++ [])) = write layout 0 v ++ [] :=
    skip_write h (List.forall_mem_nil _)
  rw [List.append_nil] at back blankless
  obtain ⟨c, cs, text, opening⟩ := h.exists_write layout 0
  rw [Json.text, String.toList_ofList, text, read, if_neg opening.mark, ← text]
  rw [List.nil_append] at blankless
  rw [blankless, back, told]
  split_ifs with shallow
  · rfl
  · rfl

end ReflectedSchema.Json
