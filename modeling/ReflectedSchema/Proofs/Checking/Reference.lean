import Mathlib
import ReflectedSchema.Schema.Compiled
import ReflectedSchema.Schema.Node

/-!
# References and the names in them

A reference holds the name of a definition as it stands, while following it undoes percent encoding
and the escapes of pointers.  `readBack` says what becomes of a name on the way, and
`follow?_assemble` that a reference is followed down the shared definitions by exactly these names.

A name reads back as itself if it is plain, which means that it holds none of the characters that
either decoding looks at.  Every identifier is plain, and so is the path of an enumeration whose
owner and own name are.
-/

namespace ReflectedSchema

/-! ## Percent encoding of texts without percent signs -/

namespace Text

/-- The byte of an ASCII character stands for that character. -/
theorem Utf8.lead_of_ascii {c : Char} (h : c.toNat < 0x80) :
    Utf8.lead (UInt8.ofNat c.toNat).toNat = .ascii c := by
  have hb : (UInt8.ofNat c.toNat).toNat = c.toNat := by
    simp [Nat.mod_eq_of_lt (show c.toNat < 256 by omega)]
  rw [hb, Utf8.lead, if_pos h, Char.ofNat_toNat]

namespace Percent

/-- A character that is no percent sign stands for its own byte. -/
theorem bytes_cons {c : Char} (h : c ≠ '%') (rest : List Char) :
    bytes (c :: rest) = UInt8.ofNat c.toNat :: bytes rest := by
  rw [bytes]
  exact fun _ _ _ hc => absurd hc h

/-- The bytes of ASCII characters without a percent sign come first. -/
theorem decodeLossy_bytes_append {front : List Char} (ascii : ∀ c ∈ front, c.toNat < 0x80)
    (plain : '%' ∉ front) (rest : List Char) :
    Utf8.decodeLossy (bytes (front ++ rest)) = front ++ Utf8.decodeLossy (bytes rest) := by
  induction front with
  | nil => rfl
  | cons c front ih =>
    have hc : c ≠ '%' := fun hc => plain (hc ▸ List.mem_cons_self)
    have ih := ih (fun d hd => ascii d (List.mem_cons_of_mem _ hd))
      fun hm => plain (List.mem_cons_of_mem _ hm)
    rw [Utf8.decodeLossy] at ih ⊢
    rw [List.cons_append, bytes_cons hc, Utf8.decodeLossyFrom,
      Utf8.lead_of_ascii (ascii c List.mem_cons_self)]
    exact congrArg (c :: ·) ih

/-- The bytes of ASCII characters without a percent sign stand for these characters. -/
theorem decodeLossy_bytes {run : List Char} (ascii : ∀ c ∈ run, c.toNat < 0x80) (plain : '%' ∉ run) :
    Utf8.decodeLossy (bytes run) = run := by
  have kept := decodeLossy_bytes_append ascii plain []
  rwa [List.append_nil, show Utf8.decodeLossy (bytes []) = [] from rfl, List.append_nil] at kept

/-- A run of ASCII characters is kept until it ends. -/
theorem decodeFrom_of_not_mem {cs : List Char} (h : '%' ∉ cs) :
    ∀ {run : List Char}, (∀ c ∈ run, c.toNat < 0x80) → '%' ∉ run →
      decodeFrom run cs = run.reverse ++ cs := by
  have flushed : ∀ {run : List Char}, (∀ c ∈ run, c.toNat < 0x80) → '%' ∉ run →
      flush run = run.reverse := fun ascii plain =>
    decodeLossy_bytes (fun c hc => ascii c (List.mem_reverse.mp hc))
      (fun hm => plain (List.mem_reverse.mp hm))
  induction cs with
  | nil =>
    intro run ascii plain
    rw [decodeFrom, flushed ascii plain, List.append_nil]
  | cons c cs ih =>
    intro run ascii plain
    have hc : c ≠ '%' := fun hc => h (hc ▸ List.mem_cons_self)
    have ih := @ih (fun hm => h (List.mem_cons_of_mem _ hm))
    rw [decodeFrom]
    split
    · rename_i low
      rw [ih (List.forall_mem_cons.mpr ⟨low, ascii⟩)
        (fun hm => (List.mem_cons.mp hm).elim (fun he => hc he.symm) plain)]
      simp
    · rw [flushed ascii plain, ih (by simp) (by simp)]
      simp

/-- A text without percent signs is its own percent encoding. -/
theorem decode_of_not_mem {cs : List Char} (h : '%' ∉ cs) : decode cs = cs :=
  decodeFrom_of_not_mem h (by simp) (by simp)

/-- ASCII characters without a percent sign in front of a run are kept. -/
theorem decodeFrom_append {front : List Char} (ascii : ∀ c ∈ front, c.toNat < 0x80)
    (plain : '%' ∉ front) (run cs : List Char) :
    decodeFrom (run ++ front.reverse) cs = front ++ decodeFrom run cs := by
  have flushed : ∀ run : List Char, flush (run ++ front.reverse) = front ++ flush run := by
    intro run
    rw [flush, flush, List.reverse_append, List.reverse_reverse]
    exact decodeLossy_bytes_append ascii plain run.reverse
  induction cs generalizing run with
  | nil => exact flushed run
  | cons c cs ih =>
    rw [decodeFrom, decodeFrom]
    split
    · exact ih (c :: run)
    · rw [flushed, List.append_assoc]

/-- Decoding keeps ASCII characters without a percent sign at the front. -/
theorem decode_append {front : List Char} (ascii : ∀ c ∈ front, c.toNat < 0x80)
    (plain : '%' ∉ front) (cs : List Char) : decode (front ++ cs) = front ++ decode cs := by
  have taken : ∀ {front run : List Char}, (∀ c ∈ front, c.toNat < 0x80) →
      decodeFrom run (front ++ cs) = decodeFrom (front.reverse ++ run) cs := by
    intro front
    induction front with
    | nil => exact fun _ => rfl
    | cons c front ih =>
      intro run ascii
      rw [List.cons_append, decodeFrom, if_pos (ascii c List.mem_cons_self),
        ih fun d hd => ascii d (List.mem_cons_of_mem _ hd), List.reverse_cons, List.append_assoc]
      rfl
  rw [decode, taken ascii, List.append_nil]
  exact decodeFrom_append ascii plain [] cs

end Percent

end Text

/-! ## Escapes of pointers -/

/-- A name without tildes has no escapes. -/
theorem Pointer.unescapeOne_of_not_mem (digit by' : Char) {cs : List Char} (h : '~' ∉ cs) :
    unescapeOne digit by' cs = cs := by
  induction cs with
  | nil => rfl
  | cons c cs ih =>
    have hc : c ≠ '~' := fun hc => h (hc ▸ List.mem_cons_self)
    rw [unescapeOne.eq_2 _ _ _ _ (fun _ _ hd => absurd hd hc),
      ih fun hm => h (List.mem_cons_of_mem _ hm)]

/-- Without a tilde nothing is escaped. -/
theorem Pointer.unescape_of_not_mem {cs : List Char} (h : '~' ∉ cs) : unescape cs = cs := by
  rw [unescape, unescapeOne_of_not_mem _ _ h, unescapeOne_of_not_mem _ _ h]

/-! ## Plain names -/

/-- A name that reads the same in a reference: it holds no slash, no tilde and no percent sign. -/
def IsPlain (name : String) : Prop :=
  ∀ c ∈ ['/', '~', '%'], c ∉ name.toList

instance (name : String) : Decidable (IsPlain name) :=
  List.decidableBAll (· ∉ name.toList) ['/', '~', '%']

/-- The path of an enumeration is plain if its parts are. -/
theorem IsPlain.enumPath {owner name : String} (ho : IsPlain owner) (hn : IsPlain name) :
    IsPlain (enumPath owner name) := by
  intro c hc hm
  simp only [ReflectedSchema.enumPath, String.toList_append, List.mem_append] at hm
  rcases hm with (hm | hm) | hm
  · exact ho c hc hm
  · obtain rfl : c = '.' := List.mem_singleton.mp hm
    simp at hc
  · exact hn c hc hm

/-! ## Reading names back -/

/-- The names that a name in a reference is read back as: percent encoding is undone, then slashes
separate names, and in each the escapes of pointers are undone. -/
def readBack (name : String) : List String :=
  (Text.split '/' (Text.Percent.decode name.toList)).map fun piece =>
    String.ofList (Pointer.unescape piece)

/-- A name that is read back as itself. -/
def ReadsBack (name : String) : Prop :=
  readBack name = [name]

instance (name : String) : Decidable (ReadsBack name) :=
  inferInstanceAs (Decidable (readBack name = [name]))

/-- A plain name reads back. -/
theorem IsPlain.readsBack {name : String} (h : IsPlain name) : ReadsBack name := by
  rw [ReadsBack, readBack, Text.Percent.decode_of_not_mem (h _ (by simp)),
    Text.split_of_not_mem (h _ (by simp)), List.map_singleton,
    Pointer.unescape_of_not_mem (h _ (by simp)), String.ofList_toList]

/-- **Following a reference** goes down the shared definitions by the names that its own name is read
back as. -/
theorem follow?_assemble (definitions root : List (String × Json)) (name : String) :
    (assemble definitions root).follow? (referenceTo name) =
      Json.descend? (readBack name) (.obj definitions) := by
  have hlist : (referenceTo name).toList = '#' :: '/' :: ("$defs/".toList ++ name.toList) := by
    simp [referenceTo]
  have hdecode : Text.Percent.decode ("$defs/".toList ++ name.toList) =
      "$defs".toList ++ '/' :: Text.Percent.decode name.toList := by
    rw [Text.Percent.decode_append (by simp) (by simp)]
    simp
  rw [Json.follow?, hlist]
  simp only [hdecode]
  rw [Text.split_append_cons (by decide), List.map_cons, Pointer.unescape_of_not_mem (by decide),
    String.ofList_toList]
  rfl

/-- A reference to a name that reads back leads to what stands under the name. -/
theorem ReadsBack.follow? {name : String} (h : ReadsBack name) (definitions root : List (String × Json)) :
    (assemble definitions root).follow? (referenceTo name) = Json.lookup name definitions := by
  rw [follow?_assemble, show readBack name = [name] from h, Json.descend?]
  cases Json.lookup name definitions <;> rfl

/-- A reference to a plain name leads to the definition of that name. -/
theorem follow?_referenceTo {name : String} (h : IsPlain name) {definitions root : List (String × Json)} :
    (assemble definitions root).follow? (referenceTo name) = Json.lookup name definitions :=
  h.readsBack.follow? definitions root

/-- Identifiers and paths read back.  A slash makes two names of one, and percent encoding another. -/
example : ReadsBack "Room.Mood" ∧ readBack "Home/Room" = ["Home", "Room"] ∧ readBack "%41" = ["A"] := by
  decide

end ReflectedSchema
