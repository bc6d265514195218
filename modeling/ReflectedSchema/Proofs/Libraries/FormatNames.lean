import ReflectedSchema.Proofs.Libraries.Requests

/-!
# Names of response formats

A name is checked by a pattern, and a name that is made of a schema's is cut to fit the same pattern.  The pattern
ends in an anchor that also stands before a line feed at the end, so that it lets a little more pass than names:
`format_names_pass_iff` says just what.  Names that are derived have no line feed, so a request that names no
format is always sent under a name that providers accept.
-/

namespace ReflectedSchema

namespace ResponseFormat

/-- A name that providers accept: 1 to 64 ASCII letters, digits, underscores and hyphens. -/
structure IsName (name : String) : Prop where
  nonempty : 1 ≤ name.length
  short : name.length ≤ 64
  chars : ∀ c ∈ name.toList,
    ('a' ≤ c ∧ c ≤ 'z') ∨ ('A' ≤ c ∧ c ≤ 'Z') ∨ ('0' ≤ c ∧ c ≤ '9') ∨ c = '_' ∨ c = '-'

/-- The characters of a name are the letters and digits of ASCII, the underscore and the hyphen. -/
theorem isNameChar_iff {c : Char} : isNameChar c = true ↔
    ('a' ≤ c ∧ c ≤ 'z') ∨ ('A' ≤ c ∧ c ≤ 'Z') ∨ ('0' ≤ c ∧ c ≤ '9') ∨ c = '_' ∨ c = '-' := by
  simp only [isNameChar, Char.isAlphanum, Char.isAlpha, Char.isUpper, Char.isLower, Char.isDigit,
    Bool.or_eq_true, Bool.and_eq_true, decide_eq_true_eq, Char.le_def, ge_iff_le]
  tauto

/-- A name is between one and sixty-four of these characters. -/
theorem isName_iff {name : String} : IsName name ↔
    1 ≤ name.length ∧ name.length ≤ 64 ∧ ∀ c ∈ name.toList, isNameChar c = true := by
  simp only [isNameChar_iff]
  exact ⟨fun ⟨nonempty, short, chars⟩ => ⟨nonempty, short, chars⟩,
    fun ⟨nonempty, short, chars⟩ => ⟨nonempty, short, chars⟩⟩

/-- A name does not end with a line feed. -/
theorem IsName.getLast?_ne {name : String} (h : IsName name) : name.toList.getLast? ≠ some '\n' := fun fed =>
  absurd ((isName_iff.mp h).2.2 '\n' (List.mem_of_getLast? fed)) (by decide)

/-- Without a line feed at the end, names alone are let through. -/
theorem isValidName_iff_of_ne {name : String} (h : name.toList.getLast? ≠ some '\n') :
    isValidName name = true ↔ IsName name := by
  simp [isValidName, h, isName_iff, and_assoc, String.length_toList]

/-- The anchor also stands before a line feed at the end. -/
theorem isValidName_append {core : String} : isValidName (core ++ "\n") = true ↔ IsName core := by
  have fed : (core ++ "\n").toList = core.toList ++ ['\n'] := String.toList_append
  simp [isValidName, fed, isName_iff, and_assoc, String.length_toList]

/-- The pattern is met by names, and by names with a line feed behind them. -/
theorem isValidName_iff {name : String} :
    isValidName name = true ↔ IsName name ∨ ∃ core, IsName core ∧ name = core ++ "\n" := by
  by_cases fed : name.toList.getLast? = some '\n'
  · obtain ⟨chars, split⟩ := List.getLast?_eq_some_iff.mp fed
    obtain ⟨core, rfl⟩ : ∃ core, name = core ++ "\n" :=
      ⟨String.ofList chars, String.toList_inj.mp (by rw [split, String.toList_append, String.toList_ofList]; rfl)⟩
    rw [isValidName_append]
    refine ⟨fun h => .inr ⟨core, h, rfl⟩, ?_⟩
    rintro (h | ⟨other, h, same⟩)
    · exact absurd fed h.getLast?_ne
    · exact String.append_left_inj _ |>.mp same ▸ h
  · rw [isValidName_iff_of_ne fed]
    refine ⟨.inl, ?_⟩
    rintro (h | ⟨core, h, rfl⟩)
    · exact h
    · exact absurd (by simp [String.toList_append]) fed

/-- Nothing is logged of a name exactly if the check lets it pass. -/
theorem records_eq_nil_iff {name : String} : records (some name) = [] ↔ isValidName name = true := by
  unfold records
  rw [Option.getD_some]
  split_ifs with valid
  · exact iff_of_true rfl valid
  · simp [valid]

/-- A name that is derived from one with characters is accepted, whatever the characters are. -/
theorem isName_derivedName {name : String} (h : name ≠ "") : IsName (derivedName name) := by
  have characters : name.toList ≠ [] := fun none => h (String.toList_eq_nil_iff.mp none)
  rw [derivedName, isName_iff, String.length_ofList, String.toList_ofList, List.length_take, List.length_map]
  refine ⟨le_min (by decide) (List.length_pos_iff.mpr characters), min_le_left _ _, fun c hc => ?_⟩
  obtain ⟨d, -, rfl⟩ := List.mem_map.mp (List.mem_of_mem_take hc)
  split_ifs with plain
  · exact plain
  · decide

end ResponseFormat

namespace Chat

open ResponseFormat

variable {σ : Type}

/-- A request sends nothing but the messages and the envelope for its schema. -/
theorem exists_sentFor {limits : Limits} {library : Library} {source : Source} {host : Host σ}
    {provider : Provider} {target : Target} {prompt : Prompt} {s : σ} {schema : Schema}
    (resolved : (resolve library source target).1.result = .ok schema) {sent : Sent}
    (h : sent ∈ ((request limits library source host provider target prompt).run s).1.1.sent) :
    ∃ messages, sent = sentFor schema prompt messages := by
  cases worded : messages? prompt.user prompt.system with
  | none =>
    rw [(request_of_unworded resolved worded).choose_spec] at h
    cases h
  | some messages =>
    cases answer : provider (sentFor schema prompt messages) with
    | error refusal =>
      rw [(request_of_refused resolved worded answer).choose_spec] at h
      exact ⟨messages, List.mem_singleton.mp h⟩
    | ok text =>
      rw [(request_of_answered resolved worded answer).choose_spec] at h
      exact ⟨messages, List.mem_singleton.mp h⟩

/-- **Names that pass.**  Nothing is logged of a name exactly if providers accept it, or if it has one line feed
behind such a name.  The name that is derived from a schema with a name is accepted; nothing is logged of it, and
a request that names no format is sent under it. -/
theorem format_names_pass_iff :
    (∀ name, records (some name) = [] ↔ IsName name ∨ ∃ core, IsName core ∧ name = core ++ "\n") ∧
    ∀ schema : Schema, schema.name ≠ "" →
      IsName (formatName schema none) ∧ records (some (formatName schema none)) = [] ∧
      ∀ (limits : Limits) (library : Library) (source : Source) (host : Host σ) (provider : Provider)
        (target : Target) (prompt : Prompt) (s : σ), (resolve library source target).1.result = .ok schema →
        prompt.formatName = none →
        ∀ sent ∈ ((request limits library source host provider target prompt).run s).1.1.sent,
          sent.format = envelope schema.document (some (formatName schema none)) := by
  refine ⟨fun name => records_eq_nil_iff.trans isValidName_iff, fun schema named => ?_⟩
  have accepted : IsName (formatName schema none) := isName_derivedName named
  refine ⟨accepted, records_eq_nil_iff.mpr (isValidName_iff.mpr (.inl accepted)), ?_⟩
  intro limits library source host provider target prompt s resolved unnamed sent h
  obtain ⟨messages, rfl⟩ := exists_sentFor resolved h
  rw [sentFor, unnamed]

/-- **A line feed passes.**  It is no character of a name, and nothing is logged of it at the end of one. -/
theorem line_feed_passes : records (some "Person\n") = [] ∧ ¬ IsName "Person\n" :=
  ⟨by decide +kernel, fun h => absurd (isNameChar_iff.mpr (h.chars '\n' (by decide +kernel))) (by decide)⟩

/-- Every character beyond the pattern becomes one underscore, wherever it is in Unicode. -/
example : formatName { name := "Zoë 🙂\n", document := .null, root := .string } none = "Zo____" := by
  decide +kernel

end Chat

end ReflectedSchema
