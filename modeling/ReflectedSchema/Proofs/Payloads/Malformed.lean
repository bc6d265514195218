import ReflectedSchema.Proofs.Decoding.Attempt
import ReflectedSchema.Proofs.Json.LongIntegers
import ReflectedSchema.Proofs.Payloads.Fences

/-!
# Payloads that are refused

A payload that is no JSON document is refused as malformed: for its bytes, its syntax, its nesting, or because
it is neither text nor bytes.  There is one way around this.  An integer of more than `maxDigits` digits is
refused by the conversion of numbers and not by the reader, so it leaves as a fault, and `read_tooLong_iff` says
of which texts: of those that hold such an integer where a value is due, after a text without a defect.
-/

namespace ReflectedSchema

open Json

namespace Payload

variable {payload : Payload} {levels : Nat}

/-- The document that a payload holds, if it is a text or the bytes of one. -/
def document? : Payload → Option (List Char)
  | .text s => some (unwrapped s.toList)
  | .bytes content => (Text.Utf8.decode content).toOption.map unwrapped
  | .other _ => none

/-- A long integer of `n` digits stands in the document where a value is due, within a number of levels. -/
def HoldsLong (payload : Payload) (levels n : Nat) : Prop :=
  ∃ before number, payload.document? = some (before ++ number) ∧ LongAt n number ∧
    Json.read levels before = .error (.defect .value [])

/-- What a document is read as: a value, something malformed, or a long integer that is given up. -/
theorem readChars_cases (levels : Nat) (cs : List Char) : (∃ v, readChars levels cs = .ok v) ∨
    (∃ m, readChars levels cs = .error (.ofCause (.malformed m))) ∨
      ∃ n, readChars levels cs = .error (.fault (.digitLimit n)) := by
  unfold readChars
  dsimp only
  cases Json.read levels (unwrapped cs) with
  | ok v => exact .inl ⟨v, rfl⟩
  | error e =>
    cases e with
    | defect d remaining => exact .inr (.inl ⟨_, rfl⟩)
    | tooDeep => exact .inr (.inl ⟨_, rfl⟩)
    | tooLong n => exact .inr (.inr ⟨n, rfl⟩)

/-- Characters are refused for their digits exactly if what they are unwrapped to is. -/
theorem readChars_fault_iff {cs : List Char} {n : Nat} :
    readChars levels cs = .error (.fault (.digitLimit n)) ↔
      Json.read levels (unwrapped cs) = .error (.tooLong n) := by
  unfold readChars
  dsimp only
  cases Json.read levels (unwrapped cs) with
  | ok v => exact ⟨nofun, nofun⟩
  | error e =>
    cases e with
    | defect d remaining => exact ⟨nofun, nofun⟩
    | tooDeep => exact ⟨nofun, nofun⟩
    | tooLong n => simp

/-- A payload without a document is malformed, and any other is what its document is read as. -/
theorem read_cases (payload : Payload) (levels : Nat) :
    (payload.document? = none ∧ ∃ m, payload.read levels = .error (.ofCause (.malformed m))) ∨
      ∃ cs, payload.document? = some (unwrapped cs) ∧ payload.read levels = readChars levels cs := by
  cases payload with
  | text s => exact .inr ⟨s.toList, rfl, rfl⟩
  | bytes content =>
    cases decoded : Text.Utf8.decode content with
    | ok cs => exact .inr ⟨cs, by rw [document?, decoded]; rfl, by rw [read, decoded]⟩
    | error found => exact .inl ⟨by rw [document?, decoded]; rfl, _, by rw [read, decoded]⟩
  | other typeName => exact .inl ⟨rfl, _, rfl⟩

/-- What a payload is read as: a value, something malformed, or a long integer that is given up. -/
theorem read_outcomes (payload : Payload) (levels : Nat) : (∃ v, payload.read levels = .ok v) ∨
    (∃ m, payload.read levels = .error (.ofCause (.malformed m))) ∨
      ∃ n, payload.read levels = .error (.fault (.digitLimit n)) := by
  obtain ⟨-, m, refused⟩ | ⟨cs, -, read⟩ := payload.read_cases levels
  · exact .inr (.inl ⟨m, refused⟩)
  · rw [read]
    exact readChars_cases levels cs

/-- What refuses a payload is not a call that nests too deep, so it is reported as it is. -/
theorem settled_of_read_error {e : Raised} (h : payload.read levels = .error e) : e.settled = e := by
  obtain ⟨v, read⟩ | ⟨m, read⟩ | ⟨n, read⟩ := payload.read_outcomes levels
  · rw [read] at h
    cases h
  · rw [read] at h
    cases h
    rfl
  · rw [read] at h
    cases h
    rfl

/-- A payload that is not read is reported with what was raised, and the host is not called. -/
theorem run_instantiate_of_read_error {σ : Type} {limits : Limits} {e : Raised}
    (h : payload.read limits.nesting = .error e) (schema : Schema) (host : Host σ) (s : σ) :
    (schema.instantiate limits host payload).run s = (schema.report [] (.error e), s) := by
  rw [Schema.run_instantiate, Schema.attempt, h]
  show (schema.report [] (.error e.settled), s) = _
  rw [settled_of_read_error h]

/-- A payload is refused for its digits exactly if it holds a long integer. -/
theorem read_eq_digitLimit_iff {n : Nat} :
    payload.read levels = .error (.fault (.digitLimit n)) ↔ payload.HoldsLong levels n := by
  obtain ⟨none, m, refused⟩ | ⟨cs, some, read⟩ := payload.read_cases levels
  · rw [refused]
    refine ⟨nofun, ?_⟩
    rintro ⟨before, number, held, -⟩
    rw [none] at held
    cases held
  · rw [read, readChars_fault_iff, read_tooLong_iff]
    simp only [HoldsLong, some, Option.some.injEq]

/-- **What is refused is malformed, but for long integers.**  Every payload is read as a value, or refused as
malformed, or it holds an integer of more digits than can be read where a value is due; and exactly then the
fault of the conversion escapes.  Whatever refuses the payload, instantiating reports just that and leaves the
state of the host alone.  All this holds whatever the limits are. -/
theorem failures_are_malformed_or_long (payload : Payload) (limits : Limits) :
    ((∃ v, payload.read limits.nesting = .ok v) ∨
        (∃ m, payload.read limits.nesting = .error (.ofCause (.malformed m))) ∨
          ∃ n, payload.HoldsLong limits.nesting n) ∧
      (∀ f, payload.read limits.nesting = .error (.fault f) ↔
        ∃ n, f = .digitLimit n ∧ payload.HoldsLong limits.nesting n) ∧
      ∀ {σ : Type} (schema : Schema) (host : Host σ) (s : σ) (e : Raised),
        payload.read limits.nesting = .error e →
          (schema.instantiate limits host payload).run s = (schema.report [] (.error e), s) := by
  have outcomes := payload.read_outcomes limits.nesting
  refine ⟨?_, fun f => ⟨fun h => ?_, ?_⟩, fun schema host s e h => ?_⟩
  · simpa only [read_eq_digitLimit_iff] using outcomes
  · obtain ⟨v, read⟩ | ⟨m, read⟩ | ⟨n, read⟩ := outcomes
    · rw [read] at h
      cases h
    · rw [read] at h
      cases h
    · have held := read_eq_digitLimit_iff.mp read
      rw [read] at h
      cases h
      exact ⟨n, rfl, held⟩
  · rintro ⟨n, rfl, held⟩
    exact read_eq_digitLimit_iff.mpr held
  · exact run_instantiate_of_read_error h schema host s

/-- A text of one digit, again and again. -/
def ones (n : Nat) : String := String.ofList (List.replicate n '1')

/-- The document of a text of ones is the text. -/
theorem document?_ones (n : Nat) :
    (Payload.text (ones (n + 1))).document? = some (List.replicate (n + 1) '1') := by
  have first : (List.replicate (n + 1) '1').dropWhile Text.isBlank = List.replicate (n + 1) '1' :=
    List.dropWhile_cons_of_neg (by decide)
  have last : Text.trimEnd (List.replicate (n + 1) '1') = List.replicate (n + 1) '1' := by
    rw [List.replicate_succ', Text.trimEnd_concat (by decide)]
  have trimmed : Text.trim (List.replicate (n + 1) '1') = List.replicate (n + 1) '1' := by
    rw [Text.trim, first, last]
  have bare : ¬ ticks <+: Text.trim (List.replicate (n + 1) '1') := by
    rw [trimmed]
    rintro ⟨rest, same⟩
    exact absurd (List.cons.inj same).1 (by decide)
  rw [document?, ones, String.toList_ofList, unwrapped_of_not_ticks bare, trimmed]

/-- Ones are long if there are more of them than are allowed. -/
theorem longDigits_replicate {n : Nat} (h : maxDigits < n) : LongDigits n (List.replicate n '1') [] where
  digit := fun c hc => by
    rw [List.eq_of_mem_replicate hc]
    rfl
  zero := by
    rw [List.head?_replicate]
    split_ifs <;> simp
  length := List.length_replicate
  long := h
  ends := nofun
  noFraction := rfl
  noExponent := rfl

/-- A text of that many ones holds a long integer. -/
theorem holdsLong_ones (levels : Nat) {n : Nat} (h : maxDigits < n + 1) :
    (Payload.text (ones (n + 1))).HoldsLong levels (n + 1) := by
  have long := LongAt.positive (longDigits_replicate h)
  rw [List.append_nil] at long
  exact ⟨[], _, document?_ones n, long, rfl⟩

/-- **A text of 4301 digits is no malformed document**, whatever the limits are: reading it ends in a fault, and
so does instantiating it, whatever the schema and the host. -/
theorem digits_escape :
    (∀ nesting : Nat, (Payload.text (ones 4301)).read nesting = .error (.fault (.digitLimit 4301))) ∧
    (∀ nesting : Nat, ¬ ∃ m, (Payload.text (ones 4301)).read nesting = .error (.ofCause (.malformed m))) ∧
    ∀ (limits : Limits) {σ : Type} (schema : Schema) (host : Host σ) (s : σ),
      ((schema.instantiate limits host (.text (ones 4301))).run s).1.result =
        .error (.fault (.digitLimit 4301)) := by
  have read : ∀ nesting : Nat,
      (Payload.text (ones 4301)).read nesting = .error (.fault (.digitLimit 4301)) := fun _ =>
    read_eq_digitLimit_iff.mpr (holdsLong_ones _ (by decide))
  refine ⟨read, fun nesting ⟨m, refused⟩ => ?_, fun limits _ schema host s => ?_⟩
  · rw [read nesting] at refused
    cases refused
  · rw [run_instantiate_of_read_error (read limits.nesting)]
    rfl

end Payload

end ReflectedSchema
