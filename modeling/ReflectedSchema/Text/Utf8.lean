/-!
# UTF-8

Bytes are read one at a time.  Between characters the reader expects a lead byte; after a lead byte
it owes a number of continuation bytes, the first of which may be confined further (`Owed`), so that
no overlong form, no surrogate and nothing above U+10FFFF is accepted.

`decode` reports the first defect with the position of the sequence it lies in; `decodeLossy` puts
the replacement character for every maximal defective sequence instead.
-/

namespace ReflectedSchema.Text.Utf8

/-- What can be wrong with a byte sequence. -/
inductive Defect where
  /-- A byte that no character starts with. -/
  | start
  /-- A byte that cannot stand at its place after a lead byte. -/
  | continuation
  /-- The bytes end inside a character. -/
  | truncated
  deriving DecidableEq, Repr

/-- The wording of a defect. -/
def Defect.message : Defect → String
  | .start => "invalid start byte"
  | .continuation => "invalid continuation byte"
  | .truncated => "unexpected end of data"

/-- What is owed after a lead byte: how many bytes, the interval of the next one, and the bits read
so far. -/
structure Owed where
  count : Nat
  low : Nat
  high : Nat
  bits : Nat
  deriving DecidableEq, Repr

/-- The meaning of a byte between characters. -/
inductive Lead where
  | ascii (c : Char)
  | owes (owed : Owed)
  | invalid
  deriving DecidableEq, Repr

/-- Classify a byte between characters. -/
def lead (b : Nat) : Lead :=
  if b < 0x80 then .ascii (Char.ofNat b)
  else if b < 0xC2 then .invalid
  else if b < 0xE0 then .owes ⟨1, 0x80, 0xBF, b - 0xC0⟩
  else if b = 0xE0 then .owes ⟨2, 0xA0, 0xBF, 0⟩
  else if b = 0xED then .owes ⟨2, 0x80, 0x9F, 0xD⟩
  else if b < 0xF0 then .owes ⟨2, 0x80, 0xBF, b - 0xE0⟩
  else if b = 0xF0 then .owes ⟨3, 0x90, 0xBF, 0⟩
  else if b < 0xF4 then .owes ⟨3, 0x80, 0xBF, b - 0xF0⟩
  else if b = 0xF4 then .owes ⟨3, 0x80, 0x8F, 4⟩
  else .invalid

/-- The state after a fitting continuation byte: more bytes owed, or a character. -/
def Owed.next (owed : Owed) (b : Nat) : Owed ⊕ Char :=
  let bits := owed.bits * 64 + (b - 0x80)
  match owed.count with
  | 0 | 1 => .inr (Char.ofNat bits)
  | count + 1 => .inl ⟨count, 0x80, 0xBF, bits⟩

/-- Whether a byte fits as the next one. -/
def Owed.fits (owed : Owed) (b : Nat) : Bool :=
  owed.low ≤ b && b ≤ owed.high

/-- Decode from a state: `position` counts the bytes read, `owed` holds what is owed and where its
sequence began, `read` the characters so far in reverse. -/
def decodeFrom (position : Nat) (owed : Option (Nat × Owed)) (read : List Char) :
    List UInt8 → Except (Nat × Defect) (List Char)
  | [] =>
    match owed with
    | some (began, _) => .error (began, .truncated)
    | none => .ok read.reverse
  | b :: rest =>
    match owed with
    | none =>
      match lead b.toNat with
      | .ascii c => decodeFrom (position + 1) none (c :: read) rest
      | .owes o => decodeFrom (position + 1) (some (position, o)) read rest
      | .invalid => .error (position, .start)
    | some (began, o) =>
      if o.fits b.toNat then
        match o.next b.toNat with
        | .inl o' => decodeFrom (position + 1) (some (began, o')) read rest
        | .inr c => decodeFrom (position + 1) none (c :: read) rest
      else .error (began, .continuation)

/-- The characters of a byte sequence, or its first defect and the position of the bad sequence. -/
def decode (bytes : List UInt8) : Except (Nat × Defect) (List Char) :=
  decodeFrom 0 none [] bytes

/-- The character that stands for what cannot be decoded. -/
def replacement : Char := Char.ofNat 0xFFFD

/-- Decode from a state, replacing every defective sequence. -/
def decodeLossyFrom (owed : Option Owed) : List UInt8 → List Char
  | [] => if owed.isSome then [replacement] else []
  | b :: rest =>
    let fresh : List Char → List Char := fun before =>
      match lead b.toNat with
      | .ascii c => before ++ c :: decodeLossyFrom none rest
      | .owes o => before ++ decodeLossyFrom (some o) rest
      | .invalid => before ++ replacement :: decodeLossyFrom none rest
    match owed with
    | none => fresh []
    | some o =>
      if o.fits b.toNat then
        match o.next b.toNat with
        | .inl o' => decodeLossyFrom (some o') rest
        | .inr c => c :: decodeLossyFrom none rest
      else fresh [replacement]

/-- The characters of a byte sequence, with the replacement character for what is not UTF-8. -/
def decodeLossy (bytes : List UInt8) : List Char :=
  decodeLossyFrom none bytes

end ReflectedSchema.Text.Utf8
