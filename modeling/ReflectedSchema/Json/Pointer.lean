import ReflectedSchema.Json.Basic
import ReflectedSchema.Text.Percent
import ReflectedSchema.Text.Split

/-!
# JSON pointers

A location inside a value is a list of steps, each the name of a field or the index of an item.  Its
pointer writes every step after a slash, with `~0` for `~` and `~1` for a slash inside a name.
`Pointer.decode` reads a pointer back into the texts of its steps.

A reference `#fragment` is a pointer in percent encoding; `follow?` walks it through a document.
-/

namespace ReflectedSchema

/-- One step from a value into it. -/
inductive Step where
  | key (name : String)
  | index (i : Nat)
  deriving DecidableEq, Repr

/-- A way from a value to one inside it, outermost step first. -/
abbrev Location := List Step

namespace Step

/-- The text of a step, before escaping. -/
def text : Step → String
  | .key name => name
  | .index i => toString i

end Step

namespace Pointer

/-- One character of a name in a pointer. -/
def escapeChar (c : Char) : List Char :=
  if c = '~' then ['~', '0'] else if c = '/' then ['~', '1'] else [c]

/-- A name in a pointer. -/
def escape (cs : List Char) : List Char :=
  cs.flatMap escapeChar

/-- Replace every occurrence of a tilde and a digit. -/
def unescapeOne (digit : Char) (by' : Char) : List Char → List Char
  | '~' :: c :: rest =>
    if c = digit then by' :: unescapeOne digit by' rest
    else '~' :: unescapeOne digit by' (c :: rest)
  | c :: rest => c :: unescapeOne digit by' rest
  | [] => []

/-- The name that an escaped name stands for: first `~1` becomes a slash, then `~0` a tilde. -/
def unescape (cs : List Char) : List Char :=
  unescapeOne '0' '~' (unescapeOne '1' '/' cs)

/-- The pointer of a sequence of names, as characters. -/
def encodeChars (names : List String) : List Char :=
  names.flatMap fun name => '/' :: escape name.toList

/-- The pointer of a sequence of names. -/
def ofNames (names : List String) : String :=
  String.ofList (encodeChars names)

/-- The names that a pointer is made of: nothing for the empty pointer, and otherwise the pieces
after its first slash. -/
def decode (pointer : String) : Option (List String) :=
  match pointer.toList with
  | [] => some []
  | '/' :: rest => some ((Text.split '/' rest).map fun piece => String.ofList (unescape piece))
  | _ => none

/-- Names one after the other are encoded one after the other. -/
theorem encodeChars_append (front back : List String) :
    encodeChars (front ++ back) = encodeChars front ++ encodeChars back :=
  List.flatMap_append

/-- A slash never stands inside an escaped name. -/
theorem slash_not_mem_escape (cs : List Char) : '/' ∉ escape cs := by
  intro h
  obtain ⟨c, _, hc⟩ := List.mem_flatMap.mp h
  rw [escapeChar] at hc
  split at hc
  · simp at hc
  · split at hc
    · simp at hc
    · exact absurd (List.mem_singleton.mp hc).symm ‹c ≠ '/'›

/-- Slashes come back first, while an escaped tilde is still in place. -/
theorem unescapeOne_slash_escape (cs : List Char) :
    unescapeOne '1' '/' (escape cs) = cs.flatMap fun c => if c = '~' then ['~', '0'] else [c] := by
  induction cs with
  | nil => rfl
  | cons c cs ih =>
    rw [escape, List.flatMap_cons, List.flatMap_cons, ← escape, escapeChar]
    by_cases ht : c = '~'
    · subst ht
      simp [unescapeOne, ih]
    · by_cases hs : c = '/'
      · subst hs
        simp [unescapeOne, ih]
      · rw [if_neg ht, if_neg hs, if_neg ht, List.singleton_append, List.singleton_append,
          unescapeOne.eq_2 _ _ _ _ (fun _ _ h => absurd h ht), ih]

/-- An escaped name is read back. -/
theorem unescape_escape (cs : List Char) : unescape (escape cs) = cs := by
  rw [unescape, unescapeOne_slash_escape]
  induction cs with
  | nil => rfl
  | cons c cs ih =>
    rw [List.flatMap_cons]
    by_cases ht : c = '~'
    · subst ht
      simp [unescapeOne, ih]
    · rw [if_neg ht, List.singleton_append, unescapeOne.eq_2 _ _ _ _ (fun _ _ h => absurd h ht), ih]

/-- The number of steps of a pointer. -/
def depth (pointer : String) : Nat :=
  pointer.toList.count '/'

end Pointer

/-- The pointer of a location. -/
def Location.pointer (location : Location) : String :=
  Pointer.ofNames (location.map Step.text)

namespace Json

/-- The value that a sequence of names leads to.  A name is looked up in an object; in an array it is
an index. -/
def descend? : List String → Json → Option Json
  | [], v => some v
  | name :: rest, .obj fields => (lookup name fields).bind (descend? rest)
  | name :: rest, .arr items => (name.toNat?.bind (items[·]?)).bind (descend? rest)
  | _ :: _, _ => none

/-- The value that a reference inside a document leads to: after its first `#` stands nothing, or a
pointer in percent encoding. -/
def follow? (document : Json) (reference : String) : Option Json :=
  match reference.toList with
  | ['#'] => some document
  | '#' :: '/' :: fragment =>
    let names := (Text.split '/' (Text.Percent.decode fragment)).map
      fun piece => String.ofList (Pointer.unescape piece)
    descend? names document
  | _ => none

end Json

end ReflectedSchema
