import ReflectedSchema.Text.Utf8

/-!
# Percent encoding

In a URL fragment `%41` stands for the byte 41.  A percent sign that no two hexadecimal digits
follow stands for itself.  The bytes of each longest run of ASCII characters are read as UTF-8;
other characters stand for themselves.
-/

namespace ReflectedSchema.Text.Percent

/-- The value of a hexadecimal digit in either case. -/
def hexValue? (c : Char) : Option Nat :=
  if '0' ≤ c && c ≤ '9' then some (c.toNat - 48)
  else if 'a' ≤ c && c ≤ 'f' then some (c.toNat - 87)
  else if 'A' ≤ c && c ≤ 'F' then some (c.toNat - 55)
  else none

/-- The bytes that a run of ASCII characters stands for. -/
def bytes : List Char → List UInt8
  | [] => []
  | '%' :: high :: low :: rest =>
    match hexValue? high, hexValue? low with
    | some h, some l => UInt8.ofNat (16 * h + l) :: bytes rest
    | _, _ => UInt8.ofNat 37 :: bytes (high :: low :: rest)
  | c :: rest => UInt8.ofNat c.toNat :: bytes rest

/-- The characters that a run of ASCII characters, given in reverse, stands for. -/
def flush (run : List Char) : List Char :=
  Utf8.decodeLossy (bytes run.reverse)

/-- Decode after a run of ASCII characters, which is kept in reverse. -/
def decodeFrom (run : List Char) : List Char → List Char
  | [] => flush run
  | c :: rest =>
    if c.toNat < 0x80 then decodeFrom (c :: run) rest
    else flush run ++ c :: decodeFrom [] rest

/-- The text that a percent-encoded text stands for. -/
def decode (cs : List Char) : List Char :=
  decodeFrom [] cs

end ReflectedSchema.Text.Percent
