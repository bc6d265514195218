import ReflectedSchema.Text.Quoted

/-!
# Exceptions of hosts

The code of a host may raise exceptions of any class, also of its own.  Whoever handles an exception goes by
the built-in classes that its class derives from, and not by its name: a class of a host that derives from
`TypeError` is handled as a `TypeError`.
-/

namespace ReflectedSchema

/-- A class of exceptions: its name, and the built-in classes that it derives from, with itself among them if
it is one. -/
structure ExceptionClass where
  name : String
  ancestors : List String
  deriving DecidableEq, Repr, Inhabited

namespace ExceptionClass

/-- The built-in classes between a built-in class and `Exception`, the nearest first. -/
def between : String → List String
  | "FloatingPointError" | "OverflowError" | "ZeroDivisionError" => ["ArithmeticError"]
  | "IndexError" | "KeyError" => ["LookupError"]
  | "NotImplementedError" | "RecursionError" => ["RuntimeError"]
  | "UnicodeError" => ["ValueError"]
  | "UnicodeDecodeError" | "UnicodeEncodeError" | "UnicodeTranslateError" => ["UnicodeError", "ValueError"]
  | "ModuleNotFoundError" => ["ImportError"]
  | "UnboundLocalError" => ["NameError"]
  | "IndentationError" => ["SyntaxError"]
  | "TabError" => ["IndentationError", "SyntaxError"]
  | "BlockingIOError" | "ChildProcessError" | "ConnectionError" | "FileExistsError" | "FileNotFoundError"
  | "InterruptedError" | "IsADirectoryError" | "NotADirectoryError" | "PermissionError"
  | "ProcessLookupError" | "TimeoutError" => ["OSError"]
  | "BrokenPipeError" | "ConnectionAbortedError" | "ConnectionRefusedError" | "ConnectionResetError" =>
    ["ConnectionError", "OSError"]
  | _ => []

/-- A built-in class. -/
def builtIn (name : String) : ExceptionClass :=
  ⟨name, name :: between name ++ ["Exception"]⟩

/-- A class of a host, which derives from a built-in one. -/
def derived (name base : String) : ExceptionClass :=
  ⟨name, (builtIn base).ancestors⟩

/-- Whether a class derives from a built-in one, or is it. -/
def isA (c : ExceptionClass) (ancestor : String) : Bool :=
  c.ancestors.contains ancestor

end ExceptionClass

/-- An exception of a host: its class, and the text that it was made with. -/
structure Thrown where
  sort : ExceptionClass
  text : String
  deriving DecidableEq, Repr, Inhabited

/-- The message of an exception; a missing key is shown in quotes. -/
def Thrown.message (t : Thrown) : String :=
  if t.sort.isA "KeyError" then Text.quoted t.text else t.text

end ReflectedSchema
