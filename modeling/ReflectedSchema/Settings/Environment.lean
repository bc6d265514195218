import ReflectedSchema.Settings.Assignments

/-!
# Environments

An application runs in an environment: variables, and files of assignments that can be loaded into
them.  A file is loaded at most once, unless that is forced, and it changes no variable that is set.
-/

namespace ReflectedSchema.Settings

/-- The environment of an application. -/
structure Environment where
  /-- The variables with their values. -/
  values : List (String × String) := []
  /-- The files of the working directory. -/
  files : List (String × String) := []
  /-- Whether a file was loaded, or looked for. -/
  loaded : Bool := false
  deriving Inhabited, Repr

namespace Environment

/-- The value of a variable. -/
def get? (e : Environment) (name : String) : Option String :=
  Json.lookup name e.values

/-- Set a variable. -/
def set (e : Environment) (name value : String) : Environment :=
  { e with values := Json.set name value e.values }

/-- A path in the working directory without the steps that stay there. -/
def withoutDots : List Char → List Char
  | '.' :: '/' :: rest => withoutDots rest
  | path => path

/-- The file at a path. -/
def file? (e : Environment) (path : String) : Option String :=
  Json.lookup (String.ofList (withoutDots path.toList)) e.files

/-- Assign values to the variables that are not set. -/
def assign (e : Environment) (assignments : List Assignment) : Environment :=
  assignments.foldl (fun e (name, value) =>
    match value, e.get? name with
    | some value, none => e.set name value
    | _, _ => e) e

/-- Load a file: the one that is named, or else that of the variable `ENV_FILE`, or `.env`.  Tells
whether there was something in it. -/
def load (e : Environment) (path : Option String) (force : Bool) : Bool × Environment :=
  if e.loaded && !force then (false, e)
  else
    let path := match path with
      | none | some "" => (e.get? "ENV_FILE").getD "./.env"
      | some path => path
    let opened := { e with loaded := true }
    match e.file? path with
    | none => (false, opened)
    | some text =>
      let assignments := Assignments.ofText e.values text
      (!assignments.isEmpty, opened.assign assignments)

/-- The environment after its file was looked for. -/
def ready (e : Environment) : Environment :=
  (e.load none false).2

/-- A variable that was set has its value, and the others theirs. -/
theorem get?_set (e : Environment) (name other value : String) :
    (e.set name value).get? other = if other = name then some value else e.get? other :=
  Json.lookup_set name other value e.values

/-- A variable that is set keeps its value. -/
theorem get?_assign {e : Environment} {name value : String} (assignments : List Assignment)
    (h : e.get? name = some value) : (e.assign assignments).get? name = some value := by
  induction assignments generalizing e with
  | nil => exact h
  | cons a rest ih =>
    obtain ⟨other, given⟩ := a
    refine ih ?_
    cases given with
    | none => exact h
    | some given =>
      cases ho : e.get? other with
      | some _ => simpa [ho] using h
      | none =>
        have hn : name ≠ other := by
          intro hn
          rw [hn, ho] at h
          cases h
        simp only [ho]
        rw [get?_set, if_neg hn, h]

end Environment

end ReflectedSchema.Settings
