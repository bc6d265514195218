import ReflectedSchema.Json.Basic
import ReflectedSchema.Kind.Descriptor

/-!
# Shared definitions

While a schema is built, everything that is referenced is collected under a name: first the name is
reserved for its owner, then the finished node is stored.  A reserved name counts as present, so that
a class that leads back to itself is not entered twice.  Once a name is handed out in a reference it
is remembered as referenced.
-/

namespace ReflectedSchema

/-- The definitions of a schema under construction. -/
structure Definitions (Owner Node : Type) where
  /-- The reserved names, with their nodes once they are finished. -/
  nodes : List (String × Option Node) := []
  owners : List (String × Owner) := []
  referenced : List String := []
  classes : List (String × ClassDescriptor) := []
  enums : List (String × EnumDescriptor) := []
  /-- The definition name of every enumeration, by its path. -/
  enumNames : List (String × String) := []

namespace Definitions

variable {Owner Node : Type}

/-- No definitions. -/
def empty : Definitions Owner Node := {}

/-- Whether a name is reserved. -/
def contains (d : Definitions Owner Node) (name : String) : Bool :=
  d.nodes.any (·.1 = name)

/-- What a name was reserved for. -/
def owner? (d : Definitions Owner Node) (name : String) : Option Owner :=
  Json.lookup name d.owners

/-- Reserve a name; nothing if it is taken. -/
def reserve? (d : Definitions Owner Node) (name : String) (owner : Owner) :
    Option (Definitions Owner Node) :=
  if d.contains name then none
  else some { d with nodes := Json.set name none d.nodes, owners := Json.set name owner d.owners }

/-- Store the node of a name; without a node the name is present and unfinished. -/
def store (d : Definitions Owner Node) (name : String) (node : Option Node) : Definitions Owner Node :=
  { d with nodes := Json.set name node d.nodes }

/-- Give a name free. -/
def discard (d : Definitions Owner Node) (name : String) : Definitions Owner Node :=
  { d with nodes := Json.erase name d.nodes, owners := Json.erase name d.owners }

/-- Remember that a name stands in a reference. -/
def refer (d : Definitions Owner Node) (name : String) : Definitions Owner Node :=
  if d.referenced.contains name then d else { d with referenced := name :: d.referenced }

/-- Whether a name stands in a reference. -/
def isReferenced (d : Definitions Owner Node) (name : String) : Bool :=
  d.referenced.contains name

/-- Add the descriptor of a class. -/
def addClass (d : Definitions Owner Node) (c : ClassDescriptor) : Definitions Owner Node :=
  { d with classes := Json.set c.name c d.classes }

/-- Add the descriptor of an enumeration that is defined under a name. -/
def addEnum (d : Definitions Owner Node) (e : EnumDescriptor) (name : String) : Definitions Owner Node :=
  { d with enums := Json.set e.path e d.enums, enumNames := Json.set e.path name d.enumNames }

/-- The definition name of an enumeration. -/
def enumName? (d : Definitions Owner Node) (path : String) : Option String :=
  Json.lookup path d.enumNames

/-- The finished definitions, sorted by name. -/
def finished (d : Definitions Owner Node) : List (String × Node) :=
  (d.nodes.filterMap fun (name, node) => node.map (name, ·)).mergeSort fun a b => decide (a.1 ≤ b.1)

/-- A name is present after it was stored, and no other name comes or goes. -/
theorem contains_store (d : Definitions Owner Node) (name other : String) (node : Option Node) :
    (d.store name node).contains other = true ↔ other = name ∨ d.contains other = true := by
  have keys : ∀ nodes : List (String × Option Node),
      nodes.any (·.1 = other) = true ↔ other ∈ nodes.map (·.1) := by
    intro nodes
    rw [List.any_eq_true, List.mem_map]
    exact exists_congr fun e => and_congr_right fun _ => decide_eq_true_iff
  rw [contains, contains, keys, keys, store, Json.keys_set]
  split
  · rename_i h
    exact ⟨Or.inr, fun ho => ho.elim (fun ho => ho ▸ h) id⟩
  · rw [List.mem_append, List.mem_singleton, or_comm]

/-- A free name can be reserved, and belongs to its owner from then on. -/
theorem owner?_of_reserve? {d reserved : Definitions Owner Node} {name : String} {owner : Owner}
    (h : d.reserve? name owner = some reserved) : reserved.owner? name = some owner := by
  rw [reserve?] at h
  split at h
  · cases h
  · cases h
    simp [owner?, Json.lookup_set]

/-- Only a free name can be reserved. -/
theorem reserve?_eq_none_iff (d : Definitions Owner Node) (name : String) (owner : Owner) :
    d.reserve? name owner = none ↔ d.contains name = true := by
  rw [reserve?]
  split <;> simp_all

end Definitions

end ReflectedSchema
