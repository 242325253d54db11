import TypeCatalog.Inheritance.Flattening
set_option autoImplicit false

/-!
A catalog is one version of everything that is committed. It is never changed; a commit makes the next
version of it.
-/

namespace TypeCatalog

structure Catalog where
  version : Nat
  createdAt : Nat
  types : NameMap Resolved
  enums : NameMap Enumeration
  deriving DecidableEq

namespace Catalog

def empty : Catalog := ⟨0, 0, ∅, ∅⟩

instance : Inhabited Catalog := ⟨empty⟩

def type? (c : Catalog) (name : String) : Option Resolved := c.types.get? name

def enum? (c : Catalog) (name : String) : Option Enumeration := c.enums.get? name

def ownCategory? (c : Catalog) (name : String) : Option Category :=
  match c.type? name with
  | some r => some r.category
  | none =>
    if name ∈ c.enums then some .enumeration
    else if (Primitive.ofName? name).isSome then some .primitive
    else none

def isKnownCollection (known : String → Bool) (name : String) : Bool :=
  (DataType.ofName name).isCollection && (DataType.ofName name).references.all known

/-- A collection of known types counts as primitive. -/
def category? (c : Catalog) (name : String) : Option Category :=
  match c.ownCategory? name with
  | some category => some category
  | none =>
    if isKnownCollection (fun n => (c.ownCategory? n).isSome) name then some .primitive else none

def contains (c : Catalog) (name : String) : Bool := (c.category? name).isSome

def typeNames (c : Catalog) : List String := c.types.keys

def enumNames (c : Catalog) : List String := c.enums.keys

def names (c : Catalog) : List String :=
  (NameSet.ofList (c.typeNames ++ c.enumNames)).toList

def typeNamesOf (c : Catalog) (category : Category) : List String :=
  (c.types.filter fun _ r => r.category = category).keys

def subtypesOf (c : Catalog) (name : String) : List String :=
  (c.types.filter fun _ r => r.isSubtypeOf name).keys

def size (c : Catalog) : Nat := c.types.size + c.enums.size

/-- Whether a definition is what its name stands for. Declarations are compared by what they flatten to. -/
def isCommitted (c : Catalog) : Definition → Bool
  | .enumeration e => c.enum? e.name = some e
  | .declaration d =>
    match c.type? d.name with
    | none => false
    | some r =>
      match d.flatten c.type? with
      | .ok r' => r' = r
      | .error _ => false

end Catalog

end TypeCatalog
