set_option autoImplicit false

namespace TypeCatalog

inductive Category where
  | primitive
  | enumeration
  | classType
  | traitType
  deriving DecidableEq, Repr

/-- The categories that inherit. -/
inductive Kind where
  | classType
  | traitType
  deriving DecidableEq, Repr

def Category.name : Category → String
  | .primitive => "primitive"
  | .enumeration => "enum"
  | .classType => "class"
  | .traitType => "trait"

def Category.all : List Category := [.primitive, .enumeration, .classType, .traitType]

def Category.ofName? (name : String) : Option Category := all.find? fun c => c.name == name

def Category.kind? : Category → Option Kind
  | .classType => some .classType
  | .traitType => some .traitType
  | _ => none

def Category.isHierarchical (c : Category) : Bool := c.kind?.isSome

def Kind.category : Kind → Category
  | .classType => .classType
  | .traitType => .traitType

def Kind.name (k : Kind) : String := k.category.name

def Kind.all : List Kind := [.classType, .traitType]

def Kind.ofName? (name : String) : Option Kind := all.find? fun k => k.name == name

@[simp] theorem Kind.kind?_category (k : Kind) : k.category.kind? = some k := by cases k <;> rfl

end TypeCatalog
