import TypeCatalog.Text.Blank
import TypeCatalog.Definition.Multiplicity
import TypeCatalog.Definition.DataType
set_option autoImplicit false

namespace TypeCatalog

structure Attribute where
  name : String
  typeName : String
  multiplicity : Multiplicity
  composite : Bool
  unique : Bool
  indexed : Bool
  reverse : Option String
  name_nonblank : Text.isBlank name = false
  typeName_nonblank : Text.isBlank typeName = false
  indexed_of_unique : unique = true → indexed = true
  deriving DecidableEq

namespace Attribute

def dataType (a : Attribute) : DataType := DataType.ofName a.typeName

def isRequired (a : Attribute) : Bool := a.multiplicity.isRequired

def asComposite (a : Attribute) : Attribute := { a with composite := true }

/-- A unique attribute is always indexed. -/
def asUnique (a : Attribute) : Attribute :=
  { a with unique := true, indexed := true, indexed_of_unique := fun _ => rfl }

def asIndexed (a : Attribute) : Attribute :=
  { a with indexed := true, indexed_of_unique := fun _ => rfl }

def withReverse (a : Attribute) (reverse : String) : Attribute := { a with reverse := some reverse }

def summary (a : Attribute) : String :=
  a.name ++ ": " ++ a.typeName ++ " " ++ a.multiplicity.render ++
    (if a.composite then " composite" else "") ++
    (if a.unique then " unique" else "") ++
    (if a.indexed then " indexed" else "") ++
    (match a.reverse with
      | none => ""
      | some r => " reverse=" ++ r)

end Attribute

end TypeCatalog
