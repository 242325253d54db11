import TypeCatalog.Definition.Attribute
import TypeCatalog.Definition.Category
set_option autoImplicit false

namespace TypeCatalog

inductive NameRole where
  | typeName (category : Category)
  | enumValueName
  | attributeName
  | dataTypeName
  | supertypeName
  deriving DecidableEq, Repr

def NameRole.label : NameRole → String
  | .typeName category => category.name
  | .enumValueName => "enum value"
  | .attributeName => "attribute"
  | .dataTypeName => "data type"
  | .supertypeName => "supertype"

inductive Defect where
  | emptyName (role : NameRole)
  | duplicateType (name : String)
  | duplicateEnumValue (enum value : String) (ordinal : UInt32)
  | unknownReference (type reference : String)
  | unknownEnumValue (enum key : String)
  | supertypeCategory (type : String) (category : Category) (super : String) (superCategory : Category)
  | notHierarchical (type : String) (category : Category)
  | cycle (path : List String)
  | conflict (type attr keptFrom : String) (kept : Attribute) (otherFrom : String)
      (other : Attribute)
  | unsoundBounds (lower : UInt32) (upper : Option UInt32) (unique : Bool) (fault : BoundsFault)
  | invalidReverse (type attr reverse target : String)
  deriving DecidableEq

namespace Defect

def boundText : Option UInt32 → String
  | none => "None"
  | some u => "Some(" ++ toString u.toNat ++ ")"

def message : Defect → String
  | .emptyName role => role.label ++ " name must not be empty"
  | .duplicateType name => "type " ++ name ++ " is already defined"
  | .duplicateEnumValue enum value ordinal =>
    "enum " ++ enum ++ ": duplicate value " ++ value ++ " (ordinal " ++ toString ordinal.toNat ++ ")"
  | .unknownReference type reference => "type " ++ type ++ " references unknown type " ++ reference
  | .unknownEnumValue enum key => "enum " ++ enum ++ " has no value " ++ key
  | .supertypeCategory type category super superCategory =>
    category.name ++ " " ++ type ++ " cannot extend " ++ superCategory.name ++ " " ++ super
  | .notHierarchical type category =>
    "type " ++ type ++ ": a " ++ category.name ++ " cannot be declared hierarchically"
  | .cycle path => "cyclic inheritance: " ++ " -> ".intercalate path
  | .conflict type attr keptFrom kept otherFrom other =>
    "type " ++ type ++ ": attribute " ++ attr ++ " from " ++ keptFrom ++ " (" ++ kept.summary ++
      ") conflicts with " ++ otherFrom ++ " (" ++ other.summary ++ ")"
  | .unsoundBounds lower upper unique fault =>
    "invalid multiplicity (lower " ++ toString lower.toNat ++ ", upper " ++ boundText upper ++
      ", unique " ++ (if unique then "true" else "false") ++ "): " ++ fault.message
  | .invalidReverse type attr reverse target =>
    "type " ++ type ++ ": attribute " ++ attr ++ " names reverse attribute " ++ reverse ++
      " which " ++ target ++ " does not define"

def report (defects : List Defect) : String :=
  "type registration failed with " ++ toString defects.length ++ " error(s): " ++
    "; ".intercalate (defects.map message)

end Defect

end TypeCatalog
