import TypeCatalog.Entity.Value
import TypeCatalog.Definition.Category
import TypeCatalog.Definition.Multiplicity
import TypeCatalog.Definition.DataType
set_option autoImplicit false

namespace TypeCatalog

inductive Flaw where
  | missing
  | count (count : Nat) (wanted : Multiplicity)
  | mismatch (wanted : DataType) (found : Shape)
  | emptyUnique
  | duplicates
  | unknown
  deriving DecidableEq

inductive Violation where
  | unknownType (type : String)
  | notInstantiable (type : String) (category : Category)
  | flaw (type attr : String) (flaw : Flaw)
  deriving DecidableEq

namespace Violation

def attr? : Violation → Option String
  | .unknownType _ | .notInstantiable _ _ => none
  | .flaw _ attr _ => some attr

def message : Violation → String
  | .unknownType type => "unknown type " ++ type
  | .notInstantiable type category =>
    "type " ++ type ++ " is a " ++ category.name ++ " and cannot be instantiated"
  | .flaw type attr f =>
    match f with
    | .missing => type ++ "." ++ attr ++ " is required"
    | .count count wanted =>
      type ++ "." ++ attr ++ " has " ++ toString count ++ " value(s), expected " ++ wanted.render
    | .mismatch wanted found =>
      type ++ "." ++ attr ++ ": expected " ++ wanted.name ++ ", found " ++ found.name
    | .emptyUnique => type ++ "." ++ attr ++ " is unique and cannot hold an empty value"
    | .duplicates => type ++ "." ++ attr ++ " is a set but contains duplicate elements"
    | .unknown => type ++ " has no attribute " ++ attr

end Violation

end TypeCatalog
