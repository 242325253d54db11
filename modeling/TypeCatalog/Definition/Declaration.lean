import TypeCatalog.SortedMap
import TypeCatalog.Definition.AttributeForm
import TypeCatalog.Definition.Enumeration
set_option autoImplicit false

namespace TypeCatalog

@[ext] structure Declaration where
  kind : Kind
  name : String
  supers : NameSet
  attributes : List Attribute
  name_nonblank : Text.isBlank name = false
  supers_nonblank : supers.toList.all (fun s => !Text.isBlank s) = true

instance : DecidableEq Declaration := fun _ _ => decidable_of_iff _ Declaration.ext_iff.symm

namespace Declaration

/-- Supertypes are a set: their order and repetitions do not count. -/
def ofKind (kind : Kind) (name : String) (supers : List String) (attributes : List Attribute) :
    Except Defect Declaration :=
  if hn : Text.isBlank name = false then
    if hs : (NameSet.ofList supers).toList.all (fun s => !Text.isBlank s) = true then
      .ok ⟨kind, name, NameSet.ofList supers, attributes, hn, hs⟩
    else .error (.emptyName .supertypeName)
  else .error (.emptyName (.typeName kind.category))

/-- Refuses the categories that do not inherit, a blank name before that. -/
def make (category : Category) (name : String) (supers : List String)
    (attributes : List Attribute) : Except Defect Declaration :=
  match category.kind? with
  | some kind => ofKind kind name supers attributes
  | none =>
    if Text.isBlank name then .error (.emptyName (.typeName category))
    else .error (.notHierarchical name category)

def category (d : Declaration) : Category := d.kind.category

end Declaration

inductive Definition where
  | enumeration (e : Enumeration)
  | declaration (d : Declaration)
  deriving DecidableEq

namespace Definition

def name : Definition → String
  | .enumeration e => e.name
  | .declaration d => d.name

def category : Definition → Category
  | .enumeration _ => .enumeration
  | .declaration d => d.category

def declaration? : Definition → Option Declaration
  | .enumeration _ => none
  | .declaration d => some d

def enumeration? : Definition → Option Enumeration
  | .enumeration e => some e
  | .declaration _ => none

end Definition

end TypeCatalog
