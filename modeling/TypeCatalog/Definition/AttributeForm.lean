import TypeCatalog.Definition.Defect
set_option autoImplicit false

namespace TypeCatalog

def Multiplicity.declare (lower : UInt32) (upper : Option UInt32) (unique : Bool) :
    Except Defect Multiplicity :=
  (Multiplicity.make lower upper unique).mapError (Defect.unsoundBounds lower upper unique)

@[simp] theorem Multiplicity.declare_self (m : Multiplicity) :
    Multiplicity.declare m.lower m.upper m.unique = .ok m := by
  rw [declare, make_self]
  rfl

namespace Attribute

/-- Names are kept as written, but blank ones are refused, the attribute's own name first. -/
def make (name typeName : String) (multiplicity : Multiplicity) : Except Defect Attribute :=
  if hn : Text.isBlank name = false then
    if ht : Text.isBlank typeName = false then
      .ok ⟨name, typeName, multiplicity, false, false, false, none, hn, ht, by simp⟩
    else .error (.emptyName .dataTypeName)
  else .error (.emptyName .attributeName)

def optional (name typeName : String) : Except Defect Attribute := make name typeName .optional

def required (name typeName : String) : Except Defect Attribute := make name typeName .required

def collection (name typeName : String) : Except Defect Attribute := make name typeName .collection

def key (name typeName : String) : Except Defect Attribute := (required name typeName).map asUnique

end Attribute

end TypeCatalog
