import TypeCatalog.Catalog
set_option autoImplicit false

/-!
Documents: definitions as they are written down and exchanged. A document says nothing about whether what
it describes is sound; that is found out when it is turned into a definition. Documents of resolved types
list all attributes, and all supertypes besides the direct ones.
-/

namespace TypeCatalog

structure MultiplicityDocument where
  lower : UInt32
  upper : Option UInt32
  unique : Bool
  deriving DecidableEq

structure AttributeDocument where
  name : String
  typeName : String
  multiplicity : MultiplicityDocument
  unique : Bool
  indexed : Bool
  composite : Bool
  reverse : Option String
  deriving DecidableEq

structure TypeDocument where
  name : String
  kind : Kind
  supers : List String
  attributes : List AttributeDocument
  allSupers : Option (List String)
  deriving DecidableEq

structure EnumDocument where
  name : String
  values : List EnumValue
  deriving DecidableEq

structure SchemaDocument where
  enums : List EnumDocument
  types : List TypeDocument
  deriving DecidableEq

def MultiplicityDocument.ofMultiplicity (m : Multiplicity) : MultiplicityDocument :=
  ⟨m.lower, m.upper, m.unique⟩

def MultiplicityDocument.multiplicity (d : MultiplicityDocument) : Except Defect Multiplicity :=
  Multiplicity.declare d.lower d.upper d.unique

namespace AttributeDocument

def ofAttribute (a : Attribute) : AttributeDocument where
  name := a.name
  typeName := a.typeName
  multiplicity := .ofMultiplicity a.multiplicity
  unique := a.unique
  indexed := a.indexed
  composite := a.composite
  reverse := a.reverse

/-- The attribute with the marks of the document; a unique one is indexed whether marked so or not. -/
def attr (d : AttributeDocument) : Except Defect Attribute := do
  let multiplicity ← d.multiplicity.multiplicity
  let a ← Attribute.make d.name d.typeName multiplicity
  let a := if d.composite then a.asComposite else a
  let a := if d.unique then a.asUnique else a
  let a := if d.indexed then a.asIndexed else a
  pure (match d.reverse with
    | some r => a.withReverse r
    | none => a)

end AttributeDocument

namespace TypeDocument

def ofDeclaration (d : Declaration) : TypeDocument where
  name := d.name
  kind := d.kind
  supers := d.supers.toList
  attributes := d.attributes.map .ofAttribute
  allSupers := none

def ofResolved (r : Resolved) : TypeDocument where
  name := r.name
  kind := r.kind
  supers := r.supers.toList
  attributes := r.attributes.values.map .ofAttribute
  allSupers := some r.ancestors.toList

def declaration (d : TypeDocument) : Except Defect Declaration := do
  let attributes ← d.attributes.mapM AttributeDocument.attr
  Declaration.ofKind d.kind d.name d.supers attributes

/-- Adds the attribute of a document; the same attribute may be listed again. -/
def addAttribute (type : String) (m : NameMap Attribute) (d : AttributeDocument) :
    Except Defect (NameMap Attribute) := do
  let a ← d.attr
  match m.get? a.name with
  | none => pure (m.insert a.name a)
  | some b => if b = a then pure m else throw (.conflict type a.name type b type a)

/-- The resolved type; without a list of all supertypes the direct ones are all. -/
def resolved (d : TypeDocument) : Except Defect Resolved := do
  let attributes ← d.attributes.foldlM (addAttribute d.name) ∅
  pure
    { name := d.name
      kind := d.kind
      supers := NameSet.ofList d.supers
      ancestors := NameSet.ofList (d.allSupers.getD d.supers)
      attributes := attributes }

end TypeDocument

def EnumDocument.ofEnumeration (e : Enumeration) : EnumDocument := ⟨e.name, e.values⟩

def EnumDocument.enumeration (d : EnumDocument) : Except Defect Enumeration :=
  Enumeration.make d.name d.values

namespace SchemaDocument

/-- Enumerations go first, each group in the order of the document. -/
def batch (d : SchemaDocument) : Except Defect (List Definition) := do
  let enums ← d.enums.mapM fun e => e.enumeration.map Definition.enumeration
  let types ← d.types.mapM fun t => t.declaration.map Definition.declaration
  pure (enums ++ types)

def ofCatalog (c : Catalog) : SchemaDocument where
  enums := c.enums.values.map .ofEnumeration
  types := c.types.values.map .ofResolved

end SchemaDocument

end TypeCatalog
