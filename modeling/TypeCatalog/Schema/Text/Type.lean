import TypeCatalog.Schema.Document
import TypeCatalog.Json.Record
import TypeCatalog.Json.Variant
set_option autoImplicit false

namespace TypeCatalog

open Json (RecordForm Reader)

namespace MultiplicityDocument

def json (d : MultiplicityDocument) : Json :=
  .object
    [("lower", .ofWord d.lower),
      ("upper", match d.upper with
        | some u => .ofWord u
        | none => .null),
      ("isUnique", .bool d.unique)]

structure Draft where
  lower : Option UInt32 := none
  upper : Option (Option UInt32) := none
  unique : Option Bool := none

def form : RecordForm Draft MultiplicityDocument where
  name := "MultiplicityDocument"
  fields :=
    [.part "lower" Draft.lower (fun d a => { d with lower := some a }) .word false,
      .part "upper" Draft.upper (fun d a => { d with upper := some a }) (.option .word) false,
      .part "isUnique" Draft.unique (fun d a => { d with unique := some a }) .bool true]
  blank := {}
  complete d := do
    let lower ← Json.needed "lower" d.lower
    pure ⟨lower, d.upper.getD none, d.unique.getD false⟩

def reader : Reader MultiplicityDocument := .record form

end MultiplicityDocument

namespace AttributeDocument

def json (d : AttributeDocument) : Json :=
  .object
    ([("name", .string d.name),
      ("dataTypeName", .string d.typeName),
      ("multiplicity", d.multiplicity.json),
      ("isUnique", .bool d.unique),
      ("isIndexed", .bool d.indexed),
      ("isComposite", .bool d.composite)] ++
      Json.optional "reverseAttributeName" (d.reverse.map .string))

structure Draft where
  name : Option String := none
  typeName : Option String := none
  multiplicity : Option MultiplicityDocument := none
  unique : Option Bool := none
  indexed : Option Bool := none
  composite : Option Bool := none
  reverse : Option (Option String) := none

def form : RecordForm Draft AttributeDocument where
  name := "AttributeDocument"
  fields :=
    [.part "name" Draft.name (fun d a => { d with name := some a }) .string false,
      .part "dataTypeName" Draft.typeName (fun d a => { d with typeName := some a }) .string false,
      .part "multiplicity" Draft.multiplicity (fun d a => { d with multiplicity := some a })
        MultiplicityDocument.reader false,
      .part "isUnique" Draft.unique (fun d a => { d with unique := some a }) .bool true,
      .part "isIndexed" Draft.indexed (fun d a => { d with indexed := some a }) .bool true,
      .part "isComposite" Draft.composite (fun d a => { d with composite := some a }) .bool true,
      .part "reverseAttributeName" Draft.reverse (fun d a => { d with reverse := some a })
        (.option .string) true]
  blank := {}
  complete d := do
    let name ← Json.needed "name" d.name
    let typeName ← Json.needed "dataTypeName" d.typeName
    let multiplicity ← Json.needed "multiplicity" d.multiplicity
    pure ⟨name, typeName, multiplicity, d.unique.getD false, d.indexed.getD false,
      d.composite.getD false, d.reverse.getD none⟩

def reader : Reader AttributeDocument := .record form

end AttributeDocument

def Kind.reader : Reader Kind :=
  .variant (Kind.all.map fun k => (k.name, k))
    (" or ".intercalate (Kind.all.map fun k => Json.tick k.name))

namespace TypeDocument

def json (d : TypeDocument) : Json :=
  .object
    ([("name", .string d.name),
      ("category", .string d.kind.name),
      ("superTypes", .ofStrings d.supers),
      ("attributeDefinitions", .array (d.attributes.map AttributeDocument.json))] ++
      Json.optional "allSuperTypes" (d.allSupers.map .ofStrings))

structure Draft where
  name : Option String := none
  kind : Option Kind := none
  supers : Option (List String) := none
  attributes : Option (List AttributeDocument) := none
  allSupers : Option (Option (List String)) := none

def form : RecordForm Draft TypeDocument where
  name := "TypeDocument"
  fields :=
    [.part "name" Draft.name (fun d a => { d with name := some a }) .string false,
      .part "category" Draft.kind (fun d a => { d with kind := some a }) Kind.reader false,
      .part "superTypes" Draft.supers (fun d a => { d with supers := some a }) (.list .string) true,
      .part "attributeDefinitions" Draft.attributes (fun d a => { d with attributes := some a })
        (.list AttributeDocument.reader) true,
      .part "allSuperTypes" Draft.allSupers (fun d a => { d with allSupers := some a })
        (.option (.list .string)) true]
  blank := {}
  complete d := do
    let name ← Json.needed "name" d.name
    let kind ← Json.needed "category" d.kind
    pure ⟨name, kind, d.supers.getD [], d.attributes.getD [], d.allSupers.getD none⟩

def reader : Reader TypeDocument := .record form

end TypeDocument

end TypeCatalog
