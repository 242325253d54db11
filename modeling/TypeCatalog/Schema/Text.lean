import TypeCatalog.Schema.Text.Type
import TypeCatalog.Json.Layout
set_option autoImplicit false

namespace TypeCatalog

open Json (RecordForm Reader)

namespace EnumValue

def json (v : EnumValue) : Json := .object [("name", .string v.name), ("ordinal", .ofWord v.ordinal)]

structure Draft where
  name : Option String := none
  ordinal : Option UInt32 := none

def form : RecordForm Draft EnumValue where
  name := "EnumValueDocument"
  fields :=
    [.part "name" Draft.name (fun d a => { d with name := some a }) .string false,
      .part "ordinal" Draft.ordinal (fun d a => { d with ordinal := some a }) .word false]
  blank := {}
  complete d := do
    let name ← Json.needed "name" d.name
    let ordinal ← Json.needed "ordinal" d.ordinal
    pure ⟨name, ordinal⟩

def reader : Reader EnumValue := .record form

end EnumValue

namespace EnumDocument

def json (d : EnumDocument) : Json :=
  .object [("name", .string d.name), ("values", .array (d.values.map EnumValue.json))]

structure Draft where
  name : Option String := none
  values : Option (List EnumValue) := none

def form : RecordForm Draft EnumDocument where
  name := "EnumDocument"
  fields :=
    [.part "name" Draft.name (fun d a => { d with name := some a }) .string false,
      .part "values" Draft.values (fun d a => { d with values := some a }) (.list EnumValue.reader)
        false]
  blank := {}
  complete d := do
    let name ← Json.needed "name" d.name
    let values ← Json.needed "values" d.values
    pure ⟨name, values⟩

def reader : Reader EnumDocument := .record form

end EnumDocument

namespace SchemaDocument

def json (d : SchemaDocument) : Json :=
  .object
    [("enums", .array (d.enums.map EnumDocument.json)),
      ("types", .array (d.types.map TypeDocument.json))]

structure Draft where
  enums : Option (List EnumDocument) := none
  types : Option (List TypeDocument) := none

def form : RecordForm Draft SchemaDocument where
  name := "SchemaDocument"
  fields :=
    [.part "enums" Draft.enums (fun d a => { d with enums := some a }) (.list EnumDocument.reader) true,
      .part "types" Draft.types (fun d a => { d with types := some a }) (.list TypeDocument.reader) true]
  blank := {}
  complete d := .ok ⟨d.enums.getD [], d.types.getD []⟩

def reader : Reader SchemaDocument := .record form

def ofText (text : String) : Except Json.Fault SchemaDocument := reader.parse text

def text (d : SchemaDocument) : String := d.json.pretty

end SchemaDocument

end TypeCatalog
