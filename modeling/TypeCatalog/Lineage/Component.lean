import TypeCatalog.Json.Record
set_option autoImplicit false

namespace TypeCatalog.Lineage

open Json (RecordForm Reader)

abbrev Texts := List (String × Option String)

/-- How a component is written in a text and read from it. -/
structure Component (α : Type) where
  name : String
  texts : α → Texts
  ofTexts : (String → Option String) → α

structure SourceTable where
  tableName : Option String
  tableAlias : Option String
  databaseName : Option String
  deriving DecidableEq

def SourceTable.component : Component SourceTable where
  name := "SourceTable"
  texts t :=
    [("tableName", t.tableName), ("tableAlias", t.tableAlias), ("databaseName", t.databaseName)]
  ofTexts get := ⟨get "tableName", get "tableAlias", get "databaseName"⟩

structure QueryColumn where
  table : Option String
  column : Option String
  columnAlias : Option String
  function : Option String
  deriving DecidableEq

def QueryColumn.component : Component QueryColumn where
  name := "QueryColumn"
  texts c :=
    [("tbAliasOrName", c.table), ("columnName", c.column), ("columnAlias", c.columnAlias),
      ("columnFunction", c.function)]
  ofTexts get :=
    ⟨get "tbAliasOrName", get "columnName", get "columnAlias", get "columnFunction"⟩

structure WhereClause where
  table : Option String
  condition : Option String
  column : Option String
  operator : Option String
  value : Option String
  deriving DecidableEq

def WhereClause.component : Component WhereClause where
  name := "WhereClause"
  texts w :=
    [("tbAliasOrName", w.table), ("columnCondition", w.condition), ("columnName", w.column),
      ("columnOperator", w.operator), ("columnValue", w.value)]
  ofTexts get :=
    ⟨get "tbAliasOrName", get "columnCondition", get "columnName", get "columnOperator",
      get "columnValue"⟩

structure ColumnRef where
  table : Option String
  column : Option String
  deriving DecidableEq

def ColumnRef.component : Component ColumnRef where
  name := "ColumnRef"
  texts c := [("tbAliasOrName", c.table), ("columnName", c.column)]
  ofTexts get := ⟨get "tbAliasOrName", get "columnName"⟩

structure CreateColumn where
  column : Option String
  type : Option String
  deriving DecidableEq

def CreateColumn.component : Component CreateColumn where
  name := "CreateColumn"
  texts c := [("columnName", c.column), ("columnType", c.type)]
  ofTexts get := ⟨get "columnName", get "columnType"⟩

/-- Absent texts are written as nulls. -/
def textsJson (ts : Texts) : List (String × Json) :=
  ts.map fun t => (t.1, match t.2 with
    | some s => .string s
    | none => .null)

namespace Component

variable {α : Type}

def json (c : Component α) (a : α) : Json := .object (textsJson (c.texts a))

def names (c : Component α) : List String := (c.texts (c.ofTexts fun _ => none)).map Prod.fst

/-- Absent texts are read from nulls or left out; in a sequence none may be left out. -/
def form (c : Component α) : RecordForm Texts α where
  name := c.name
  fields := c.names.map fun name =>
    .part name (List.lookup name) (fun d a => (name, a) :: d) (.option .string) false
  blank := []
  complete d := .ok (c.ofTexts fun name => (d.lookup name).getD none)

def reader (c : Component α) : Reader α := .record c.form

end Component

end TypeCatalog.Lineage
