import TypeCatalog.Lineage.Component
import TypeCatalog.Entity.Value
import TypeCatalog.Json.Layout
set_option autoImplicit false

namespace TypeCatalog.Lineage

open Json (RecordForm Reader)

structure Record where
  queryId : String
  user : Option String := none
  startTime : Option String := none
  endTime : Option String := none
  query : Option String := none
  tableName : Option String := none
  tableLocation : Option String := none
  sourceTables : List SourceTable := []
  queryColumns : List QueryColumn := []
  whereClause : List WhereClause := []
  createColumns : List CreateColumn := []
  groupBy : List ColumnRef := []
  orderBy : List ColumnRef := []
  deriving DecidableEq

namespace Record

def json (r : Record) : Json :=
  .object
    (("queryId", .string r.queryId) ::
      textsJson
        [("user", r.user), ("queryStartTime", r.startTime), ("queryEndTime", r.endTime),
          ("query", r.query), ("tableName", r.tableName), ("tableLocation", r.tableLocation)] ++
      [("sourceTables", .array (r.sourceTables.map SourceTable.component.json)),
        ("queryColumns", .array (r.queryColumns.map QueryColumn.component.json)),
        ("whereClause", .array (r.whereClause.map WhereClause.component.json)),
        ("createColumns", .array (r.createColumns.map CreateColumn.component.json)),
        ("groupBy", .array (r.groupBy.map ColumnRef.component.json)),
        ("orderBy", .array (r.orderBy.map ColumnRef.component.json))])

def text (r : Record) : String := r.json.compact

structure Draft where
  queryId : Option String := none
  user : Option (Option String) := none
  startTime : Option (Option String) := none
  endTime : Option (Option String) := none
  query : Option (Option String) := none
  tableName : Option (Option String) := none
  tableLocation : Option (Option String) := none
  sourceTables : Option (List SourceTable) := none
  queryColumns : Option (List QueryColumn) := none
  whereClause : Option (List WhereClause) := none
  createColumns : Option (List CreateColumn) := none
  groupBy : Option (List ColumnRef) := none
  orderBy : Option (List ColumnRef) := none

def form : RecordForm Draft Record where
  name := "LineageRecord"
  fields :=
    [.part "queryId" Draft.queryId (fun d a => { d with queryId := some a }) .string false,
      .part "user" Draft.user (fun d a => { d with user := some a }) (.option .string) false,
      .part "queryStartTime" Draft.startTime (fun d a => { d with startTime := some a })
        (.option .string) false,
      .part "queryEndTime" Draft.endTime (fun d a => { d with endTime := some a })
        (.option .string) false,
      .part "query" Draft.query (fun d a => { d with query := some a }) (.option .string) false,
      .part "tableName" Draft.tableName (fun d a => { d with tableName := some a })
        (.option .string) false,
      .part "tableLocation" Draft.tableLocation (fun d a => { d with tableLocation := some a })
        (.option .string) false,
      .part "sourceTables" Draft.sourceTables (fun d a => { d with sourceTables := some a })
        (.list SourceTable.component.reader) true,
      .part "queryColumns" Draft.queryColumns (fun d a => { d with queryColumns := some a })
        (.list QueryColumn.component.reader) true,
      .part "whereClause" Draft.whereClause (fun d a => { d with whereClause := some a })
        (.list WhereClause.component.reader) true,
      .part "createColumns" Draft.createColumns (fun d a => { d with createColumns := some a })
        (.list CreateColumn.component.reader) true,
      .part "groupBy" Draft.groupBy (fun d a => { d with groupBy := some a })
        (.list ColumnRef.component.reader) true,
      .part "orderBy" Draft.orderBy (fun d a => { d with orderBy := some a })
        (.list ColumnRef.component.reader) true]
  blank := {}
  complete d := do
    let queryId ← Json.needed "queryId" d.queryId
    pure
      { queryId := queryId
        user := d.user.getD none
        startTime := d.startTime.getD none
        endTime := d.endTime.getD none
        query := d.query.getD none
        tableName := d.tableName.getD none
        tableLocation := d.tableLocation.getD none
        sourceTables := d.sourceTables.getD []
        queryColumns := d.queryColumns.getD []
        whereClause := d.whereClause.getD []
        createColumns := d.createColumns.getD []
        groupBy := d.groupBy.getD []
        orderBy := d.orderBy.getD [] }

def ofText (text : String) : Except Json.Fault Record := (Reader.record form).parse text

end Record

/-- Components have names in an entity apart from those in a text, also where both are the same. -/
def SourceTable.attributes (t : SourceTable) : Texts :=
  [("tableName", t.tableName), ("tableAlias", t.tableAlias), ("databaseName", t.databaseName)]

def QueryColumn.attributes (c : QueryColumn) : Texts :=
  [("tbAliasOrName", c.table), ("columnName", c.column), ("columnAlias", c.columnAlias),
    ("columnFunction", c.function)]

def WhereClause.attributes (w : WhereClause) : Texts :=
  [("tbAliasOrName", w.table), ("columnCondition", w.condition), ("columnName", w.column),
    ("columnOperator", w.operator), ("columnValue", w.value)]

def CreateColumn.attributes (c : CreateColumn) : Texts := [("columnName", c.column), ("columnType", c.type)]

def ColumnRef.attributes (c : ColumnRef) : Texts := [("tbAliasOrName", c.table), ("columnName", c.column)]

/-- Absent texts are left out. -/
def textValues (ts : Texts) : List (String × Value) :=
  ts.filterMap fun t => t.2.map fun s => (t.1, .string s)

namespace Record

def texts (r : Record) : Texts :=
  [("user", r.user), ("queryStartTime", r.startTime), ("queryEndTime", r.endTime),
    ("query", r.query), ("tableName", r.tableName), ("tableLocation", r.tableLocation)]

def parts (r : Record) : List (String × List Texts) :=
  [("sourceTables", r.sourceTables.map SourceTable.attributes),
    ("queryColumns", r.queryColumns.map QueryColumn.attributes),
    ("whereClause", r.whereClause.map WhereClause.attributes),
    ("createColumns", r.createColumns.map CreateColumn.attributes),
    ("groupBy", r.groupBy.map ColumnRef.attributes), ("orderBy", r.orderBy.map ColumnRef.attributes)]

/-- The entity that stands for a record; empty lists are left out. -/
def entity (r : Record) : Entity :=
  SortedMap.ofList
    (("queryId", .string r.queryId) :: textValues r.texts ++
      (r.parts.filter fun p => !p.2.isEmpty).map fun p =>
        (p.1, .array (p.2.map fun ts => .ofFields (SortedMap.ofList (textValues ts)))))

end Record

end TypeCatalog.Lineage
