import TypeCatalog.Lineage.Record
import TypeCatalog.Entity.Validation
set_option autoImplicit false

namespace TypeCatalog.Lineage

def recordType : String := "HiveLineage"

/-- A class of components, all of whose attributes are optional texts. -/
structure ComponentClass where
  name : String
  attributes : List String

def sourceTableClass : ComponentClass :=
  ⟨"HiveLineageSourceTable", ["tableName", "tableAlias", "databaseName"]⟩

def queryColumnClass : ComponentClass :=
  ⟨"HiveLineageQueryColumn", ["tbAliasOrName", "columnName", "columnAlias", "columnFunction"]⟩

def whereClauseClass : ComponentClass :=
  ⟨"HiveLineageWhereClause",
    ["tbAliasOrName", "columnCondition", "columnName", "columnOperator", "columnValue"]⟩

def columnRefClass : ComponentClass := ⟨"HiveLineageColumnRef", ["tbAliasOrName", "columnName"]⟩

def createColumnClass : ComponentClass := ⟨"HiveLineageCreateColumn", ["columnName", "columnType"]⟩

def optionalTexts (names : List String) : Except Defect (List Attribute) :=
  names.mapM fun name => Attribute.optional name Primitive.string.name

def ComponentClass.definition (k : ComponentClass) : Except Defect Definition := do
  let attributes ← optionalTexts k.attributes
  (Declaration.ofKind .classType k.name [] attributes).map .declaration

/-- A list of components, which live and end with their record. -/
def partAttribute (name type : String) : Except Defect Attribute :=
  (Attribute.collection name type).map Attribute.asComposite

def lists : List (String × ComponentClass) :=
  [("sourceTables", sourceTableClass), ("queryColumns", queryColumnClass), ("whereClause", whereClauseClass),
    ("createColumns", createColumnClass), ("groupBy", columnRefClass), ("orderBy", columnRefClass)]

def recordDefinition : Except Defect Definition := do
  let id ← Attribute.key "queryId" Primitive.string.name
  let texts ←
    optionalTexts ["user", "queryStartTime", "queryEndTime", "query", "tableName", "tableLocation"]
  let parts ← lists.mapM fun l => partAttribute l.1 l.2.name
  (Declaration.ofKind .classType recordType [] (id :: texts ++ parts)).map .declaration

def definitions : Except Defect (List Definition) := do
  let tables ← sourceTableClass.definition
  let columns ← queryColumnClass.definition
  let clauses ← whereClauseClass.definition
  let refs ← columnRefClass.definition
  let created ← createColumnClass.definition
  let record ← recordDefinition
  pure [tables, columns, clauses, refs, created, record]

structure Tally where
  accepted : Nat := 0
  rejected : Nat := 0
  deriving DecidableEq, Repr

inductive Refusal where
  | unreadable (fault : Json.Fault)
  | invalid (violations : List Violation)

def rejectionText (violations : List Violation) : String :=
  recordType ++ " entity rejected with " ++ toString violations.length ++ " violation(s)"

def ingest (c : Catalog) (e : Entity) (t : Tally) : Except Refusal Entity × Tally :=
  match c.validate recordType e with
  | [] => (.ok e, { t with accepted := t.accepted + 1 })
  | violations => (.error (.invalid violations), { t with rejected := t.rejected + 1 })

def membersReader : Json.Reader (List (String × Json)) where
  run ts :=
    match ts with
    | .openBrace :: _ =>
      match Json.run .reading .value [] ts with
      | .ok (.object members, rest) => .ok (members, rest)
      | .ok _ => .error .malformed
      | .error fault => .error fault
    | ts => .error (Json.mismatch "a map" ts)
  shrinks := by
    intro ts rest a h
    split at h
    · split at h
      · next hr => cases h; exact Json.length_lt_of_run hr
      · simp at h
      · simp at h
    · simp at h

/-- The fields of a text that is an object; of several with one name the last one counts. -/
def entityOfText (text : String) : Except Json.Fault Entity :=
  (membersReader.parse text).map Entity.ofMembers

/-- A text that cannot be read is not counted. -/
def ingestText (c : Catalog) (text : String) (t : Tally) : Except Refusal Entity × Tally :=
  match entityOfText text with
  | .ok e => ingest c e t
  | .error fault => (.error (.unreadable fault), t)

def ingestRecord (c : Catalog) (r : Record) (t : Tally) : Except Refusal Entity × Tally :=
  ingest c r.entity t

end TypeCatalog.Lineage
