import TypeCatalog.Journal
import TypeCatalog.Schema.Text
set_option autoImplicit false

namespace TypeCatalog

def SchemaDocument.ofBatch (batch : List Definition) : SchemaDocument where
  enums := (batch.filterMap Definition.enumeration?).map .ofEnumeration
  types := (batch.filterMap Definition.declaration?).map .ofDeclaration

namespace Batch

def line (b : Batch) : String :=
  " ".intercalate
    [toString b.version, toString b.createdAt, (SchemaDocument.ofBatch b.definitions).json.compact]

def ofLine? (line : String) : Option Batch :=
  match line.splitOn " " with
  | version :: createdAt :: document => do
    let version ← version.toNat?
    let createdAt ← createdAt.toNat?
    let document ← (SchemaDocument.ofText (" ".intercalate document)).toOption
    let definitions ← document.batch.toOption
    pure ⟨version, createdAt, definitions⟩
  | _ => none

end Batch

namespace Journal

def text (j : Journal) : Except JournalFault String :=
  j.batches.map fun bs => String.join (bs.map fun b => b.line ++ "\n")

/-- A line that is no batch makes the whole journal unreadable; empty lines do not count. -/
def ofText (text : String) : Except JournalFault Journal :=
  ((text.splitOn "\n").filter fun line => !line.isEmpty).foldlM
    (fun j line =>
      match Batch.ofLine? line with
      | some b => .ok (j.append b)
      | none => .error .unreadable)
    ∅

end Journal

end TypeCatalog
