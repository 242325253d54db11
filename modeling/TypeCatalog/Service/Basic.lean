import TypeCatalog.Registry
import TypeCatalog.Schema.Text
import TypeCatalog.Lineage.Ingestion
set_option autoImplicit false

namespace TypeCatalog

inductive CatalogFault where
  | document (fault : Json.Fault)
  | definition (defect : Defect)
  | registration (defects : List Defect)
  | journal (fault : JournalFault)
  | unwritable
  deriving DecidableEq

def CatalogFault.ofRefusal : Registry.Refusal → CatalogFault
  | .defects defects => .registration defects
  | .unwritable => .unwritable

/-- The text of a fault. That of a document is told by its own parts. -/
def CatalogFault.message? : CatalogFault → Option String
  | .document _ | .unwritable => none
  | .definition defect => some defect.message
  | .registration defects => some (Defect.report defects)
  | .journal fault => fault.message?

inductive FileFault where
  | notFound
  | notText
  deriving DecidableEq, Repr

inductive ServiceFault where
  | catalog (fault : CatalogFault)
  | bootstrap (path : String) (fault : CatalogFault)
  | file (fault : FileFault)
  deriving DecidableEq

def ServiceFault.message? : ServiceFault → Option String
  | .catalog fault => fault.message?.map ("type system error: " ++ ·)
  | .bootstrap path fault => fault.message?.map ("bootstrap file " ++ path ++ ": " ++ ·)
  | .file _ => none

abbrev Files := String → Option ByteArray

def Files.text (files : Files) (path : String) : Except FileFault String :=
  match files path with
  | none => .error .notFound
  | some content =>
    match String.fromUTF8? content with
    | some text => .ok text
    | none => .error .notText

def ServiceFault.inFile (path : String) : ServiceFault → ServiceFault
  | .catalog fault => .bootstrap path fault
  | fault => fault

abbrev Service := Registry

namespace Service

def register (o : Occasion) (batch : List Definition) : Action ServiceFault (NameMap Resolved) :=
  (Registry.persist o batch).adapt fun refusal => .catalog (.ofRefusal refusal)

/-- Leaves out what is committed already, so that the same batch can be registered at every start. -/
def registerMissing (o : Occasion) (batch : List Definition) :
    Action ServiceFault (NameMap Resolved) := do
  let c := (← get).catalog
  register o (batch.filter fun d => !c.isCommitted d)

def definitionsOf (text : String) : Except CatalogFault (List Definition) :=
  match SchemaDocument.ofText text with
  | .error fault => .error (.document fault)
  | .ok document =>
    match document.batch with
    | .error defect => .error (.definition defect)
    | .ok batch => .ok batch

def load (o : Occasion) (files : Files) (path : String) :
    Action ServiceFault (NameMap Resolved) := do
  match files.text path with
  | .error fault => throw (.file fault)
  | .ok text =>
    match definitionsOf text with
    | .error fault => throw (.bootstrap path fault)
    | .ok batch => (registerMissing o batch).adapt (.inFile path)

def loadAll (files : Files) : Occasions → List String → Action ServiceFault Unit
  | _, [] => pure ()
  | os, path :: paths => do
    let _ ← load (os 0) files path
    loadAll files os.tail paths

def addLineage (o : Occasion) : Action ServiceFault Unit := do
  match Lineage.definitions with
  | .error defect => throw (.catalog (.definition defect))
  | .ok batch =>
    let _ ← registerMissing o batch

def prepare (files : Files) (os : Occasions) (bootstrap : List String) (lineage : Bool) :
    Action ServiceFault Unit := do
  loadAll files os bootstrap
  if lineage then addLineage (os bootstrap.length)

/-- Starts a service on a journal. What was recorded before a fault stays recorded: the journal is given
back in any case. Each registration meets an occasion of its own, `o` the first of them. -/
def start (j : Journal) (files : Files) (o : Occasion) (bootstrap : List String) (lineage : Bool)
    (later : Occasions := fun _ => o) : Journal × Except ServiceFault Service :=
  match Registry.restore j with
  | .error fault => (j, .error (.catalog (.journal fault)))
  | .ok s =>
    match (prepare files (.cons o later) bootstrap lineage).on s with
    | (.ok (), s) => (s.journal, .ok s)
    | (.error fault, s) => (s.journal, .error fault)

end Service

end TypeCatalog
