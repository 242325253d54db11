import TypeCatalog.Registration.Staging
import TypeCatalog.Journal.Key
set_option autoImplicit false

/-!
The journal records every committed batch as it was submitted. Records are kept in the order of their
keys, so versions are in order. Replaying a journal gives the catalog that it was written for.
-/

namespace TypeCatalog

structure Batch where
  version : Nat
  createdAt : Nat
  definitions : List Definition
  deriving DecidableEq

inductive Journal.Entry where
  | batch (b : Batch)
  | unreadable
  deriving DecidableEq

inductive JournalFault where
  | unreadable
  | badKey
  | gap (expected found : Nat)
  | rejected (defects : List Defect)
  deriving DecidableEq

abbrev Journal := SortedMap Journal.Key Journal.Entry

namespace Journal

/-- A second batch of one version takes the place of the first. -/
def append (j : Journal) (b : Batch) : Journal := j.insert (Key.ofVersion b.version) (.batch b)

def putRaw (j : Journal) (key : Key) : Journal := j.insert key .unreadable

def readEntries : List Entry → Except JournalFault (List Batch)
  | [] => .ok []
  | .unreadable :: _ => .error .unreadable
  | .batch b :: es => (readEntries es).map (b :: ·)

def batches (j : Journal) : Except JournalFault (List Batch) := readEntries j.values

def latestVersion (j : Journal) : Except JournalFault Nat :=
  match j.keys.getLast? with
  | none => .ok 0
  | some key =>
    match key.version? with
    | some version => .ok version
    | none => .error .badKey

def replayBatch (c : Catalog) (b : Batch) : Except JournalFault Catalog :=
  if b.version = c.version + 1 then
    match c.stage b.definitions with
    | .ok staged => .ok (c.commit staged b.createdAt)
    | .error defects => .error (.rejected defects)
  else .error (.gap (c.version + 1) b.version)

def replay (j : Journal) : Except JournalFault Catalog := do
  let bs ← j.batches
  bs.foldlM replayBatch Catalog.empty

end Journal

namespace JournalFault

def message? : JournalFault → Option String
  | .unreadable => none
  | .badKey => some "type store corrupt: invalid batch key"
  | .gap expected found =>
    some ("type store corrupt: expected batch version " ++ toString expected ++ ", found " ++
      toString found)
  | .rejected defects => some ("type store corrupt: " ++ Defect.report defects)

end JournalFault

end TypeCatalog
