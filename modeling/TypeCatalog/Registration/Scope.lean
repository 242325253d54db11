import TypeCatalog.Catalog
import TypeCatalog.Inheritance.Cycle
set_option autoImplicit false

/-!
Names in a batch. The definitions of a batch see each other and what is committed, in whatever order they
stand; only the first of each name that is still free takes part.
-/

namespace TypeCatalog

structure Admission where
  taken : List String
  accepted : List Definition
  refused : List Defect

namespace Admission

def add (c : Catalog) (a : Admission) (d : Definition) : Admission :=
  if c.contains d.name ∨ d.name ∈ a.taken then
    { a with refused := a.refused ++ [.duplicateType d.name] }
  else ⟨d.name :: a.taken, a.accepted ++ [d], a.refused⟩

def ofBatch (c : Catalog) (batch : List Definition) : Admission :=
  batch.foldl (add c) ⟨[], [], []⟩

end Admission

structure Scope where
  catalog : Catalog
  accepted : List Definition

namespace Scope

def declarations (s : Scope) : List Declaration := s.accepted.filterMap Definition.declaration?

def enums (s : Scope) : List Enumeration := s.accepted.filterMap Definition.enumeration?

def declaration? (s : Scope) (name : String) : Option Declaration :=
  s.declarations.find? fun d => d.name == name

def batchCategory? (s : Scope) (name : String) : Option Category :=
  match s.declaration? name with
  | some d => some d.category
  | none => if s.enums.any fun e => e.name == name then some .enumeration else none

def ownCategory? (s : Scope) (name : String) : Option Category :=
  (s.catalog.ownCategory? name).or (s.batchCategory? name)

def category? (s : Scope) (name : String) : Option Category :=
  match (s.catalog.category? name).or (s.batchCategory? name) with
  | some category => some category
  | none =>
    if Catalog.isKnownCollection (fun n => (s.ownCategory? n).isSome) name then some .primitive
    else none

def superDefects (s : Scope) (d : Declaration) : List Defect :=
  d.supers.toList.flatMap fun name =>
    match s.category? name with
    | none => [.unknownReference d.name name]
    | some category =>
      if category = d.category then [] else [.supertypeCategory d.name d.category name category]

def attributeDefects (s : Scope) (d : Declaration) : List Defect :=
  d.attributes.flatMap fun a =>
    (a.dataType.references.filter fun n => (s.category? n).isNone).map (.unknownReference d.name ·)

def referenceDefects (s : Scope) (d : Declaration) : List Defect :=
  s.superDefects d ++ s.attributeDefects d

/-- The supertypes of a declaration in the batch, without those that are refused. -/
def edges (s : Scope) (d : Declaration) : List String :=
  d.supers.toList.filter fun name =>
    s.category? name = some d.category && (s.declaration? name).isSome

def graph (s : Scope) : Graph :=
  SortedMap.ofList (s.declarations.map fun d => (d.name, s.edges d))

def cycles (s : Scope) : List (List String) := s.graph.cycles

/-- The declarations that cannot be resolved, and would never end to be. -/
def blocked (s : Scope) : NameSet :=
  NameSet.ofList
    (((s.declarations.filter fun d => !(s.superDefects d).isEmpty).map Declaration.name) ++
      s.cycles.flatten)

end Scope

end TypeCatalog
