import TypeCatalog.Definition.Declaration
set_option autoImplicit false

/-!
Flattening: a declaration together with the attributes of all its ancestors. An attribute may be reached
on many ways as long as it is the same on all of them; no definition hides another.
-/

namespace TypeCatalog

structure Resolved where
  name : String
  kind : Kind
  supers : NameSet
  /-- All supertypes, of any number of steps. -/
  ancestors : NameSet
  attributes : NameMap Attribute
  deriving DecidableEq

namespace Resolved

def category (r : Resolved) : Category := r.kind.category

def isSubtypeOf (r : Resolved) (name : String) : Bool := r.ancestors.contains name

def attribute? (r : Resolved) (name : String) : Option Attribute := r.attributes.get? name

def required (r : Resolved) : List Attribute := r.attributes.values.filter Attribute.isRequired

def unique (r : Resolved) : List Attribute := r.attributes.values.filter Attribute.unique

end Resolved

abbrev Lookup := String → Option Resolved

structure Contribution where
  source : String
  attr : Attribute
  deriving DecidableEq

namespace Contribution

/-- The first contribution of each name, and every later one that differs from it. -/
structure Merge where
  kept : NameMap Contribution
  conflicts : List Defect

def Merge.add (type : String) (m : Merge) (c : Contribution) : Merge :=
  match m.kept.get? c.attr.name with
  | none => { m with kept := m.kept.insert c.attr.name c }
  | some k =>
    if k.attr = c.attr then m
    else
      { m with
        conflicts := m.conflicts ++ [.conflict type c.attr.name k.source k.attr c.source c.attr] }

def merge (type : String) (cs : List Contribution) : Merge := cs.foldl (Merge.add type) ⟨∅, []⟩

end Contribution

namespace Declaration

def unknown (d : Declaration) (lookup : Lookup) (names : List String) : List Defect :=
  (names.filter fun n => (lookup n).isNone).map fun n => .unknownReference d.name n

def ancestors (d : Declaration) (lookup : Lookup) : NameSet :=
  d.supers.toList.foldl
    (fun names s =>
      match lookup s with
      | some r => (names.insert s ()).union r.ancestors
      | none => names)
    ∅

/-- Own attributes in the order of the declaration, then those of each ancestor by name. -/
def contributions (d : Declaration) (lookup : Lookup) : List Contribution :=
  d.attributes.map (⟨d.name, ·⟩) ++
    (d.ancestors lookup).toList.flatMap fun a =>
      match lookup a with
      | some r => r.attributes.values.map (⟨a, ·⟩)
      | none => []

def flatten (d : Declaration) (lookup : Lookup) : Except (List Defect) Resolved :=
  let merged := Contribution.merge d.name (d.contributions lookup)
  let defects := d.unknown lookup d.supers.toList ++
    d.unknown lookup (d.ancestors lookup).toList ++ merged.conflicts
  if defects.isEmpty then
    .ok ⟨d.name, d.kind, d.supers, d.ancestors lookup, merged.kept.map Contribution.attr⟩
  else .error defects

end Declaration

end TypeCatalog
