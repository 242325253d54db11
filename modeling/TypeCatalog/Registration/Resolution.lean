import TypeCatalog.Registration.Scope
set_option autoImplicit false

/-!
Resolving the declarations of a batch, each after its supertypes. What is resolved or has failed is kept,
so that every declaration is flattened once. A declaration whose supertype fails fails without a defect
of its own, because that of the supertype is told already.
-/

namespace TypeCatalog

structure Resolution where
  resolved : NameMap Resolved
  failed : NameSet
  defects : List Defect

namespace Resolution

def start : Resolution := ⟨∅, ∅, []⟩

def succeed (p : Resolution) (name : String) (r : Resolved) : Resolution :=
  { p with resolved := p.resolved.insert name r }

def fail (p : Resolution) (name : String) (defects : List Defect) : Resolution :=
  { p with failed := p.failed.insert name (), defects := p.defects ++ defects }

/-- Types of the batch go before those of the catalog. -/
def lookup (p : Resolution) (c : Catalog) : Lookup := fun name => (p.resolved.get? name).or (c.type? name)

end Resolution

inductive Outcome where
  | resolved
  | unresolved
  /-- The declaration is already being resolved. -/
  | reentered
  deriving DecidableEq, Repr

namespace Scope

theorem length_filter_lt_of_find? {name : String} {ds : List Declaration} {d : Declaration}
    (h : ds.find? (fun d => d.name == name) = some d) :
    (ds.filter fun d => d.name != name).length < ds.length := by
  have hm := List.mem_of_find?_eq_some h
  have hn := List.find?_some h
  refine Nat.lt_of_le_of_ne (List.length_filter_le _ _) fun he => ?_
  have := (List.length_filter_eq_length_iff.1 he) d hm
  simp_all

mutual

/-- Resolves a declaration of the batch; the pending ones are those that are not being resolved. -/
def resolve (s : Scope) (blocked : NameSet) (pending : List Declaration) (name : String)
    (p : Resolution) : Outcome × Resolution :=
  if name ∈ p.resolved then (.resolved, p)
  else if name ∈ p.failed ∨ name ∈ blocked then (.unresolved, p)
  else
    match _h : pending.find? fun d => d.name == name with
    | none => (if (s.declaration? name).isSome then .reentered else .unresolved, p)
    | some d =>
      match resolveSupers s blocked (pending.filter fun d => d.name != name) d.supers.toList p with
      | (.resolved, p) =>
        match d.flatten (p.lookup s.catalog) with
        | .ok r => (.resolved, p.succeed name r)
        | .error defects => (.unresolved, p.fail name defects)
      | (outcome, p) => (outcome, p.fail name [])
  termination_by (pending.length, 0)
  decreasing_by exact Prod.Lex.left _ _ (length_filter_lt_of_find? _h)

def resolveSupers (s : Scope) (blocked : NameSet) (pending : List Declaration) :
    List String → Resolution → Outcome × Resolution
  | [], p => (.resolved, p)
  | name :: names, p =>
    if (s.declaration? name).isSome then
      match resolve s blocked pending name p with
      | (.resolved, p) => resolveSupers s blocked pending names p
      | (outcome, p) => (outcome, p)
    else resolveSupers s blocked pending names p
  termination_by names => (pending.length, names.length + 1)

end

def resolveAll (s : Scope) : Resolution :=
  s.declarations.foldl (fun p d => (s.resolve s.blocked s.declarations d.name p).2) Resolution.start

end Scope

end TypeCatalog
