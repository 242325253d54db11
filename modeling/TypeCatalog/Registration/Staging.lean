import TypeCatalog.Registration.Resolution
set_option autoImplicit false

/-!
Staging checks a batch against a catalog and resolves it. All defects are told, in a fixed order: names,
references, cycles, flattening, reverse attributes.
-/

namespace TypeCatalog

structure Staged where
  types : NameMap Resolved
  enums : List Enumeration

namespace Declaration

def reverseDefects (d : Declaration) (lookup : Lookup) : List Defect :=
  d.attributes.flatMap fun a =>
    match a.reverse with
    | none => []
    | some reverse =>
      match a.dataType.element with
      | .named target =>
        match lookup target with
        | none => []
        | some r =>
          if r.kind = .classType ∧ (r.attribute? reverse).isSome then []
          else [.invalidReverse d.name a.name reverse target]
      | _ => [.invalidReverse d.name a.name reverse a.typeName]

end Declaration

namespace Catalog

def scope (c : Catalog) (batch : List Definition) : Scope :=
  ⟨c, (Admission.ofBatch c batch).accepted⟩

def stage (c : Catalog) (batch : List Definition) : Except (List Defect) Staged :=
  let scope := c.scope batch
  let resolution := scope.resolveAll
  let defects := (Admission.ofBatch c batch).refused ++
    scope.declarations.flatMap scope.referenceDefects ++
    scope.cycles.map .cycle ++
    resolution.defects ++
    scope.declarations.flatMap fun d => d.reverseDefects (resolution.lookup c)
  if defects.isEmpty then .ok ⟨resolution.resolved, scope.enums⟩ else .error defects

def commit (c : Catalog) (staged : Staged) (now : Nat) : Catalog where
  version := c.version + 1
  createdAt := now
  types := c.types.union staged.types
  enums := staged.enums.foldl (fun m e => m.insert e.name e) c.enums

end Catalog

end TypeCatalog
