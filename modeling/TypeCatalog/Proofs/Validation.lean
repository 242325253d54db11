import TypeCatalog.Entity.Validation
import TypeCatalog.Proofs.SortedMap
set_option autoImplicit false

namespace TypeCatalog.Value

def parts : Value → List Value
  | .array items => items
  | .struct fields => fields.map Prod.snd
  | _ => []

theorem sizeOf_lt_of_mem_parts {v w : Value} (h : w ∈ v.parts) : sizeOf w < sizeOf v := by
  cases v with
  | array items =>
    have := List.sizeOf_lt_of_mem (show w ∈ items from h)
    simp only [array.sizeOf_spec]
    omega
  | struct fields =>
    obtain ⟨⟨name, v⟩, hm, rfl⟩ := List.mem_map.1 h
    have := List.sizeOf_lt_of_mem hm
    simp only [struct.sizeOf_spec, Prod.mk.sizeOf_spec] at *
    omega
  | _ => cases h

theorem parts_induction {motive : Value → Prop} (step : ∀ v, (∀ w ∈ v.parts, motive w) → motive v)
    (v : Value) : motive v :=
  step v fun w _ => parts_induction step w
  termination_by sizeOf v
  decreasing_by exact sizeOf_lt_of_mem_parts ‹_›

variable {c : Catalog} {owner attr : String} {v : Value} {t : DataType}

theorem itemViolations_eq (items : List Value) :
    itemViolations c owner attr items t = items.flatMap (violations c owner attr · t) := by
  induction items with
  | nil => rfl
  | cons v items ih => rw [itemViolations, ih, List.flatMap_cons]

theorem entryViolations_eq (fields : List (String × Value)) (keyType : DataType) :
    entryViolations c owner attr fields keyType t =
      fields.flatMap fun f =>
        (if c.acceptsKey keyType f.1 then [] else [.flaw owner attr (.mismatch keyType .string)]) ++
          violations c owner attr f.2 t := by
  induction fields with
  | nil => rfl
  | cons f fields ih => rw [entryViolations, ih, List.flatMap_cons]

theorem fieldViolations_eq (a : Attribute) (fields : List (String × Value)) :
    fieldViolations c owner a fields =
      match SortedMap.find a.name fields with
      | none => a.absent owner
      | some v => a.violations owner v (violations c owner a.name v) := by
  induction fields with
  | nil => rfl
  | cons f fields ih =>
    rw [fieldViolations, SortedMap.find]
    split
    · rfl
    · exact ih

theorem violations_primitive (p : Primitive) :
    violations c owner attr v (.primitive p) =
      if v.isNull || p.accepts v then [] else [.flaw owner attr (.mismatch (.primitive p) v.shape)] := by
  rw [violations]

theorem violations_array :
    violations c owner attr v (.array t) =
      match v with
      | .array items => items.flatMap (violations c owner attr · t)
      | v => [.flaw owner attr (.mismatch (.array t) v.shape)] := by
  cases v with
  | array items => rw [violations, itemViolations_eq]
  | _ => rfl

theorem violations_map (keyType : DataType) :
    violations c owner attr v (.map keyType t) =
      match v with
      | .struct fields =>
        fields.flatMap fun f =>
          (if c.acceptsKey keyType f.1 then [] else [.flaw owner attr (.mismatch keyType .string)]) ++
            violations c owner attr f.2 t
      | v => [.flaw owner attr (.mismatch (.map keyType t) v.shape)] := by
  cases v with
  | struct fields => rw [violations, entryViolations_eq]
  | _ => rfl

theorem violations_enum {n : String} {e : Enumeration} (he : c.enum? n = some e) :
    violations c owner attr v (.named n) =
      if e.accepts v then [] else [.flaw owner attr (.mismatch (.named n) v.shape)] := by
  rw [violations]
  simp only [he]

theorem violations_unknown {n : String} (he : c.enum? n = none) (hr : c.type? n = none) :
    violations c owner attr v (.named n) = [.flaw owner attr (.mismatch (.named n) v.shape)] := by
  rw [violations]
  simp only [he, hr]

theorem violations_type {n : String} {r : Resolved} (he : c.enum? n = none) (hr : c.type? n = some r) :
    violations c owner attr v (.named n) =
      match v with
      | .struct fields => c.fieldsViolations r fields
      | .reference id | .string id =>
        if Text.isBlank id then [.flaw owner attr (.mismatch (.named n) v.shape)] else []
      | v => [.flaw owner attr (.mismatch (.named n) v.shape)] := by
  rw [violations]
  simp only [he, hr]
  cases v <;> rfl

end TypeCatalog.Value

namespace TypeCatalog.Attribute

variable {a : Attribute} {owner : String} {v : Value} {asType : DataType → List Violation}

/-- The type that a value is checked for where its elements are of a type. -/
def ofElements (v : Value) (t : DataType) : DataType :=
  match v with
  | .array _ => .array t
  | _ => t

theorem violations_of_isMany (hv : v ≠ .null) (hm : a.multiplicity.isMany = true) :
    a.violations owner v asType =
      (if a.multiplicity.Admits (elements v).length then []
        else [a.report owner (.count (elements v).length a.multiplicity)]) ++
      (if a.multiplicity.unique && hasDuplicates (elements v) then [a.report owner .duplicates] else []) ++
      asType (ofElements v a.dataType.element) ++ a.emptyUnique owner (elements v) := by
  cases v with
  | null => exact absurd rfl hv
  | _ => simp only [violations, hm, if_true, ofElements]

theorem violations_of_isMany_eq_false (hv : v ≠ .null) (hm : a.multiplicity.isMany = false) :
    a.violations owner v asType =
      if v.shape = .array ∧ a.dataType.isCollection = false then
        [a.report owner (.mismatch a.dataType v.shape)]
      else asType a.dataType ++ a.emptyUnique owner [v] := by
  cases v with
  | null => exact absurd rfl hv
  | array items => cases hc : a.dataType.isCollection <;> simp [violations, hm, hc, Value.shape]
  | _ => simp [violations, hm, Value.shape]

end TypeCatalog.Attribute
