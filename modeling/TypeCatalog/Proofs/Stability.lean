import TypeCatalog.Proofs.Conformity
import TypeCatalog.Proofs.Extension
set_option autoImplicit false

namespace TypeCatalog

namespace Attribute

variable {a : Attribute} {owner : String} {v : Value} {f g : DataType → List Violation}

@[simp] theorem references_ofElements (v : Value) (t : DataType) :
    (ofElements v t).references = t.references := by cases v <;> rfl

/-- A value is checked for types that need the same names as the type of its attribute. -/
theorem violations_congr (h : ∀ t, t.references = a.dataType.references → f t = g t) :
    a.violations owner v f = a.violations owner v g := by
  by_cases hv : v = .null
  · subst hv
    rfl
  cases hm : a.multiplicity.isMany with
  | true => rw [violations_of_isMany hv hm, violations_of_isMany hv hm, h _ (by simp)]
  | false =>
    rw [violations_of_isMany_eq_false hv hm, violations_of_isMany_eq_false hv hm, h _ rfl]

end Attribute

namespace Catalog

variable {c c' : Catalog} {n : String}

theorem Keeps.enum?_eq (hk : c'.Keeps c) (hi' : c'.Integrity) (hn : c.Defines n) :
    c'.enum? n = c.enum? n := by
  cases he : c.enum? n with
  | some e => exact hk.enums n e he
  | none =>
    -- It is a type already, so it never becomes an enumeration.
    have ht : n ∈ c.types := hn.resolve_right (SortedMap.not_mem_iff.2 he)
    obtain ⟨r, hr⟩ := mem_types.1 ht
    exact SortedMap.not_mem_iff.1 (hi'.disjoint n (mem_types.2 ⟨r, hk.types n r hr⟩))

theorem Keeps.type?_eq (hk : c'.Keeps c) (hi' : c'.Integrity) (hn : c.Defines n) :
    c'.type? n = c.type? n := by
  cases hr : c.type? n with
  | some r => exact hk.types n r hr
  | none =>
    have he : n ∈ c.enums := hn.resolve_left (SortedMap.not_mem_iff.2 hr)
    obtain ⟨e, he⟩ := mem_enums.1 he
    refine SortedMap.not_mem_iff.1 fun ht => ?_
    exact hi'.disjoint n ht (mem_enums.2 ⟨e, hk.enums n e he⟩)

theorem Keeps.acceptsKey_eq (hk : c'.Keeps c) (hi' : c'.Integrity) {keyType : DataType} {key : String}
    (h : ∀ n ∈ keyType.references, c.Defines n) : c'.acceptsKey keyType key = c.acceptsKey keyType key := by
  cases keyType with
  | named n => rw [acceptsKey, acceptsKey, hk.enum?_eq hi' (h n (List.mem_singleton_self n))]
  | _ => rfl

theorem fieldsViolations_congr (hi : c.Integrity) {r : Resolved} (hr : c.type? n = some r)
    {fields : List (String × Value)}
    (h : ∀ f ∈ fields, ∀ owner attr t, (∀ n ∈ DataType.references t, c.Defines n) →
      Value.violations c' owner attr f.2 t = Value.violations c owner attr f.2 t) :
    c'.fieldsViolations r fields = c.fieldsViolations r fields := by
  rw [fieldsViolations, fieldsViolations]
  congr 1
  refine List.flatMap_congr fun a ha => ?_
  obtain ⟨m, hm⟩ := SortedMap.mem_values.1 ha
  rw [Value.fieldViolations_eq, Value.fieldViolations_eq]
  cases hf : SortedMap.find a.name fields with
  | none => rfl
  | some v =>
    refine Attribute.violations_congr fun t ht => ?_
    exact h _ (SortedMap.mem_of_find hf) _ _ t (ht ▸ hi.references n r hr m a hm)

section Keeps

variable (hk : c'.Keeps c) (hi : c.Integrity) (hi' : c'.Integrity)

include hk hi hi'

/-- By induction on the value: whatever is looked up for it was committed before. -/
theorem Keeps.violations_eq (v : Value) :
    ∀ owner attr t, (∀ n ∈ DataType.references t, c.Defines n) →
      Value.violations c' owner attr v t = Value.violations c owner attr v t := by
  induction v using Value.parts_induction with
  | step v ih =>
  intro owner attr t ht
  cases t with
  | primitive p => rw [Value.violations_primitive, Value.violations_primitive]
  | array t =>
    rw [Value.violations_array, Value.violations_array]
    cases v with
    | array items => exact List.flatMap_congr fun w hw => ih w hw owner attr t ht
    | _ => rfl
  | map keyType t =>
    obtain ⟨hkey, ht⟩ := List.forall_mem_append.1 ht
    rw [Value.violations_map, Value.violations_map]
    cases v with
    | struct fields =>
      refine List.flatMap_congr fun f hf => ?_
      rw [hk.acceptsKey_eq hi' hkey, ih f.2 (List.mem_map_of_mem hf) owner attr t ht]
    | _ => rfl
  | named n =>
    have hn : c.Defines n := ht n (List.mem_singleton_self n)
    have he' := hk.enum?_eq hi' hn
    have hr' := hk.type?_eq hi' hn
    cases he : c.enum? n with
    | some e => rw [Value.violations_enum he, Value.violations_enum (he'.trans he)]
    | none =>
      obtain ⟨r, hr⟩ := mem_types.1 (hn.resolve_right (SortedMap.not_mem_iff.2 he))
      rw [Value.violations_type he hr, Value.violations_type (he'.trans he) (hr'.trans hr)]
      cases v with
      | struct fields =>
        exact fieldsViolations_congr hi hr fun f hf => ih f.2 (List.mem_map_of_mem hf)
      | _ => rfl

theorem Keeps.validate_eq (hn : c.Defines n) (entity : Entity) :
    c'.validate n entity = c.validate n entity := by
  rw [validate, validate, hk.type?_eq hi' hn, hk.enum?_eq hi' hn]
  cases hr : c.type? n with
  | none => rfl
  | some r =>
    dsimp only
    rw [fieldsViolations_congr hi hr fun f _ => hk.violations_eq hi hi' f.2]

end Keeps

end Catalog

namespace Registry

/-- What is registered later, accepted or not, is not seen by the entities of what was there before. -/
theorem validate_unchanged_by_calls (ops : List Operation) (calls : List Call) {name : String}
    (h : (after ops).catalog.Defines name) (entity : Entity) :
    (after (ops ++ calls.map .call)).catalog.validate name entity =
      (after ops).catalog.validate name entity :=
  (keeps_after_append ops calls).validate_eq (reachable_after ops).integrity
    (reachable_after _).integrity h entity

/-- The second registration is refused, the first is not. -/
def laterCalls : List Call :=
  [.register 1 codecBatch, .register 2 tableBatch]

theorem validate_table_unchanged :
    (after [.call (.register 0 tableBatch)]).catalog.Defines "Table" ∧
      (after ([.call (.register 0 tableBatch)] ++ laterCalls.map .call)).catalog.validate "Table"
          tableEntity =
        (after [.call (.register 0 tableBatch)]).catalog.validate "Table" tableEntity := by
  have h : (after [.call (.register 0 tableBatch)]).catalog.Defines "Table" := by
    rw [catalog_after_register 0 (by rfl) clean_tableBatch]
    refine (clean_tableBatch.defines_committed Catalog.integrity_empty).2 (.inr ⟨_, .head _, rfl⟩)
  exact ⟨h, validate_unchanged_by_calls _ laterCalls h tableEntity⟩

end Registry

end TypeCatalog
