import TypeCatalog.Proofs.Extension
set_option autoImplicit false

/-!
Where reverse attributes lead to. Main statement: in every catalog that can be reached an attribute with a
reverse refers to one name, and that is a class with the reverse attribute unless it is an enumeration. An
enumeration is never refused there: the check looks for types only, and takes what it does not find for a
name that has been told of before.
-/

namespace TypeCatalog

def Catalog.HasClassAttribute (c : Catalog) (n m : String) : Prop :=
  ∃ q, c.type? n = some q ∧ q.kind = .classType ∧ (q.attribute? m).isSome

namespace Registry

/-- The enumerations are all that is missed. -/
theorem reverse_leads_to_class_iff (ops : List Operation) {n m reverse : String} {r : Resolved}
    {a : Attribute} (hr : (after ops).catalog.type? n = some r) (ha : r.attribute? m = some a)
    (hrev : a.reverse = some reverse) :
    ∃ k, a.dataType.element = .named k ∧
      ((after ops).catalog.HasClassAttribute k reverse ↔ (after ops).catalog.enum? k = none) := by
  have hc := reachable_after ops
  obtain ⟨k, hk, hclass⟩ := hc.reversible n r hr m a ha reverse hrev
  refine ⟨k, hk, ?_⟩
  constructor
  · intro hx
    obtain ⟨q, hq, -⟩ := hx
    exact Option.eq_none_iff_forall_ne_some.2 fun e he => hc.integrity.not_defined_twice hq he
  · intro he
    rcases hc.integrity.references n r hr m a ha k (DataType.mem_references_of_element hk) with ht | hmem
    · obtain ⟨q, hq⟩ := Catalog.mem_types.1 ht
      exact ⟨q, hq, hclass q hq⟩
    · exact absurd hmem (SortedMap.not_mem_iff.2 he)

/-- The columns of a table lead back to it, its state leads to nothing that could. -/
def columnBatch : List Definition :=
  [.enumeration ⟨"Status", [⟨"ON", 0⟩], by decide, by decide, by decide, by decide⟩,
    .declaration ⟨.classType, "Table", ∅,
      [⟨"state", "Status", .optional, false, false, false, some "table", by decide, by decide,
          indexed_of_false⟩,
        ⟨"columns", "array<Column>", .collection, false, false, false, some "table", by decide, by decide,
          indexed_of_false⟩],
      table_nonblank, no_supers_nonblank⟩,
    .declaration ⟨.classType, "Column", ∅,
      [⟨"table", "Table", .optional, false, false, false, some "columns", by decide, table_nonblank,
        indexed_of_false⟩],
      by decide, no_supers_nonblank⟩]

set_option maxRecDepth 20000 in
theorem clean_columnBatch : (⟨.empty, columnBatch⟩ : Scope).Clean := by
  refine ⟨⟨by decide, ?free⟩, ?supers, ?references, by cbv, by cbv, ?reverse⟩
  all_goals
    simp only [columnBatch, Scope.declarations, List.filterMap_cons, Definition.declaration?,
      List.filterMap_nil, List.forall_mem_cons]
    refine ⟨by cbv, by cbv, ?_⟩
  case free => exact ⟨by cbv, by simp⟩
  all_goals simp

theorem exists_table_attribute {m k : String}
    (h : (((⟨.empty, columnBatch⟩ : Scope).committed 0).type? "Table").any (fun r =>
      (r.attribute? m).any fun a =>
        decide (a.reverse = some "table") && decide (a.dataType.element = .named k)) = true) :
    ∃ r a, (after [.call (.register 0 columnBatch)]).catalog.type? "Table" = some r ∧
      r.attribute? m = some a ∧ a.reverse = some "table" ∧ a.dataType.element = .named k := by
  refine exists_attribute_after_register 0 rfl clean_columnBatch
    (p := fun a => a.reverse = some "table" ∧ a.dataType.element = .named k) ?_
  simpa only [Bool.decide_and] using h

set_option maxRecDepth 20000 in
theorem table_columns_lead_to_class :
    ∃ r a, (after [.call (.register 0 columnBatch)]).catalog.type? "Table" = some r ∧
      r.attribute? "columns" = some a ∧ a.reverse = some "table" ∧ a.dataType.element = .named "Column" ∧
      (after [.call (.register 0 columnBatch)]).catalog.HasClassAttribute "Column" "table" := by
  obtain ⟨r, a, hr, ha, hrev, hk⟩ := exists_table_attribute (m := "columns") (k := "Column") (by cbv)
  have hno : (after [.call (.register 0 columnBatch)]).catalog.enum? "Column" = none := by
    rw [catalog_after_register 0 rfl clean_columnBatch]
    cbv
  obtain ⟨k, hk', hiff⟩ := reverse_leads_to_class_iff _ hr ha hrev
  obtain rfl : "Column" = k := DataType.named.inj (hk.symm.trans hk')
  exact ⟨r, a, hr, ha, hrev, hk, hiff.2 hno⟩

set_option maxRecDepth 20000 in
theorem table_state_leads_to_no_class :
    ∃ r a, (after [.call (.register 0 columnBatch)]).catalog.type? "Table" = some r ∧
      r.attribute? "state" = some a ∧ a.reverse = some "table" ∧ a.dataType.element = .named "Status" ∧
      ¬(after [.call (.register 0 columnBatch)]).catalog.HasClassAttribute "Status" "table" := by
  obtain ⟨r, a, hr, ha, hrev, hk⟩ := exists_table_attribute (m := "state") (k := "Status") (by cbv)
  have hno : (after [.call (.register 0 columnBatch)]).catalog.type? "Status" = none := by
    rw [catalog_after_register 0 rfl clean_columnBatch]
    cbv
  refine ⟨r, a, hr, ha, hrev, hk, fun hx => ?_⟩
  obtain ⟨q, hq, -⟩ := hx
  cases hno.symm.trans hq

end Registry

end TypeCatalog
