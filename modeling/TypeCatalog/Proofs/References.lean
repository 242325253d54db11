import TypeCatalog.Definition.DataType
set_option autoImplicit false

namespace TypeCatalog.DataType

@[simp] theorem references_element (t : DataType) : t.element.references = t.references := by
  cases t <;> rfl

theorem mem_references_of_element {t : DataType} {n : String} (h : t.element = .named n) :
    n ∈ t.references := by
  rw [← references_element, h]
  exact List.mem_singleton_self n

theorem parse_congr {cs ds : List Char} (h : Text.trim cs = Text.trim ds) : parse cs = parse ds := by
  rw [parse.eq_def cs, parse.eq_def ds, h]

/-- White space around a name does not count, so what is left over as a name is left over again. -/
theorem ofName_of_mem_references {cs : List Char} {n : String} (h : n ∈ (parse cs).references) :
    ofName n = .named n := by
  fun_induction parse cs with
  | case1 => simp [references] at h
  | case2 cs hp inner hi ih => exact ih h
  | case3 cs hp hi k v hs ihk ihv =>
    rcases List.mem_append.1 h with h | h
    · exact ihk h
    · exact ihv h
  | case4 cs hp hi hs =>
    obtain rfl : n = String.ofList (Text.trim cs) := List.mem_singleton.1 h
    rw [ofName, String.toList_ofList, parse_congr (Text.trim_trim cs), parse]
    split
    · simp_all
    · split
      · simp_all
      · split <;> simp_all

theorem ofName_primitive (p : Primitive) : ofName p.name = .primitive p := by
  have h : Primitive.ofName? (String.ofList (Text.trim p.name.toList)) = some p := by
    cases p <;> decide
  rw [ofName, parse]
  split <;> simp_all

theorem not_primitive_of_named {n : String} (h : ofName n = .named n) :
    Primitive.ofName? n = none := by
  rw [Option.eq_none_iff_forall_ne_some]
  intro p hp
  rw [← Primitive.name_of_ofName? hp, ofName_primitive] at h
  cases h

end TypeCatalog.DataType
