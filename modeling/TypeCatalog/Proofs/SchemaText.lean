import TypeCatalog.Proofs.Json.Reader
import TypeCatalog.Schema.Text
set_option autoImplicit false

namespace TypeCatalog

open Json Json.Reader

theorem EnumValue.reads (v : EnumValue) : reader.Reads v v.json :=
  reads_record (.part rfl rfl (reads_string v.name) (.part rfl rfl (reads_word v.ordinal) (.nil _))) rfl

theorem EnumDocument.reads (d : EnumDocument) : reader.Reads d d.json :=
  reads_record
    (.part rfl rfl (reads_string d.name)
      (.part rfl rfl (reads_list fun v _ => v.reads) (.nil _))) rfl

theorem MultiplicityDocument.reads (d : MultiplicityDocument) : reader.Reads d d.json := by
  obtain ⟨lower, upper, unique⟩ := d
  have hu : ∃ j, (option word).Reads upper j ∧ json ⟨lower, upper, unique⟩ =
      .object [("lower", .ofWord lower), ("upper", j), ("isUnique", .bool unique)] := by
    cases upper with
    | none => exact ⟨.null, reads_none, rfl⟩
    | some u => exact ⟨.ofWord u, (reads_word u).some (by simp [Json.ofWord]), rfl⟩
  obtain ⟨j, hu, hjson⟩ := hu
  rw [hjson]
  exact reads_record
    (.part rfl rfl (reads_word lower) (.part rfl rfl hu (.part rfl rfl (reads_bool unique) (.nil _)))) rfl

theorem AttributeDocument.reads (d : AttributeDocument) : reader.Reads d d.json := by
  obtain ⟨name, typeName, multiplicity, unique, indexed, composite, reverse⟩ := d
  have hr : ∃ draft, Fills form.fields
      ⟨some name, some typeName, some multiplicity, some unique, some indexed, some composite, none⟩
      (Json.optional "reverseAttributeName" (reverse.map .string)) draft ∧
      form.complete draft = .ok ⟨name, typeName, multiplicity, unique, indexed, composite, reverse⟩ := by
    cases reverse with
    | none => exact ⟨_, .nil _, rfl⟩
    | some r => exact ⟨_, .part rfl rfl ((reads_string r).some nofun) (.nil _), rfl⟩
  obtain ⟨draft, hfills, hdraft⟩ := hr
  exact reads_record
    (.part rfl rfl (reads_string name) (.part rfl rfl (reads_string typeName)
      (.part rfl rfl multiplicity.reads (.part rfl rfl (reads_bool unique)
        (.part rfl rfl (reads_bool indexed) (.part rfl rfl (reads_bool composite) hfills)))))) hdraft

theorem Kind.reads (k : Kind) : reader.Reads k (.string k.name) :=
  reads_variant (by cases k <;> rfl) _

theorem reads_ofStrings (names : List String) : (list string).Reads names (Json.ofStrings names) :=
  reads_list fun s _ => reads_string s

theorem TypeDocument.reads (d : TypeDocument) : reader.Reads d d.json := by
  obtain ⟨name, kind, supers, attributes, allSupers⟩ := d
  have hs : ∃ draft, Fills form.fields ⟨some name, some kind, some supers, some attributes, none⟩
      (Json.optional "allSuperTypes" (allSupers.map .ofStrings)) draft ∧
      form.complete draft = .ok ⟨name, kind, supers, attributes, allSupers⟩ := by
    cases allSupers with
    | none => exact ⟨_, .nil _, rfl⟩
    | some names => exact ⟨_, .part rfl rfl ((reads_ofStrings names).some nofun) (.nil _), rfl⟩
  obtain ⟨draft, hfills, hdraft⟩ := hs
  exact reads_record
    (.part rfl rfl (reads_string name) (.part rfl rfl kind.reads (.part rfl rfl (reads_ofStrings supers)
      (.part rfl rfl (reads_list fun a _ => a.reads) hfills)))) hdraft

theorem SchemaDocument.reads (d : SchemaDocument) : reader.Reads d d.json :=
  reads_record
    (.part rfl rfl (reads_list fun e _ => e.reads)
      (.part rfl rfl (reads_list fun t _ => t.reads) (.nil _))) rfl

/-- Every document, also one that says nothing sound, is read back from its text. -/
theorem SchemaDocument.ofText_text (d : SchemaDocument) : ofText d.text = .ok d :=
  d.reads.parse Style.lawful_pretty

end TypeCatalog
