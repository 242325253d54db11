import Mathlib
import TypeCatalog.Proofs.Document
set_option autoImplicit false

namespace TypeCatalog

/-- What is unique is indexed, so it is marked as both. -/
def AttributeDocument.normal (d : AttributeDocument) : AttributeDocument :=
  { d with indexed := d.indexed || d.unique }

/-- Supertypes in order and each of them once, without those that are not direct. -/
def TypeDocument.normal (t : TypeDocument) : TypeDocument :=
  { t with
    supers := t.supers.mergeSort.dedup
    attributes := t.attributes.map AttributeDocument.normal
    allSupers := none }

theorem NameSet.toList_ofList (names : List String) : (NameSet.ofList names).toList = names.mergeSort.dedup := by
  have hle : names.mergeSort.dedup.Pairwise (· ≤ ·) :=
    List.sortedLE_mergeSort.pairwise.sublist (List.dedup_sublist _)
  have hlt : names.mergeSort.dedup.Pairwise (· < ·) :=
    hle.imp₂ (fun _ _ => lt_of_le_of_ne) (List.nodup_dedup _)
  refine List.Pairwise.eq_of_mem_iff (SortedMap.keys_ascending _) hlt fun n => ?_
  rw [List.mem_dedup, List.mem_mergeSort]
  exact NameSet.mem_toList.trans NameSet.mem_ofList

theorem MultiplicityDocument.ofMultiplicity_of_multiplicity {d : MultiplicityDocument} {m : Multiplicity}
    (h : d.multiplicity = .ok m) : ofMultiplicity m = d := by
  rw [multiplicity, Multiplicity.declare, Multiplicity.make] at h
  split at h
  · obtain rfl := Except.ok.inj h
    rfl
  · cases h

theorem Attribute.exists_of_make {name typeName : String} {m : Multiplicity} {a : Attribute}
    (h : make name typeName m = .ok a) :
    ∃ hn ht, a = ⟨name, typeName, m, false, false, false, none, hn, ht, by simp⟩ := by
  rw [make] at h
  split at h
  · next hn =>
    split at h
    · next ht => exact ⟨hn, ht, (Except.ok.inj h).symm⟩
    · cases h
  · cases h

theorem AttributeDocument.ofAttribute_of_attr {d : AttributeDocument} {a : Attribute} (h : d.attr = .ok a) :
    ofAttribute a = d.normal := by
  obtain ⟨name, typeName, multiplicity, unique, indexed, composite, reverse⟩ := d
  obtain ⟨m, hm, h⟩ := bind_eq_ok_iff.1 h
  obtain ⟨b, hb, h⟩ := bind_eq_ok_iff.1 h
  obtain rfl := MultiplicityDocument.ofMultiplicity_of_multiplicity hm
  obtain ⟨hn, ht, rfl⟩ := Attribute.exists_of_make hb
  obtain rfl := Except.ok.inj h
  cases composite <;> cases unique <;> cases indexed <;> cases reverse <;> rfl

theorem Declaration.fields_of_ofKind {kind : Kind} {name : String} {supers : List String}
    {attributes : List Attribute} {d : Declaration} (h : ofKind kind name supers attributes = .ok d) :
    d.kind = kind ∧ d.name = name ∧ d.supers = NameSet.ofList supers ∧ d.attributes = attributes := by
  rw [ofKind] at h
  split at h
  · split at h
    · obtain rfl := Except.ok.inj h
      exact ⟨rfl, rfl, rfl, rfl⟩
    · cases h
  · cases h

theorem TypeDocument.declaration_ofDeclaration (d : Declaration) : (ofDeclaration d).declaration = .ok d := by
  rw [declaration, ofDeclaration, mapM_map_self AttributeDocument.attr_ofAttribute]
  change Declaration.ofKind d.kind d.name d.supers.toList d.attributes = .ok d
  simp only [Declaration.ofKind, NameSet.ofList_toList, d.name_nonblank, d.supers_nonblank, dite_true]

theorem TypeDocument.ofDeclaration_of_declaration {t : TypeDocument} {d : Declaration}
    (h : t.declaration = .ok d) : ofDeclaration d = t.normal := by
  obtain ⟨attributes, ha, h⟩ := bind_eq_ok_iff.1 h
  obtain ⟨hkind, hname, hsupers, rfl⟩ := Declaration.fields_of_ofKind h
  have hattributes : d.attributes.map AttributeDocument.ofAttribute =
      t.attributes.map AttributeDocument.normal := by
    rw [← List.forall₂_eq_eq_eq, List.forall₂_map_left_iff, List.forall₂_map_right_iff]
    exact (mapM_eq_ok_iff.1 ha).flip.imp fun a d ha => AttributeDocument.ofAttribute_of_attr ha
  rw [ofDeclaration, normal, hkind, hname, hsupers, NameSet.toList_ofList, hattributes]

theorem EnumDocument.ofEnumeration_of_enumeration {t : EnumDocument} {e : Enumeration}
    (h : t.enumeration = .ok e) : ofEnumeration e = t := by
  rw [enumeration, Enumeration.make] at h
  split at h
  · split at h
    · obtain rfl := Except.ok.inj h
      rfl
    · cases h
  · cases h

/-- Definitions are got back from their documents, and documents from what they describe but for their form. -/
theorem documents_invert_definitions :
    (∀ d : Declaration, (TypeDocument.ofDeclaration d).declaration = .ok d) ∧
      (∀ e : Enumeration, (EnumDocument.ofEnumeration e).enumeration = .ok e) ∧
      (∀ (t : TypeDocument) (d : Declaration), t.declaration = .ok d →
        TypeDocument.ofDeclaration d = t.normal) ∧
      ∀ (t : EnumDocument) (e : Enumeration), t.enumeration = .ok e → EnumDocument.ofEnumeration e = t :=
  ⟨TypeDocument.declaration_ofDeclaration, EnumDocument.enumeration_ofEnumeration,
    fun _ _ => TypeDocument.ofDeclaration_of_declaration, fun _ _ => EnumDocument.ofEnumeration_of_enumeration⟩

/-- A table that lists a supertype twice and an ancestor with them, and marks a unique name as not indexed. -/
def tableDocument : TypeDocument :=
  ⟨"Table", .classType, ["Dataset", "Asset", "Dataset"],
    [⟨"name", "string", ⟨1, some 1, false⟩, true, false, false, none⟩], some ["Asset", "Dataset", "Root"]⟩

theorem normal_tableDocument : tableDocument.normal =
    ⟨"Table", .classType, ["Asset", "Dataset"],
      [⟨"name", "string", ⟨1, some 1, false⟩, true, true, false, none⟩], none⟩ := by
  rw [TypeDocument.normal, ← NameSet.toList_ofList]
  rfl

theorem table_document_described :
    ∃ d, tableDocument.declaration = .ok d ∧ (TypeDocument.ofDeclaration d).declaration = .ok d ∧
      TypeDocument.ofDeclaration d =
        ⟨"Table", .classType, ["Asset", "Dataset"],
          [⟨"name", "string", ⟨1, some 1, false⟩, true, true, false, none⟩], none⟩ := by
  have hok : tableDocument.declaration = .ok ⟨.classType, "Table", NameSet.ofList ["Asset", "Dataset"],
      [⟨"name", "string", .required, false, true, true, none, by decide, by decide, fun _ => rfl⟩],
      by decide, by decide⟩ := by rfl
  obtain ⟨hback, -, hnormal, -⟩ := documents_invert_definitions
  exact ⟨_, hok, hback _, (hnormal _ _ hok).trans normal_tableDocument⟩

end TypeCatalog
