import TypeCatalog.Proofs.Conformity
set_option autoImplicit false

/-!
What stands in the elements of an accepted value. Main statements: no two elements of a set stand for the same
thing exactly when nothing is given in two shapes, since elements are compared as values and not by what they
stand for; and a unique attribute has no empty element exactly when it does not take a single array of
primitive values, whose items are looked at by no check.
-/

namespace TypeCatalog

inductive Denoted where
  | value (v : EnumValue)
  | entity (id : String)

inductive Catalog.StandsFor (c : Catalog) (n : String) : Value → Denoted → Prop
  | byName {e : Enumeration} {v : EnumValue} (he : c.enum? n = some e) (h : v ∈ e.values) :
    StandsFor c n (.string v.name) (.value v)
  | byOrdinal {e : Enumeration} {v : EnumValue} {i : Int64} (he : c.enum? n = some e) (h : v ∈ e.values)
    (hi : i.toInt = v.ordinal.toNat) : StandsFor c n (.int i) (.value v)
  | reference {r : Resolved} {id : String} (hr : c.type? n = some r) :
    StandsFor c n (.reference id) (.entity id)
  | text {r : Resolved} {id : String} (hr : c.type? n = some r) : StandsFor c n (.string id) (.entity id)

def Catalog.Coreferent (c : Catalog) (n : String) (x y : Value) : Prop :=
  ∃ d, c.StandsFor n x d ∧ c.StandsFor n y d

/-- At most one value, and this an array of primitive values. -/
def Attribute.TakesPlainArray (a : Attribute) : Prop :=
  a.multiplicity.upper = some 1 ∧ ∃ p, a.dataType = .array (.primitive p)

variable {c : Catalog} {n : String} {a : Attribute} {v x y : Value} {r : Resolved}

theorem Multiplicity.isMany_of_unique {m : Multiplicity} (h : m.unique = true) : m.isMany = true := by
  by_contra hm
  have hu := isMany_eq_false_iff.1 (Bool.eq_false_iff.2 hm)
  have hs := m.sound
  rw [hu, h, BoundsFault.of?] at hs
  by_cases hl : 1 < m.lower <;> simp [hl] at hs

namespace Catalog

theorem standsFor_value_iff {w : EnumValue} :
    c.StandsFor n x (.value w) ↔ ∃ e, c.enum? n = some e ∧ w ∈ e.values ∧
      (x = .string w.name ∨ ∃ i, x = .int i ∧ i.toInt = w.ordinal.toNat) := by
  constructor
  · intro h
    cases h with
    | byName he hw => exact ⟨_, he, hw, .inl rfl⟩
    | byOrdinal he hw hi => exact ⟨_, he, hw, .inr ⟨_, rfl, hi⟩⟩
  · intro h
    obtain ⟨e, he, hw, rfl | ⟨i, rfl, hi⟩⟩ := h
    · exact .byName he hw
    · exact .byOrdinal he hw hi

theorem standsFor_entity_iff {id : String} :
    c.StandsFor n x (.entity id) ↔ (∃ r, c.type? n = some r) ∧ (x = .reference id ∨ x = .string id) := by
  constructor
  · intro h
    cases h with
    | reference hr => exact ⟨⟨_, hr⟩, .inl rfl⟩
    | text hr => exact ⟨⟨_, hr⟩, .inr rfl⟩
  · intro h
    obtain ⟨⟨r, hr⟩, rfl | rfl⟩ := h
    · exact .reference hr
    · exact .text hr

theorem Coreferent.symm (h : c.Coreferent n x y) : c.Coreferent n y x := by
  obtain ⟨d, hx, hy⟩ := h
  exact ⟨d, hy, hx⟩

theorem coreferent_string_int_iff {name : String} {i : Int64} :
    c.Coreferent n (.string name) (.int i) ↔
      ∃ e, c.enum? n = some e ∧ ∃ w ∈ e.values, w.name = name ∧ i.toInt = w.ordinal.toNat := by
  constructor
  · intro h
    obtain ⟨w | id, hx, hy⟩ := h
    · obtain ⟨e, he, hw, hx⟩ := standsFor_value_iff.1 hx
      obtain ⟨-, -, -, hy⟩ := standsFor_value_iff.1 hy
      exact ⟨e, he, w, hw, by simpa [eq_comm] using hx, by simpa using hy⟩
    · obtain ⟨-, hy⟩ := standsFor_entity_iff.1 hy
      simp at hy
  · intro h
    obtain ⟨e, he, w, hw, rfl, hi⟩ := h
    exact ⟨.value w, .byName he hw, .byOrdinal he hw hi⟩

theorem coreferent_reference_string_iff {id id' : String} :
    c.Coreferent n (.reference id) (.string id') ↔ (∃ r, c.type? n = some r) ∧ id = id' := by
  constructor
  · intro h
    obtain ⟨w | id, hx, hy⟩ := h
    · obtain ⟨-, -, -, hx⟩ := standsFor_value_iff.1 hx
      simp at hx
    · obtain ⟨hr, hx⟩ := standsFor_entity_iff.1 hx
      obtain ⟨-, hy⟩ := standsFor_entity_iff.1 hy
      exact ⟨hr, by simp_all⟩
  · intro h
    obtain ⟨⟨r, hr⟩, rfl⟩ := h
    exact ⟨.entity id, .reference hr, .text hr⟩

theorem Coreferent.same (h : c.Coreferent n x y) (hshape : x.shape = y.shape) : x.same y = true := by
  obtain ⟨w | id, hx, hy⟩ := h
  · obtain ⟨-, -, -, rfl | ⟨i, rfl, hi⟩⟩ := standsFor_value_iff.1 hx <;>
      obtain ⟨-, -, -, rfl | ⟨j, rfl, hj⟩⟩ := standsFor_value_iff.1 hy
    · simp [Value.same]
    · cases hshape
    · cases hshape
    · simp [Value.same, Int64.toInt_inj.1 (hi.trans hj.symm)]
  · obtain ⟨-, rfl | rfl⟩ := standsFor_entity_iff.1 hx <;> obtain ⟨-, rfl | rfl⟩ := standsFor_entity_iff.1 hy
    · simp [Value.same]
    · cases hshape
    · cases hshape
    · simp [Value.same]

/-- Among values that are all different, those that stand for the same are of different shapes. -/
theorem pairwise_not_coreferent_iff {vs : List Value} (h : vs.Pairwise fun x y => x.same y = false) :
    (vs.Pairwise fun x y => ¬c.Coreferent n x y) ↔
      ∀ x ∈ vs, ∀ y ∈ vs, c.Coreferent n x y → x.shape = y.shape := by
  constructor
  · intro hvs x hx y hy hxy
    have : Std.Symm fun x y => ¬c.Coreferent n x y := ⟨fun _ _ hnot hyx => hnot hyx.symm⟩
    by_contra hshape
    exact hvs.forall hx hy (fun heq => hshape (congrArg Value.shape heq)) hxy
  · intro hshape
    refine h.imp_of_mem fun {x y} hx hy hxy hco => ?_
    rw [hco.same (hshape x hx y hy hco)] at hxy
    cases hxy

theorem suits_of_validate (hi : c.Integrity) {type : String} {entity : Entity}
    (hr : c.type? type = some r) (ha : r.attribute? n = some a) (hs : entity.get? n = some v)
    (hv : c.validate type entity = []) : Suits c (some v) a := by
  obtain ⟨q, hq, -, hconf⟩ := (validate_eq_nil_iff hi).1 hv
  obtain rfl : r = q := Option.some.inj (hr.symm.trans hq)
  obtain rfl := (hi.coherent type r hr).keyed n a ha
  have hsuits := (conforms_iff.1 hconf).2 _ a ha
  rwa [show SortedMap.find a.name entity.entries = some v from hs] at hsuits

end Catalog

theorem Conforms.insert {entity : Entity} (h : Conforms c r entity.entries)
    (hkeyed : ∀ n a, r.attribute? n = some a → a.name = n) (ha : r.attribute? n = some a)
    (hv : Suits c (some v) a) : Conforms c r (entity.insert n v).entries := by
  obtain ⟨known, supplied⟩ := conforms_iff.1 h
  refine conforms_iff.2 ⟨fun f hf => ?known, fun m b hb => ?supplied⟩
  case known =>
    rcases SortedMap.mem_place hf with rfl | hf
    · exact SortedMap.mem_iff.2 ⟨a, ha⟩
    · exact known f hf
  case supplied =>
    change Suits c ((entity.insert n v).get? b.name) b
    rw [SortedMap.get?_insert]
    obtain rfl := hkeyed m b hb
    split
    · next heq =>
      subst heq
      obtain rfl : a = b := Option.some.inj (ha.symm.trans hb)
      exact hv
    · exact supplied _ b hb

theorem Suits.distinct (h : Suits c (some v) a) (hu : a.multiplicity.unique = true) :
    (Attribute.elements v).Pairwise fun x y => x.same y = false := by
  by_cases hv : v = .null
  · subst hv
    exact List.pairwise_singleton _ _
  · exact ((suits_many_iff hv (Multiplicity.isMany_of_unique hu)).1 h).2.1 hu

theorem Inhabits.isBlank_eq_false {t : DataType} (h : Inhabits c v t) (ht : ∀ p, t ≠ .primitive p) :
    v.isBlank = false := by
  cases h with
  | null | primitive => exact absurd rfl (ht _)
  | array | map | struct => rfl
  | @enumeration _ e _ _ hd =>
    cases hd with
    | byName hv => exact e.values_nonblank _ hv
    | byOrdinal => rfl
  | reference _ hid | text _ hid => exact hid

theorem Inhabits.standsFor (h : Inhabits c v (.named n)) :
    (∃ d, c.StandsFor n v d) ∨ ∃ fields, v = .struct fields := by
  cases h with
  | enumeration he hd =>
    cases hd with
    | byName hv => exact .inl ⟨_, .byName he hv⟩
    | byOrdinal hv hi => exact .inl ⟨_, .byOrdinal he hv hi⟩
  | reference hr _ => exact .inl ⟨_, .reference hr⟩
  | text hr _ => exact .inl ⟨_, .text hr⟩
  | struct _ _ => exact .inr ⟨_, rfl⟩

namespace Suits

variable (h : Suits c (some v) a) (hu : a.unique = true) (hv : v ≠ .null)

include h hu hv

theorem isBlank_eq_false : v.isBlank = false := by
  cases h with
  | null => exact absurd rfl hv
  | many _ _ _ _ _ nonblank =>
    cases v with
    | array => rfl
    | _ => exact nonblank hu _ (List.mem_singleton_self _)
  | one _ _ _ nonblank => exact nonblank hu

/-- Where only one value may be, the items of an array are checked as values of their type and no further. -/
theorem elements_nonblank (ha : ¬a.TakesPlainArray) : ∀ x ∈ Attribute.elements v, x.isBlank = false := by
  have hblank := h.isBlank_eq_false hu hv
  cases h with
  | null => exact absurd rfl hv
  | many _ _ _ _ _ nonblank => exact nonblank hu
  | one _ hm hx _ =>
    cases v with
    | array items =>
      intro x hmem
      cases ht : a.dataType with
      | array t =>
        rw [ht] at hx
        obtain ⟨items', heq, hitems⟩ := inhabits_array_iff.1 hx
        obtain rfl := Value.array.inj heq
        exact (hitems x hmem).isBlank_eq_false fun p hp => ha ⟨hm, p, hp ▸ ht⟩
      | map =>
        rw [ht] at hx
        cases hx
      | _ => exact absurd hx (not_inhabits_array (by rw [ht]; rfl))
    | _ => simpa [Attribute.elements] using hblank

end Suits

theorem Attribute.TakesPlainArray.suits_null (h : a.TakesPlainArray) : Suits c (some (.array [.null])) a := by
  obtain ⟨hm, p, hp⟩ := h
  have hitems : ∀ x ∈ [Value.null], Inhabits c x (.primitive p) := by simp [inhabits_primitive_iff]
  exact .one nofun hm (hp ▸ .array hitems) fun _ => rfl

namespace Registry

theorem set_elements_apart_iff (ops : List Operation) {type m k : String} {entity : Entity}
    (hr : (after ops).catalog.type? type = some r) (ha : r.attribute? m = some a)
    (hset : a.multiplicity.unique = true) (hk : a.dataType.element = .named k)
    (hs : entity.get? m = some v) (hv : (after ops).catalog.validate type entity = []) :
    (v ≠ .null → ∀ x ∈ Attribute.elements v,
        (∃ d, (after ops).catalog.StandsFor k x d) ∨ ∃ fields, x = .struct fields) ∧
      (((Attribute.elements v).Pairwise fun x y => ¬(after ops).catalog.Coreferent k x y) ↔
        ∀ x ∈ Attribute.elements v, ∀ y ∈ Attribute.elements v,
          (after ops).catalog.Coreferent k x y → x.shape = y.shape) := by
  have hsuits := Catalog.suits_of_validate (reachable_after ops).integrity hr ha hs hv
  refine ⟨fun hnull x hx => ?_, Catalog.pairwise_not_coreferent_iff (hsuits.distinct hset)⟩
  have hinhabits := (suits_many_iff hnull (Multiplicity.isMany_of_unique hset)).1 hsuits
  exact (hk ▸ hinhabits.2.2.1 x hx).standsFor

section Packages

/-- Packages have codecs and need packages; their labels are a single value. -/
def packageBatch : List Definition :=
  [.enumeration ⟨"Compression", [⟨"ZSTD", 0⟩, ⟨"LZ4", 1⟩], by decide, by decide, by decide, by decide⟩,
    .declaration ⟨.classType, "Package", ∅,
      [⟨"codecs", "Compression", .set, false, false, false, none, by decide, by decide, indexed_of_false⟩,
        ⟨"needs", "array<Package>", .set, false, true, true, none, by decide, by decide, fun _ => rfl⟩,
        ⟨"labels", "array<string>", .optional, false, true, true, none, by decide, by decide, fun _ => rfl⟩],
      by decide, no_supers_nonblank⟩]

set_option maxRecDepth 20000 in
theorem clean_packageBatch : (⟨.empty, packageBatch⟩ : Scope).Clean := by
  refine ⟨⟨by decide, ?free⟩, ?supers, ?references, by cbv, by cbv, ?reverse⟩
  all_goals
    simp only [packageBatch, Scope.declarations, List.filterMap_cons, Definition.declaration?,
      List.filterMap_nil, List.forall_mem_cons]
  case free => exact ⟨by cbv, by cbv, by simp⟩
  all_goals exact ⟨by cbv, by simp⟩

def packageEntity : Entity :=
  SortedMap.ofList
    [("codecs", .array [.string "ZSTD", .int 1]), ("needs", .array [.reference "base", .string "zlib"]),
      ("labels", .array [.string "fast"])]

set_option maxRecDepth 20000 in
theorem validate_packageEntity :
    (after [.call (.register 0 packageBatch)]).catalog.validate "Package" packageEntity = [] := by
  rw [catalog_after_register 0 rfl clean_packageBatch]
  cbv

set_option maxRecDepth 20000 in
theorem package_needs_apart :
    ∃ r a, (after [.call (.register 0 packageBatch)]).catalog.type? "Package" = some r ∧
      r.attribute? "needs" = some a ∧ a.multiplicity.unique = true ∧ a.dataType.element = .named "Package" ∧
      packageEntity.get? "needs" = some (.array [.reference "base", .string "zlib"]) ∧
      (after [.call (.register 0 packageBatch)]).catalog.validate "Package" packageEntity = [] ∧
      [Value.reference "base", .string "zlib"].Pairwise fun x y =>
        ¬(after [.call (.register 0 packageBatch)]).catalog.Coreferent "Package" x y := by
  obtain ⟨r, a, hr, ha, hset, hk⟩ := exists_attribute_after_register 0 rfl clean_packageBatch
    (n := "Package") (m := "needs")
    (p := fun a => a.multiplicity.unique = true ∧ a.dataType.element = .named "Package") (by cbv)
  have hs : packageEntity.get? "needs" = some (.array [.reference "base", .string "zlib"]) := by rfl
  refine ⟨r, a, hr, ha, hset, hk, hs, validate_packageEntity, ?_⟩
  refine (set_elements_apart_iff _ hr ha hset hk hs validate_packageEntity).2.2 fun x hx y hy hco => ?_
  rcases List.mem_pair.1 hx with rfl | rfl <;> rcases List.mem_pair.1 hy with rfl | rfl
  · rfl
  · exact absurd (Catalog.coreferent_reference_string_iff.1 hco).2 (by decide)
  · exact absurd (Catalog.coreferent_reference_string_iff.1 hco.symm).2 (by decide)
  · rfl

/-- The same codec by its name and by its ordinal, the same package as a reference and as a text. -/
def repeatedEntity : Entity :=
  SortedMap.ofList
    [("codecs", .array [.string "ZSTD", .int 0]), ("needs", .array [.reference "base", .string "base"])]

set_option maxRecDepth 20000 in
theorem repeated_elements_accepted :
    (after [.call (.register 0 packageBatch)]).catalog.validate "Package" repeatedEntity = [] ∧
      (∃ r a v, (after [.call (.register 0 packageBatch)]).catalog.type? "Package" = some r ∧
        r.attribute? "codecs" = some a ∧ a.multiplicity.unique = true ∧ a.dataType.element = .named "Compression" ∧
        repeatedEntity.get? "codecs" = some v ∧ ¬(Attribute.elements v).Pairwise fun x y =>
          ¬(after [.call (.register 0 packageBatch)]).catalog.Coreferent "Compression" x y) ∧
      ∃ r a v, (after [.call (.register 0 packageBatch)]).catalog.type? "Package" = some r ∧
        r.attribute? "needs" = some a ∧ a.multiplicity.unique = true ∧ a.dataType.element = .named "Package" ∧
        repeatedEntity.get? "needs" = some v ∧ ¬(Attribute.elements v).Pairwise fun x y =>
          ¬(after [.call (.register 0 packageBatch)]).catalog.Coreferent "Package" x y := by
  have hv : (after [.call (.register 0 packageBatch)]).catalog.validate "Package" repeatedEntity = [] := by
    rw [catalog_after_register 0 rfl clean_packageBatch]
    cbv
  refine ⟨hv, ?codecs, ?needs⟩
  case codecs =>
    obtain ⟨r, a, hr, ha, hset, hk⟩ := exists_attribute_after_register 0 rfl clean_packageBatch
      (n := "Package") (m := "codecs")
      (p := fun a => a.multiplicity.unique = true ∧ a.dataType.element = .named "Compression") (by cbv)
    have he : (((⟨.empty, packageBatch⟩ : Scope).committed 0).enum? "Compression").any
        (fun e => decide (⟨"ZSTD", 0⟩ ∈ e.values)) = true := by cbv
    rw [← catalog_after_register 0 rfl clean_packageBatch] at he
    obtain ⟨e, he, hmem⟩ := (Option.any_eq_true _ _).1 he
    have hco :
        (after [.call (.register 0 packageBatch)]).catalog.Coreferent "Compression" (.string "ZSTD") (.int 0) :=
      Catalog.coreferent_string_int_iff.2 ⟨e, he, ⟨"ZSTD", 0⟩, of_decide_eq_true hmem, rfl, rfl⟩
    refine ⟨r, a, .array [.string "ZSTD", .int 0], hr, ha, hset, hk, rfl, fun hapart => ?_⟩
    exact List.rel_of_pairwise_cons hapart (List.mem_singleton_self _) hco
  case needs =>
    obtain ⟨r, a, hr, ha, hset, hk⟩ := exists_attribute_after_register 0 rfl clean_packageBatch
      (n := "Package") (m := "needs")
      (p := fun a => a.multiplicity.unique = true ∧ a.dataType.element = .named "Package") (by cbv)
    refine ⟨r, a, .array [.reference "base", .string "base"], hr, ha, hset, hk, rfl, fun hapart => ?_⟩
    exact List.rel_of_pairwise_cons hapart (List.mem_singleton_self _)
      (Catalog.coreferent_reference_string_iff.2 ⟨⟨r, hr⟩, rfl⟩)

end Packages

theorem unique_holds_nothing_empty_iff (ops : List Operation) {type m : String} {known : Entity}
    (hr : (after ops).catalog.type? type = some r) (ha : r.attribute? m = some a) (hu : a.unique = true)
    (hvalid : (after ops).catalog.validate type known = []) :
    (∀ (entity : Entity) (v : Value), (after ops).catalog.validate type entity = [] →
        entity.get? m = some v → v ≠ .null →
        v.isBlank = false ∧ ∀ x ∈ Attribute.elements v, x.isBlank = false) ↔
      ¬a.TakesPlainArray := by
  have hi := (reachable_after ops).integrity
  constructor
  · intro hall hplain
    obtain ⟨q, hq, hk, hconf⟩ := (Catalog.validate_eq_nil_iff hi).1 hvalid
    obtain rfl : r = q := Option.some.inj (hr.symm.trans hq)
    have hnull : (after ops).catalog.validate type (known.insert m (.array [.null])) = [] :=
      (Catalog.validate_eq_nil_iff hi).2
        ⟨r, hr, hk, hconf.insert (hi.coherent type r hr).keyed ha hplain.suits_null⟩
    obtain ⟨-, hitems⟩ := hall _ (.array [.null]) hnull (by rw [SortedMap.get?_insert, if_pos rfl]) nofun
    cases hitems .null (List.mem_singleton_self _)
  · intro hplain entity v hv hs hnull
    have hsuits := Catalog.suits_of_validate hi hr ha hs hv
    exact ⟨hsuits.isBlank_eq_false hu hnull, hsuits.elements_nonblank hu hnull hplain⟩

section Packages

set_option maxRecDepth 20000 in
theorem package_needs_not_empty :
    ∃ r a, (after [.call (.register 0 packageBatch)]).catalog.type? "Package" = some r ∧
      r.attribute? "needs" = some a ∧ a.unique = true ∧
      (after [.call (.register 0 packageBatch)]).catalog.validate "Package" packageEntity = [] ∧
      ∀ (entity : Entity) (v : Value),
        (after [.call (.register 0 packageBatch)]).catalog.validate "Package" entity = [] →
          entity.get? "needs" = some v → v ≠ .null →
          v.isBlank = false ∧ ∀ x ∈ Attribute.elements v, x.isBlank = false := by
  obtain ⟨r, a, hr, ha, hu, hm⟩ := exists_attribute_after_register 0 rfl clean_packageBatch
    (n := "Package") (m := "needs")
    (p := fun a => a.unique = true ∧ a.multiplicity.upper = none) (by cbv)
  have hplain : ¬a.TakesPlainArray := fun h => by cases hm.symm.trans h.1
  exact ⟨r, a, hr, ha, hu, validate_packageEntity,
    (unique_holds_nothing_empty_iff _ hr ha hu validate_packageEntity).2 hplain⟩

def emptyLabelEntity : Entity := SortedMap.ofList [("labels", .array [.string "", .null])]

set_option maxRecDepth 20000 in
theorem empty_labels_accepted :
    (after [.call (.register 0 packageBatch)]).catalog.validate "Package" emptyLabelEntity = [] ∧
      ∃ r a v, (after [.call (.register 0 packageBatch)]).catalog.type? "Package" = some r ∧
        r.attribute? "labels" = some a ∧ a.unique = true ∧ emptyLabelEntity.get? "labels" = some v ∧
        v ≠ .null ∧ ¬∀ x ∈ Attribute.elements v, x.isBlank = false := by
  have hv : (after [.call (.register 0 packageBatch)]).catalog.validate "Package" emptyLabelEntity = [] := by
    rw [catalog_after_register 0 rfl clean_packageBatch]
    cbv
  obtain ⟨r, a, hr, ha, hu⟩ := exists_attribute_after_register 0 rfl clean_packageBatch
    (n := "Package") (m := "labels")
    (p := fun a => a.unique = true) (by cbv)
  refine ⟨hv, r, a, .array [.string "", .null], hr, ha, hu, rfl, by simp, fun hall => ?_⟩
  cases hall .null (by simp [Attribute.elements])

end Packages

end Registry

end TypeCatalog
