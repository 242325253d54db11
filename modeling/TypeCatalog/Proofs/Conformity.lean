import Mathlib
import TypeCatalog.Proofs.Reachable
import TypeCatalog.Proofs.Validation
set_option autoImplicit false

/-!
Which entities are valid. Conformity is told by the values alone, with nothing of how they are checked.
Main statements: in every catalog that can be reached nothing is wrong with an entity exactly when it
conforms to a class; and what conforms to a class conforms, as far as it goes, to all supertypes of it.
-/

namespace TypeCatalog

inductive Enumeration.Denotes (e : Enumeration) : Value → Prop
  | byName {v : EnumValue} (h : v ∈ e.values) : e.Denotes (.string v.name)
  | byOrdinal {v : EnumValue} {i : Int64} (h : v ∈ e.values) (hi : i.toInt = v.ordinal.toNat) :
    e.Denotes (.int i)

/-- Where the keys of a map are of an enumeration, a key is the name of one of its values. -/
def Catalog.AllowsKey (c : Catalog) (keyType : DataType) (key : String) : Prop :=
  ∀ n e, keyType = .named n → c.enum? n = some e → ∃ v ∈ e.values, v.name = key

mutual

/-- The values of a data type. An entity of a class or a trait may be given by its identifier. -/
inductive Inhabits (c : Catalog) : Value → DataType → Prop
  | null {p : Primitive} : Inhabits c .null (.primitive p)
  | primitive {p : Primitive} {v : Value} (h : p.accepts v) : Inhabits c v (.primitive p)
  | array {items : List Value} {t : DataType} (h : ∀ v ∈ items, Inhabits c v t) :
    Inhabits c (.array items) (.array t)
  | map {fields : List (String × Value)} {keyType t : DataType}
    (keys : ∀ f ∈ fields, c.AllowsKey keyType f.1) (h : ∀ f ∈ fields, Inhabits c f.2 t) :
    Inhabits c (.struct fields) (.map keyType t)
  | enumeration {n : String} {e : Enumeration} {v : Value} (he : c.enum? n = some e) (h : e.Denotes v) :
    Inhabits c v (.named n)
  | reference {n id : String} {r : Resolved} (hr : c.type? n = some r) (h : Text.isBlank id = false) :
    Inhabits c (.reference id) (.named n)
  | text {n id : String} {r : Resolved} (hr : c.type? n = some r) (h : Text.isBlank id = false) :
    Inhabits c (.string id) (.named n)
  | struct {n : String} {r : Resolved} {fields : List (String × Value)} (hr : c.type? n = some r)
    (h : Conforms c r fields) : Inhabits c (.struct fields) (.named n)

inductive Suits (c : Catalog) : Option Value → Attribute → Prop
  | absent {a : Attribute} (h : a.multiplicity.lower = 0) : Suits c none a
  | null {a : Attribute} (h : a.multiplicity.lower = 0) : Suits c (some .null) a
  | many {a : Attribute} {v : Value} (hv : v ≠ .null) (hm : a.multiplicity.isMany = true)
    (count : a.multiplicity.Admits (Attribute.elements v).length)
    (distinct : a.multiplicity.unique → (Attribute.elements v).Pairwise fun x y => x.same y = false)
    (h : ∀ x ∈ Attribute.elements v, Inhabits c x a.dataType.element)
    (nonblank : a.unique → ∀ x ∈ Attribute.elements v, x.isBlank = false) : Suits c (some v) a
  | one {a : Attribute} {v : Value} (hv : v ≠ .null) (hm : a.multiplicity.upper = some 1)
    (h : Inhabits c v a.dataType) (nonblank : a.unique → v.isBlank = false) : Suits c (some v) a

/-- The fields that an entity of a type may have: all of them are attributes, and they suit them. -/
inductive Conforms (c : Catalog) : Resolved → List (String × Value) → Prop
  | intro {r : Resolved} {fields : List (String × Value)} (known : ∀ f ∈ fields, f.1 ∈ r.attributes)
    (supplied : ∀ n a, r.attribute? n = some a → Suits c (SortedMap.find a.name fields) a) :
    Conforms c r fields

end

section Inversion

variable {c : Catalog} {v : Value} {t keyType : DataType} {a : Attribute} {r : Resolved} {n : String}
  {fields : List (String × Value)}

theorem inhabits_primitive_iff {p : Primitive} :
    Inhabits c v (.primitive p) ↔ v = .null ∨ p.accepts v := by
  constructor
  · intro h
    cases h with
    | null => exact .inl rfl
    | primitive h => exact .inr h
  · intro h
    rcases h with rfl | h
    · exact .null
    · exact .primitive h

theorem inhabits_array_iff :
    Inhabits c v (.array t) ↔ ∃ items, v = .array items ∧ ∀ w ∈ items, Inhabits c w t := by
  constructor
  · intro h
    cases h with
    | array h => exact ⟨_, rfl, h⟩
  · intro h
    obtain ⟨items, rfl, h⟩ := h
    exact .array h

theorem inhabits_map_iff :
    Inhabits c v (.map keyType t) ↔ ∃ fields, v = .struct fields ∧
      ∀ f ∈ fields, c.AllowsKey keyType f.1 ∧ Inhabits c f.2 t := by
  constructor
  · intro h
    cases h with
    | map keys h => exact ⟨_, rfl, fun f hf => ⟨keys f hf, h f hf⟩⟩
  · intro h
    obtain ⟨fields, rfl, h⟩ := h
    exact .map (fun f hf => (h f hf).1) fun f hf => (h f hf).2

theorem inhabits_enum_iff (hi : c.Integrity) {e : Enumeration} (he : c.enum? n = some e) :
    Inhabits c v (.named n) ↔ e.Denotes v := by
  have hne : ∀ r, c.type? n ≠ some r := fun r hr =>
    hi.disjoint n (Catalog.mem_types.2 ⟨r, hr⟩) (Catalog.mem_enums.2 ⟨e, he⟩)
  constructor
  · intro h
    cases h with
    | enumeration he' h => exact Option.some.inj (he'.symm.trans he) ▸ h
    | reference hr | text hr | struct hr => exact absurd hr (hne _)
  · exact .enumeration he

theorem not_inhabits_unknown (he : c.enum? n = none) (hr : c.type? n = none) :
    ¬Inhabits c v (.named n) := by
  intro h
  cases h with
  | enumeration he' => cases he.symm.trans he'
  | reference hr' | text hr' | struct hr' => cases hr.symm.trans hr'

theorem inhabits_type_iff (he : c.enum? n = none) (hr : c.type? n = some r) :
    Inhabits c v (.named n) ↔
      match v with
      | .struct fields => Conforms c r fields
      | .reference id | .string id => Text.isBlank id = false
      | _ => False := by
  constructor
  · intro h
    cases h with
    | enumeration he' => cases he.symm.trans he'
    | reference _ h | text _ h => exact h
    | struct hr' h => exact Option.some.inj (hr'.symm.trans hr) ▸ h
  · intro h
    cases v with
    | struct fields => exact .struct hr h
    | reference id => exact .reference hr h
    | string id => exact .text hr h
    | _ => exact h.elim

theorem not_inhabits_array (h : t.isCollection = false) {items : List Value} :
    ¬Inhabits c (.array items) t := by
  intro hx
  cases hx with
  | @primitive p _ hp => cases p <;> cases hp
  | array => cases h
  | enumeration he hd => cases hd

theorem inhabits_ofElements_iff :
    Inhabits c v (Attribute.ofElements v t) ↔ ∀ x ∈ Attribute.elements v, Inhabits c x t := by
  cases v <;> simp [Attribute.ofElements, Attribute.elements, inhabits_array_iff]

theorem Multiplicity.isMany_eq_false_iff {m : Multiplicity} : m.isMany = false ↔ m.upper = some 1 := by
  have hs := m.sound
  rw [isMany]
  cases hu : m.upper with
  | none => simp
  | some u =>
    have hpos : u ≠ 0 := by
      rintro rfl
      simp [hu, BoundsFault.of?] at hs
    have := UInt32.toNat_inj.not.2 hpos
    simp only [decide_eq_false_iff_not, Option.some.injEq, UInt32.lt_iff_toNat_lt,
      ← UInt32.toNat_inj] at *
    change u.toNat ≠ 0 at this
    change ¬1 < u.toNat ↔ u.toNat = 1
    omega

theorem suits_none_iff : Suits c none a ↔ a.multiplicity.lower = 0 := by
  constructor
  · intro h
    cases h with
    | absent h => exact h
  · exact .absent

theorem suits_null_iff : Suits c (some .null) a ↔ a.multiplicity.lower = 0 := by
  constructor
  · intro h
    cases h with
    | null h => exact h
    | many hv | one hv => exact absurd rfl hv
  · exact .null

theorem suits_many_iff (hv : v ≠ .null) (hm : a.multiplicity.isMany = true) :
    Suits c (some v) a ↔ a.multiplicity.Admits (Attribute.elements v).length ∧
      (a.multiplicity.unique → (Attribute.elements v).Pairwise fun x y => x.same y = false) ∧
      (∀ x ∈ Attribute.elements v, Inhabits c x a.dataType.element) ∧
      (a.unique → ∀ x ∈ Attribute.elements v, x.isBlank = false) := by
  constructor
  · intro h
    cases h with
    | null => exact absurd rfl hv
    | many _ _ count distinct h nonblank => exact ⟨count, distinct, h, nonblank⟩
    | one _ hu => simp [Multiplicity.isMany_eq_false_iff.2 hu] at hm
  · intro h
    obtain ⟨count, distinct, h, nonblank⟩ := h
    exact .many hv hm count distinct h nonblank

theorem suits_one_iff (hv : v ≠ .null) (hm : a.multiplicity.isMany = false) :
    Suits c (some v) a ↔ Inhabits c v a.dataType ∧ (a.unique → v.isBlank = false) := by
  constructor
  · intro h
    cases h with
    | null => exact absurd rfl hv
    | many _ hm' => simp [hm] at hm'
    | one _ _ h nonblank => exact ⟨h, nonblank⟩
  · exact fun h => .one hv (Multiplicity.isMany_eq_false_iff.1 hm) h.1 h.2

theorem conforms_iff :
    Conforms c r fields ↔ (∀ f ∈ fields, f.1 ∈ r.attributes) ∧
      ∀ n a, r.attribute? n = some a → Suits c (SortedMap.find a.name fields) a := by
  constructor
  · intro h
    cases h with
    | intro known supplied => exact ⟨known, supplied⟩
  · exact fun h => .intro h.1 h.2

end Inversion

variable {c : Catalog} {owner : String} {v : Value} {t : DataType} {a : Attribute}

theorem Enumeration.accepts_iff {e : Enumeration} : e.accepts v ↔ e.Denotes v := by
  constructor
  · intro h
    cases v with
    | string s =>
      obtain ⟨w, hw, hs⟩ := List.any_eq_true.1 h
      obtain rfl : w.name = s := by simpa using hs
      exact .byName hw
    | int i =>
      simp only [accepts, Bool.and_eq_true, decide_eq_true_eq] at h
      obtain ⟨⟨hi, hlt⟩, hs⟩ := h
      obtain ⟨w, hw⟩ := Option.isSome_iff_exists.1 hs
      have ho : w.ordinal = UInt32.ofNat i.toInt.toNat := by simpa using List.find?_some hw
      refine .byOrdinal (List.mem_of_find?_eq_some hw) ?_
      rw [ho, UInt32.toNat_ofNat_of_lt' hlt, Int.toNat_of_nonneg hi]
    | _ => cases h
  · intro h
    cases h with
    | byName h => exact List.any_eq_true.2 ⟨_, h, by simp⟩
    | @byOrdinal w i h hi =>
      have hlt : w.ordinal.toNat < UInt32.size := w.ordinal.toNat_lt
      simp only [accepts, hi, Bool.and_eq_true, decide_eq_true_eq]
      exact ⟨⟨Int.natCast_nonneg _, by simpa using hlt⟩, List.find?_isSome.2 ⟨w, h, by simp⟩⟩

theorem Catalog.acceptsKey_iff {keyType : DataType} {key : String} :
    c.acceptsKey keyType key ↔ c.AllowsKey keyType key := by
  cases keyType with
  | named n =>
    have hkey : c.AllowsKey (.named n) key ↔
        ∀ e, c.enum? n = some e → ∃ v ∈ e.values, v.name = key :=
      ⟨fun h e => h n e rfl, fun h m e hm => DataType.named.inj hm ▸ h e⟩
    rw [hkey]
    cases he : c.enum? n <;> simp [acceptsKey, he, Enumeration.contains]
  | _ => simp [acceptsKey, AllowsKey]

theorem hasDuplicates_eq_false_iff {vs : List Value} :
    hasDuplicates vs = false ↔ vs.Pairwise fun v w => v.same w = false := by
  induction vs with
  | nil => simp [hasDuplicates]
  | cons v vs ih => simp [hasDuplicates, ih]

namespace Attribute

theorem absent_eq_nil_iff : a.absent owner = [] ↔ a.multiplicity.lower = 0 := by
  have : a.isRequired = true ↔ a.multiplicity.lower ≠ 0 := by
    rw [isRequired, Multiplicity.isRequired, decide_eq_true_iff, UInt32.pos_iff_ne_zero]
  rw [absent]
  split <;> simp_all

theorem emptyUnique_eq_nil_iff {vs : List Value} :
    a.emptyUnique owner vs = [] ↔ (a.unique → ∀ x ∈ vs, x.isBlank = false) := by
  rw [emptyUnique]
  cases a.unique <;> simp

theorem violations_eq_nil_iff {asType : DataType → List Violation}
    (h : ∀ t, asType t = [] ↔ Inhabits c v t) :
    a.violations owner v asType = [] ↔ Suits c (some v) a := by
  by_cases hv : v = .null
  · subst hv
    exact absent_eq_nil_iff.trans suits_null_iff.symm
  cases hm : a.multiplicity.isMany with
  | true =>
    rw [violations_of_isMany hv hm, suits_many_iff hv hm, ← hasDuplicates_eq_false_iff]
    simp only [List.append_eq_nil_iff, h, inhabits_ofElements_iff, emptyUnique_eq_nil_iff, and_assoc]
    cases a.multiplicity.unique <;> simp
  | false =>
    rw [violations_of_isMany_eq_false hv hm, suits_one_iff hv hm]
    split
    · next hx =>
      obtain ⟨hs, hc⟩ := hx
      cases v with
      | array items => simp [not_inhabits_array hc]
      | _ => cases hs
    · simp [h, emptyUnique_eq_nil_iff]

end Attribute

theorem Resolved.unknownFields_eq_nil_iff {r : Resolved} {fields : List (String × Value)} :
    r.unknownFields fields = [] ↔ ∀ f ∈ fields, f.1 ∈ r.attributes := by
  simp only [unknownFields, List.map_eq_nil_iff, List.filter_eq_nil_iff, SortedMap.mem_iff, attribute?,
    Option.isNone_iff_eq_none, Option.ne_none_iff_exists']

section Fields

variable {fields : List (String × Value)}
  (h : ∀ f ∈ fields, ∀ owner attr t, Value.violations c owner attr f.2 t = [] ↔ Inhabits c f.2 t)

include h

theorem Value.fieldViolations_eq_nil_iff :
    fieldViolations c owner a fields = [] ↔ Suits c (SortedMap.find a.name fields) a := by
  rw [fieldViolations_eq]
  cases hf : SortedMap.find a.name fields with
  | none => exact Attribute.absent_eq_nil_iff.trans suits_none_iff.symm
  | some v => exact Attribute.violations_eq_nil_iff (h _ (SortedMap.mem_of_find hf) _ _)

theorem Catalog.fieldsViolations_eq_nil_iff {r : Resolved} :
    c.fieldsViolations r fields = [] ↔ Conforms c r fields := by
  rw [fieldsViolations, List.append_eq_nil_iff, Resolved.unknownFields_eq_nil_iff, conforms_iff, and_comm,
    List.flatMap_eq_nil_iff]
  simp only [Value.fieldViolations_eq_nil_iff h, SortedMap.mem_values, Resolved.attribute?]
  exact and_congr_right fun _ => ⟨fun h n a hn => h a ⟨n, hn⟩, fun h a hx => hx.elim fun n hn => h n a hn⟩

end Fields

/-- By induction on the value, along with what stands inside it. -/
theorem Value.violations_eq_nil_iff (hi : c.Integrity) (v : Value) :
    ∀ owner attr t, violations c owner attr v t = [] ↔ Inhabits c v t := by
  induction v using parts_induction with
  | step v ih =>
  intro owner attr t
  cases t with
  | primitive p =>
    rw [violations_primitive, inhabits_primitive_iff]
    cases v <;> simp [isNull]
  | array t =>
    rw [violations_array, inhabits_array_iff]
    cases v with
    | array items =>
      simp only [List.flatMap_eq_nil_iff, Value.array.injEq, exists_eq_left']
      exact forall₂_congr fun w hw => ih w hw owner attr t
    | _ => simp
  | map keyType t =>
    rw [violations_map, inhabits_map_iff]
    cases v with
    | struct fields =>
      simp only [List.flatMap_eq_nil_iff, Value.struct.injEq, exists_eq_left', List.append_eq_nil_iff,
        ← Catalog.acceptsKey_iff]
      refine forall₂_congr fun f hf => and_congr (by simp) ?_
      exact ih f.2 (List.mem_map_of_mem hf) owner attr t
    | _ => simp
  | named n =>
    cases he : c.enum? n with
    | some e =>
      rw [violations_enum he, inhabits_enum_iff hi he, ← Enumeration.accepts_iff]
      simp
    | none =>
      cases hr : c.type? n with
      | none => simp [violations_unknown he hr, not_inhabits_unknown he hr]
      | some r =>
        rw [violations_type he hr, inhabits_type_iff he hr]
        cases v with
        | struct fields =>
          exact Catalog.fieldsViolations_eq_nil_iff fun f hf => ih f.2 (List.mem_map_of_mem hf)
        | _ => simp

namespace Catalog

theorem validate_eq_nil_iff (hi : c.Integrity) {type : String} {entity : Entity} :
    c.validate type entity = [] ↔
      ∃ r, c.type? type = some r ∧ r.kind = .classType ∧ Conforms c r entity.entries := by
  rw [validate]
  cases hr : c.type? type with
  | none => cases c.enum? type <;> simp
  | some r =>
    cases hk : r.kind with
    | traitType => simp [hk]
    | classType =>
      have := fieldsViolations_eq_nil_iff (r := r) fun f (_ : f ∈ entity.entries) =>
        Value.violations_eq_nil_iff hi f.2
      simp [hk, this]

end Catalog

theorem Conforms.restrict {r q : Resolved} {fields : List (String × Value)} (h : Conforms c r fields)
    (hq : ∀ n x, q.attribute? n = some x → r.attribute? n = some x ∧ x.name = n) :
    Conforms c q (fields.filter fun f => decide (f.1 ∈ q.attributes)) := by
  obtain ⟨-, supplied⟩ := conforms_iff.1 h
  refine .intro (fun f hf => by simpa using (List.mem_filter.1 hf).2) fun n x hx => ?_
  obtain ⟨hr, rfl⟩ := hq n x hx
  rw [SortedMap.find_filter (p := fun k => decide (k ∈ q.attributes))]
  · exact supplied _ x hr
  · exact decide_eq_true (SortedMap.mem_iff.2 ⟨x, hx⟩)

namespace Registry

theorem valid_iff_conforms (ops : List Operation) (type : String) (entity : Entity) :
    (after ops).catalog.validate type entity = [] ↔
      ∃ r, (after ops).catalog.type? type = some r ∧ r.kind = .classType ∧
        Conforms (after ops).catalog r entity.entries :=
  Catalog.validate_eq_nil_iff (reachable_after ops).integrity

theorem valid_for_supertype (ops : List Operation) {type super : String} {r : Resolved} {entity : Entity}
    (hr : (after ops).catalog.type? type = some r) (hs : super ∈ r.ancestors)
    (hv : (after ops).catalog.validate type entity = []) :
    ∃ q, (after ops).catalog.type? super = some q ∧
      (after ops).catalog.validate super (entity.filter fun n _ => decide (n ∈ q.attributes)) = [] := by
  have hi := (reachable_after ops).integrity
  obtain ⟨r', hr', hk, hc⟩ := (Catalog.validate_eq_nil_iff hi).1 hv
  obtain rfl : r = r' := Option.some.inj (hr.symm.trans hr')
  obtain ⟨q, hq, hinh⟩ := (hi.coherent type r hr).inherited super hs
  have hkind : q.kind = r.kind := Lookup.Coherent.kind_of_mem_ancestors hi.coherent hr hs hq
  refine ⟨q, hq, (Catalog.validate_eq_nil_iff hi).2 ⟨q, hq, hkind.trans hk, ?_⟩⟩
  exact hc.restrict fun n x hx => ⟨hinh n x hx, (hi.coherent super q hq).keyed n x hx⟩

section Sample

def tableEntity : Entity :=
  SortedMap.ofList
    [("owner", .string "etl"), ("format", .int 2), ("parts", .array [.struct [("owner", .string "etl")]])]

set_option maxRecDepth 20000 in
theorem valid_table_for_asset :
    ∃ r q, (after [.call (.register 0 tableBatch)]).catalog.type? "Table" = some r ∧
      "Asset" ∈ r.ancestors ∧
      (after [.call (.register 0 tableBatch)]).catalog.validate "Table" tableEntity = [] ∧
      (after [.call (.register 0 tableBatch)]).catalog.type? "Asset" = some q ∧
      (after [.call (.register 0 tableBatch)]).catalog.validate "Asset"
        (tableEntity.filter fun n _ => decide (n ∈ q.attributes)) = [] := by
  have hc := catalog_after_register 0 (by rfl) clean_tableBatch
  have hv : ((⟨.empty, tableBatch⟩ : Scope).committed 0).validate "Table" tableEntity = [] := by cbv
  have hs : (((⟨.empty, tableBatch⟩ : Scope).committed 0).type? "Table").any
      (·.isSubtypeOf "Asset") = true := by cbv
  rw [← hc] at hv hs
  obtain ⟨r, hr, hs⟩ := (Option.any_eq_true _ _).1 hs
  obtain ⟨q, hq, h⟩ := valid_for_supertype _ hr hs hv
  exact ⟨r, q, hr, hs, hv, hq, h⟩

end Sample

end Registry

end TypeCatalog
