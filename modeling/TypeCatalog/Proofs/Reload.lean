import TypeCatalog.Proofs.Restatement
import TypeCatalog.Proofs.SchemaText
import TypeCatalog.Proofs.Service
set_option autoImplicit false

namespace TypeCatalog

namespace SchemaDocument

variable {c : Catalog}

theorem exists_declarations {rs : List Resolved}
    (h : ∀ r ∈ rs, ∃ d, (TypeDocument.ofResolved r).declaration = .ok d ∧ d.Restates r) :
    ∃ ds : List Declaration,
      (rs.map TypeDocument.ofResolved).mapM TypeDocument.declaration = .ok ds ∧
      ds.map Declaration.name = rs.map Resolved.name ∧
      (∀ r ∈ rs, ∃ d ∈ ds, d.Restates r) ∧ ∀ d ∈ ds, ∃ r ∈ rs, d.Restates r := by
  induction rs with
  | nil => exact ⟨[], rfl, rfl, nofun, nofun⟩
  | cons r rs ih =>
    obtain ⟨d, hd, hres⟩ := h r (List.mem_cons_self ..)
    obtain ⟨ds, hds, hnames, hleft, hright⟩ := ih fun q hq => h q (List.mem_cons_of_mem r hq)
    refine ⟨d :: ds, ?_, ?_, ?_, ?_⟩
    · rw [mapM_eq_ok_iff] at hds ⊢
      exact .cons hd hds
    · rw [List.map_cons, List.map_cons, hres.name, hnames]
    · refine List.forall_mem_cons.2 ⟨⟨d, List.mem_cons_self .., hres⟩, fun q hq => ?_⟩
      obtain ⟨e, he, hq⟩ := hleft q hq
      exact ⟨e, List.mem_cons_of_mem d he, hq⟩
    · refine List.forall_mem_cons.2 ⟨⟨r, List.mem_cons_self .., hres⟩, fun e he => ?_⟩
      obtain ⟨q, hq, he⟩ := hright e he
      exact ⟨q, List.mem_cons_of_mem r hq, he⟩

theorem batch_ofCatalog (hc : c.Reachable) :
    ∃ batch, (ofCatalog c).batch = .ok batch ∧ c.RestatedBy batch := by
  have hi := hc.integrity
  have hvalue : ∀ r ∈ c.types.values, c.type? r.name = some r := fun r hr => by
    obtain ⟨n, hn⟩ := SortedMap.mem_values.1 hr
    obtain rfl := (hi.coherent n r hn).name
    exact hn
  have hblank : ∀ r ∈ c.types.values,
      Text.isBlank r.name = false ∧ ∀ s ∈ r.supers, Text.isBlank s = false := by
    refine fun r hr => ⟨hc.isBlank_eq_false (Catalog.mem_types.2 ⟨r, hvalue r hr⟩), fun s hs => ?_⟩
    obtain ⟨q, hq, -⟩ := (hi.coherent _ r (hvalue r hr)).super s hs
    exact hc.isBlank_eq_false (Catalog.mem_types.2 ⟨q, hq⟩)
  obtain ⟨ds, hds, hnames, hleft, hright⟩ := exists_declarations fun r hr =>
    TypeDocument.declaration_ofResolved (hblank r hr).1 (hblank r hr).2
  have henums : (ofCatalog c).enums.mapM EnumDocument.enumeration = .ok c.enums.values :=
    mapM_map_self EnumDocument.enumeration_ofEnumeration c.enums.values
  refine ⟨c.enums.values.map .enumeration ++ ds.map .declaration, ?batch, ?names, fun e => ?enum,
    fun n r hr => ?declared, fun d hd => ?type⟩
  case batch =>
    have htypes : (ofCatalog c).types.mapM TypeDocument.declaration = .ok ds := hds
    rw [batch, mapM_map_of_mapM Definition.enumeration henums,
      mapM_map_of_mapM Definition.declaration htypes]
    rfl
  case names =>
    have he : c.enums.values.map Enumeration.name = c.enums.keys := SortedMap.map_values_eq_keys hi.enum_name
    have ht : c.types.values.map Resolved.name = c.types.keys :=
      SortedMap.map_values_eq_keys fun n r hr => (hi.coherent n r hr).name
    rw [List.map_append, List.map_map, List.map_map]
    exact congrArg₂ (· ++ ·) he (hnames.trans ht)
  case enum =>
    simp only [List.mem_append, List.mem_map, reduceCtorEq, and_false, exists_false, or_false,
      Definition.enumeration.injEq, exists_eq_right, SortedMap.mem_values]
    constructor
    · intro hx
      obtain ⟨n, hn⟩ := hx
      obtain rfl := hi.enum_name n e hn
      exact hn
    · exact fun he => ⟨e.name, he⟩
  case declared =>
    obtain ⟨d, hd, hres⟩ := hleft r (SortedMap.mem_values.2 ⟨n, hr⟩)
    exact ⟨d, List.mem_append_right _ (List.mem_map.2 ⟨d, hd, rfl⟩), hres⟩
  case type =>
    have hd : d ∈ ds := by simpa using hd
    obtain ⟨r, hr, hres⟩ := hright d hd
    exact ⟨r, hres.name ▸ hvalue r hr, hres⟩

end SchemaDocument

namespace Catalog.RestatedBy

variable {c : Catalog} {batch : List Definition}

theorem staged_types (h : c.RestatedBy batch) (hc : c.Reachable) {staged : Staged}
    (hst : Catalog.empty.stage batch = .ok staged) : staged.types = c.types := by
  refine SortedMap.ext_get? fun n => Option.ext fun r => ?_
  obtain ⟨staged', hst', heq⟩ := h.exists_stage hc
  obtain rfl : staged = staged' := Except.ok.inj (hst.symm.trans hst')
  rw [get?_staged_types_of_eq integrity_empty hst (heq 0).1]
  exact and_iff_left (SortedMap.not_mem_empty n)

theorem eq_empty (h : c.RestatedBy []) : c.types = ∅ ∧ c.enums = ∅ := by
  have hnone : ∀ n, ¬c.Defines n := fun n hn => by
    obtain ⟨d, hd, -⟩ := h.exists_definition_iff.2 hn
    cases hd
  refine ⟨SortedMap.ext_get? fun n => ?_, SortedMap.ext_get? fun n => ?_⟩
  · exact SortedMap.not_mem_iff.1 fun hn => hnone n (.inl hn)
  · exact SortedMap.not_mem_iff.1 fun hn => hnone n (.inr hn)

theorem on_register (h : c.RestatedBy batch) (hc : c.Reachable) (now : Nat) :
    ∃ r, (Registry.register now batch).on .empty = (.ok c.types, r) ∧ r.catalog.types = c.types ∧
      r.catalog.enums = c.enums := by
  rw [Registry.on_register]
  split
  · next hb =>
    obtain rfl := List.isEmpty_iff.1 hb
    obtain ⟨ht, he⟩ := h.eq_empty
    rw [ht, he]
    exact ⟨_, rfl, rfl, rfl⟩
  · obtain ⟨staged, hst, heq⟩ := h.exists_stage hc
    rw [show Registry.empty.catalog = Catalog.empty from rfl, hst]
    dsimp only
    rw [h.staged_types hc hst]
    exact ⟨_, rfl, (heq now).1, (heq now).2⟩

end Catalog.RestatedBy

namespace Registry

/-- Whatever has been registered, its export makes the same again, and is all there where it comes from. -/
theorem reload_export (ops : List Operation) (now : Nat) (o : Occasion) :
    ∃ document batch r,
      SchemaDocument.ofText (SchemaDocument.ofCatalog (after ops).catalog).text = .ok document ∧
      document.batch = .ok batch ∧
      (register now batch).on empty = (.ok (after ops).catalog.types, r) ∧
      r.catalog.names = (after ops).catalog.names ∧
      r.catalog.types = (after ops).catalog.types ∧
      r.catalog.enums = (after ops).catalog.enums ∧
      (∀ d ∈ batch, (after ops).catalog.isCommitted d = true) ∧
      (Service.registerMissing o batch).on (after ops) = (.ok ∅, after ops) := by
  have hc := reachable_after ops
  obtain ⟨batch, hb, h⟩ := SchemaDocument.batch_ofCatalog hc
  obtain ⟨r, hr, ht, he⟩ := h.on_register hc now
  refine ⟨_, batch, r, (SchemaDocument.reads _).parse Json.Style.lawful_pretty, hb, hr, ?_, ht, he,
    h.isCommitted hc.integrity, Service.registerMissing_of_isCommitted (h.isCommitted hc.integrity) o⟩
  simp only [Catalog.names, Catalog.typeNames, Catalog.enumNames, ht, he]

end Registry

end TypeCatalog
