import TypeCatalog.Proofs.Extension
import TypeCatalog.Proofs.Document
set_option autoImplicit false

namespace TypeCatalog

namespace Lookup

variable {lookup : Lookup} {n : String} {r : Resolved} {d : Declaration}

section Restated

variable (h : lookup.Coherent) (hr : lookup n = some r) (hd : d.Restates r)

include h hr hd

theorem Coherent.super_restated :
    ∀ s ∈ d.supers, ∃ q, lookup s = some q ∧ q.kind = d.kind ∧ lookup.Intact s q := by
  intro s hs
  obtain ⟨q, hq, hk⟩ := (h n r hr).super s (hd.supers ▸ hs)
  exact ⟨q, hq, hk.trans hd.kind.symm, h s q hq⟩

theorem Coherent.ancestors_restated : d.ancestors lookup = r.ancestors := by
  have hn : d.name = n := hd.name.trans (h n r hr).name
  refine NameSet.ext_mem fun a => ?_
  rw [mem_ancestors_iff_transGen (hn ▸ hr) hd.supers.symm (h.super_restated hr hd), hn]
  exact ((h n r hr).ancestors a).symm

theorem Coherent.contributes_restated_iff {a : Attribute} :
    d.Contributes lookup a ↔ ∃ m, r.attribute? m = some a := by
  rw [Declaration.Contributes, h.ancestors_restated hr hd, hd.attributes, SortedMap.mem_values]
  refine or_iff_left_of_imp fun hx => ?_
  obtain ⟨s, hs, q, m, hq, ha⟩ := hx
  obtain ⟨q', hq', hinh⟩ := (h n r hr).inherited s hs
  obtain rfl : q = q' := Option.some.inj (hq.symm.trans hq')
  exact ⟨m, hinh m a ha⟩

theorem Coherent.flatten_restated : d.flatten lookup = .ok r := by
  refine Declaration.flatten_eq_ok_iff.2 ⟨hd.name.symm, hd.kind.symm, hd.supers.symm,
    (h.ancestors_restated hr hd).symm, fun s hs => ?supers, fun a ha => ?ancestors, fun m a => ?holds⟩
  case supers =>
    obtain ⟨q, hq, -⟩ := h.super_restated hr hd s hs
    exact ⟨q, hq⟩
  case ancestors => exact h.closed n r hr a (h.ancestors_restated hr hd ▸ ha)
  case holds =>
    rw [h.contributes_restated_iff hr hd]
    constructor
    · exact fun ha => ⟨(h n r hr).keyed m a ha, m, ha⟩
    · intro hx
      obtain ⟨rfl, k, hk⟩ := hx
      rwa [(h n r hr).keyed k a hk]

end Restated

end Lookup

namespace Catalog

structure RestatedBy (c : Catalog) (batch : List Definition) : Prop where
  names : batch.map Definition.name = c.enumNames ++ c.typeNames
  enum : ∀ e, .enumeration e ∈ batch ↔ c.enum? e.name = some e
  declared : ∀ n r, c.type? n = some r → ∃ d, .declaration d ∈ batch ∧ d.Restates r
  type : ∀ d, .declaration d ∈ batch → ∃ r, c.type? d.name = some r ∧ d.Restates r

namespace RestatedBy

variable {c : Catalog} {batch : List Definition} {n : String} {staged : Staged}

theorem exists_definition_iff (h : c.RestatedBy batch) : (∃ d ∈ batch, d.name = n) ↔ c.Defines n := by
  rw [← List.mem_map, h.names, List.mem_append, enumNames, typeNames, SortedMap.mem_keys, SortedMap.mem_keys,
    Defines, or_comm]

abbrev scope (batch : List Definition) : Scope := ⟨.empty, batch⟩

theorem admitted (h : c.RestatedBy batch) (hc : c.Reachable) : (scope batch).Admitted := by
  refine ⟨?distinct, fun d hd => hc.free (h.exists_definition_iff.1 ⟨d, hd, rfl⟩)⟩
  rw [h.names, List.nodup_append]
  refine ⟨c.enums.keys_nodup, c.types.keys_nodup, fun n hn m hm hnm => ?_⟩
  subst hnm
  exact hc.integrity.disjoint n (SortedMap.mem_keys.1 hm) (SortedMap.mem_keys.1 hn)

theorem isCommitted (h : c.RestatedBy batch) (hi : c.Integrity) : ∀ d ∈ batch, c.isCommitted d = true := by
  intro d hd
  cases d with
  | enumeration e => exact isCommitted_enumeration_iff.2 ((h.enum e).1 hd)
  | declaration d =>
    obtain ⟨r, hr, hres⟩ := h.type d hd
    exact isCommitted_declaration_iff.2 ⟨r, hr, hi.coherent.flatten_restated hr hres⟩

theorem makes (h : c.RestatedBy batch) (hi : c.Integrity) : (scope batch).Makes c where
  keeps := ⟨nofun, nofun⟩
  committed := h.isCommitted hi
  defined _ hn := .inr (h.exists_definition_iff.2 hn)

theorem exists_stage (h : c.RestatedBy batch) (hc : c.Reachable) :
    ∃ staged, Catalog.empty.stage batch = .ok staged ∧ ∀ now,
      (Catalog.empty.commit staged now).types = c.types ∧
      (Catalog.empty.commit staged now).enums = c.enums :=
  exists_stage_of_makes integrity_empty (h.admitted hc) hc (h.makes hc.integrity)

end RestatedBy

end Catalog

end TypeCatalog
