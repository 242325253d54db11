import TypeCatalog.Proofs.Acceptance
set_option autoImplicit false

/-!
What a commit makes of a catalog. Main statements: all that was committed is kept, what is new is what the
batch defines, and a catalog with integrity keeps it.
-/

namespace TypeCatalog

open Relation

namespace Scope

variable {s : Scope} {now : Nat} {n : String} {r : Resolved} {e : Enumeration}

def committed (s : Scope) (now : Nat) : Catalog := s.catalog.commit s.staged now

theorem type?_committed : (s.committed now).type? = s.resolveAll.lookup s.catalog :=
  funext fun n => SortedMap.get?_union s.catalog.types s.resolveAll.resolved n

theorem enums_nodup (hs : s.Admitted) : (s.enums.map Enumeration.name).Nodup := by
  have hp := List.pairwise_map.1 hs.distinct
  refine List.pairwise_map.2 (List.pairwise_filterMap.2 (hp.imp ?_))
  intro d f hne e he e' he' heq
  cases d <;> cases f <;> simp_all [Definition.enumeration?, Definition.name]

theorem not_mem_of_admitted (hs : s.Admitted) {d : Definition} (hd : d ∈ s.accepted) :
    d.name ∉ s.catalog.types ∧ d.name ∉ s.catalog.enums ∧ Primitive.ofName? d.name = none := by
  obtain ⟨ht, he, hp⟩ := Catalog.not_mem_of_contains_eq_false (hs.free d hd)
  exact ⟨SortedMap.not_mem_iff.2 ht, he, hp⟩

theorem enum?_committed (hs : s.Admitted) :
    (s.committed now).enum? n = some e ↔
      (.enumeration e ∈ s.accepted ∧ e.name = n) ∨ s.catalog.enum? n = some e := by
  have hpairs : ((s.enums.map fun e => (e.name, e)).map Prod.fst).Nodup := by
    rw [List.map_map]
    exact enums_nodup hs
  have hfree : ∀ p ∈ s.enums.map fun e => (e.name, e), p.1 ∉ s.catalog.enums := by
    intro p hp
    obtain ⟨e, he, rfl⟩ := List.mem_map.1 hp
    exact (not_mem_of_admitted hs (mem_enums.1 he)).2.1
  have hfold : (s.committed now).enums =
      (s.enums.map fun e => (e.name, e)).foldl (fun m p => m.insert p.1 p.2) s.catalog.enums := by
    rw [List.foldl_map]
    rfl
  rw [Catalog.enum?, hfold, SortedMap.get?_foldl_insert_eq_some_iff hpairs hfree, ← Catalog.enum?]
  refine or_congr_left ?_
  simp only [List.mem_map, Prod.mk.injEq, mem_enums]
  constructor
  · intro h
    obtain ⟨e, he, rfl, rfl⟩ := h
    exact ⟨he, rfl⟩
  · exact fun ⟨he, hn⟩ => ⟨e, he, hn, rfl⟩

variable (hc : s.Clean) (hi : s.catalog.Integrity)

include hc hi

theorem Clean.keeps : (s.committed now).Keeps s.catalog where
  types := by
    rw [type?_committed]
    exact (hc.sound hi).keeps_catalog hc.admitted
  enums n e he := (enum?_committed hc.admitted).2 (.inr he)

theorem Clean.mem_types_committed :
    n ∈ (s.committed now).types ↔ (∃ d, .declaration d ∈ s.accepted ∧ d.name = n) ∨ n ∈ s.catalog.types := by
  rw [Catalog.mem_types, type?_committed, Resolution.known_iff]
  refine or_congr_left ⟨fun hr => ?_, ?_⟩
  · obtain ⟨r, hr⟩ := SortedMap.mem_iff.1 hr
    obtain ⟨-, d, hd, -⟩ := (hc.sound hi).resolved n r hr
    exact ⟨d, mem_declarations.1 (mem_of_declaration? hd), name_of_declaration? hd⟩
  · intro h
    obtain ⟨d, hd, rfl⟩ := h
    have hfound := hc.resolved hi (mem_declarations.2 hd)
    exact (Resolution.known_iff.1 hfound).resolve_right (not_mem_of_admitted hc.admitted hd).1

theorem Clean.defines_committed : (s.committed now).Defines n ↔ s.Defines n := by
  rw [Catalog.Defines, hc.mem_types_committed hi, Catalog.mem_enums]
  simp only [enum?_committed hc.admitted]
  constructor
  · intro h
    rcases h with (⟨d, hd, rfl⟩ | ht) | ⟨e, ⟨he, rfl⟩ | he⟩
    · exact .inr ⟨.declaration d, hd, rfl⟩
    · exact .inl (.inl ht)
    · exact .inr ⟨.enumeration e, he, rfl⟩
    · exact .inl (.inr (Catalog.mem_enums.2 ⟨e, he⟩))
  · intro h
    rcases h with (ht | he) | ⟨e | d, hd, rfl⟩
    · exact .inl (.inr ht)
    · obtain ⟨e, he⟩ := Catalog.mem_enums.1 he
      exact .inr ⟨e, .inr he⟩
    · exact .inr ⟨e, .inl ⟨hd, rfl⟩⟩
    · exact .inl (.inl ⟨d, hd, rfl⟩)

/-- What a type holds was given to it or to a supertype, so its references were checked there. -/
theorem Clean.references_committed {m k : String} {a : Attribute}
    (h : (s.committed now).type? n = some r) (ha : r.attribute? m = some a)
    (hk : k ∈ a.dataType.references) : (s.committed now).Defines k := by
  rw [type?_committed] at h
  obtain ⟨t, -, hg⟩ := (hc.sound hi).holds_of_attribute? hc.admitted hi h ha
  rw [hc.defines_committed hi]
  rcases hg with ⟨q, i, hq, hqa⟩ | ⟨d, hd, -, had⟩
  · exact .inl (hi.references t q hq i a hqa k hk)
  · exact attributeDefects_eq_nil_iff.1 (hc.references d hd) a had k hk

theorem Clean.integrity_committed : (s.committed now).Integrity where
  disjoint n ht he := by
    obtain ⟨e, he⟩ := Catalog.mem_enums.1 he
    rcases (hc.mem_types_committed hi).1 ht with ⟨d, hd, rfl⟩ | ht
    · rcases (enum?_committed hc.admitted).1 he with ⟨hm, hn⟩ | he
      · cases hc.admitted.eq_of_name hm hd hn
      · exact (not_mem_of_admitted hc.admitted hd).2.1 (Catalog.mem_enums.2 ⟨e, he⟩)
    · rcases (enum?_committed hc.admitted).1 he with ⟨hm, rfl⟩ | he
      · exact (not_mem_of_admitted hc.admitted hm).1 ht
      · exact hi.disjoint n ht (Catalog.mem_enums.2 ⟨e, he⟩)
  not_primitive n hn := by
    rcases (hc.defines_committed hi).1 hn with hn | ⟨d, hd, rfl⟩
    · exact hi.not_primitive n hn
    · exact (not_mem_of_admitted hc.admitted hd).2.2
  enum_name n e he := by
    rcases (enum?_committed hc.admitted).1 he with ⟨-, hn⟩ | he
    · exact hn
    · exact hi.enum_name n e he
  coherent := by
    rw [type?_committed]
    exact (hc.sound hi).coherent hc.admitted hi
  references n r h m a ha k hk := hc.references_committed hi h ha hk

theorem Clean.reversible_committed (hrev : Lookup.Reversible s.catalog.type?) :
    Lookup.Reversible (s.committed now).type? := by
  intro n r h m a ha
  rw [type?_committed] at h
  obtain ⟨t, -, hg⟩ := (hc.sound hi).holds_of_attribute? hc.admitted hi h ha
  rcases hg with ⟨q, i, hq, hqa⟩ | ⟨d, hd, -, had⟩
  · -- What the attribute refers to was committed with it, so a type under that name is the old one.
    intro reverse hr
    obtain ⟨k, hk, hclass⟩ := hrev t q hq i a hqa reverse hr
    refine ⟨k, hk, fun p hp => ?_⟩
    rcases hi.references t q hq i a hqa k (DataType.mem_references_of_element hk) with hmem | hmem
    · obtain ⟨p', hp'⟩ := Catalog.mem_types.1 hmem
      obtain rfl : p = p' := Option.some.inj (hp.symm.trans ((hc.keeps hi).types k p' hp'))
      exact hclass p hp'
    · obtain ⟨e, he⟩ := Catalog.mem_enums.1 hmem
      exact absurd (Catalog.mem_enums.2 ⟨e, (hc.keeps hi).enums k e he⟩)
        ((hc.integrity_committed hi).disjoint k (Catalog.mem_types.2 ⟨p, hp⟩))
  · rw [type?_committed]
    exact Declaration.reverseDefects_eq_nil_iff.1 (hc.reverse d hd) a had

end Scope

namespace Catalog

variable {c : Catalog} {batch : List Definition} {staged : Staged} {now : Nat}

theorem integrity_commit (hi : c.Integrity) (h : c.stage batch = .ok staged) :
    (c.commit staged now).Integrity := by
  obtain ⟨hc, rfl⟩ := stage_eq_ok_iff.1 h
  exact hc.integrity_committed hi

theorem keeps_commit (hi : c.Integrity) (h : c.stage batch = .ok staged) :
    (c.commit staged now).Keeps c := by
  obtain ⟨hc, rfl⟩ := stage_eq_ok_iff.1 h
  exact hc.keeps hi

theorem mem_types_commit (hi : c.Integrity) (h : c.stage batch = .ok staged) {n : String} :
    n ∈ (c.commit staged now).types ↔
      (∃ d, .declaration d ∈ batch ∧ d.name = n) ∨ n ∈ c.types := by
  obtain ⟨hc, rfl⟩ := stage_eq_ok_iff.1 h
  exact hc.mem_types_committed hi

theorem enum?_commit (h : c.stage batch = .ok staged) {n : String} {e : Enumeration} :
    (c.commit staged now).enum? n = some e ↔
      (.enumeration e ∈ batch ∧ e.name = n) ∨ c.enum? n = some e := by
  obtain ⟨hc, rfl⟩ := stage_eq_ok_iff.1 h
  exact Scope.enum?_committed hc.admitted

theorem reversible_commit (hi : c.Integrity) (hrev : Lookup.Reversible c.type?)
    (h : c.stage batch = .ok staged) : Lookup.Reversible (c.commit staged now).type? := by
  obtain ⟨hc, rfl⟩ := stage_eq_ok_iff.1 h
  exact hc.reversible_committed hi hrev

theorem get?_staged_types_iff (hi : c.Integrity) (h : c.stage batch = .ok staged) {n : String}
    {r : Resolved} :
    staged.types.get? n = some r ↔ (c.commit staged now).type? n = some r ∧ n ∉ c.types := by
  obtain ⟨hc, rfl⟩ := stage_eq_ok_iff.1 h
  change _ ↔ ((⟨c, batch⟩ : Scope).committed now).type? n = some r ∧ n ∉ c.types
  rw [Scope.type?_committed]
  exact (hc.sound hi).get?_resolved_iff hc.admitted

theorem not_mem_of_stage (h : c.stage batch = .ok staged) {d : Definition} (hd : d ∈ batch) :
    d.name ∉ c.types ∧ d.name ∉ c.enums := by
  obtain ⟨hc, -⟩ := stage_eq_ok_iff.1 h
  obtain ⟨ht, he, -⟩ := Scope.not_mem_of_admitted hc.admitted hd
  exact ⟨ht, he⟩

end Catalog

end TypeCatalog
