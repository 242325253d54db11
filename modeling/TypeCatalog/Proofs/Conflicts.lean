import TypeCatalog.Proofs.Flattening
set_option autoImplicit false

namespace TypeCatalog.Contribution

variable {type : String} {cs : List Contribution} {c d : Contribution}

theorem mem_conflicts_merge {e : Defect} :
    e ∈ (merge type cs).conflicts ↔
      ∃ c ∈ cs, ∃ k, first? cs c.attr.name = some k ∧ k.attr ≠ c.attr ∧
        e = .conflict type c.attr.name k.source k.attr c.source c.attr := by
  rw [conflicts_merge, List.mem_filterMap]
  refine exists_congr fun c => and_congr_right fun _ => ?_
  rw [conflict?, Option.bind_eq_some_iff]
  refine exists_congr fun k => and_congr_right fun _ => ?_
  by_cases hk : k.attr = c.attr <;> simp [hk, eq_comm]

theorem exists_conflict_of_ne (type : String) (hc : c ∈ cs) (hd : d ∈ cs) (hn : c.attr.name = d.attr.name)
    (hne : c.attr ≠ d.attr) :
    ∃ source kept other attr,
      .conflict type c.attr.name source kept other attr ∈ (merge type cs).conflicts := by
  obtain ⟨k, hk⟩ := exists_first? hc
  have htold : ∀ e ∈ cs, c.attr.name = e.attr.name → k.attr ≠ e.attr →
      .conflict type c.attr.name k.source k.attr e.source e.attr ∈ (merge type cs).conflicts := by
    intro e he hname hke
    exact mem_conflicts_merge.2 ⟨e, he, k, hname ▸ hk, hke, by rw [hname]⟩
  by_cases hkc : k.attr = c.attr
  · exact ⟨_, _, _, _, htold d hd hn fun h => hne (hkc.symm.trans h)⟩
  · exact ⟨_, _, _, _, htold c hc rfl hkc⟩

end TypeCatalog.Contribution

namespace TypeCatalog.Declaration

variable {d : Declaration} {lookup : Lookup} {r : Resolved} {ds : List Defect}

/-- A type that has the supertypes with all of their ancestors, and under each name the one definition that is
contributed under it. -/
structure Unites (d : Declaration) (lookup : Lookup) (r : Resolved) : Prop where
  name : r.name = d.name
  kind : r.kind = d.kind
  supers : r.supers = d.supers
  ancestors : ∀ n, n ∈ r.ancestors ↔ ∃ s ∈ d.supers, n = s ∨ ∃ q, lookup s = some q ∧ n ∈ q.ancestors
  attributes : ∀ n a, r.attribute? n = some a ↔ a.name = n ∧ d.Contributes lookup a

/-- What can be wrong with a declaration that is flattened: a supertype that is missing, or two definitions of
one name, each with the type that it is from. -/
inductive Wrong (d : Declaration) (lookup : Lookup) : Defect → Prop where
  | missing {s : String} : s ∈ d.supers → lookup s = none → Wrong d lookup (.unknownReference d.name s)
  | conflict {source other : String} {a b : Attribute} : d.Collects lookup source a →
      d.Collects lookup other b → a.name = b.name → a ≠ b →
      Wrong d lookup (.conflict d.name a.name source a other b)

structure Tells (d : Declaration) (lookup : Lookup) (ds : List Defect) : Prop where
  missing : ∀ s ∈ d.supers, lookup s = none → .unknownReference d.name s ∈ ds
  conflicts : ∀ a b, d.Contributes lookup a → d.Contributes lookup b → a.name = b.name → a ≠ b →
    ∃ source kept other attr, .conflict d.name a.name source kept other attr ∈ ds
  wrong : ∀ e ∈ ds, d.Wrong lookup e

theorem mem_unknown {names : List String} {e : Defect} :
    e ∈ d.unknown lookup names ↔ ∃ n ∈ names, lookup n = none ∧ e = .unknownReference d.name n := by
  simp only [unknown, List.mem_map, List.mem_filter, Option.isNone_iff_eq_none, and_assoc,
    eq_comm (a := e)]

theorem defects_of_flatten (h : d.flatten lookup = .error ds) :
    ds = d.unknown lookup d.supers.toList ++ d.unknown lookup (d.ancestors lookup).toList ++
      (Contribution.merge d.name (d.contributions lookup)).conflicts := by
  rw [flatten] at h
  split at h
  · cases h
  · exact (Except.error.inj h).symm

theorem wrong_of_mem_conflicts {e : Defect}
    (h : e ∈ (Contribution.merge d.name (d.contributions lookup)).conflicts) : d.Wrong lookup e := by
  obtain ⟨c, hc, k, hk, hne, rfl⟩ := Contribution.mem_conflicts_merge.1 h
  have hn := Contribution.name_of_first? hk
  rw [← hn]
  exact .conflict (mem_contributions.1 (List.mem_of_find?_eq_some hk)) (mem_contributions.1 hc) hn hne

theorem Flattens.unites (h : d.Flattens lookup r) : d.Unites lookup r := by
  refine ⟨h.name, h.kind, h.supers, fun n => ?_, h.holds⟩
  rw [h.ancestors, mem_ancestors]
  refine exists_congr fun s => and_congr_right fun hs => ?_
  obtain ⟨q, hq⟩ := h.supers_known s hs
  simp [hq]

theorem tells_of_flatten (hc : lookup.Closed) (h : d.flatten lookup = .error ds) : d.Tells lookup ds := by
  obtain rfl := defects_of_flatten h
  refine ⟨fun s hs hn => ?missing, fun a b ha hb hn hne => ?conflicts, fun e he => ?wrong⟩
  case missing =>
    simp only [List.mem_append]
    exact .inl (.inl (mem_unknown.2 ⟨s, NameSet.mem_toList.2 hs, hn, rfl⟩))
  case conflicts =>
    obtain ⟨source, ha⟩ := contributes_iff_collects.1 ha
    obtain ⟨other, hb⟩ := contributes_iff_collects.1 hb
    obtain ⟨_, _, _, _, hm⟩ := Contribution.exists_conflict_of_ne d.name
      (mem_contributions.2 ha) (mem_contributions.2 hb) hn hne
    exact ⟨_, _, _, _, List.mem_append_right _ hm⟩
  case wrong =>
    rcases List.mem_append.1 he with he | he
    · rcases List.mem_append.1 he with he | he
      · obtain ⟨s, hs, hn, rfl⟩ := mem_unknown.1 he
        exact .missing (NameSet.mem_toList.1 hs) hn
      · obtain ⟨s, hs, hn, rfl⟩ := mem_unknown.1 he
        obtain ⟨q, hq⟩ := hc.ancestors_known (NameSet.mem_toList.1 hs)
        cases hn.symm.trans hq
    · exact wrong_of_mem_conflicts he

/-- Flattening is the union of definitions without conflict, and fails with the reasons why there is none. -/
theorem flatten_unites_or_tells (d : Declaration) (hc : lookup.Closed) :
    ((∃ r, d.flatten lookup = .ok r) ↔ (∀ s ∈ d.supers, ∃ q, lookup s = some q) ∧ d.Agrees lookup) ∧
      (∀ r, d.flatten lookup = .ok r → d.Unites lookup r) ∧
      ∀ ds, d.flatten lookup = .error ds → d.Tells lookup ds := by
  refine ⟨?_, fun r h => (flattens_of_flatten h).unites, fun ds h => tells_of_flatten hc h⟩
  rw [flatten_isOk_iff]
  exact and_congr_right fun _ => and_iff_right fun _ ha => hc.ancestors_known ha

def encodingAttribute (unique : Bool) : Attribute :=
  ⟨"encoding", "Encoding", .required, false, unique, unique, none, by decide, by decide, id⟩

/-- A table with an encoding of its own, while what is encoded may share one; of assets nothing is known. -/
def encodedTable : Declaration :=
  ⟨.classType, "Table", NameSet.ofList ["Asset", "Encoded"], [encodingAttribute true], by decide, by decide⟩

def encodedType : Resolved :=
  ⟨"Encoded", .classType, ∅, ∅, SortedMap.ofList [("encoding", encodingAttribute false)]⟩

def knowsEncoded : Lookup := fun n => if n = "Encoded" then some encodedType else none

theorem closed_knowsEncoded : knowsEncoded.Closed := by
  intro n r h a ha
  simp only [knowsEncoded, Option.ite_none_right_eq_some, Option.some.injEq] at h
  obtain ⟨-, rfl⟩ := h
  exact absurd ha (SortedMap.not_mem_empty a)

theorem table_tells_of_asset_and_encoding :
    knowsEncoded.Closed ∧ ∃ ds, encodedTable.flatten knowsEncoded = .error ds ∧
      .unknownReference "Table" "Asset" ∈ ds ∧
      ∃ source kept other attr, .conflict "Table" "encoding" source kept other attr ∈ ds := by
  obtain ⟨hok, -, htells⟩ := flatten_unites_or_tells encodedTable closed_knowsEncoded
  refine ⟨closed_knowsEncoded, ?_⟩
  have hasset : "Asset" ∈ encodedTable.supers := by decide
  cases hf : encodedTable.flatten knowsEncoded with
  | ok r =>
    obtain ⟨q, hq⟩ := (hok.1 ⟨r, hf⟩).1 "Asset" hasset
    cases hq
  | error ds =>
    have h := htells ds hf
    have hown : encodedTable.Contributes knowsEncoded (encodingAttribute true) := .inl (by simp [encodedTable])
    have hancestor : "Encoded" ∈ encodedTable.ancestors knowsEncoded :=
      mem_ancestors.2 ⟨"Encoded", by decide, encodedType, rfl, .inl rfl⟩
    have hinherited : encodedTable.Contributes knowsEncoded (encodingAttribute false) :=
      .inr ⟨"Encoded", hancestor, encodedType, "encoding", rfl, rfl⟩
    exact ⟨ds, rfl, h.missing "Asset" hasset rfl, h.conflicts _ _ hown hinherited rfl (by decide)⟩

end TypeCatalog.Declaration
