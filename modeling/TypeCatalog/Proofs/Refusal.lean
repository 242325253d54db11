import TypeCatalog.Proofs.Conflicts
import TypeCatalog.Proofs.Naming
set_option autoImplicit false

/-!
What a batch that is refused is told. Main statement: every defect is there in what the batch and the catalog
define, whatever else is wrong and left unresolved by it, and every name that stands for nothing is told of. The
latter are found before anything is flattened, so flattening never meets one.
-/

namespace TypeCatalog

open Relation

namespace Admission

variable {c : Catalog} {batch : List Definition} {d : Definition} {n : String}

theorem mem_taken_iff :
    n ∈ (ofBatch c batch).taken ↔ c.contains n = false ∧ ∃ d ∈ batch, d.name = n := by
  induction batch using List.reverseRecOn with
  | nil => simp [ofBatch]
  | append_singleton batch d ih =>
    rw [ofBatch_concat, Admission.add]
    split
    all_goals grind

/-- Of several definitions with one name only the first counts, and none if the name is known already. -/
theorem mem_accepted_iff :
    d ∈ (ofBatch c batch).accepted ↔
      c.contains d.name = false ∧ batch.find? (fun e => e.name == d.name) = some d := by
  induction batch using List.reverseRecOn with
  | nil => simp [ofBatch]
  | append_singleton batch e ih =>
    have hlast : [e].find? (fun f => f.name == d.name) = some d ↔ e = d := by
      rw [List.find?_singleton]
      grind
    have htaken : d.name ∈ (ofBatch c batch).taken ↔
        c.contains d.name = false ∧ ¬batch.find? (fun f => f.name == d.name) = none := by
      rw [mem_taken_iff, List.find?_eq_none]
      simp
    rw [ofBatch_concat, Admission.add, List.find?_append, Option.or_eq_some_iff, hlast]
    split
    all_goals grind

theorem exists_name_of_mem_refused {e : Defect} (h : e ∈ (ofBatch c batch).refused) :
    ∃ n ∈ batch.map Definition.name, e = .duplicateType n ∧
      (c.contains n = true ∨ 2 ≤ (batch.map Definition.name).count n) := by
  induction batch using List.reverseRecOn with
  | nil => cases h
  | append_singleton batch d ih =>
    have hearlier (h : e ∈ (ofBatch c batch).refused) :
        ∃ n ∈ batch.map Definition.name ++ [d.name], e = .duplicateType n ∧
          (c.contains n = true ∨ 2 ≤ (batch.map Definition.name ++ [d.name]).count n) := by
      obtain ⟨n, hn, he, hwhy⟩ := ih h
      refine ⟨n, List.mem_append_left _ hn, he, hwhy.imp_right fun htwo => ?_⟩
      exact htwo.trans ((List.sublist_append_left _ _).count_le n)
    rw [ofBatch_concat, Admission.add] at h
    rw [List.map_append, List.map_singleton]
    split at h
    · next hknown =>
      rcases List.mem_append.1 h with h | h
      · exact hearlier h
      · refine ⟨d.name, List.mem_append_right _ (List.mem_singleton_self _), List.mem_singleton.1 h, ?_⟩
        refine hknown.imp_right fun htaken => ?_
        have hone : 0 < (batch.map Definition.name).count d.name :=
          List.count_pos_iff.2 (List.mem_map.2 (mem_taken_iff.1 htaken).2)
        rw [List.count_append, List.count_singleton_self]
        exact Nat.succ_le_succ hone
    · exact hearlier h

end Admission

namespace Scope

variable {s : Scope} {d : Declaration} {n : String}

/-- What a name stands for: what the catalog or the batch defines by it, else a primitive or a collection. -/
inductive HasCategory (s : Scope) (n : String) : Category → Prop
  | kind {k : Kind} (h : s.HasKind n k) : HasCategory s n k.category
  | enumeration {e : Enumeration} (h : (.enumeration e ∈ s.accepted ∧ e.name = n) ∨
      s.catalog.enum? n = some e) : HasCategory s n .enumeration
  | builtIn (hn : ¬s.Defines n) (h : DataType.IsBuiltIn s.Defines n) : HasCategory s n .primitive

theorem HasKind.defines {k : Kind} (h : s.HasKind n k) : s.Defines n := by
  rcases h with ⟨r, hr, -⟩ | ⟨d, hd, hn, -⟩
  · exact .inl (.inl (Catalog.mem_types.2 ⟨r, hr⟩))
  · exact .inr ⟨_, mem_declarations.1 hd, hn⟩

theorem exists_hasCategory_of_defines (h : s.Defines n) : ∃ category, s.HasCategory n category := by
  rcases h with (ht | he) | ⟨d | d, hd, hn⟩
  · obtain ⟨r, hr⟩ := Catalog.mem_types.1 ht
    exact ⟨_, .kind (.inl ⟨r, hr, rfl⟩)⟩
  · obtain ⟨e, he⟩ := Catalog.mem_enums.1 he
    exact ⟨_, .enumeration (.inr he)⟩
  · exact ⟨_, .enumeration (.inl ⟨hd, hn⟩)⟩
  · exact ⟨_, .kind (.inr ⟨d, mem_declarations.2 hd, hn, rfl⟩)⟩

section Category

variable (hs : s.Admitted) (hi : s.catalog.Integrity) {category : Category}

include hs hi

theorem Admitted.eq_primitive_of_not_defines (hn : ¬s.Defines n) (h : s.category? n = some category) :
    category = .primitive := by
  cases category with
  | primitive => rfl
  | enumeration =>
    obtain ⟨e, ⟨he, hname⟩ | he⟩ := (hs.category?_eq_enumeration_iff hi).1 h
    · exact absurd (.inr ⟨_, he, hname⟩) hn
    · exact absurd (.inl (.inr (Catalog.mem_enums.2 ⟨e, he⟩))) hn
  | classType => exact absurd ((hs.category?_eq_kind_iff (k := .classType)).1 h).defines hn
  | traitType => exact absurd ((hs.category?_eq_kind_iff (k := .traitType)).1 h).defines hn

theorem Admitted.category?_of_hasCategory (h : s.HasCategory n category) : s.category? n = some category := by
  cases h with
  | kind h => exact hs.category?_eq_kind_iff.2 h
  | enumeration h => exact (hs.category?_eq_enumeration_iff hi).2 ⟨_, h⟩
  | builtIn hn h =>
    obtain ⟨category, hc⟩ := Option.isSome_iff_exists.1 (category?_isSome_iff.2 (.inr h))
    rw [hc, hs.eq_primitive_of_not_defines hi hn hc]

theorem Admitted.category?_eq_some_iff : s.category? n = some category ↔ s.HasCategory n category := by
  refine ⟨fun h => ?_, hs.category?_of_hasCategory hi⟩
  by_cases hn : s.Defines n
  · obtain ⟨category', hc⟩ := exists_hasCategory_of_defines hn
    obtain rfl : category' = category :=
      Option.some.inj ((hs.category?_of_hasCategory hi hc).symm.trans h)
    exact hc
  · obtain rfl := hs.eq_primitive_of_not_defines hi hn h
    exact .builtIn hn ((category?_isSome_iff.1 (by rw [h]; rfl)).resolve_left hn)

end Category

def Resolves (s : Scope) (n : String) : Prop := s.Defines n ∨ DataType.IsBuiltIn s.Defines n

theorem category?_eq_none_iff : s.category? n = none ↔ ¬s.Resolves n := by
  rw [Resolves, ← category?_isSome_iff, Option.not_isSome_iff_eq_none]

theorem mem_superDefects {e : Defect} :
    e ∈ s.superDefects d ↔ ∃ n ∈ d.supers, (¬s.Resolves n ∧ e = .unknownReference d.name n) ∨
      ∃ category, s.category? n = some category ∧ category ≠ d.category ∧
        e = .supertypeCategory d.name d.category n category := by
  rw [superDefects, List.mem_flatMap]
  simp only [NameSet.mem_toList]
  refine exists_congr fun n => and_congr_right fun _ => ?_
  rw [← category?_eq_none_iff]
  cases s.category? n with
  | none => simp
  | some category =>
    by_cases h : category = d.category <;> simp [h]

theorem mem_attributeDefects {e : Defect} :
    e ∈ s.attributeDefects d ↔ ∃ a ∈ d.attributes, ∃ n ∈ a.dataType.references,
      ¬s.Resolves n ∧ e = .unknownReference d.name n := by
  simp only [attributeDefects, List.mem_flatMap, List.mem_map, List.mem_filter, Option.isNone_iff_eq_none,
    category?_eq_none_iff, and_assoc, eq_comm (a := e)]

end Scope

theorem Declaration.mem_reverseDefects {d : Declaration} {lookup : Lookup} {e : Defect} :
    e ∈ d.reverseDefects lookup ↔ ∃ a ∈ d.attributes, ∃ reverse, a.reverse = some reverse ∧
      ((∃ k r, a.dataType.element = .named k ∧ lookup k = some r ∧
          ¬(r.kind = .classType ∧ (r.attribute? reverse).isSome) ∧
          e = .invalidReverse d.name a.name reverse k) ∨
        (∀ k, a.dataType.element ≠ .named k) ∧ e = .invalidReverse d.name a.name reverse a.typeName) := by
  rw [reverseDefects, List.mem_flatMap]
  refine exists_congr fun a => and_congr_right fun _ => ?_
  cases a.reverse with
  | none => simp
  | some reverse =>
    cases a.dataType.element with
    | named k =>
      cases hk : lookup k with
      | none => simp [hk]
      | some r =>
        by_cases hclass : r.kind = .classType <;> cases hr : r.attribute? reverse <;> simp [hk, hclass, hr]
    | _ => simp

namespace Scope

variable {s : Scope} {d : Declaration}

/-- A reference of a declaration that stands for nothing, as a supertype or in the data type of an attribute. -/
def Misses (s : Scope) (type reference : String) : Prop :=
  ∃ d ∈ s.declarations, d.name = type ∧
    (reference ∈ d.supers ∨ ∃ a ∈ d.attributes, reference ∈ a.dataType.references) ∧ ¬s.Resolves reference

def Shows (s : Scope) (d : Declaration) (source : String) (a : Attribute) : Prop :=
  (source = d.name ∧ a ∈ d.attributes) ∨ (TransGen s.Extends d.name source ∧ s.Holds source a)

def Backs (s : Scope) (a : Attribute) (reverse : String) : Prop :=
  ∃ k, a.dataType.element = .named k ∧ s.HasKind k .classType ∧ ∃ b, s.Holds k b ∧ b.name = reverse

end Scope

namespace Resolution

open Scope

variable {s : Scope} {p : Resolution} {d : Declaration} (hp : Sound s p) (hs : s.Admitted)
  (hi : s.catalog.Integrity)

include hp hs hi

theorem Sound.shows_of_collects (hd : d ∈ s.declarations) {source : String} {a : Attribute}
    (h : d.Collects (p.lookup s.catalog) source a) : s.Shows d source a := by
  rcases h with hown | ⟨hanc, r, n, hr, ha⟩
  · exact .inl hown
  · refine .inr ⟨?_, hp.holds_of_attribute? hs hi hr ha⟩
    obtain ⟨t, ht, q, hq, hsource⟩ := Declaration.mem_ancestors.1 hanc
    have hstep : s.Extends d.name t := .inr ⟨d, hd, rfl, ht⟩
    rcases hsource with rfl | hsource
    · exact .single hstep
    · have hup := ((hp.coherent hs hi t q hq).ancestors source).1 hsource
      refine .head hstep (TransGen.mono (fun n m h => ?_) t source hup)
      obtain ⟨r, hr, hm⟩ := h
      exact (hp.extends_iff hs hr).2 hm

/-- What is flattened has its supertypes, so all that can be wrong with it are conflicts. -/
theorem Sound.conflict_of_mem_defects {e : Defect} (he : e ∈ p.defects) :
    ∃ d ∈ s.declarations, ∃ source other a b, s.Shows d source a ∧ s.Shows d other b ∧ a.name = b.name ∧
      a ≠ b ∧ e = .conflict d.name a.name source a other b := by
  obtain ⟨d, hd, ds, hr, he⟩ := hp.defects e he
  have htells := Declaration.tells_of_flatten (hp.closed hi) hr.error
  cases htells.wrong e he with
  | missing hm hn =>
    obtain ⟨q, hq⟩ := hr.supers_known _ hm
    cases hn.symm.trans hq
  | conflict ha hb hn hne =>
    exact ⟨d, hd, _, _, _, _, hp.shows_of_collects hs hi hd ha, hp.shows_of_collects hs hi hd hb, hn, hne, rfl⟩

theorem Sound.not_backs {a : Attribute} {k reverse : String} {r : Resolved}
    (hk : a.dataType.element = .named k) (hr : p.lookup s.catalog k = some r)
    (hno : ¬(r.kind = .classType ∧ (r.attribute? reverse).isSome)) : ¬s.Backs a reverse := by
  intro h
  obtain ⟨k', hk', hclass, b, hb, rfl⟩ := h
  cases hk.symm.trans hk'
  refine hno ⟨(hp.hasKind_iff hs hr).1 hclass, ?_⟩
  rw [(hp.attribute?_iff_holds hs hi hr).2 hb]
  rfl

end Resolution

namespace Catalog

variable {c : Catalog} {batch : List Definition}

inductive Justifies (c : Catalog) (batch : List Definition) : Defect → Prop
  | duplicate {n : String} (named : n ∈ batch.map Definition.name)
    (taken : c.contains n = true ∨ 2 ≤ (batch.map Definition.name).count n) :
    Justifies c batch (.duplicateType n)
  | missing {type reference : String} (h : (c.scope batch).Misses type reference) :
    Justifies c batch (.unknownReference type reference)
  | category {d : Declaration} {n : String} {category : Category} (hd : d ∈ (c.scope batch).declarations)
    (hn : n ∈ d.supers) (h : (c.scope batch).HasCategory n category) (hne : category ≠ d.category) :
    Justifies c batch (.supertypeCategory d.name d.category n category)
  | cycle {u : String} {way : List String} (once : (u :: way).Nodup)
    (h : (u :: way ++ [u]).IsChain (c.scope batch).Needs) : Justifies c batch (.cycle (u :: way ++ [u]))
  | conflict {d : Declaration} {source other : String} {a b : Attribute}
    (hd : d ∈ (c.scope batch).declarations) (ha : (c.scope batch).Shows d source a)
    (hb : (c.scope batch).Shows d other b) (hn : a.name = b.name) (hne : a ≠ b) :
    Justifies c batch (.conflict d.name a.name source a other b)
  | reverse {d : Declaration} {a : Attribute} {reverse target : String}
    (hd : d ∈ (c.scope batch).declarations) (ha : a ∈ d.attributes) (hr : a.reverse = some reverse)
    (ht : a.dataType.element = .named target ∨
      target = a.typeName ∧ ∀ k, a.dataType.element ≠ .named k)
    (hno : ¬(c.scope batch).Backs a reverse) :
    Justifies c batch (.invalidReverse d.name a.name reverse target)

theorem mem_stage_defects {ds : List Defect} (h : c.stage batch = .error ds) {e : Defect} :
    e ∈ ds ↔ e ∈ (Admission.ofBatch c batch).refused ∨
      (∃ d ∈ (c.scope batch).declarations,
        e ∈ (c.scope batch).superDefects d ∨ e ∈ (c.scope batch).attributeDefects d) ∨
      (∃ path ∈ (c.scope batch).cycles, .cycle path = e) ∨ e ∈ (c.scope batch).resolveAll.defects ∨
      ∃ d ∈ (c.scope batch).declarations, e ∈ d.reverseDefects ((c.scope batch).resolveAll.lookup c) := by
  rw [stage] at h
  split at h
  · cases h
  · obtain rfl := Except.error.inj h
    simp only [List.mem_append, List.mem_flatMap, List.mem_map, Scope.referenceDefects, or_assoc]

section Refused

variable {ds : List Defect} (hi : c.Integrity) (h : c.stage batch = .error ds)

include hi

theorem conflict_of_resolveAll {e : Defect} (he : e ∈ (c.scope batch).resolveAll.defects) :
    ∃ d ∈ (c.scope batch).declarations, ∃ source other a b, (c.scope batch).Shows d source a ∧
      (c.scope batch).Shows d other b ∧ a.name = b.name ∧ a ≠ b ∧
      e = .conflict d.name a.name source a other b :=
  have hs := Scope.admitted_scope c batch
  (Scope.sound_resolveAll hs hi).1.conflict_of_mem_defects hs hi he

include h

theorem justifies_of_mem {e : Defect} (he : e ∈ ds) : c.Justifies batch e := by
  have hs := Scope.admitted_scope c batch
  rcases (mem_stage_defects h).1 he with he | ⟨d, hd, he | he⟩ | ⟨path, hpath, rfl⟩ | he | ⟨d, hd, he⟩
  · obtain ⟨n, hn, rfl, htaken⟩ := Admission.exists_name_of_mem_refused he
    exact .duplicate hn htaken
  · obtain ⟨n, hn, ⟨hno, rfl⟩ | ⟨category, hc, hne, rfl⟩⟩ := Scope.mem_superDefects.1 he
    · exact .missing ⟨d, hd, rfl, .inl hn, hno⟩
    · exact .category hd hn ((hs.category?_eq_some_iff hi).1 hc) hne
  · obtain ⟨a, ha, n, hn, hno, rfl⟩ := Scope.mem_attributeDefects.1 he
    exact .missing ⟨d, hd, rfl, .inr ⟨a, ha, hn⟩, hno⟩
  · obtain ⟨u, way, rfl, honce, hchain⟩ := Graph.isCycle_of_mem_cycles hpath
    exact .cycle honce (hchain.imp fun _ _ => hs.needs_of_edge)
  · obtain ⟨d, hd, source, other, a, b, ha, hb, hn, hne, rfl⟩ := conflict_of_resolveAll hi he
    exact .conflict hd ha hb hn hne
  · obtain ⟨a, ha, reverse, hr, htarget⟩ := Declaration.mem_reverseDefects.1 he
    rcases htarget with ⟨k, r, hk, hkr, hno, rfl⟩ | ⟨hk, rfl⟩
    · exact .reverse hd ha hr (.inl hk) ((Scope.sound_resolveAll hs hi).1.not_backs hs hi hk hkr hno)
    · exact .reverse hd ha hr (.inr ⟨rfl, hk⟩) fun ⟨k, hk', _⟩ => hk k hk'

theorem unknownReference_mem_iff {type reference : String} :
    .unknownReference type reference ∈ ds ↔ (c.scope batch).Misses type reference := by
  constructor
  · intro he
    cases justifies_of_mem hi h he with
    | missing hm => exact hm
  · intro hm
    obtain ⟨d, hd, rfl, hused, hno⟩ := hm
    refine (mem_stage_defects h).2 (.inr (.inl ⟨d, hd, ?_⟩))
    rcases hused with hn | ⟨a, ha, hn⟩
    · exact .inl (Scope.mem_superDefects.2 ⟨reference, hn, .inl ⟨hno, rfl⟩⟩)
    · exact .inr (Scope.mem_attributeDefects.2 ⟨a, ha, reference, hn, hno, rfl⟩)

end Refused

end Catalog

namespace Registry

/-- No defect is told that is not there, and no name that stands for nothing is passed over. The definitions that
take part are the first of each name that is new. -/
theorem refusal_justified (ops : List Operation) {batch : List Definition} {ds : List Defect}
    (h : (after ops).catalog.stage batch = .error ds) :
    (∀ d, d ∈ ((after ops).catalog.scope batch).accepted ↔
        (after ops).catalog.contains d.name = false ∧ batch.find? (fun e => e.name == d.name) = some d) ∧
      (∀ e ∈ ds, (after ops).catalog.Justifies batch e) ∧
      (∀ type reference, .unknownReference type reference ∈ ds ↔
        ((after ops).catalog.scope batch).Misses type reference) ∧
      ∀ type reference,
        .unknownReference type reference ∉ ((after ops).catalog.scope batch).resolveAll.defects := by
  have hi := (reachable_after ops).integrity
  refine ⟨fun d => Admission.mem_accepted_iff, fun e he => Catalog.justifies_of_mem hi h he,
    fun type reference => Catalog.unknownReference_mem_iff hi h, fun type reference he => ?_⟩
  obtain ⟨_, _, _, _, _, _, _, _, _, _, heq⟩ := Catalog.conflict_of_resolveAll hi he
  cases heq

def phaseAttribute : Attribute :=
  ⟨"phase", "map<Phase,Missing>", .optional, false, false, false, none, by decide, by decide, indexed_of_false⟩

/-- A table with a supertype that nobody defines, and with a map of which only one side is defined. -/
def ghostTable : Declaration :=
  ⟨.classType, "Table", NameSet.ofList ["Ghost"], [phaseAttribute], table_nonblank, by decide⟩

def draftPhase : Enumeration := ⟨"Phase", [⟨"DRAFT", 0⟩], by decide, by decide, by decide, by decide⟩

def finalPhase : Enumeration := ⟨"Phase", [⟨"FINAL", 0⟩], by decide, by decide, by decide, by decide⟩

def ghostBatch : List Definition := [.enumeration draftPhase, .enumeration finalPhase, .declaration ghostTable]

theorem not_resolves_ghostBatch {n : String} (hread : DataType.ofName n = .named n)
    (hn : ∀ d ∈ ghostBatch, d.name ≠ n) : ¬((after []).catalog.scope ghostBatch).Resolves n := by
  rw [← Scope.category?_eq_none_iff, ← Option.not_isSome_iff_eq_none, Scope.category?_isSome_iff_defines hread]
  intro h
  rcases h with h | ⟨d, hd, rfl⟩
  · exact Catalog.not_defines_empty h
  · exact hn d (List.mem_of_find?_eq_some (Admission.mem_accepted_iff.1 hd).2) rfl

theorem ghosts_are_told :
    ∃ ds, (after []).catalog.stage ghostBatch = .error ds ∧
      .unknownReference "Table" "Ghost" ∈ ds ∧ .unknownReference "Table" "Missing" ∈ ds ∧
      .unknownReference "Table" "Phase" ∉ ds ∧ ∀ e ∈ ds, (after []).catalog.Justifies ghostBatch e := by
  cases h : (after []).catalog.stage ghostBatch with
  | ok staged => exact absurd (Catalog.admitted_of_stage h).distinct (by decide)
  | error ds =>
    obtain ⟨haccepted, hjust, hmissing, -⟩ := refusal_justified [] h
    have htable : ghostTable ∈ ((after []).catalog.scope ghostBatch).declarations :=
      Scope.mem_declarations.2
        ((haccepted _).2 ⟨Catalog.contains_empty_eq_false (by decide) (by cbv), by decide⟩)
    have hphase : ((after []).catalog.scope ghostBatch).Resolves "Phase" :=
      .inl (.inr ⟨.enumeration draftPhase,
        (haccepted _).2 ⟨Catalog.contains_empty_eq_false (by decide) (by cbv), by decide⟩, rfl⟩)
    have hneeds : "Missing" ∈ phaseAttribute.dataType.references := by
      rw [show phaseAttribute.dataType.references = ["Phase", "Missing"] by cbv]
      exact List.mem_cons_of_mem _ (List.mem_singleton_self _)
    refine ⟨ds, rfl, (hmissing _ _).2 ⟨ghostTable, htable, rfl, .inl (by decide), ?_⟩,
      (hmissing _ _).2 ⟨ghostTable, htable, rfl, .inr ⟨_, List.mem_singleton_self _, hneeds⟩, ?_⟩,
      fun hm => ?_, hjust⟩
    · exact not_resolves_ghostBatch (by cbv) (by decide)
    · exact not_resolves_ghostBatch (by cbv) (by decide)
    · obtain ⟨-, -, -, -, hno⟩ := (hmissing _ _).1 hm
      exact hno hphase

end Registry

end TypeCatalog
