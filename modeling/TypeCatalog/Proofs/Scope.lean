import Mathlib.Order.WellFounded
import TypeCatalog.Registration.Staging
import TypeCatalog.Proofs.Cycles
import TypeCatalog.Proofs.Integrity
set_option autoImplicit false

/-!
What the names in a batch stand for. Main statements: nothing is refused exactly when the names are new
and different; a supertype is in order exactly when its kind is that of its subtype; each reference is
known exactly when something defines it; and along supertypes in the batch that are not blocked every way
ends.
-/

namespace TypeCatalog

theorem Kind.category_inj {k k' : Kind} : k.category = k'.category ↔ k = k' := by
  cases k <;> cases k' <;> simp [Kind.category]

theorem Kind.primitive_ne_category (k : Kind) : Category.primitive ≠ k.category := by
  cases k <;> simp [Kind.category]

theorem Kind.enumeration_ne_category (k : Kind) : Category.enumeration ≠ k.category := by
  cases k <;> simp [Kind.category]

namespace Admission

variable {c : Catalog}

structure Valid (c : Catalog) (a : Admission) : Prop where
  taken : ∀ n, n ∈ a.taken ↔ n ∈ a.accepted.map Definition.name
  distinct : (a.accepted.map Definition.name).Nodup
  free : ∀ d ∈ a.accepted, c.contains d.name = false

theorem Valid.add {a : Admission} (h : a.Valid c) (d : Definition) : (a.add c d).Valid c := by
  rw [Admission.add]
  split
  · exact ⟨h.taken, h.distinct, h.free⟩
  · next hd =>
    obtain ⟨hfree, hnew⟩ := not_or.1 hd
    rw [h.taken] at hnew
    refine ⟨fun n => ?_, ?_, ?_⟩
    · simp [h.taken, or_comm]
    · rw [List.map_append, List.nodup_append]
      exact ⟨h.distinct, by simp, by simpa using fun e he hn => hnew (List.mem_map.2 ⟨e, he, hn⟩)⟩
    · intro e he
      rcases List.mem_append.1 he with he | he
      · exact h.free e he
      · simpa [List.mem_singleton.1 he] using hfree

theorem ofBatch_concat (c : Catalog) (batch : List Definition) (d : Definition) :
    ofBatch c (batch ++ [d]) = (ofBatch c batch).add c d := by
  simp [ofBatch, List.foldl_append]

theorem valid_ofBatch (c : Catalog) (batch : List Definition) : (ofBatch c batch).Valid c := by
  induction batch using List.reverseRecOn with
  | nil => exact ⟨by simp [ofBatch], by simp [ofBatch], by simp [ofBatch]⟩
  | append_singleton batch d ih => exact ofBatch_concat c batch d ▸ ih.add d

theorem accepted_of_refused_eq_nil {batch : List Definition}
    (h : (ofBatch c batch).refused = []) : (ofBatch c batch).accepted = batch := by
  induction batch using List.reverseRecOn with
  | nil => rfl
  | append_singleton batch d ih =>
    rw [ofBatch_concat, Admission.add] at h ⊢
    split at h
    · simp at h
    · next hd => rw [if_neg hd, ih h]

theorem refused_eq_nil_iff {batch : List Definition} :
    (ofBatch c batch).refused = [] ↔
      (batch.map Definition.name).Nodup ∧ ∀ d ∈ batch, c.contains d.name = false := by
  constructor
  · intro h
    have hv := valid_ofBatch c batch
    rw [← accepted_of_refused_eq_nil h]
    exact ⟨hv.distinct, hv.free⟩
  · intro hx
    obtain ⟨hn, hf⟩ := hx
    induction batch using List.reverseRecOn with
    | nil => rfl
    | append_singleton batch d ih =>
      rw [List.map_append, List.nodup_append] at hn
      have hr := ih hn.1 fun e he => hf e (List.mem_append_left _ he)
      have hnew : d.name ∉ (ofBatch c batch).taken := by
        rw [(valid_ofBatch c batch).taken, accepted_of_refused_eq_nil hr]
        exact fun hm => hn.2.2 _ hm _ (by simp) rfl
      rw [ofBatch_concat, Admission.add, if_neg (by simp [hnew, hf d (by simp)]), hr]

end Admission

namespace Catalog

variable {c : Catalog} {n : String}

theorem ownCategory?_isSome_iff :
    (c.ownCategory? n).isSome ↔ c.Defines n ∨ (Primitive.ofName? n).isSome := by
  rw [Defines, mem_types, ownCategory?]
  cases h : c.type? n with
  | some r => simp
  | none =>
    simp only [reduceCtorEq, exists_false, false_or]
    split
    · next he => simp [he]
    · next he => split <;> simp_all

theorem category?_eq_kind_iff {k : Kind} :
    c.category? n = some k.category ↔ ∃ r, c.type? n = some r ∧ r.kind = k := by
  rw [category?, ownCategory?]
  cases h : c.type? n with
  | some r => simp [Resolved.category, Kind.category_inj]
  | none =>
    have hp := k.primitive_ne_category
    have he := k.enumeration_ne_category
    simp only [reduceCtorEq, false_and, exists_false, iff_false]
    repeat' split
    all_goals grind

theorem contains_iff :
    c.contains n = true ↔
      (c.ownCategory? n).isSome ∨ isKnownCollection (fun m => (c.ownCategory? m).isSome) n = true := by
  rw [contains, category?]
  cases c.ownCategory? n <;> simp

theorem not_mem_of_contains_eq_false (h : c.contains n = false) :
    c.type? n = none ∧ n ∉ c.enums ∧ Primitive.ofName? n = none := by
  have hown : ¬(c.ownCategory? n).isSome := fun hs => by simp [contains_iff.2 (.inl hs)] at h
  rw [ownCategory?_isSome_iff, Defines] at hown
  simp only [not_or] at hown
  exact ⟨SortedMap.not_mem_iff.1 hown.1.1, hown.1.2, by simpa using hown.2⟩

theorem contains_mono {c' : Catalog} (hd : ∀ m, c.Defines m → c'.Defines m) (h : c.contains n = true) :
    c'.contains n = true := by
  have hown : ∀ m, (c.ownCategory? m).isSome → (c'.ownCategory? m).isSome := fun m => by
    rw [ownCategory?_isSome_iff, ownCategory?_isSome_iff]
    exact Or.imp_left (hd m)
  rw [contains_iff] at h ⊢
  refine h.imp (hown n) fun hk => ?_
  rw [isKnownCollection, Bool.and_eq_true, List.all_eq_true] at hk ⊢
  exact ⟨hk.1, fun m hm => hown m (hk.2 m hm)⟩

theorem category?_isSome_iff_defines (h : DataType.ofName n = .named n) :
    (c.category? n).isSome ↔ c.Defines n := by
  have hown : (c.category? n).isSome ↔ (c.ownCategory? n).isSome := by
    rw [category?, isKnownCollection, h]
    cases c.ownCategory? n <;> simp [DataType.isCollection]
  rw [hown, ownCategory?_isSome_iff, DataType.not_primitive_of_named h]
  simp

end Catalog

namespace Scope

open Relation

variable {s : Scope} {d : Declaration} {n : String}

/-- A scope as it is made from a batch: its definitions have different names, all of them new. -/
structure Admitted (s : Scope) : Prop where
  distinct : (s.accepted.map Definition.name).Nodup
  free : ∀ d ∈ s.accepted, s.catalog.contains d.name = false

theorem admitted_scope (c : Catalog) (batch : List Definition) : (c.scope batch).Admitted :=
  ⟨(Admission.valid_ofBatch c batch).distinct, (Admission.valid_ofBatch c batch).free⟩

theorem mem_declarations : d ∈ s.declarations ↔ .declaration d ∈ s.accepted := by
  simp only [declarations, List.mem_filterMap]
  constructor
  · intro hx
    obtain ⟨e, he, h⟩ := hx
    cases e with
    | enumeration e => cases h
    | declaration d' => cases h; exact he
  · exact fun h => ⟨.declaration d, h, rfl⟩

theorem mem_enums {e : Enumeration} : e ∈ s.enums ↔ .enumeration e ∈ s.accepted := by
  simp only [enums, List.mem_filterMap]
  constructor
  · intro hx
    obtain ⟨e', he, h⟩ := hx
    cases e' with
    | enumeration e => cases h; exact he
    | declaration d' => cases h
  · exact fun h => ⟨.enumeration e, h, rfl⟩

theorem Admitted.eq_of_name (h : s.Admitted) {e f : Definition} (he : e ∈ s.accepted)
    (hf : f ∈ s.accepted) (hn : e.name = f.name) : e = f :=
  List.inj_on_of_nodup_map h.distinct he hf hn

theorem Admitted.free_declaration (h : s.Admitted) (hd : d ∈ s.declarations) :
    s.catalog.contains d.name = false := h.free (.declaration d) (mem_declarations.1 hd)

theorem Admitted.declarations_nodup (h : s.Admitted) :
    (s.declarations.map Declaration.name).Nodup := by
  have hp := List.pairwise_map.1 h.distinct
  refine List.pairwise_map.2 (List.pairwise_filterMap.2 (hp.imp ?_))
  intro e f hne d hd d' hd' heq
  cases e <;> cases f <;> simp_all [Definition.declaration?, Definition.name]

theorem name_of_declaration? (h : s.declaration? n = some d) : d.name = n := by
  simpa using List.find?_some h

theorem mem_of_declaration? (h : s.declaration? n = some d) : d ∈ s.declarations :=
  List.mem_of_find?_eq_some h

theorem Admitted.declaration?_eq_some_iff (h : s.Admitted) :
    s.declaration? n = some d ↔ d ∈ s.declarations ∧ d.name = n :=
  find?_eq_some_iff_of_nodup h.declarations_nodup

theorem Admitted.type?_of_declared (h : s.Admitted) (hd : s.declaration? n = some d) :
    s.catalog.type? n = none := by
  have hfree := h.free_declaration (mem_of_declaration? hd)
  rw [name_of_declaration? hd] at hfree
  exact (Catalog.not_mem_of_contains_eq_false hfree).1

theorem Admitted.declaration?_of_committed (h : s.Admitted) {r : Resolved}
    (hr : s.catalog.type? n = some r) : s.declaration? n = none := by
  cases hd : s.declaration? n with
  | none => rfl
  | some d => simp [h.type?_of_declared hd] at hr

theorem Admitted.exists_declaration_iff (h : s.Admitted) (hd : s.declaration? n = some d)
    {holds : Declaration → Prop} :
    (∃ e ∈ s.declarations, e.name = n ∧ holds e) ↔ holds d := by
  simp only [← and_assoc, ← h.declaration?_eq_some_iff, hd, Option.some.injEq, exists_eq_left']

theorem Admitted.not_exists_declaration (h : s.Admitted) {r : Resolved}
    (hr : s.catalog.type? n = some r) {holds : Declaration → Prop} :
    ¬∃ e ∈ s.declarations, e.name = n ∧ holds e := by
  simp only [← and_assoc, ← h.declaration?_eq_some_iff, h.declaration?_of_committed hr]
  simp

def HasKind (s : Scope) (n : String) (k : Kind) : Prop :=
  (∃ r, s.catalog.type? n = some r ∧ r.kind = k) ∨ ∃ d ∈ s.declarations, d.name = n ∧ d.kind = k

theorem Admitted.hasKind_of_declaration? (h : s.Admitted) (hd : s.declaration? n = some d) {k : Kind} :
    s.HasKind n k ↔ d.kind = k := by
  rw [HasKind, h.exists_declaration_iff hd]
  simp [h.type?_of_declared hd]

theorem Admitted.hasKind_of_committed (h : s.Admitted) {r : Resolved}
    (hr : s.catalog.type? n = some r) {k : Kind} : s.HasKind n k ↔ r.kind = k := by
  rw [HasKind, or_iff_left (h.not_exists_declaration hr)]
  simp [hr]

def Defines (s : Scope) (n : String) : Prop :=
  s.catalog.Defines n ∨ ∃ d ∈ s.accepted, d.name = n

theorem Admitted.batchCategory?_eq_kind_iff (h : s.Admitted) {k : Kind} :
    s.batchCategory? n = some k.category ↔ ∃ d ∈ s.declarations, d.name = n ∧ d.kind = k := by
  have hd : (∃ d ∈ s.declarations, d.name = n ∧ d.kind = k) ↔
      ∃ d, s.declaration? n = some d ∧ d.kind = k := by
    simp only [h.declaration?_eq_some_iff, and_assoc]
  rw [hd, batchCategory?]
  cases s.declaration? n with
  | some d => simp [Declaration.category, Kind.category_inj]
  | none =>
    have hne := k.enumeration_ne_category
    split <;> simp_all

theorem declaration?_isSome_iff :
    (s.declaration? n).isSome ↔ ∃ d, .declaration d ∈ s.accepted ∧ d.name = n := by
  simp [declaration?, mem_declarations]

theorem batchCategory?_isSome_iff :
    (s.batchCategory? n).isSome ↔ ∃ d ∈ s.accepted, d.name = n := by
  have he : s.enums.any (fun e => e.name == n) = true ↔
      ∃ e, .enumeration e ∈ s.accepted ∧ e.name = n := by simp [mem_enums]
  have hs : (s.batchCategory? n).isSome ↔
      (s.declaration? n).isSome ∨ s.enums.any (fun e => e.name == n) = true := by
    rw [batchCategory?]
    cases s.declaration? n with
    | some d => simp
    | none => split <;> simp_all
  rw [hs, he, declaration?_isSome_iff]
  constructor
  · intro h
    rcases h with ⟨d, hm, rfl⟩ | ⟨e, hm, rfl⟩
    · exact ⟨.declaration d, hm, rfl⟩
    · exact ⟨.enumeration e, hm, rfl⟩
  · intro h
    rcases h with ⟨e | d, hm, rfl⟩
    · exact .inr ⟨e, hm, rfl⟩
    · exact .inl ⟨d, hm, rfl⟩

theorem Admitted.category?_eq_kind_iff (h : s.Admitted) {k : Kind} :
    s.category? n = some k.category ↔ s.HasKind n k := by
  rw [HasKind, ← Catalog.category?_eq_kind_iff, ← h.batchCategory?_eq_kind_iff, category?]
  cases hc : s.catalog.category? n with
  | some category =>
    -- A name that the catalog knows is taken by nothing in the batch.
    have hb : s.batchCategory? n ≠ some k.category := by
      intro hb
      obtain ⟨d, hd, rfl, -⟩ := h.batchCategory?_eq_kind_iff.1 hb
      have := h.free_declaration hd
      simp [Catalog.contains, hc] at this
    simp [hb]
  | none =>
    have hp := k.primitive_ne_category
    cases s.batchCategory? n with
    | some category => simp
    | none =>
      dsimp only [Option.or]
      split <;> simp [hp]

theorem category?_isSome_iff_defines (hn : DataType.ofName n = .named n) :
    (s.category? n).isSome ↔ s.Defines n := by
  rw [Defines, ← Catalog.category?_isSome_iff_defines hn, ← batchCategory?_isSome_iff, category?]
  cases s.catalog.category? n with
  | some category => simp
  | none =>
    cases s.batchCategory? n with
    | some category => simp
    | none => simp [Catalog.isKnownCollection, hn, DataType.isCollection]

theorem Admitted.superDefects_eq_nil_iff (h : s.Admitted) :
    s.superDefects d = [] ↔ ∀ n ∈ d.supers, s.HasKind n d.kind := by
  simp only [superDefects, List.flatMap_eq_nil_iff, NameSet.mem_toList,
    ← h.category?_eq_kind_iff]
  refine forall₂_congr fun n _ => ?_
  cases s.category? n with
  | none => simp
  | some category =>
    dsimp only
    split <;> simp_all [Declaration.category]

theorem attributeDefects_eq_nil_iff :
    s.attributeDefects d = [] ↔
      ∀ a ∈ d.attributes, ∀ n ∈ a.dataType.references, s.Defines n := by
  simp only [attributeDefects, List.flatMap_eq_nil_iff, List.map_eq_nil_iff, List.filter_eq_nil_iff]
  refine forall₂_congr fun a _ => forall₂_congr fun n hn => ?_
  rw [← category?_isSome_iff_defines (DataType.ofName_of_mem_references hn)]
  simp [Option.isSome_iff_ne_none]

def Needs (s : Scope) (n m : String) : Prop :=
  ∃ d ∈ s.declarations, d.name = n ∧ m ∈ d.supers ∧ (s.declaration? m).isSome

theorem Admitted.needs_of_declaration? (h : s.Admitted) (hd : s.declaration? n = some d) {m : String} :
    s.Needs n m ↔ m ∈ d.supers ∧ (s.declaration? m).isSome := h.exists_declaration_iff hd

theorem Admitted.mem_edges (h : s.Admitted) {m : String} :
    m ∈ s.edges d ↔ m ∈ d.supers ∧ s.HasKind m d.kind ∧ (s.declaration? m).isSome := by
  rw [edges, List.mem_filter, NameSet.mem_toList, Bool.and_eq_true, decide_eq_true_iff,
    Declaration.category, h.category?_eq_kind_iff]

theorem Admitted.graph_edge_iff (h : s.Admitted) {m : String} :
    s.graph.Edge n m ↔ ∃ d ∈ s.declarations, d.name = n ∧ m ∈ s.edges d := by
  have hkeys : ((s.declarations.map fun d => (d.name, s.edges d)).map Prod.fst).Nodup := by
    rw [List.map_map]
    exact h.declarations_nodup
  simp only [Graph.Edge, graph, SortedMap.get?_ofList hkeys, List.mem_map, Prod.mk.injEq]
  constructor
  · intro hx
    obtain ⟨edges, ⟨d, hd, rfl, rfl⟩, hm⟩ := hx
    exact ⟨d, hd, rfl, hm⟩
  · intro hx
    obtain ⟨d, hd, rfl, hm⟩ := hx
    exact ⟨s.edges d, ⟨d, hd, rfl, rfl⟩, hm⟩

theorem Admitted.edge_of_super (h : s.Admitted) (hd : d ∈ s.declarations) {m : String} (hm : m ∈ d.supers)
    (hkind : s.HasKind m d.kind) (hdecl : (s.declaration? m).isSome) : s.graph.Edge d.name m :=
  h.graph_edge_iff.2 ⟨d, hd, rfl, h.mem_edges.2 ⟨hm, hkind, hdecl⟩⟩

theorem mem_blocked :
    n ∈ s.blocked ↔
      (∃ d ∈ s.declarations, d.name = n ∧ s.superDefects d ≠ []) ∨ ∃ path ∈ s.cycles, n ∈ path := by
  simp only [blocked, NameSet.mem_ofList, List.mem_append, List.mem_map, List.mem_filter,
    List.mem_flatten, Bool.not_eq_true', List.isEmpty_eq_false_iff]
  grind

theorem Admitted.super_hasKind (h : s.Admitted) (hd : s.declaration? n = some d)
    (hb : n ∉ s.blocked) : ∀ m ∈ d.supers, s.HasKind m d.kind := by
  obtain ⟨hm, rfl⟩ := h.declaration?_eq_some_iff.1 hd
  rw [← h.superDefects_eq_nil_iff]
  by_contra hne
  exact hb (mem_blocked.2 (.inl ⟨d, hm, rfl, hne⟩))

theorem Admitted.needs_of_edge (h : s.Admitted) {m : String} (he : s.graph.Edge n m) :
    s.Needs n m := by
  obtain ⟨d, hd, hn, hm⟩ := h.graph_edge_iff.1 he
  obtain ⟨hsuper, -, hdecl⟩ := h.mem_edges.1 hm
  exact ⟨d, hd, hn, hsuper, hdecl⟩

/-- A supertype in the batch that a declaration has to wait for. One that is blocked waits for none. -/
def WaitsFor (s : Scope) (n m : String) : Prop := s.Needs n m ∧ n ∉ s.blocked

/-- No declaration waits for ever: each cycle has an edge of the wrong kind, or one that closes a path
that is reported. -/
theorem Admitted.wellFounded_waitsFor (h : s.Admitted) : WellFounded (Function.swap s.WaitsFor) := by
  refine ⟨fun n => Subrelation.accessible ?_ (s.graph.acc_leads_cycles n)⟩
  intro m n hw
  obtain ⟨⟨d, hd, rfl, hm, hdecl⟩, hb⟩ := hw
  have hkind := h.super_hasKind (h.declaration?_eq_some_iff.2 ⟨hd, rfl⟩) hb m hm
  refine ⟨h.edge_of_super hd hm hkind hdecl, ?_⟩
  intro hcloses
  obtain ⟨way, hway⟩ := hcloses
  exact hb (mem_blocked.2 (.inr ⟨_, hway, by simp⟩))

theorem Admitted.not_waitsFor_itself (h : s.Admitted) : ¬TransGen s.WaitsFor n n := fun hn =>
  h.wellFounded_waitsFor.transGen.irrefl.irrefl n (transGen_swap.2 hn)

end Scope

end TypeCatalog
