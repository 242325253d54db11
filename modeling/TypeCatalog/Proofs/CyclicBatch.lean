import Mathlib
import TypeCatalog.Proofs.Acceptance
set_option autoImplicit false

/-!
What a batch with cycles is told of them. Main statement: when all else is in order, each way from a type over
supertypes back to it has an edge that closes a cycle which is told, and where no other cycle crosses it all of
its types are named. Where cycles cross, a type may be on one of them and be named by none.
-/

namespace TypeCatalog

open Relation

namespace Scope

variable {s : Scope}

def Ranked (s : Scope) : Prop := ∀ d ∈ s.declarations, ∀ n ∈ d.supers, s.HasKind n d.kind

theorem Admitted.edge_iff_needs (h : s.Admitted) (hk : s.Ranked) {n m : String} :
    s.graph.Edge n m ↔ s.Needs n m := by
  refine ⟨h.needs_of_edge, fun hx => ?_⟩
  obtain ⟨d, hd, rfl, hm, hdecl⟩ := hx
  exact h.edge_of_super hd hm (hk d hd m hm) hdecl

theorem Admitted.isChain_edge_iff (h : s.Admitted) (hk : s.Ranked) {way : List String} :
    way.IsChain s.graph.Edge ↔ way.IsChain s.Needs :=
  ⟨List.IsChain.imp fun _ _ => (h.edge_iff_needs hk).1, List.IsChain.imp fun _ _ => (h.edge_iff_needs hk).2⟩

end Scope

namespace Catalog

variable {c : Catalog} {batch : List Definition}

theorem exists_stage_error (c : Catalog) (batch : List Definition) {path : List String}
    (hp : path ∈ (c.scope batch).cycles) :
    ∃ ds, c.stage batch = .error ds ∧ ∀ path ∈ (c.scope batch).cycles, .cycle path ∈ ds := by
  rw [stage]
  split
  · next hempty =>
    have hnil := List.isEmpty_iff.1 hempty
    simp only [List.append_eq_nil_iff, List.map_eq_nil_iff] at hnil
    rw [hnil.1.1.2] at hp
    cases hp
  · refine ⟨_, rfl, fun path hp => ?_⟩
    simp only [List.mem_append]
    exact .inl (.inl (.inr (List.mem_map_of_mem hp)))

theorem cycle_shares_edge_with_told (hs : (⟨c, batch⟩ : Scope).Admitted) (hk : (⟨c, batch⟩ : Scope).Ranked)
    {u : String} {way : List String} (h : (u :: way ++ [u]).IsChain (⟨c, batch⟩ : Scope).Needs) :
    ∃ ds, c.stage batch = .error ds ∧
      (∃ before v w, [v, w] <:+: u :: way ++ [u] ∧ .cycle (before ++ [v, w]) ∈ ds) ∧
      ((∀ u' way', (u' :: way' ++ [u']).IsChain (⟨c, batch⟩ : Scope).Needs →
          (∃ n ∈ u :: way, n ∈ u' :: way') → ∀ n ∈ u :: way, n ∈ u' :: way') →
        ∃ path, .cycle path ∈ ds ∧ ∀ n ∈ u :: way, n ∈ path) := by
  have hscope := scope_of_refused_eq_nil (admitted_iff.1 hs)
  obtain ⟨v, w, hvw, before, hp⟩ := Graph.exists_closing_edge ((hs.isChain_edge_iff hk).2 h)
  obtain ⟨ds, hds, htold⟩ := exists_stage_error c batch (hscope ▸ hp)
  rw [hscope] at htold
  refine ⟨ds, hds, ⟨before, v, w, hvw, htold _ hp⟩, fun halone => ⟨_, htold _ hp, ?_⟩⟩
  obtain ⟨u', way', heq, -, hchain⟩ := Graph.isCycle_of_mem_cycles hp
  -- A way back ends where it begins, so all of it stands before its end.
  have hclosed : ∀ a as, v ∈ a :: as ++ [a] → v ∈ a :: as := by
    intro a as hm
    rcases List.mem_append.1 hm with hm | hm
    · exact hm
    · exact List.mem_singleton.1 hm ▸ List.mem_cons_self
  have hv : v ∈ u :: way := hclosed u way (hvw.subset (by simp))
  have hv' : v ∈ u' :: way' := hclosed u' way' (heq ▸ by simp)
  intro n hn
  rw [heq]
  rw [heq, hs.isChain_edge_iff hk] at hchain
  exact List.mem_append_left _ (halone u' way' hchain ⟨v, hv, hv'⟩ n hn)

section Sample

/-- Datasets and relations extend each other, and a view is on a longer way around. -/
def tangledBatch : List Definition :=
  [.declaration ⟨.classType, "Dataset", NameSet.ofList ["Relation", "View"], [], by decide, by decide⟩,
    .declaration ⟨.classType, "Relation", NameSet.ofList ["Dataset"], [], by decide, by decide⟩,
    .declaration ⟨.classType, "View", NameSet.ofList ["Relation"], [], by decide, by decide⟩]

theorem admitted_tangledBatch : (⟨.empty, tangledBatch⟩ : Scope).Admitted := by
  refine ⟨by decide, ?_⟩
  simp only [tangledBatch, List.forall_mem_cons]
  exact ⟨by cbv, by cbv, by cbv, by simp⟩

theorem ranked_tangledBatch : (⟨.empty, tangledBatch⟩ : Scope).Ranked := by
  refine fun d hd => admitted_tangledBatch.superDefects_eq_nil_iff.1 ?_
  revert d
  simp only [tangledBatch, Scope.declarations, List.filterMap_cons, Definition.declaration?,
    List.filterMap_nil, List.forall_mem_cons]
  exact ⟨by cbv, by cbv, by cbv, by simp⟩

theorem isChain_tangledBatch :
    ("View" :: ["Relation", "Dataset"] ++ ["View"]).IsChain (⟨.empty, tangledBatch⟩ : Scope).Needs := by
  simp only [List.cons_append, List.nil_append, List.isChain_cons_cons, List.isChain_singleton, Scope.Needs]
  decide

theorem tangle_told_of :
    (⟨.empty, tangledBatch⟩ : Scope).Admitted ∧ (⟨.empty, tangledBatch⟩ : Scope).Ranked ∧
      ("View" :: ["Relation", "Dataset"] ++ ["View"]).IsChain (⟨.empty, tangledBatch⟩ : Scope).Needs ∧
      ∃ ds, Catalog.empty.stage tangledBatch = .error ds ∧ ∃ before v w,
        [v, w] <:+: "View" :: ["Relation", "Dataset"] ++ ["View"] ∧ .cycle (before ++ [v, w]) ∈ ds := by
  obtain ⟨ds, hds, htold, -⟩ :=
    cycle_shares_edge_with_told admitted_tangledBatch ranked_tangledBatch isChain_tangledBatch
  exact ⟨admitted_tangledBatch, ranked_tangledBatch, isChain_tangledBatch, ds, hds, htold⟩

theorem cycles_tangledBatch :
    (⟨.empty, tangledBatch⟩ : Scope).cycles = [["Dataset", "Relation", "Dataset"]] := by
  cbv

theorem defects_tangledBatch : (⟨.empty, tangledBatch⟩ : Scope).resolveAll.defects = [] := by
  cbv

theorem stage_tangledBatch :
    Catalog.empty.stage tangledBatch = .error [.cycle ["Dataset", "Relation", "Dataset"]] := by
  have hrefused := admitted_iff.1 admitted_tangledBatch
  have hreferences : (⟨.empty, tangledBatch⟩ : Scope).declarations.flatMap
      (⟨.empty, tangledBatch⟩ : Scope).referenceDefects = [] := by
    cbv
  rw [stage, scope_of_refused_eq_nil hrefused]
  simp only [hrefused, hreferences, cycles_tangledBatch, defects_tangledBatch]
  rfl

theorem view_not_named :
    (⟨.empty, tangledBatch⟩ : Scope).Admitted ∧ (⟨.empty, tangledBatch⟩ : Scope).Ranked ∧
      TransGen (⟨.empty, tangledBatch⟩ : Scope).Needs "View" "View" ∧
      ∃ ds, Catalog.empty.stage tangledBatch = .error ds ∧ ∀ path, .cycle path ∈ ds → "View" ∉ path := by
  refine ⟨admitted_tangledBatch, ranked_tangledBatch, Graph.transGen_of_isChain isChain_tangledBatch, _,
    stage_tangledBatch, fun path hp => ?_⟩
  obtain rfl : path = ["Dataset", "Relation", "Dataset"] := by simpa using hp
  decide

end Sample

end Catalog

end TypeCatalog
