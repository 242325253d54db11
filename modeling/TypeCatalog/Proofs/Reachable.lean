import Mathlib
import TypeCatalog.Proofs.Registry
set_option autoImplicit false

namespace TypeCatalog

namespace Catalog

/-- To show something of all of them, it is enough that a commit keeps it. -/
inductive Reachable : Catalog → Prop
  | empty : Reachable .empty
  | commit {c : Catalog} {batch : List Definition} {staged : Staged} (h : Reachable c)
    (hst : c.stage batch = .ok staged) (now : Nat) : Reachable (c.commit staged now)

theorem Reachable.integrity {c : Catalog} (h : c.Reachable) : c.Integrity := by
  induction h with
  | empty => exact integrity_empty
  | commit _ hst _ ih => exact integrity_commit ih hst

/-- Every name is one that the empty catalog leaves free: neither a primitive nor a collection of such. -/
theorem Reachable.free {c : Catalog} (h : c.Reachable) {n : String} (hn : c.Defines n) :
    Catalog.empty.contains n = false := by
  induction h with
  | empty => exact absurd hn not_defines_empty
  | @commit c batch staged h hst now ih =>
    have hnew : ∀ d ∈ batch, Catalog.empty.contains d.name = false := fun d hd => by
      obtain ⟨hc, -⟩ := stage_eq_ok_iff.1 hst
      refine Bool.eq_false_iff.2 fun he => Bool.eq_false_iff.1 (hc.admitted.free d hd) ?_
      exact contains_mono (fun m hm => absurd hm not_defines_empty) he
    rcases hn with hn | hn
    · rcases (mem_types_commit h.integrity hst).1 hn with ⟨d, hd, rfl⟩ | hn
      · exact hnew _ hd
      · exact ih (.inl hn)
    · obtain ⟨e, he⟩ := mem_enums.1 hn
      rcases (enum?_commit hst).1 he with ⟨hd, rfl⟩ | he
      · exact hnew _ hd
      · exact ih (.inr (mem_enums.2 ⟨e, he⟩))

theorem Reachable.isBlank_eq_false {c : Catalog} (h : c.Reachable) {n : String} (hn : n ∈ c.types) :
    Text.isBlank n = false := by
  induction h with
  | empty => exact absurd hn (SortedMap.not_mem_empty n)
  | commit h hst now ih =>
    rcases (mem_types_commit h.integrity hst).1 hn with ⟨d, -, rfl⟩ | hn
    · exact d.name_nonblank
    · exact ih hn

theorem Reachable.reversible {c : Catalog} (h : c.Reachable) : Lookup.Reversible c.type? := by
  induction h with
  | empty => exact nofun
  | commit h hst _ ih => exact reversible_commit h.integrity ih hst

theorem Keeps.refl (c : Catalog) : c.Keeps c := ⟨fun _ _ h => h, fun _ _ h => h⟩

theorem Keeps.trans {c₁ c₂ c₃ : Catalog} (h : c₃.Keeps c₂) (h' : c₂.Keeps c₁) : c₃.Keeps c₁ where
  types n r hr := h.types n r (h'.types n r hr)
  enums n e he := h.enums n e (h'.enums n e he)

end Catalog

theorem Journal.reachable_foldlM {bs : List Batch} {c c' : Catalog} (hc : c.Reachable)
    (h : bs.foldlM replayBatch c = .ok c') : c'.Reachable := by
  induction bs generalizing c with
  | nil => exact Except.ok.inj h ▸ hc
  | cons b bs ih =>
    rw [List.foldlM_cons, replayBatch] at h
    split at h
    · split at h
      · next hst => exact ih (hc.commit hst b.createdAt) h
      · cases h
    · cases h

theorem Journal.reachable_of_replay {j : Journal} {c : Catalog} (h : j.replay = .ok c) : c.Reachable := by
  rw [Journal.replay] at h
  cases hb : j.batches with
  | error fault =>
    rw [hb] at h
    cases h
  | ok bs =>
    rw [hb] at h
    exact reachable_foldlM .empty h

namespace Registry

variable {r : Registry}

theorem Call.reachable (h : r.catalog.Reachable) (call : Call) : (call.action.on r).2.catalog.Reachable := by
  rcases call.on_cases r with ⟨-, hr⟩ | ⟨e, hr⟩ | ⟨staged, hst, hr⟩
  · rwa [hr]
  · rwa [hr]
  · rw [hr]
    exact h.commit hst call.now

theorem Call.keeps (h : r.catalog.Reachable) (call : Call) :
    (call.action.on r).2.catalog.Keeps r.catalog := by
  rcases call.on_cases r with ⟨-, hr⟩ | ⟨e, hr⟩ | ⟨staged, hst, hr⟩
  · rw [hr]
    exact .refl _
  · rw [hr]
    exact .refl _
  · rw [hr]
    exact Catalog.keeps_commit h.integrity hst

theorem reachable_step (h : r.catalog.Reachable) (op : Operation) : (r.step op).catalog.Reachable := by
  cases op with
  | call call => exact call.reachable h
  | restore j =>
    rw [step, restore]
    cases hj : j.replay with
    | error fault => exact h
    | ok c => exact Journal.reachable_of_replay hj

theorem reachable_after (ops : List Operation) : (after ops).catalog.Reachable :=
  after_induction (motive := fun r => r.catalog.Reachable) .empty (fun _ op h => reachable_step h op) ops

theorem after_append (ops ops' : List Operation) : after (ops ++ ops') = ops'.foldl step (after ops) :=
  List.foldl_append

theorem keeps_after_append (ops : List Operation) (calls : List Call) :
    (after (ops ++ calls.map .call)).catalog.Keeps (after ops).catalog := by
  induction calls using List.reverseRecOn with
  | nil =>
    rw [List.map_nil, List.append_nil]
    exact .refl _
  | append_singleton calls call ih =>
    rw [List.map_append, ← List.append_assoc, after_append]
    exact (call.keeps (reachable_after _)).trans ih

theorem on_register_of_clean {batch : List Definition} (hb : batch.isEmpty = false)
    (h : (⟨r.catalog, batch⟩ : Scope).Clean) (now : Nat) :
    (register now batch).on r = (.ok (⟨r.catalog, batch⟩ : Scope).staged.types,
      { r with catalog := (⟨r.catalog, batch⟩ : Scope).committed now }) := by
  rw [on_register, hb, Catalog.stage_eq_ok_iff.2 ⟨h, rfl⟩]
  rfl

theorem catalog_after_register (now : Nat) {batch : List Definition} (hb : batch.isEmpty = false)
    (h : (⟨.empty, batch⟩ : Scope).Clean) :
    (after [.call (.register now batch)]).catalog = (⟨.empty, batch⟩ : Scope).committed now := by
  rw [after, List.foldl_cons, List.foldl_nil, step, Call.action, on_register_of_clean (r := empty) hb h]
  rfl

theorem exists_attribute_after_register (now : Nat) {batch : List Definition} (hb : batch.isEmpty = false)
    (h : (⟨.empty, batch⟩ : Scope).Clean) {n m : String} {p : Attribute → Prop} [DecidablePred p]
    (hp : (((⟨.empty, batch⟩ : Scope).committed now).type? n).any (fun r =>
      (r.attribute? m).any fun a => decide (p a)) = true) :
    ∃ r a, (after [.call (.register now batch)]).catalog.type? n = some r ∧ r.attribute? m = some a ∧ p a := by
  rw [← catalog_after_register now hb h] at hp
  obtain ⟨r, hr, hp⟩ := (Option.any_eq_true _ _).1 hp
  obtain ⟨a, ha, hp⟩ := (Option.any_eq_true _ _).1 hp
  exact ⟨r, a, hr, ha, of_decide_eq_true hp⟩

section Sample

theorem indexed_of_false {indexed : Bool} (h : false = true) : indexed = true := absurd h Bool.false_ne_true

theorem table_nonblank : Text.isBlank "Table" = false := by decide

theorem no_supers_nonblank : (∅ : NameSet).toList.all (fun s => !Text.isBlank s) = true := rfl

/-- Tables are assets on two ways, and consist of tables. -/
def tableBatch : List Definition :=
  let parts : Attribute :=
    ⟨"parts", "array<Table>", .collection, true, false, false, none, by decide, by decide, indexed_of_false⟩
  let owner : Attribute :=
    ⟨"owner", "string", .required, false, false, false, none, by decide, by decide, indexed_of_false⟩
  let format : Attribute :=
    ⟨"format", "Format", .optional, false, false, false, none, by decide, by decide, indexed_of_false⟩
  [.declaration ⟨.classType, "Table", NameSet.ofList ["Asset", "Stored"], [parts], table_nonblank, by decide⟩,
    .declaration ⟨.classType, "Asset", ∅, [owner.asUnique], by decide, no_supers_nonblank⟩,
    .enumeration ⟨"Format", [⟨"CSV", 1⟩, ⟨"PARQUET", 2⟩], by decide, by decide, by decide, by decide⟩,
    .declaration ⟨.classType, "Stored", NameSet.ofList ["Asset"], [format], by decide, by decide⟩]

set_option maxRecDepth 20000 in
theorem clean_tableBatch : (⟨.empty, tableBatch⟩ : Scope).Clean := by
  refine ⟨⟨by decide, ?free⟩, ?supers, ?references, by cbv, by cbv, fun d hd => ?reverse⟩
  case reverse =>
    have hnone : ∀ d ∈ (⟨.empty, tableBatch⟩ : Scope).declarations, ∀ a ∈ d.attributes, a.reverse = none := by
      decide
    refine Declaration.reverseDefects_eq_nil_iff.2 fun a ha reverse hr => ?_
    cases (hnone d hd a ha).symm.trans hr
  -- Evaluation runs out of depth on all definitions at once, so each is evaluated on its own.
  all_goals
    simp only [tableBatch, Scope.declarations, List.filterMap_cons, Definition.declaration?,
      List.filterMap_nil, List.forall_mem_cons]
    refine ⟨by cbv, by cbv, by cbv, ?_⟩
  case free => exact ⟨by cbv, by simp⟩
  all_goals simp

end Sample

end Registry

end TypeCatalog
