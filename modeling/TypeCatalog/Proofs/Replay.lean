import TypeCatalog.Proofs.Document
import TypeCatalog.Proofs.SharedJournal
set_option autoImplicit false

/-!
Which journals can be replayed. Main statement: of whatever batches were appended, in whatever order and as
whatever versions, a registry is restored exactly when the versions that are left go from the first on without
a gap, and each batch is free of defects behind those before it. The registry then has just what these batches
define; in all other cases the journal is told to be corrupt.
-/

namespace TypeCatalog

/-- Batches that are committed on a catalog one after the other, whatever versions they are recorded as. -/
inductive Catalog.Builds : Catalog → List Batch → Catalog → Prop
  | nil (c : Catalog) : Builds c [] c
  | cons {c c' : Catalog} {b : Batch} {bs : List Batch} {staged : Staged}
    (hst : c.stage b.definitions = .ok staged) (h : Builds (c.commit staged b.createdAt) bs c') :
    Builds c (b :: bs) c'

namespace Catalog.Builds

variable {c c' : Catalog} {bs : List Batch} {n : String}

theorem version (h : c.Builds bs c') : c'.version = c.version + bs.length := by
  induction h with
  | nil => rfl
  | @cons c c' b bs staged _ _ ih =>
    have hcommit : (c.commit staged b.createdAt).version = c.version + 1 := rfl
    rw [ih, hcommit, List.length_cons]
    omega

theorem createdAt (h : c.Builds bs c') :
    c'.createdAt = (bs.getLast?.map Batch.createdAt).getD c.createdAt := by
  induction h with
  | nil => rfl
  | @cons c c' b bs staged _ _ ih =>
    rw [ih, List.getLast?_cons]
    cases bs.getLast? <;> rfl

theorem mem_typeNames_iff (h : c.Builds bs c') (hi : c.Integrity) :
    n ∈ c'.typeNames ↔
      (∃ b ∈ bs, ∃ d, .declaration d ∈ b.definitions ∧ d.name = n) ∨ n ∈ c.typeNames := by
  induction h with
  | nil => simp
  | cons hst _ ih =>
    rw [ih (integrity_commit hi hst), typeNames, SortedMap.mem_keys, mem_types_commit hi hst, typeNames,
      SortedMap.mem_keys]
    rw [List.exists_mem_cons_iff]
    exact or_left_comm.trans or_assoc.symm

theorem mem_enumNames_iff (h : c.Builds bs c') :
    n ∈ c'.enumNames ↔
      (∃ b ∈ bs, ∃ e, .enumeration e ∈ b.definitions ∧ e.name = n) ∨ n ∈ c.enumNames := by
  induction h with
  | nil => simp
  | cons hst _ ih =>
    rw [ih, enumNames, SortedMap.mem_keys, mem_enums, enumNames, SortedMap.mem_keys, mem_enums]
    simp only [enum?_commit hst, exists_or, List.exists_mem_cons_iff]
    exact or_left_comm.trans or_assoc.symm

end Catalog.Builds

namespace Journal

variable {j : Journal} {bs : List Batch} {b : Batch} {c c' : Catalog}

theorem replayBatch_eq_ok_iff :
    replayBatch c b = .ok c' ↔ b.version = c.version + 1 ∧
      ∃ staged, c.stage b.definitions = .ok staged ∧ c.commit staged b.createdAt = c' := by
  rw [replayBatch]
  split
  · next hv => cases c.stage b.definitions <;> simp [hv]
  · next hv => simp [hv]

/-- By induction on the batches, from whatever has been replayed before. -/
theorem foldlM_replayBatch_eq_ok_iff :
    bs.foldlM replayBatch c = .ok c' ↔
      bs.map Batch.version = List.range' (c.version + 1) bs.length ∧ c.Builds bs c' := by
  induction bs generalizing c with
  | nil =>
    constructor
    · intro h
      obtain rfl := Except.ok.inj h
      exact ⟨rfl, .nil c⟩
    · intro h
      obtain ⟨-, ⟨⟩⟩ := h
      rfl
  | cons b bs ih =>
    rw [List.foldlM_cons, bind_eq_ok_iff, List.map_cons, List.length_cons, List.range'_succ, List.cons.injEq]
    constructor
    · intro h
      obtain ⟨c₁, hb, hbs⟩ := h
      obtain ⟨hv, staged, hst, rfl⟩ := replayBatch_eq_ok_iff.1 hb
      obtain ⟨hvs, hbuilds⟩ := ih.1 hbs
      exact ⟨⟨hv, hvs⟩, .cons hst hbuilds⟩
    · intro h
      obtain ⟨⟨hv, hvs⟩, hbuilds⟩ := h
      cases hbuilds with
      | cons hst hbuilds => exact ⟨_, replayBatch_eq_ok_iff.2 ⟨hv, _, hst, rfl⟩, ih.2 ⟨hvs, hbuilds⟩⟩

theorem corrupt_of_replayBatch {fault : JournalFault} (h : replayBatch c b = .error fault) :
    ∃ text, fault.message? = some ("type store corrupt: " ++ text) := by
  rw [replayBatch] at h
  split at h
  · split at h
    · cases h
    · obtain rfl := Except.error.inj h
      exact ⟨_, rfl⟩
  · obtain rfl := Except.error.inj h
    refine ⟨"expected batch version " ++ (toString (c.version + 1) ++ (", found " ++ toString b.version)), ?_⟩
    rw [JournalFault.message?, ← String.append_assoc, String.append_assoc, String.append_assoc]
    rfl

theorem corrupt_of_foldlM {fault : JournalFault} (h : bs.foldlM replayBatch c = .error fault) :
    ∃ text, fault.message? = some ("type store corrupt: " ++ text) := by
  induction bs generalizing c with
  | nil => cases h
  | cons b bs ih =>
    rw [List.foldlM_cons] at h
    cases hb : replayBatch c b with
    | error fault' =>
      rw [hb] at h
      obtain rfl := Except.error.inj h
      exact corrupt_of_replayBatch hb
    | ok c' =>
      rw [hb] at h
      exact ih h

theorem Key.foldl_digits (count version : Nat) :
    (Key.digits (count + 1) version).foldl (fun n b => n * 256 + b) 0 = version := by
  induction count generalizing version with
  | zero => simp [Key.digits]
  | succ count ih =>
    rw [Key.digits, List.foldl_append, ih]
    exact Nat.div_add_mod' version 256

theorem Key.version?_ofVersion (version : Nat) : (Key.ofVersion version).version? = some version := by
  rw [Key.version?, Key.ofVersion, if_pos (Key.length_digits 8 version), Key.foldl_digits]

theorem Holds.pairwise_version (h : j.Holds bs) : (bs.map Batch.version).Pairwise (· < ·) := by
  have hkeys := j.keys_ascending
  rw [SortedMap.keys, h, List.map_map, List.pairwise_map] at hkeys
  refine List.pairwise_map.2 (hkeys.imp fun {a b} hab => ?_)
  change Key.ofVersion a.version < Key.ofVersion b.version at hab
  by_contra hnot
  rcases Nat.lt_or_eq_of_le (Nat.le_of_not_lt hnot) with hlt | heq
  · exact Key.lt_asymm hab (Key.ofVersion_lt hlt)
  · exact Key.lt_irrefl _ (heq ▸ hab)

theorem Holds.latestVersion (h : j.Holds bs) :
    j.latestVersion = .ok ((bs.map Batch.version).getLast?.getD 0) := by
  have hkeys : j.keys = bs.map fun b => Key.ofVersion b.version := by
    rw [SortedMap.keys, h, List.map_map]
    rfl
  rw [Journal.latestVersion, hkeys, List.getLast?_map, List.getLast?_map]
  cases bs.getLast? with
  | none => rfl
  | some b => simp [Key.version?_ofVersion]

end Journal

namespace Registry

structure RestoredFrom (r : Registry) (bs : List Batch) : Prop where
  built : Catalog.empty.Builds bs r.catalog
  version : r.catalog.version = bs.length
  latest : r.journal.latestVersion = .ok bs.length
  createdAt : r.catalog.createdAt = (bs.getLast?.map Batch.createdAt).getD 0
  typeNames : ∀ n, n ∈ r.catalog.typeNames ↔ ∃ b ∈ bs, ∃ d, .declaration d ∈ b.definitions ∧ d.name = n
  enumNames : ∀ n, n ∈ r.catalog.enumNames ↔ ∃ b ∈ bs, ∃ e, .enumeration e ∈ b.definitions ∧ e.name = n

variable {j : Journal} {bs : List Batch} {r : Registry}

theorem restore_eq_ok_iff (h : j.Holds bs) :
    restore j = .ok r ↔
      (bs.map Batch.version = List.range' 1 bs.length ∧ Catalog.empty.Builds bs r.catalog) ∧ r.journal = j := by
  rw [restore, h.replay, show List.range' 1 bs.length = List.range' (Catalog.empty.version + 1) bs.length from rfl,
    ← Journal.foldlM_replayBatch_eq_ok_iff]
  obtain ⟨c, j'⟩ := r
  cases bs.foldlM Journal.replayBatch Catalog.empty with
  | error fault => simp [Except.map]
  | ok c' => simp [Except.map, eq_comm]

theorem restoredFrom_of_restore (h : j.Holds bs) (hr : restore j = .ok r) : r.RestoredFrom bs := by
  obtain ⟨⟨hv, hb⟩, rfl⟩ := (restore_eq_ok_iff h).1 hr
  refine ⟨hb, by rw [hb.version, Catalog.empty, Nat.zero_add], ?latest, hb.createdAt, fun n => ?types,
    fun n => ?enums⟩
  case latest =>
    rw [h.latestVersion, hv]
    cases bs.length <;> simp [List.getLast?_range']
  case types => exact (hb.mem_typeNames_iff Catalog.integrity_empty).trans (or_iff_left List.not_mem_nil)
  case enums => exact hb.mem_enumNames_iff.trans (or_iff_left List.not_mem_nil)

theorem corrupt_of_not_restored (h : j.Holds bs) (hr : ¬∃ r, restore j = .ok r) :
    ∃ fault text, restore j = .error fault ∧ fault.message? = some ("type store corrupt: " ++ text) := by
  rw [restore, h.replay] at hr ⊢
  cases hf : bs.foldlM Journal.replayBatch Catalog.empty with
  | error fault =>
    obtain ⟨text, htext⟩ := Journal.corrupt_of_foldlM hf
    exact ⟨fault, text, rfl, htext⟩
  | ok c =>
    rw [hf] at hr
    exact absurd ⟨_, rfl⟩ hr

theorem restored_iff_contiguous (appended : List Batch) :
    ∃ bs, (appended.foldl Journal.append ∅).batches = .ok bs ∧ (∀ b, b ∈ bs ↔ b.IsLast appended) ∧
      (bs.map Batch.version).Pairwise (· < ·) ∧
      ((∃ r, restore (appended.foldl Journal.append ∅) = .ok r) ↔
        (∃ n, bs.map Batch.version = List.range' 1 n) ∧ ∃ c, Catalog.empty.Builds bs c) ∧
      (∀ r, restore (appended.foldl Journal.append ∅) = .ok r → r.RestoredFrom bs) ∧
      ((¬∃ r, restore (appended.foldl Journal.append ∅) = .ok r) →
        ∃ fault text, restore (appended.foldl Journal.append ∅) = .error fault ∧
          fault.message? = some ("type store corrupt: " ++ text)) := by
  obtain ⟨bs, hj, hlast⟩ := Journal.exists_holds_foldl_append appended
  refine ⟨bs, hj.batches, hlast, hj.pairwise_version, ?_, fun r => restoredFrom_of_restore hj,
    corrupt_of_not_restored hj⟩
  constructor
  · intro hx
    obtain ⟨r, hr⟩ := hx
    obtain ⟨⟨hv, hb⟩, -⟩ := (restore_eq_ok_iff hj).1 hr
    exact ⟨⟨bs.length, hv⟩, r.catalog, hb⟩
  · intro hx
    obtain ⟨⟨n, hv⟩, c, hb⟩ := hx
    have hn : bs.length = n := by simpa using congrArg List.length hv
    exact ⟨⟨c, _⟩, (restore_eq_ok_iff hj).2 ⟨⟨hn ▸ hv, hb⟩, rfl⟩⟩

end Registry

end TypeCatalog
