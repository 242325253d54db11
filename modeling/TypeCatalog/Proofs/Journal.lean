import Mathlib.Data.List.Lex
import Mathlib.Data.Set.List
import TypeCatalog.Journal
import TypeCatalog.Proofs.SortedMap
set_option autoImplicit false

namespace TypeCatalog.Journal

namespace Key

theorem length_digits (count n : Nat) : (digits count n).length = count := by
  fun_induction digits count n <;> simp_all

theorem lex_append {as bs : List Nat} (h : List.Lex (· < ·) as bs) (hl : as.length = bs.length)
    (cs ds : List Nat) : List.Lex (· < ·) (as ++ cs) (bs ++ ds) := by
  induction h with
  | nil => simp at hl
  | rel h => exact .rel h
  | cons _ ih => exact .cons (ih (by simpa using hl))

/-- The digits before the last decide, and the last one where these are the same. -/
theorem lex_digits {v w : Nat} (h : v < w) (count : Nat) :
    List.Lex (· < ·) (digits (count + 1) v) (digits (count + 1) w) := by
  induction count generalizing v w with
  | zero => exact .rel h
  | succ count ih =>
    rw [digits, digits]
    rcases Nat.lt_or_eq_of_le (Nat.div_le_div_right (c := 256) h.le) with hd | hd
    · exact lex_append (ih hd) (by simp [length_digits]) _ _
    · rw [hd]
      refine List.Lex.append_left _ (.rel ?_) _
      omega

theorem ofVersion_lt {v w : Nat} (h : v < w) : ofVersion v < ofVersion w := lex_digits h 7

theorem ofVersion_inj {v w : Nat} : ofVersion v = ofVersion w ↔ v = w := by
  refine ⟨fun h => ?_, congrArg ofVersion⟩
  rcases Nat.lt_trichotomy v w with hlt | heq | hgt
  · exact absurd (h ▸ ofVersion_lt hlt) (lt_irrefl _)
  · exact heq
  · exact absurd (h ▸ ofVersion_lt hgt) (lt_irrefl _)

end Key

variable {j : Journal} {bs : List Batch} {b : Batch}

/-- The batches that a journal holds, in the order of their keys, when it holds nothing else. -/
def Holds (j : Journal) (bs : List Batch) : Prop :=
  j.entries = bs.map fun b => (Key.ofVersion b.version, .batch b)

theorem holds_nil : Holds ∅ [] := rfl

theorem readEntries_batch (bs : List Batch) : readEntries (bs.map .batch) = .ok bs := by
  induction bs with
  | nil => rfl
  | cons b bs ih => simp [readEntries, ih, Except.map]

theorem Holds.batches (h : j.Holds bs) : j.batches = .ok bs := by
  rw [Journal.batches, SortedMap.values, h, List.map_map]
  exact readEntries_batch bs

theorem Holds.append (h : j.Holds bs) (hb : ∀ b' ∈ bs, b'.version < b.version) :
    (j.append b).Holds (bs ++ [b]) := by
  rw [Holds, Journal.append, SortedMap.entries_insert_of_forall_lt, h, List.map_append, List.map_singleton]
  rw [h]
  intro e he
  obtain ⟨b', hb', rfl⟩ := List.mem_map.1 he
  exact Key.ofVersion_lt (hb b' hb')

theorem Holds.mem_iff (h : j.Holds bs) :
    b ∈ bs ↔ j.get? (Key.ofVersion b.version) = some (.batch b) := by
  rw [SortedMap.get?_eq_some_iff, h, List.mem_map]
  refine ⟨fun hb => ⟨b, hb, rfl⟩, fun hx => ?_⟩
  obtain ⟨b', hb', heq⟩ := hx
  obtain rfl : b' = b := Entry.batch.inj (Prod.ext_iff.1 heq).2
  exact hb'

theorem Holds.exists_append (h : j.Holds bs) (b : Batch) :
    ∃ bs', (j.append b).Holds bs' ∧ ∀ b', b' ∈ bs' ↔ b' = b ∨ b' ∈ bs ∧ b'.version ≠ b.version := by
  obtain ⟨bs', hbs'⟩ : (j.append b).entries ∈
      Set.range (List.map fun b' : Batch => (Key.ofVersion b'.version, Entry.batch b')) := by
    rw [Set.range_list_map]
    intro e he
    rcases SortedMap.mem_place he with rfl | he
    · exact ⟨b, rfl⟩
    · rw [h] at he
      obtain ⟨b', -, rfl⟩ := List.mem_map.1 he
      exact ⟨b', rfl⟩
  have hholds : (j.append b).Holds bs' := hbs'.symm
  refine ⟨bs', hholds, fun b' => ?_⟩
  rw [hholds.mem_iff, h.mem_iff, Journal.append, SortedMap.get?_insert]
  by_cases hv : b'.version = b.version
  · simp [hv, eq_comm]
  · have hne : b' ≠ b := fun heq => hv (congrArg Batch.version heq)
    simp [Key.ofVersion_inj, hv, Ne.symm hv, hne]

theorem Holds.replay (h : j.Holds bs) : j.replay = bs.foldlM replayBatch Catalog.empty := by
  rw [Journal.replay, h.batches]
  rfl

theorem replayBatch_of_stage {c : Catalog} {batch : List Definition} {staged : Staged}
    (h : c.stage batch = .ok staged) (now : Nat) :
    replayBatch c ⟨c.version + 1, now, batch⟩ = .ok (c.commit staged now) := by
  simp [replayBatch, h]

theorem foldlM_replayBatch_concat {c₀ c c' : Catalog} (h : bs.foldlM replayBatch c₀ = .ok c)
    (hb : replayBatch c b = .ok c') : (bs ++ [b]).foldlM replayBatch c₀ = .ok c' := by
  rw [List.foldlM_append, h]
  simp only [List.foldlM_cons, List.foldlM_nil, bind_pure]
  exact hb

end TypeCatalog.Journal
