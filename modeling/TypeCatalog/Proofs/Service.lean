import TypeCatalog.Service.Basic
import TypeCatalog.Proofs.Journal
set_option autoImplicit false

namespace TypeCatalog

/-- The journal of a registry tells how its catalog came about, version by version. -/
def Registry.Recorded (r : Registry) : Prop :=
  ∃ bs, r.journal.Holds bs ∧ bs.map Batch.version = List.range' 1 r.catalog.version ∧
    bs.foldlM Journal.replayBatch Catalog.empty = .ok r.catalog

namespace Registry

variable {r : Registry}

theorem recorded_empty : empty.Recorded := ⟨[], Journal.holds_nil, rfl, rfl⟩

theorem Recorded.restore (h : r.Recorded) : restore r.journal = .ok r := by
  obtain ⟨bs, hj, -, hr⟩ := h
  rw [Registry.restore, hj.replay, hr]
  rfl

/-- What is committed is recorded as the next version, so it is replayed last. -/
theorem Recorded.commit (h : r.Recorded) {batch : List Definition} {staged : Staged}
    (hst : r.catalog.stage batch = .ok staged) (now : Nat) :
    Recorded ⟨r.catalog.commit staged now,
      r.journal.append ⟨r.catalog.version + 1, now, batch⟩⟩ := by
  obtain ⟨bs, hj, hv, hr⟩ := h
  refine ⟨bs ++ [⟨r.catalog.version + 1, now, batch⟩], hj.append fun b hb => ?_, ?_, ?_⟩
  · have hmem : b.version ∈ List.range' 1 r.catalog.version := hv ▸ List.mem_map_of_mem hb
    have := List.mem_range'_1.1 hmem
    dsimp only
    omega
  · rw [List.map_append, hv, List.map_singleton, Catalog.commit, List.range'_1_concat, Nat.add_comm 1]
  · exact Journal.foldlM_replayBatch_concat hr (Journal.replayBatch_of_stage hst now)

theorem Recorded.persist (h : r.Recorded) (o : Occasion) (batch : List Definition) :
    ((persist o batch).on r).2.Recorded := by
  rw [on_persist]
  split
  · exact h
  · cases hst : r.catalog.stage batch with
    | error defects => exact h
    | ok staged =>
      dsimp only
      split
      · exact h.commit hst o.now
      · exact h

end Registry

namespace Service

variable {s : Service} {batch : List Definition}

theorem recorded_register (h : s.Recorded) (o : Occasion) (batch : List Definition) :
    ((register o batch).on s).2.Recorded := by
  rw [register, Action.on_adapt]
  exact h.persist o batch

theorem on_registerMissing (o : Occasion) (batch : List Definition) (s : Service) :
    (registerMissing o batch).on s = (register o (batch.filter fun d => !s.catalog.isCommitted d)).on s := by
  rw [registerMissing, Action.on_bind, Action.on_get]

theorem registerMissing_of_isCommitted (hc : ∀ d ∈ batch, s.catalog.isCommitted d = true) (o : Occasion) :
    (registerMissing o batch).on s = (.ok ∅, s) := by
  have hnone : batch.filter (fun d => !s.catalog.isCommitted d) = [] := by
    rw [List.filter_eq_nil_iff]
    intro d hd
    simp [hc d hd]
  rw [on_registerMissing, hnone]
  rfl

theorem recorded_registerMissing (h : s.Recorded) (o : Occasion) (batch : List Definition) :
    ((registerMissing o batch).on s).2.Recorded := by
  rw [on_registerMissing]
  exact recorded_register h o _

theorem recorded_load (h : s.Recorded) (o : Occasion) (files : Files) (path : String) :
    ((load o files path).on s).2.Recorded := by
  rw [load]
  cases files.text path with
  | error fault => exact h
  | ok text =>
    dsimp only
    cases definitionsOf text with
    | error fault => exact h
    | ok batch =>
      dsimp only
      rw [Action.on_adapt]
      exact recorded_registerMissing h o batch

/-- What can happen to a service. To reopen it is to begin again from its journal. -/
inductive Event where
  | register (o : Occasion) (batch : List Definition)
  | registerMissing (o : Occasion) (batch : List Definition)
  | load (o : Occasion) (files : Files) (path : String)
  | reopen

def next (s : Service) : Event → Except JournalFault Service
  | .register o batch => .ok ((register o batch).on s).2
  | .registerMissing o batch => .ok ((registerMissing o batch).on s).2
  | .load o files path => .ok ((load o files path).on s).2
  | .reopen => Registry.restore s.journal

def run (events : List Event) : Except JournalFault Service := do
  let s ← Registry.restore ∅
  events.foldlM next s

theorem run_eq (events : List Event) : run events = events.foldlM next Registry.empty := by
  rw [run, show Registry.restore ∅ = .ok Registry.empty from rfl]
  rfl

theorem exists_next (h : s.Recorded) (event : Event) : ∃ s', s.next event = .ok s' ∧ s'.Recorded := by
  cases event with
  | register o batch => exact ⟨_, rfl, recorded_register h o batch⟩
  | registerMissing o batch => exact ⟨_, rfl, recorded_registerMissing h o batch⟩
  | load o files path => exact ⟨_, rfl, recorded_load h o files path⟩
  | reopen => exact ⟨s, h.restore, h⟩

theorem exists_foldlM_next (h : s.Recorded) (events : List Event) :
    ∃ s', events.foldlM next s = .ok s' ∧ s'.Recorded := by
  induction events generalizing s with
  | nil => exact ⟨s, rfl, h⟩
  | cons event events ih =>
    obtain ⟨s', hs', h'⟩ := exists_next h event
    rw [List.foldlM_cons, hs']
    exact ih h'

/-- Whatever happens to a service, its journal has just the versions up to that of the catalog, and gives
the same catalog again. -/
theorem journal_refines_catalog (events : List Event) :
    ∃ s, run events = .ok s ∧
      (∃ bs, s.journal.batches = .ok bs ∧ bs.map Batch.version = List.range' 1 s.catalog.version) ∧
      Registry.restore s.journal = .ok s := by
  obtain ⟨s, hs, h⟩ := exists_foldlM_next Registry.recorded_empty events
  have hrestore := h.restore
  obtain ⟨bs, hj, hv, -⟩ := h
  exact ⟨s, (run_eq events).trans hs, ⟨bs, hj.batches, hv⟩, hrestore⟩

end Service

end TypeCatalog
