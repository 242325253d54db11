import TypeCatalog.Proofs.Extension
set_option autoImplicit false

/-!
A journal that several registries write. Each of them takes the version of what it records from its own
catalog, and a batch takes the place of one that has its version. Main statement: whatever the registries do,
in whatever order, a batch that was recorded stays in the journal just as long as nothing else is recorded as
its version, which a registry does whose catalog is of the version before.
-/

namespace TypeCatalog

def Batch.IsLast (b : Batch) (bs : List Batch) : Prop :=
  ∃ earlier later, bs = earlier ++ b :: later ∧ ∀ b' ∈ later, b'.version ≠ b.version

namespace Batch

variable {b c : Batch} {bs : List Batch}

theorem not_isLast_nil : ¬b.IsLast [] := by simp [IsLast]

theorem isLast_concat : b.IsLast (bs ++ [c]) ↔ b = c ∨ b.IsLast bs ∧ b.version ≠ c.version := by
  constructor
  · intro hx
    obtain ⟨earlier, later, heq, hv⟩ := hx
    rcases List.eq_nil_or_concat later with rfl | ⟨later, d, rfl⟩
    · exact .inl (by simpa using (List.append_inj' heq rfl).2.symm)
    · rw [List.concat_eq_append, ← List.cons_append, ← List.append_assoc] at heq
      obtain ⟨rfl, hd⟩ := List.append_inj' heq rfl
      obtain rfl : c = d := by simpa using hd
      exact .inr ⟨⟨earlier, later, rfl, fun b' hb' => hv b' (by simp [hb'])⟩, (hv c (by simp)).symm⟩
  · intro hx
    rcases hx with rfl | ⟨⟨earlier, later, rfl, hv⟩, hne⟩
    · exact ⟨bs, [], rfl, by simp⟩
    · refine ⟨earlier, later ++ [c], by simp, fun b' hb' => ?_⟩
      rcases List.mem_append.1 hb' with hb' | hb'
      · exact hv b' hb'
      · rw [List.mem_singleton.1 hb']
        exact hne.symm

theorem isLast_append (earlier : List Batch) {later : List Batch}
    (h : ∀ b' ∈ later, b'.version = b.version → b' = b) : b.IsLast (earlier ++ b :: later) := by
  induction later using List.reverseRecOn with
  | nil => exact isLast_concat.2 (.inl rfl)
  | append_singleton later c ih =>
    rw [← List.cons_append, ← List.append_assoc, isLast_concat]
    by_cases hc : c.version = b.version
    · exact .inl (h c (by simp) hc).symm
    · exact .inr ⟨ih fun b' hb' => h b' (by simp [hb']), Ne.symm hc⟩

end Batch

theorem Journal.exists_holds_foldl_append (bs : List Batch) :
    ∃ bs', (bs.foldl Journal.append ∅).Holds bs' ∧ ∀ b, b ∈ bs' ↔ b.IsLast bs := by
  induction bs using List.reverseRecOn with
  | nil => exact ⟨[], Journal.holds_nil, fun b => by simp [Batch.not_isLast_nil]⟩
  | append_singleton bs c ih =>
    obtain ⟨bs', hj, hmem⟩ := ih
    obtain ⟨bs'', hj', hmem'⟩ := hj.exists_append c
    rw [List.foldl_append]
    refine ⟨bs'', hj', fun b => ?_⟩
    rw [hmem', hmem, Batch.isLast_concat]

structure SharedJournal where
  journal : Journal
  catalogs : List Catalog

namespace SharedJournal

inductive Event where
  | start
  | restore
  | call (writer : Nat) (call : Registry.Call)

def next (s : SharedJournal) : Event → SharedJournal
  | .start => { s with catalogs := s.catalogs ++ [.empty] }
  | .restore =>
    match s.journal.replay with
    | .ok c => { s with catalogs := s.catalogs ++ [c] }
    | .error _ => s
  | .call writer call =>
    match s.catalogs[writer]? with
    | none => s
    | some c =>
      let r := (call.action.on ⟨c, s.journal⟩).2
      ⟨r.journal, s.catalogs.set writer r.catalog⟩

def recorded (s : SharedJournal) : Event → List Batch
  | .start | .restore => []
  | .call writer call =>
    match s.catalogs[writer]? with
    | none => []
    | some c =>
      match (call.action.on ⟨c, s.journal⟩).1 with
      | .error _ => []
      | .ok _ => if call.batch.isEmpty then [] else call.recorded (c.version + 1)

/-- All that was recorded, in the order of the calls, whether or not it is still there. -/
def history (s : SharedJournal) : List Event → List Batch
  | [] => []
  | e :: es => s.recorded e ++ history (s.next e) es

def after (es : List Event) : SharedJournal := es.foldl next ⟨∅, []⟩

def Keeps (s : SharedJournal) (b : Batch) : Prop := ∃ bs, s.journal.batches = .ok bs ∧ b ∈ bs

variable {s : SharedJournal} {b : Batch} {e : Event} {es : List Event}

/-- The registries share nothing but the journal, so an event is known by what it records. -/
theorem journal_next (s : SharedJournal) (e : Event) :
    (s.next e).journal = (s.recorded e).foldl Journal.append s.journal := by
  cases e with
  | start => rfl
  | restore =>
    rw [next]
    split <;> rfl
  | call writer call =>
    rw [next, recorded]
    cases s.catalogs[writer]? with
    | none => rfl
    | some c =>
      dsimp only
      by_cases hb : call.batch = []
      · simp [Registry.Call.on_of_batch_eq_nil hb, hb]
      rcases call.on_cases ⟨c, s.journal⟩ with ⟨h, -⟩ | ⟨e, h⟩ | ⟨staged, -, h⟩
      · exact absurd h hb
      · simp [h]
      · simp [h, hb, Registry.Call.committed]

theorem journal_foldl_next (s : SharedJournal) (es : List Event) :
    (es.foldl next s).journal = (s.history es).foldl Journal.append s.journal := by
  induction es generalizing s with
  | nil => rfl
  | cons e es ih => rw [List.foldl_cons, ih, journal_next, history, List.foldl_append]

theorem history_append (s : SharedJournal) (es es' : List Event) :
    s.history (es ++ es') = s.history es ++ (es.foldl next s).history es' := by
  induction es generalizing s with
  | nil => rfl
  | cons e es ih => rw [List.cons_append, history, history, ih, List.append_assoc, List.foldl_cons]

theorem keeps_after_iff : (after es).Keeps b ↔ b.IsLast (history ⟨∅, []⟩ es) := by
  obtain ⟨bs, hj, hmem⟩ := Journal.exists_holds_foldl_append (history ⟨∅, []⟩ es)
  rw [← journal_foldl_next ⟨∅, []⟩] at hj
  rw [← hmem, Keeps, after, hj.batches]
  simp

theorem recorded_eq_singleton (h : b ∈ s.recorded e) : s.recorded e = [b] := by
  cases e with
  | start => cases h
  | restore => cases h
  | call writer call =>
    revert h
    rw [recorded]
    cases s.catalogs[writer]? with
    | none => exact nofun
    | some c =>
      dsimp only
      cases (call.action.on ⟨c, s.journal⟩).1 with
      | error refusal => exact nofun
      | ok types =>
        dsimp only
        split
        · exact nofun
        · exact Registry.Call.recorded_eq_singleton

theorem exists_prefix_of_mem_history (h : b ∈ s.history es) :
    ∃ now, now <+: es ∧ ∃ bs, s.history now = bs ++ [b] := by
  induction es generalizing s with
  | nil => cases h
  | cons e es ih =>
    rcases List.mem_append.1 h with h | h
    · refine ⟨[e], by simp, [], ?_⟩
      rw [history, recorded_eq_singleton h]
      rfl
    · obtain ⟨now, hnow, bs, hbs⟩ := ih h
      exact ⟨e :: now, by simpa using hnow, s.recorded e ++ bs, by rw [history, hbs, List.append_assoc]⟩

theorem stays_iff_version_not_taken {past : List Event} (h : b ∈ (after past).recorded e)
    (later : List Event) :
    (∀ now, now <+: later → (after (past ++ e :: now)).Keeps b) ↔
      ∀ b' ∈ (after (past ++ [e])).history later, b'.version = b.version → b' = b := by
  have hhistory : ∀ now, history ⟨∅, []⟩ (past ++ e :: now) =
      history ⟨∅, []⟩ past ++ b :: (after (past ++ [e])).history now := by
    intro now
    rw [history_append, history, ← after, recorded_eq_singleton h]
    simp [after, List.foldl_append]
  constructor
  · intro hkeeps b' hb' hv
    obtain ⟨now, hnow, bs, hbs⟩ := exists_prefix_of_mem_history hb'
    have hlast := keeps_after_iff.1 (hkeeps now hnow)
    rw [hhistory, hbs, ← List.cons_append, ← List.append_assoc, Batch.isLast_concat] at hlast
    rcases hlast with heq | ⟨-, hne⟩
    · exact heq.symm
    · exact absurd hv.symm hne
  · intro hno now hnow
    rw [keeps_after_iff, hhistory]
    refine Batch.isLast_append _ fun b' hb' => hno b' ?_
    obtain ⟨rest, rfl⟩ := hnow
    rw [history_append]
    exact List.mem_append_left _ hb'

section Sample

variable {c : Catalog} {staged : Staged}

theorem call_accepted (s : SharedJournal) (writer : Nat) (call : Registry.Call)
    (hc : s.catalogs[writer]? = some c) (hw : call.writable = true) (hb : call.batch ≠ [])
    (hst : c.stage call.batch = .ok staged) :
    s.recorded (.call writer call) = call.recorded (c.version + 1) ∧
      (s.next (.call writer call)).catalogs = s.catalogs.set writer (c.commit staged call.now) := by
  have hon := Registry.Call.on_of_stage (r := ⟨c, s.journal⟩) hw hb hst
  simp [recorded, next, hc, hon, hb, Registry.Call.committed]

open Registry (codecBatch archiveBatch clean_codecBatch clean_archiveBatch)

theorem stage_codecBatch :
    Catalog.empty.stage codecBatch = .ok (⟨.empty, codecBatch⟩ : Scope).staged :=
  Catalog.stage_eq_ok_iff.2 ⟨clean_codecBatch, rfl⟩

/-- A registry that is restored goes on behind what it has seen. -/
theorem codec_stays_beside_archive :
    ⟨1, 0, codecBatch⟩ ∈ (after [.start]).recorded (.call 0 (.persist ⟨0, true⟩ codecBatch)) ∧
      ∀ now, now <+: [.restore, .call 1 (.persist ⟨1, true⟩ archiveBatch)] →
        (after ([.start] ++ .call 0 (.persist ⟨0, true⟩ codecBatch) :: now)).Keeps ⟨1, 0, codecBatch⟩ := by
  obtain ⟨hfirst, hcatalogs⟩ := call_accepted (after [.start]) 0 (.persist ⟨0, true⟩ codecBatch) rfl rfl
    (List.cons_ne_nil _ _) stage_codecBatch
  let s := (after [.start]).next (.call 0 (.persist ⟨0, true⟩ codecBatch))
  have hreplay : s.journal.replay = .ok ((⟨.empty, codecBatch⟩ : Scope).committed 0) := by
    have hj : s.journal.Holds [⟨1, 0, codecBatch⟩] := by
      rw [journal_next, hfirst]
      exact Journal.holds_nil.append nofun
    have hb : Journal.replayBatch .empty ⟨1, 0, codecBatch⟩ =
        .ok ((⟨.empty, codecBatch⟩ : Scope).committed 0) := Journal.replayBatch_of_stage stage_codecBatch 0
    rw [hj.replay, List.foldlM_cons, hb]
    rfl
  have hrestored : (s.next .restore).catalogs[1]? = some ((⟨.empty, codecBatch⟩ : Scope).committed 0) := by
    rw [next, hreplay]
    dsimp only
    rw [hcatalogs]
    rfl
  have hsecond := (call_accepted (s.next .restore) 1 (.persist ⟨1, true⟩ archiveBatch) hrestored rfl
    (List.cons_ne_nil _ _) (Catalog.stage_eq_ok_iff.2 ⟨clean_archiveBatch, rfl⟩)).1
  have hmem : ⟨1, 0, codecBatch⟩ ∈ (after [.start]).recorded (.call 0 (.persist ⟨0, true⟩ codecBatch)) := by
    rw [hfirst]
    exact List.mem_singleton_self _
  refine ⟨hmem, (stays_iff_version_not_taken hmem _).2 fun b' hb' hv => ?_⟩
  have hhistory : s.history [.restore, .call 1 (.persist ⟨1, true⟩ archiveBatch)] = [⟨2, 1, archiveBatch⟩] := by
    rw [history, history, history, hsecond]
    rfl
  rw [show after ([.start] ++ [_]) = s from rfl, hhistory] at hb'
  rw [List.mem_singleton.1 hb'] at hv
  cases hv

def layoutBatch : List Definition :=
  [.enumeration ⟨"Layout", [⟨"COLUMNS", 3⟩], by decide, by decide, by decide, by decide⟩]

theorem clean_layoutBatch : (⟨.empty, layoutBatch⟩ : Scope).Clean := Scope.clean_enumeration (by cbv)

/-- Two registries that begin with nothing both record a first version. -/
theorem codec_lost_to_second_writer :
    ⟨1, 10, codecBatch⟩ ∈ (after [.start, .start]).recorded (.call 0 (.persist ⟨10, true⟩ codecBatch)) ∧
      ⟨1, 20, layoutBatch⟩ ∈
        (after [.start, .start, .call 0 (.persist ⟨10, true⟩ codecBatch)]).recorded
          (.call 1 (.persist ⟨20, true⟩ layoutBatch)) ∧
      ¬(after [.start, .start, .call 0 (.persist ⟨10, true⟩ codecBatch),
        .call 1 (.persist ⟨20, true⟩ layoutBatch)]).Keeps ⟨1, 10, codecBatch⟩ := by
  obtain ⟨hfirst, hcatalogs⟩ := call_accepted (after [.start, .start]) 0 (.persist ⟨10, true⟩ codecBatch)
    rfl rfl (List.cons_ne_nil _ _) stage_codecBatch
  have hsecond := (call_accepted (after [.start, .start, .call 0 (.persist ⟨10, true⟩ codecBatch)]) 1
    (.persist ⟨20, true⟩ layoutBatch) (congrArg (·[1]?) hcatalogs) rfl (List.cons_ne_nil _ _)
    (Catalog.stage_eq_ok_iff.2 ⟨clean_layoutBatch, rfl⟩)).1
  refine ⟨hfirst ▸ List.mem_singleton_self _, hsecond ▸ List.mem_singleton_self _, ?_⟩
  have hhistory : history ⟨∅, []⟩ [.start, .start, .call 0 (.persist ⟨10, true⟩ codecBatch),
      .call 1 (.persist ⟨20, true⟩ layoutBatch)] = [⟨1, 10, codecBatch⟩] ++ [⟨1, 20, layoutBatch⟩] := by
    rw [history, history, history, history, history]
    exact congrArg₂ (fun first second => [] ++ ([] ++ (first ++ (second ++ [])))) hfirst hsecond
  rw [keeps_after_iff, hhistory, Batch.isLast_concat]
  simp

end Sample

end SharedJournal

end TypeCatalog
