import TypeCatalog.Registry
import TypeCatalog.Proofs.Commit
import TypeCatalog.Proofs.Journal
set_option autoImplicit false

namespace TypeCatalog

theorem Journal.integrity_foldlM {bs : List Batch} {c c' : Catalog} (hi : c.Integrity)
    (h : bs.foldlM replayBatch c = .ok c') : c'.Integrity := by
  induction bs generalizing c with
  | nil => exact Except.ok.inj h ▸ hi
  | cons b bs ih =>
    rw [List.foldlM_cons, replayBatch] at h
    split at h
    · split at h
      · next hst => exact ih (Catalog.integrity_commit hi hst) h
      · cases h
    · cases h

namespace Registry

inductive Call where
  | register (now : Nat) (batch : List Definition)
  | persist (o : Occasion) (batch : List Definition)

namespace Call

def batch : Call → List Definition
  | .register _ batch | .persist _ batch => batch

def now : Call → Nat
  | .register now _ => now
  | .persist o _ => o.now

def action : Call → Action Refusal (NameMap Resolved)
  | .register now batch => Registry.register now batch
  | .persist o batch => Registry.persist o batch

def recorded : Call → Nat → List Batch
  | .register _ _, _ => []
  | .persist o batch, version => [⟨version, o.now, batch⟩]

def committed (call : Call) (r : Registry) (staged : Staged) : Registry :=
  ⟨r.catalog.commit staged call.now,
    (call.recorded (r.catalog.version + 1)).foldl Journal.append r.journal⟩

theorem on_of_batch_eq_nil {call : Call} (h : call.batch = []) (r : Registry) :
    call.action.on r = (.ok ∅, r) := by
  cases call with
  | register now batch =>
    obtain rfl : batch = [] := h
    rfl
  | persist o batch =>
    obtain rfl : batch = [] := h
    rfl

theorem on_cases (call : Call) (r : Registry) :
    (call.batch = [] ∧ call.action.on r = (.ok ∅, r)) ∨
    (∃ e, call.action.on r = (.error e, r)) ∨
    ∃ staged, r.catalog.stage call.batch = .ok staged ∧
      call.action.on r = (.ok staged.types, call.committed r staged) := by
  by_cases hb : call.batch = []
  · exact .inl ⟨hb, on_of_batch_eq_nil hb r⟩
  refine .inr ?_
  cases call with
  | register now batch =>
    have hne : ¬batch.isEmpty := fun h => hb (List.isEmpty_iff.1 h)
    rw [action, on_register, if_neg hne]
    dsimp only [Call.batch]
    cases hst : r.catalog.stage batch with
    | error defects => exact .inl ⟨_, rfl⟩
    | ok staged => exact .inr ⟨staged, rfl, rfl⟩
  | persist o batch =>
    have hne : ¬batch.isEmpty := fun h => hb (List.isEmpty_iff.1 h)
    rw [action, on_persist, if_neg hne]
    dsimp only [Call.batch]
    cases hst : r.catalog.stage batch with
    | error defects => exact .inl ⟨_, rfl⟩
    | ok staged =>
      dsimp only
      split
      · exact .inr ⟨staged, rfl, rfl⟩
      · exact .inl ⟨_, rfl⟩

theorem integrity {r : Registry} (hi : r.catalog.Integrity) (call : Call) :
    (call.action.on r).2.catalog.Integrity := by
  rcases call.on_cases r with ⟨-, h⟩ | ⟨e, h⟩ | ⟨staged, hst, h⟩
  · rwa [h]
  · rwa [h]
  · rw [h]
    exact Catalog.integrity_commit hi hst

end Call

/-- A step of a program that holds a registry: a call, or to begin again from a journal. -/
inductive Operation where
  | call (call : Call)
  | restore (j : Journal)

def step (r : Registry) : Operation → Registry
  | .call call => (call.action.on r).2
  | .restore j =>
    match restore j with
    | .ok r' => r'
    | .error _ => r

def after (ops : List Operation) : Registry := ops.foldl step empty

theorem integrity_step {r : Registry} (hi : r.catalog.Integrity) (op : Operation) :
    (r.step op).catalog.Integrity := by
  cases op with
  | call call => exact call.integrity hi
  | restore j =>
    rw [step, restore, Journal.replay]
    cases hb : j.batches with
    | error fault => exact hi
    | ok bs =>
      cases hr : bs.foldlM Journal.replayBatch Catalog.empty with
      | error fault => simpa [hr, bind, Except.bind, Except.map] using hi
      | ok c =>
        have := Journal.integrity_foldlM Catalog.integrity_empty hr
        simpa [hr, bind, Except.bind, Except.map] using this

theorem after_induction {motive : Registry → Prop} (start : motive empty)
    (next : ∀ r op, motive r → motive (r.step op)) (ops : List Operation) : motive (after ops) :=
  List.foldlRecOn ops step start fun r hr op _ => next r op hr

/-- Whatever is registered, recorded or restored, in whatever order, and accepted or not. -/
theorem integrity_after (ops : List Operation) : (after ops).catalog.Integrity :=
  after_induction (motive := fun r => r.catalog.Integrity) Catalog.integrity_empty
    (fun _ op hi => integrity_step hi op) ops

theorem stage_isOk_iff_wellFormed (ops : List Operation) (batch : List Definition) :
    (∃ staged, (after ops).catalog.stage batch = .ok staged) ↔
      (⟨(after ops).catalog, batch⟩ : Scope).WellFormed :=
  Catalog.stage_isOk_iff (after_induction (motive := fun r => r.catalog.Integrity)
    Catalog.integrity_empty (fun _ op hi => integrity_step hi op) ops)

/-- The registry and the journal after some calls, with no other writer of the journal. -/
def run (calls : List Call) : Registry := calls.foldl (fun r call => (call.action.on r).2) empty

/-- The journal holds batches of ascending versions, none later than the catalog. -/
def Ordered (r : Registry) : Prop :=
  ∃ bs, r.journal.Holds bs ∧ ∀ b ∈ bs, b.version ≤ r.catalog.version

theorem Ordered.committed {r : Registry} (call : Call) (staged : Staged) {bs : List Batch}
    (h : r.journal.Holds bs) (hv : ∀ b ∈ bs, b.version ≤ r.catalog.version) :
    (call.committed r staged).journal.Holds (bs ++ call.recorded (r.catalog.version + 1)) := by
  cases call with
  | register now batch => simpa [Call.committed, Call.recorded] using h
  | persist o batch => exact h.append fun b hb => Nat.lt_succ_of_le (hv b hb)

theorem Call.version_of_mem_recorded {call : Call} {version : Nat} {b : Batch}
    (h : b ∈ call.recorded version) : b.version = version := by
  cases call with
  | register now batch => cases h
  | persist o batch => rw [List.mem_singleton.1 h]

theorem Call.recorded_eq_singleton {call : Call} {version : Nat} {b : Batch}
    (h : b ∈ call.recorded version) : call.recorded version = [b] := by
  cases call with
  | register now batch => cases h
  | persist o batch => exact congrArg (fun b => [b]) (List.mem_singleton.1 h).symm

theorem ordered_call {r : Registry} (h : r.Ordered) (call : Call) : (call.action.on r).2.Ordered := by
  rcases call.on_cases r with ⟨-, hr⟩ | ⟨e, hr⟩ | ⟨staged, -, hr⟩
  · rwa [hr]
  · rwa [hr]
  · obtain ⟨bs, hj, hv⟩ := h
    rw [hr]
    refine ⟨_, Ordered.committed call staged hj hv, fun b hb => ?_⟩
    rcases List.mem_append.1 hb with hb | hb
    · exact (hv b hb).trans (Nat.le_succ _)
    · exact (Call.version_of_mem_recorded hb).le

structure Commits (call : Call) (r r' : Registry) (types : NameMap Resolved) : Prop where
  version : r'.catalog.version = r.catalog.version + 1
  createdAt : r'.catalog.createdAt = call.now
  keeps : r'.catalog.Keeps r.catalog
  types_new : ∀ n, n ∈ r'.catalog.types ∧ n ∉ r.catalog.types ↔
    ∃ d, .declaration d ∈ call.batch ∧ d.name = n
  enums_new : ∀ n e, r'.catalog.enum? n = some e ∧ n ∉ r.catalog.enums ↔
    .enumeration e ∈ call.batch ∧ e.name = n
  returned : ∀ n q, types.get? n = some q ↔ r'.catalog.type? n = some q ∧ n ∉ r.catalog.types
  recorded : ∃ bs, r.journal.batches = .ok bs ∧
    r'.journal.batches = .ok (bs ++ call.recorded r'.catalog.version)

theorem commits_committed {call : Call} {r : Registry} (hi : r.catalog.Integrity) (ho : r.Ordered)
    {staged : Staged} (hst : r.catalog.stage call.batch = .ok staged) :
    Commits call r (call.committed r staged) staged.types := by
  have hfree := fun d => Catalog.not_mem_of_stage hst (d := d)
  refine ⟨rfl, rfl, Catalog.keeps_commit hi hst, fun n => ?types, fun n e => ?enums, fun n q => ?returned,
    ?recorded⟩
  case types =>
    rw [Call.committed, Catalog.mem_types_commit hi hst]
    constructor
    · intro h
      rcases h with ⟨hd | hn, hnew⟩
      · exact hd
      · exact absurd hn hnew
    · intro h
      obtain ⟨d, hd, rfl⟩ := h
      exact ⟨.inl ⟨d, hd, rfl⟩, (hfree _ hd).1⟩
  case enums =>
    rw [Call.committed, Catalog.enum?_commit hst]
    constructor
    · intro h
      rcases h with ⟨he | he, hnew⟩
      · exact he
      · exact absurd (Catalog.mem_enums.2 ⟨e, he⟩) hnew
    · intro h
      obtain ⟨he, rfl⟩ := h
      exact ⟨.inl ⟨he, rfl⟩, (hfree _ he).2⟩
  case returned => exact Catalog.get?_staged_types_iff hi hst
  case recorded =>
    obtain ⟨bs, hj, hv⟩ := ho
    exact ⟨bs, hj.batches, (Ordered.committed call staged hj hv).batches⟩

theorem integrity_run (calls : List Call) : (run calls).catalog.Integrity :=
  List.foldlRecOn (motive := fun r : Registry => r.catalog.Integrity) calls _
    Catalog.integrity_empty fun _ hi call _ => call.integrity hi

theorem ordered_run (calls : List Call) : (run calls).Ordered :=
  List.foldlRecOn (motive := Ordered) calls _ ⟨[], Journal.holds_nil, by simp⟩
    fun _ ho call _ => ordered_call ho call

/-- A call either fails and changes nothing, or commits the batch that it was given. -/
theorem exact_or_unchanged (calls : List Call) (call : Call) :
    (call.batch = [] → call.action.on (run calls) = (.ok ∅, run calls)) ∧
    (call.batch ≠ [] →
      (∃ e, call.action.on (run calls) = (.error e, run calls)) ∨
      ∃ types r', call.action.on (run calls) = (.ok types, r') ∧ Commits call (run calls) r' types) := by
  refine ⟨fun hb => Call.on_of_batch_eq_nil hb _, fun hb => ?_⟩
  rcases call.on_cases (run calls) with ⟨h, -⟩ | he | ⟨staged, hst, h⟩
  · exact absurd h hb
  · exact .inl he
  · exact .inr ⟨_, _, h, commits_committed (integrity_run calls) (ordered_run calls) hst⟩

end Registry

end TypeCatalog
