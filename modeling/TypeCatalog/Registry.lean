import TypeCatalog.Journal
set_option autoImplicit false

/-!
A registry publishes a catalog and records in a journal what is registered. A registration stages its
batch, records it and publishes it, in this order, and ends at the first of these that fails.
-/

namespace TypeCatalog

structure Registry where
  catalog : Catalog
  journal : Journal
  deriving DecidableEq

inductive Registry.Refusal where
  | defects (defects : List Defect)
  | unwritable
  deriving DecidableEq

structure Occasion where
  now : Nat
  writable : Bool

/-- What one registration after the other meets. -/
abbrev Occasions := Nat → Occasion

namespace Occasions

def cons (o : Occasion) (later : Occasions) : Occasions
  | 0 => o
  | n + 1 => later n

def tail (os : Occasions) : Occasions := fun n => os (n + 1)

end Occasions

/-- What has been done to a registry stays done when a later step fails. -/
abbrev Action (ε α : Type) := ExceptT ε (StateM Registry) α

def Action.on {ε α : Type} (a : Action ε α) (r : Registry) : Except ε α × Registry := a.run.run r

namespace Action

variable {ε ε' α β : Type} (r : Registry)

@[simp] theorem on_get : Action.on (get : Action ε Registry) r = (.ok r, r) := rfl

theorem on_bind (a : Action ε α) (f : α → Action ε β) :
    Action.on (a >>= f) r =
      match a.on r with
      | (.ok x, r) => (f x).on r
      | (.error e, r) => (.error e, r) := by
  change (ExceptT.bindCont f (a.on r).1).run (a.on r).2 = _
  obtain ⟨result, r'⟩ := a.on r
  cases result <;> rfl

theorem on_adapt (f : ε → ε') (a : Action ε α) :
    Action.on (a.adapt f) r = ((a.on r).1.mapError f, (a.on r).2) := rfl

end Action

namespace Registry

def empty : Registry := ⟨.empty, ∅⟩

def stage (batch : List Definition) : Action Refusal Staged := do
  match (← get).catalog.stage batch with
  | .ok staged => pure staged
  | .error defects => throw (.defects defects)

def record (o : Occasion) (batch : List Definition) : Action Refusal Unit := do
  if o.writable then
    modify fun r =>
      { r with journal := r.journal.append ⟨r.catalog.version + 1, o.now, batch⟩ }
  else throw .unwritable

def publish (now : Nat) (staged : Staged) : Action Refusal (NameMap Resolved) := do
  modify fun r => { r with catalog := r.catalog.commit staged now }
  pure staged.types

/-- Registers a batch without a record of it. An empty batch changes nothing. -/
def register (now : Nat) (batch : List Definition) : Action Refusal (NameMap Resolved) := do
  if batch.isEmpty then pure ∅
  else
    let staged ← stage batch
    publish now staged

def persist (o : Occasion) (batch : List Definition) : Action Refusal (NameMap Resolved) := do
  if batch.isEmpty then pure ∅
  else
    let staged ← stage batch
    record o batch
    publish o.now staged

def restore (j : Journal) : Except JournalFault Registry := j.replay.map (⟨·, j⟩)

section On

variable (r : Registry) (o : Occasion) (now : Nat) (batch : List Definition)

theorem on_stage :
    (stage batch).on r =
      match r.catalog.stage batch with
      | .ok staged => (.ok staged, r)
      | .error defects => (.error (.defects defects), r) := by
  rw [stage, Action.on_bind, Action.on_get]
  dsimp only
  cases r.catalog.stage batch <;> rfl

theorem on_record :
    (record o batch).on r =
      if o.writable then
        (.ok (), { r with journal := r.journal.append ⟨r.catalog.version + 1, o.now, batch⟩ })
      else (.error .unwritable, r) := by
  rw [record]
  split <;> rfl

theorem on_register :
    (register now batch).on r =
      if batch.isEmpty then (.ok ∅, r)
      else
        match r.catalog.stage batch with
        | .ok staged => (.ok staged.types, { r with catalog := r.catalog.commit staged now })
        | .error defects => (.error (.defects defects), r) := by
  rw [register]
  split
  · rfl
  · rw [Action.on_bind, on_stage]
    cases r.catalog.stage batch <;> rfl

theorem on_persist :
    (persist o batch).on r =
      if batch.isEmpty then (.ok ∅, r)
      else
        match r.catalog.stage batch with
        | .ok staged =>
          if o.writable then
            (.ok staged.types,
              ⟨r.catalog.commit staged o.now,
                r.journal.append ⟨r.catalog.version + 1, o.now, batch⟩⟩)
          else (.error .unwritable, r)
        | .error defects => (.error (.defects defects), r) := by
  rw [persist]
  split
  · rfl
  · rw [Action.on_bind, on_stage]
    cases r.catalog.stage batch with
    | error defects => rfl
    | ok staged =>
      dsimp only
      rw [Action.on_bind, on_record]
      cases o.writable <;> rfl

end On

end Registry

end TypeCatalog
