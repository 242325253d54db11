import TypeCatalog.Proofs.Loading
set_option autoImplicit false

namespace TypeCatalog

namespace Action

variable {ε ε' α β : Type} {r r' : Registry}

theorem on_bind_eq_ok_iff {a : Action ε α} {f : α → Action ε β} {y : β} :
    (a >>= f).on r = (.ok y, r') ↔ ∃ x r₁, a.on r = (.ok x, r₁) ∧ (f x).on r₁ = (.ok y, r') := by
  rw [on_bind]
  rcases a.on r with ⟨e | x, r₁⟩
  · simp
  · simp

theorem on_adapt_eq_ok_iff {f : ε → ε'} {a : Action ε α} {x : α} :
    Action.on (a.adapt f) r = (.ok x, r') ↔ a.on r = (.ok x, r') := by
  rw [on_adapt]
  rcases a.on r with ⟨e | x, r₁⟩ <;> simp [Except.mapError]

end Action

namespace Registry

variable {r r' : Registry} {batch : List Definition}

/-- A later state: the journal tells all of it, and nothing has been lost. -/
structure Follows (r' r : Registry) : Prop where
  recorded : r'.Recorded
  keeps : r'.catalog.Keeps r.catalog

theorem Follows.refl (h : r.Recorded) : r.Follows r := ⟨h, .refl _⟩

theorem Follows.trans {r₁ r₂ r₃ : Registry} (h : r₃.Follows r₂) (h' : r₂.Follows r₁) : r₃.Follows r₁ :=
  ⟨h.recorded, h.keeps.trans h'.keeps⟩

theorem Follows.isCommitted (h : r'.Follows r) (hr : r.Recorded)
    (hc : ∀ d ∈ batch, r.catalog.isCommitted d = true) : ∀ d ∈ batch, r'.catalog.isCommitted d = true :=
  fun d hd => h.keeps.isCommitted hr.reachable.integrity (hc d hd)

end Registry

namespace Service

open Registry (Follows)

variable {s s' : Service} {batch : List Definition} {types : NameMap Resolved} {o : Occasion}

theorem follows_register (h : s.Recorded) (o : Occasion) (batch : List Definition) :
    Follows ((register o batch).on s).2 s :=
  ⟨recorded_register h o batch, (Registry.Call.persist o batch).keeps h.reachable⟩

theorem follows_registerMissing (h : s.Recorded) (o : Occasion) (batch : List Definition) :
    Follows ((registerMissing o batch).on s).2 s := by
  rw [on_registerMissing]
  exact follows_register h o _

theorem makes_of_register (h : s.Recorded) (hok : (register o batch).on s = (.ok types, s')) :
    (⟨s.catalog, batch⟩ : Scope).Makes s'.catalog := by
  rw [register, Action.on_adapt_eq_ok_iff] at hok
  exact ((Registry.Call.persist o batch).makes h.reachable.integrity hok).2

theorem isCommitted_of_registerMissing (h : s.Recorded)
    (hok : (registerMissing o batch).on s = (.ok types, s')) :
    ∀ d ∈ batch, s'.catalog.isCommitted d = true := by
  rw [on_registerMissing] at hok
  have hm := makes_of_register h hok
  intro d hd
  cases hc : s.catalog.isCommitted d with
  | true => exact hm.keeps.isCommitted h.reachable.integrity hc
  | false => exact hm.committed d (List.mem_filter.2 ⟨hd, by simp [hc]⟩)

/-- What may be done at every start: it has no effect any more once it has been done, whatever comes in
between and whatever it meets. -/
structure Repeatable {ω α : Type} (act : ω → Action ServiceFault α) (x : α) : Prop where
  follows : ∀ (s : Service) o, s.Recorded → Follows ((act o).on s).2 s
  again : ∀ (s s' s'' : Service) o y, s.Recorded → (act o).on s = (.ok y, s') → Follows s'' s' →
    ∀ o', (act o').on s'' = (.ok x, s'')

section Repeatable

variable {ω ω' α β : Type} {x : α} {y : β} {act : ω → Action ServiceFault α}

theorem Repeatable.follows_of_ok {o : ω} {z : α} (h : Repeatable act x) (hs : s.Recorded)
    (hok : (act o).on s = (.ok z, s')) : Follows s' s := by
  have hf := h.follows s o hs
  rwa [hok] at hf

theorem repeatable_pure (x : α) : Repeatable (fun _ : ω => pure x) x where
  follows _ _ h := .refl h
  again _ _ _ _ _ _ _ _ _ := rfl

/-- What fails always never has to be done again. -/
theorem repeatable_throw (fault : ServiceFault) (x : α) : Repeatable (fun _ : ω => throw fault) x where
  follows _ _ h := .refl h
  again _ _ _ _ _ _ hok := by cases hok

theorem Repeatable.comap (h : Repeatable act x) (f : ω' → ω) : Repeatable (fun o => act (f o)) x where
  follows s o := h.follows s (f o)
  again s s' s'' o y hs hok hf o' := h.again s s' s'' (f o) y hs hok hf (f o')

theorem Repeatable.adapt (h : Repeatable act x) (f : ServiceFault → ServiceFault) :
    Repeatable (fun o => (act o).adapt f) x where
  follows s o hs := h.follows s o hs
  again s s' s'' o z hs hok hf o' :=
    Action.on_adapt_eq_ok_iff.2 (h.again s s' s'' o z hs (Action.on_adapt_eq_ok_iff.1 hok) hf o')

theorem Repeatable.bind {act' : ω → Action ServiceFault β} (h : Repeatable act x) (h' : Repeatable act' y) :
    Repeatable (fun o => act o >>= fun _ => act' o) y where
  follows s o hs := by
    have hf := h.follows s o hs
    rw [Action.on_bind]
    rcases ha : (act o).on s with ⟨result, s₁⟩
    rw [ha] at hf
    cases result with
    | error e => exact hf
    | ok z => exact (h'.follows s₁ o hf.recorded).trans hf
  again s s' s'' o z hs hok hf o' := by
    obtain ⟨w, s₁, ha, ha'⟩ := Action.on_bind_eq_ok_iff.1 hok
    have hf₁ := h.follows_of_ok hs ha
    have hf₂ := h'.follows_of_ok hf₁.recorded ha'
    exact Action.on_bind_eq_ok_iff.2 ⟨x, s'', h.again s s₁ s'' o w hs ha (hf.trans hf₂) o',
      h'.again s₁ s' s'' o z hf₁.recorded ha' hf o'⟩

theorem Repeatable.ite {act : ω → Action ServiceFault Unit} (h : Repeatable act ()) (b : Bool) :
    Repeatable (fun o => if b then act o else pure ()) () := by
  cases b with
  | true => exact h
  | false => exact repeatable_pure ()

theorem repeatable_registerMissing (batch : List Definition) :
    Repeatable (fun o => registerMissing o batch) ∅ where
  follows s o hs := follows_registerMissing hs o batch
  again s s' s'' o z hs hok hf := by
    have hf₁ := follows_registerMissing hs o batch
    rw [hok] at hf₁
    exact registerMissing_of_isCommitted
      (hf.isCommitted hf₁.recorded (isCommitted_of_registerMissing hs hok))

theorem repeatable_load (files : Files) (path : String) : Repeatable (fun o => load o files path) ∅ := by
  simp only [load]
  cases files.text path with
  | error fault => exact repeatable_throw _ _
  | ok text =>
    dsimp only
    cases definitionsOf text with
    | error fault => exact repeatable_throw _ _
    | ok batch => exact (repeatable_registerMissing batch).adapt _

theorem repeatable_loadAll (files : Files) (paths : List String) :
    Repeatable (fun os => loadAll files os paths) () := by
  induction paths with
  | nil => exact repeatable_pure ()
  | cons path paths ih =>
    simp only [loadAll]
    exact ((repeatable_load files path).comap fun os : Occasions => os 0).bind (ih.comap Occasions.tail)

theorem repeatable_addLineage : Repeatable addLineage () := by
  rw [funext addLineage_eq]
  exact (repeatable_registerMissing Lineage.classes).bind (repeatable_pure ())

theorem repeatable_prepare (files : Files) (bootstrap : List String) (lineage : Bool) :
    Repeatable (fun os => prepare files os bootstrap lineage) () := by
  simp only [prepare]
  have hlineage := repeatable_addLineage.comap fun os : Occasions => os bootstrap.length
  exact (repeatable_loadAll files bootstrap).bind (hlineage.ite lineage)

end Repeatable

theorem start_eq_ok_iff {j j' : Journal} (h : Registry.restore j = .ok s) {files : Files}
    {bootstrap : List String} {lineage : Bool} {later : Occasions} :
    start j files o bootstrap lineage later = (j', .ok s') ↔
      (prepare files (.cons o later) bootstrap lineage).on s = (.ok (), s') ∧ s'.journal = j' := by
  rw [start, h]
  dsimp only
  rcases (prepare files (.cons o later) bootstrap lineage).on s with ⟨_ | _, s₁⟩
  · simp
  · simp only [Prod.mk.injEq, Except.ok.injEq, true_and]
    constructor
    · intro hx
      exact ⟨hx.2, hx.2 ▸ hx.1⟩
    · intro hx
      exact ⟨hx.1 ▸ hx.2, hx.1⟩

theorem follows_next (h : s.Recorded) (event : Event) : ∃ s', s.next event = .ok s' ∧ Follows s' s := by
  cases event with
  | register o batch => exact ⟨_, rfl, follows_register h o batch⟩
  | registerMissing o batch => exact ⟨_, rfl, (repeatable_registerMissing batch).follows s o h⟩
  | load o files path => exact ⟨_, rfl, (repeatable_load files path).follows s o h⟩
  | reopen => exact ⟨s, h.restore, .refl h⟩

theorem follows_foldlM_next (h : s.Recorded) (events : List Event) :
    ∃ s', events.foldlM next s = .ok s' ∧ Follows s' s := by
  induction events generalizing s with
  | nil => exact ⟨s, rfl, .refl h⟩
  | cons event events ih =>
    obtain ⟨s₁, hs₁, hf₁⟩ := follows_next h event
    obtain ⟨s₂, hs₂, hf₂⟩ := ih hf₁.recorded
    rw [List.foldlM_cons, hs₁]
    exact ⟨s₂, hs₂, hf₂.trans hf₁⟩

/-- To register what is missing, and to start on the same files, has an effect only once, whatever happens
to the service later. -/
theorem startup_repeatable (events : List Event) :
    ∃ s, run events = .ok s ∧
      (∀ o batch types s₁, (registerMissing o batch).on s = (.ok types, s₁) →
        ∀ later : List Event, ∃ s₂, later.foldlM next s₁ = .ok s₂ ∧
          (∀ d ∈ batch, s₂.catalog.isCommitted d = true) ∧
          ∀ o', (registerMissing o' batch).on s₂ = (.ok ∅, s₂)) ∧
      ∀ files o os bootstrap lineage j s₁, start s.journal files o bootstrap lineage os = (j, .ok s₁) →
        s₁.journal = j ∧ ∀ later : List Event, ∃ s₂, later.foldlM next s₁ = .ok s₂ ∧
          ∀ o' os', start s₂.journal files o' bootstrap lineage os' = (s₂.journal, .ok s₂) := by
  obtain ⟨s, hs, h⟩ := exists_foldlM_next Registry.recorded_empty events
  refine ⟨s, (run_eq events).trans hs, fun o batch types s₁ hok later => ?missing,
    fun files o os bootstrap lineage j s₁ hok => ?start⟩
  case missing =>
    have hf₁ := (repeatable_registerMissing batch).follows_of_ok h hok
    obtain ⟨s₂, hs₂, hf₂⟩ := follows_foldlM_next hf₁.recorded later
    have hc := hf₂.isCommitted hf₁.recorded (isCommitted_of_registerMissing h hok)
    exact ⟨s₂, hs₂, hc, registerMissing_of_isCommitted hc⟩
  case start =>
    have hr := repeatable_prepare files bootstrap lineage
    obtain ⟨hok, hj⟩ := (start_eq_ok_iff h.restore).1 hok
    have hf₁ := hr.follows_of_ok h hok
    refine ⟨hj, fun later => ?_⟩
    obtain ⟨s₂, hs₂, hf₂⟩ := follows_foldlM_next hf₁.recorded later
    refine ⟨s₂, hs₂, fun o' os' => (start_eq_ok_iff hf₂.recorded.restore).2 ⟨?_, rfl⟩⟩
    exact hr.again s s₁ s₂ _ () h hok hf₂ _

section Sample

open Registry (codecBatch clean_codecBatch clean_archiveBatch)
open Lineage (classes clean_classes)

theorem addLineage_of_clean (h : (⟨s.catalog, classes⟩ : Scope).Clean) (hw : o.writable = true) :
    (addLineage o).on s = (.ok (), ⟨(⟨s.catalog, classes⟩ : Scope).committed o.now,
      s.journal.append ⟨s.catalog.version + 1, o.now, classes⟩⟩) := by
  have hne : classes ≠ [] := by
    rw [← List.isEmpty_eq_false_iff]
    decide +kernel
  rw [addLineage_eq, Action.on_bind, registerMissing_of_clean h hne hw]
  rfl

theorem clean_classes_archive : (⟨archiveService.catalog, classes⟩ : Scope).Clean := by
  have hfresh : ∀ d ∈ classes, d.name ≠ "Codec" ∧ d.name ≠ "Archive" := by decide +kernel
  exact clean_classes (clean_archiveBatch.integrity_committed integrity_codec) fun d hd hn =>
    (eq_of_defines_archive hn).elim (hfresh d hd).1 (hfresh d hd).2

/-- Two files and the lineage classes make three versions at the first start, each at a time of its own. The
second start needs none of them to be written. -/
theorem archive_started_once :
    ∃ types s j s₁, (registerMissing ⟨0, true⟩ codecBatch).on Registry.empty = (.ok types, s) ∧
      (registerMissing ⟨1, false⟩ codecBatch).on s = (.ok ∅, s) ∧
      start ∅ archiveFiles ⟨0, true⟩ ["codec.json", "archive.json"] true (fun n => ⟨n + 1, true⟩) = (j, .ok s₁) ∧
      s₁.catalog.version = 3 ∧ s₁.journal = j ∧
      start j archiveFiles ⟨3, false⟩ ["codec.json", "archive.json"] true = (j, .ok s₁) := by
  have hmissing := registerMissing_of_clean (s := Registry.empty) (o := ⟨0, true⟩) clean_codecBatch
    (List.cons_ne_nil _ _) rfl
  have hprepare := (prepare_of_ok (loadAll_archive []) true).trans
    (addLineage_of_clean (o := ⟨2, true⟩) clean_classes_archive rfl)
  have hfirst := (start_eq_ok_iff (j := ∅) rfl).2 ⟨hprepare, rfl⟩
  obtain ⟨s₀, hs₀, honce, hagain⟩ := startup_repeatable []
  obtain rfl : Registry.empty = s₀ := Except.ok.inj ((run_eq []).symm.trans hs₀)
  obtain ⟨s₁, hs₁, -, hmissing'⟩ := honce _ _ _ _ hmissing []
  cases hs₁
  obtain ⟨hj, hlater⟩ := hagain _ _ _ _ _ _ _ hfirst
  obtain ⟨s₂, hs₂, hsecond⟩ := hlater []
  cases hs₂
  exact ⟨_, _, _, _, hmissing, hmissing' _, hfirst, rfl, hj, hsecond _ _⟩

end Sample

end Service

end TypeCatalog
