import TypeCatalog.Proofs.Replay
import TypeCatalog.Proofs.Startup
set_option autoImplicit false

namespace TypeCatalog

theorem Registry.recorded_of_restore {j : Journal} {bs : List Batch} {r : Registry} (h : j.Holds bs)
    (hr : restore j = .ok r) : r.Recorded := by
  have hversion := (restoredFrom_of_restore h hr).version
  obtain ⟨⟨hv, hb⟩, rfl⟩ := (restore_eq_ok_iff h).1 hr
  exact ⟨bs, h, hversion ▸ hv, Journal.foldlM_replayBatch_eq_ok_iff.2 ⟨hv, hb⟩⟩

namespace Service

variable {files : Files} {o : Occasion} {os : Occasions} {s s' : Service} {paths : List String}
  {fault : ServiceFault}

inductive Loaded (files : Files) : Service → List String → Service → Prop
  | nil (s : Service) : Loaded files s [] s
  | cons {s s₁ s' : Service} {path : String} {paths : List String} (h : Loads files s path s₁)
    (hs : Loaded files s₁ paths s') : Loaded files s (path :: paths) s'

theorem on_loadAll_cases (h : s.Recorded) (files : Files) (os : Occasions) (paths : List String) :
    (∃ s', (loadAll files os paths).on s = (.ok (), s') ∧ Loaded files s paths s') ∨
      ∃ before path after s' fault, paths = before ++ path :: after ∧
        (loadAll files os before).on s = (.ok (), s') ∧ Loaded files s before s' ∧
        (loadAll files os paths).on s = (.error fault, s') ∧ Refuses files (os before.length) s' path fault := by
  induction paths generalizing s os with
  | nil => exact .inl ⟨s, rfl, .nil s⟩
  | cons path paths ih =>
    rcases on_load_cases h (os 0) files path with ⟨types, s₁, hon, hload⟩ | ⟨fault, hon, hrefuse⟩
    · have hf := (repeatable_load files path).follows_of_ok h hon
      rcases ih hf.recorded os.tail with ⟨s', hon', hloaded⟩ |
        ⟨before, failed, after, s', fault, rfl, hbefore, hloaded, hfail, hrefuse⟩
      · exact .inl ⟨s', (loadAll_of_ok hon _).trans hon', .cons hload hloaded⟩
      · exact .inr ⟨path :: before, failed, after, s', fault, rfl, (loadAll_of_ok hon _).trans hbefore,
          .cons hload hloaded, (loadAll_of_ok hon _).trans hfail, hrefuse⟩
    · exact .inr ⟨[], path, paths, s, fault, rfl, rfl, .nil s, loadAll_of_error hon paths, hrefuse⟩

namespace Loaded

theorem keeps (h : Loaded files s paths s') : s'.catalog.Keeps s.catalog := by
  induction h with
  | nil => exact .refl _
  | cons h _ ih => exact ih.trans h.keeps

theorem defined (h : Loaded files s paths s') {n : String} (hn : s'.catalog.Defines n) :
    s.catalog.Defines n ∨
      ∃ path ∈ paths, ∃ batch, files.Describes path batch ∧ ∃ d ∈ batch, d.name = n := by
  induction h with
  | nil => exact .inl hn
  | cons h _ ih =>
    rcases ih hn with hn | ⟨path, hmem, hx⟩
    · exact (h.defined hn).imp_right fun hx => ⟨_, List.mem_cons_self .., hx⟩
    · exact .inr ⟨path, List.mem_cons_of_mem _ hmem, hx⟩

end Loaded

/-- What a start fails at, once some of its files have been loaded: the next file, or the lineage classes
behind all files. -/
inductive FailsAt (files : Files) (os : Occasions) (bootstrap : List String) (lineage : Bool)
    (before : List String) (s : Service) : ServiceFault → Prop
  | file {path : String} {after : List String} {fault : ServiceFault} (hb : bootstrap = before ++ path :: after)
    (h : Refuses files (os before.length) s path fault) : FailsAt files os bootstrap lineage before s fault
  | lineage {ds : List Definition} {fault : CatalogFault} (hb : bootstrap = before) (hl : lineage = true)
    (hd : Lineage.definitions = .ok ds) (h : Declines (os before.length) s ds fault) :
    FailsAt files os bootstrap lineage before s (.catalog fault)

theorem on_prepare_cases (h : s.Recorded) (files : Files) (os : Occasions) (bootstrap : List String)
    (lineage : Bool) :
    (∃ s', (prepare files os bootstrap lineage).on s = (.ok (), s')) ∨
      ∃ before s' fault, (prepare files os bootstrap lineage).on s = (.error fault, s') ∧
        (loadAll files os before).on s = (.ok (), s') ∧ Loaded files s before s' ∧
        FailsAt files os bootstrap lineage before s' fault := by
  rcases on_loadAll_cases h files os bootstrap with ⟨s₁, hon, hloaded⟩ |
    ⟨before, path, after, s', fault, hb, hbefore, hloaded, hfail, hrefuse⟩
  · have hf := (repeatable_loadAll files bootstrap).follows_of_ok h hon
    cases lineage with
    | false => exact .inl ⟨s₁, prepare_of_ok hon false⟩
    | true =>
      rw [prepare_of_ok hon]
      rcases on_addLineage_cases hf.recorded (os bootstrap.length) with ⟨s', hl⟩ | ⟨ds, fault, hds, hl, hdeclines⟩
      · exact .inl ⟨s', hl⟩
      · exact .inr ⟨bootstrap, s₁, _, hl, hon, hloaded, .lineage rfl rfl hds hdeclines⟩
  · exact .inr ⟨before, s', fault, prepare_of_error hfail lineage, hbefore, hloaded, .file hb hrefuse⟩

theorem start_of_prepare {j : Journal} (h : Registry.restore j = .ok s) {bootstrap : List String}
    {lineage : Bool} (hp : (prepare files (.cons o os) bootstrap lineage).on s = (.error fault, s')) :
    start j files o bootstrap lineage os = (s'.journal, .error fault) := by
  simp only [start, h, hp]

/-- What a failed start leaves behind is what has been loaded before the failure. -/
theorem failed_start_keeps_prefix {appended : List Batch} {s : Service}
    (h : Registry.restore (appended.foldl Journal.append ∅) = .ok s) {files : Files} {o : Occasion}
    {os : Occasions} {bootstrap : List String} {lineage : Bool} {j' : Journal} {fault : ServiceFault}
    (hfail : start (appended.foldl Journal.append ∅) files o bootstrap lineage os = (j', .error fault)) :
    ∃ before s', FailsAt files (.cons o os) bootstrap lineage before s' fault ∧
      (loadAll files (.cons o os) before).on s = (.ok (), s') ∧ Registry.restore j' = .ok s' ∧
      Loaded files s before s' ∧ s'.catalog.Keeps s.catalog ∧
      ∀ n, s'.catalog.Defines n → s.catalog.Defines n ∨
        ∃ path ∈ before, ∃ batch, files.Describes path batch ∧ ∃ d ∈ batch, d.name = n := by
  obtain ⟨bs, hj, -⟩ := Journal.exists_holds_foldl_append appended
  have hs := Registry.recorded_of_restore hj h
  rcases on_prepare_cases hs files (.cons o os) bootstrap lineage with ⟨s', hok⟩ |
    ⟨before, s', fault', hp, hbefore, hloaded, hat⟩
  · cases ((start_eq_ok_iff h).2 ⟨hok, rfl⟩).symm.trans hfail
  · cases (start_of_prepare h hp).symm.trans hfail
    have hf := (repeatable_loadAll files before).follows_of_ok hs hbefore
    exact ⟨before, s', hat, hbefore, hf.recorded.restore, hloaded, hloaded.keeps, fun n => hloaded.defined⟩

/-- Both files that are found make a version before the third is not, and the lineage classes never come. -/
theorem absent_file_keeps_archive :
    ∃ j', Registry.restore (([] : List Batch).foldl Journal.append ∅) = .ok Registry.empty ∧
      start (([] : List Batch).foldl Journal.append ∅) archiveFiles ⟨0, true⟩
        ["codec.json", "archive.json", "absent.json"] true (fun n => ⟨n + 1, true⟩) =
          (j', .error (.file .notFound)) ∧
      ∃ before s', FailsAt archiveFiles (.cons ⟨0, true⟩ fun n => ⟨n + 1, true⟩)
          ["codec.json", "archive.json", "absent.json"] true before s' (.file .notFound) ∧
        Registry.restore j' = .ok s' ∧ Loaded archiveFiles Registry.empty before s' ∧
        s'.catalog.version = 2 ∧ s'.catalog.Defines "Archive" := by
  have habsent : archiveFiles.text "absent.json" = .error .notFound :=
    text_of_none ((if_neg (by decide)).trans (if_neg (by decide)))
  have hrestore₀ : Registry.restore (([] : List Batch).foldl Journal.append ∅) = .ok Registry.empty := rfl
  have hprepare := prepare_of_error
    ((loadAll_archive ["absent.json"]).trans (loadAll_of_error (load_of_unreadable habsent) [])) true
  have hstart := start_of_prepare hrestore₀ hprepare
  obtain ⟨before, s', hat, hbefore, hrestore, hloaded, -⟩ := failed_start_keeps_prefix hrestore₀ hstart
  have hf := (repeatable_loadAll archiveFiles _).follows_of_ok Registry.recorded_empty (loadAll_archive [])
  obtain rfl := Except.ok.inj (hf.recorded.restore.symm.trans hrestore)
  have hmakes := Registry.clean_archiveBatch.makes integrity_codec 1
  exact ⟨_, hrestore₀, hstart, before, _, hat, hrestore, hloaded, rfl,
    Catalog.defines_of_isCommitted (hmakes.committed _ (List.mem_singleton_self _))⟩

end Service

end TypeCatalog
