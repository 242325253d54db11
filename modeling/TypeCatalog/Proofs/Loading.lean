import TypeCatalog.Proofs.Extension
import TypeCatalog.Proofs.Lineage.Ingestion
import TypeCatalog.Proofs.SchemaText
import TypeCatalog.Proofs.Service
set_option autoImplicit false

namespace TypeCatalog

theorem Registry.Recorded.reachable {r : Registry} (h : r.Recorded) : r.catalog.Reachable := by
  obtain ⟨bs, -, -, hr⟩ := h
  exact Journal.reachable_foldlM .empty hr

def Files.Describes (files : Files) (path : String) (batch : List Definition) : Prop :=
  ∃ text, files.text path = .ok text ∧ Service.definitionsOf text = .ok batch

namespace Service

variable {files : Files} {o : Occasion} {s s' : Service} {path : String} {batch : List Definition}

def missing (s : Service) (batch : List Definition) : List Definition :=
  batch.filter fun d => !s.catalog.isCommitted d

/-- What a batch makes of a service: a version of all that is missing, or nothing where nothing is. -/
inductive Adds (s : Service) (batch : List Definition) : Service → Prop
  | known (hc : ∀ d ∈ batch, s.catalog.isCommitted d = true) : Adds s batch s
  | committed {s' : Service} (hm : ∃ d ∈ batch, s.catalog.isCommitted d = false)
    (version : s'.catalog.version = s.catalog.version + 1)
    (makes : (⟨s.catalog, s.missing batch⟩ : Scope).Makes s'.catalog) : Adds s batch s'

inductive Declines (o : Occasion) (s : Service) (batch : List Definition) : CatalogFault → Prop
  | rejected {defects : List Defect} (h : s.catalog.stage (s.missing batch) = .error defects) :
    Declines o s batch (.registration defects)
  | unwritable (hm : ∃ d ∈ batch, s.catalog.isCommitted d = false) (h : o.writable = false) :
    Declines o s batch .unwritable

def Loads (files : Files) (s : Service) (path : String) (s' : Service) : Prop :=
  ∃ batch, files.Describes path batch ∧ Adds s batch s'

inductive Refuses (files : Files) (o : Occasion) (s : Service) (path : String) : ServiceFault → Prop
  | unreadable {fault : FileFault} (h : files.text path = .error fault) : Refuses files o s path (.file fault)
  | malformed {text : String} {fault : CatalogFault} (ht : files.text path = .ok text)
    (h : definitionsOf text = .error fault) : Refuses files o s path (.bootstrap path fault)
  | declined {batch : List Definition} {fault : CatalogFault} (hd : files.Describes path batch)
    (h : Declines o s batch fault) : Refuses files o s path (.bootstrap path fault)

theorem missing_isEmpty_iff :
    (s.missing batch).isEmpty = true ↔ ∀ d ∈ batch, s.catalog.isCommitted d = true := by
  rw [List.isEmpty_iff, missing, List.filter_eq_nil_iff]
  simp

theorem exists_of_missing (h : ¬(s.missing batch).isEmpty = true) :
    ∃ d ∈ batch, s.catalog.isCommitted d = false := by
  rw [missing_isEmpty_iff] at h
  simpa using h

theorem on_registerMissing_cases (h : s.Recorded) (o : Occasion) (batch : List Definition) :
    (∃ types s', (registerMissing o batch).on s = (.ok types, s') ∧ Adds s batch s') ∨
      ∃ fault, (registerMissing o batch).on s = (.error (.catalog fault), s) ∧ Declines o s batch fault := by
  rw [on_registerMissing, register, Action.on_adapt, Registry.on_persist, ← missing]
  split
  · next hnone => exact .inl ⟨_, _, rfl, .known (missing_isEmpty_iff.1 hnone)⟩
  · next hsome =>
    have hm := exists_of_missing hsome
    cases hst : s.catalog.stage (s.missing batch) with
    | error defects => exact .inr ⟨_, rfl, .rejected hst⟩
    | ok staged =>
      dsimp only
      split
      · exact .inl ⟨_, _, rfl, .committed hm rfl (Catalog.makes_commit h.reachable.integrity hst)⟩
      · next hw => exact .inr ⟨_, rfl, .unwritable hm (by simpa using hw)⟩

theorem on_load_cases (h : s.Recorded) (o : Occasion) (files : Files) (path : String) :
    (∃ types s', (load o files path).on s = (.ok types, s') ∧ Loads files s path s') ∨
      ∃ fault, (load o files path).on s = (.error fault, s) ∧ Refuses files o s path fault := by
  rw [load]
  cases ht : files.text path with
  | error fault => exact .inr ⟨_, rfl, .unreadable ht⟩
  | ok text =>
    dsimp only
    cases hb : definitionsOf text with
    | error fault => exact .inr ⟨_, rfl, .malformed ht hb⟩
    | ok batch =>
      have hd : files.Describes path batch := ⟨text, ht, hb⟩
      dsimp only
      rw [Action.on_adapt]
      rcases on_registerMissing_cases h o batch with ⟨types, s', hon, hadds⟩ | ⟨fault, hon, hdeclines⟩
      · rw [hon]
        exact .inl ⟨_, _, rfl, batch, hd, hadds⟩
      · rw [hon]
        exact .inr ⟨_, rfl, .declined hd hdeclines⟩

theorem addLineage_eq (o : Occasion) :
    addLineage o = registerMissing o Lineage.classes >>= fun _ => pure () := by
  unfold addLineage
  rw [Lineage.definitions_eq]

theorem on_addLineage_cases (h : s.Recorded) (o : Occasion) :
    (∃ s', (addLineage o).on s = (.ok (), s')) ∨ ∃ ds fault, Lineage.definitions = .ok ds ∧
      (addLineage o).on s = (.error (.catalog fault), s) ∧ Declines o s ds fault := by
  rw [addLineage_eq, Action.on_bind]
  rcases on_registerMissing_cases h o Lineage.classes with ⟨types, s', hon, -⟩ | ⟨fault, hon, hdeclines⟩
  · rw [hon]
    exact .inl ⟨s', rfl⟩
  · rw [hon]
    exact .inr ⟨Lineage.classes, fault, Lineage.definitions_eq, rfl, hdeclines⟩

namespace Loads

theorem keeps (h : Loads files s path s') : s'.catalog.Keeps s.catalog := by
  obtain ⟨batch, -, hadds⟩ := h
  cases hadds with
  | known => exact .refl _
  | committed _ _ makes => exact makes.keeps

theorem defined (h : Loads files s path s') {n : String} (hn : s'.catalog.Defines n) :
    s.catalog.Defines n ∨ ∃ batch, files.Describes path batch ∧ ∃ d ∈ batch, d.name = n := by
  obtain ⟨batch, hd, hadds⟩ := h
  cases hadds with
  | known => exact .inl hn
  | committed _ _ makes =>
    refine (makes.defined n hn).imp_right fun hx => ?_
    obtain ⟨d, hmem, hname⟩ := hx
    exact ⟨batch, hd, d, (List.mem_filter.1 hmem).1, hname⟩

end Loads

section Loading

variable {paths : List String} {os : Occasions} {fault : ServiceFault}

theorem loadAll_of_ok {types : NameMap Resolved} (h : (load (os 0) files path).on s = (.ok types, s'))
    (paths : List String) : (loadAll files os (path :: paths)).on s = (loadAll files os.tail paths).on s' := by
  rw [loadAll, Action.on_bind, h]

theorem loadAll_of_error (h : (load (os 0) files path).on s = (.error fault, s')) (paths : List String) :
    (loadAll files os (path :: paths)).on s = (.error fault, s') := by
  rw [loadAll, Action.on_bind, h]

theorem prepare_of_ok (h : (loadAll files os paths).on s = (.ok (), s')) (lineage : Bool) :
    (prepare files os paths lineage).on s =
      if lineage then (addLineage (os paths.length)).on s' else (.ok (), s') := by
  rw [prepare, Action.on_bind, h]
  cases lineage <;> rfl

theorem prepare_of_error (h : (loadAll files os paths).on s = (.error fault, s')) (lineage : Bool) :
    (prepare files os paths lineage).on s = (.error fault, s') := by
  rw [prepare, Action.on_bind, h]

end Loading

section Clean

theorem registerMissing_of_clean (h : (⟨s.catalog, batch⟩ : Scope).Clean) (hne : batch ≠ [])
    (hw : o.writable = true) :
    (registerMissing o batch).on s =
      (.ok (⟨s.catalog, batch⟩ : Scope).staged.types, ⟨(⟨s.catalog, batch⟩ : Scope).committed o.now,
        s.journal.append ⟨s.catalog.version + 1, o.now, batch⟩⟩) := by
  have hmissing : batch.filter (fun d => !s.catalog.isCommitted d) = batch := by
    refine List.filter_eq_self.2 fun d hd => ?_
    have hfree : s.catalog.contains d.name = false := h.admitted.free d hd
    cases hc : s.catalog.isCommitted d with
    | false => rfl
    | true => simp [Catalog.contains_of_defines (Catalog.defines_of_isCommitted hc)] at hfree
  rw [on_registerMissing, hmissing, register, Action.on_adapt, Registry.on_persist,
    Catalog.stage_eq_ok_iff.2 ⟨h, rfl⟩, if_neg (by simpa using hne)]
  simp only [hw, if_true]
  rfl

theorem load_of_clean (hd : files.Describes path batch) (h : (⟨s.catalog, batch⟩ : Scope).Clean)
    (hne : batch ≠ []) (hw : o.writable = true) :
    (load o files path).on s =
      (.ok (⟨s.catalog, batch⟩ : Scope).staged.types, ⟨(⟨s.catalog, batch⟩ : Scope).committed o.now,
        s.journal.append ⟨s.catalog.version + 1, o.now, batch⟩⟩) := by
  obtain ⟨text, ht, hb⟩ := hd
  simp only [load, ht, hb]
  rw [Action.on_adapt, registerMissing_of_clean h hne hw]
  rfl

theorem load_of_unreadable {fault : FileFault} (h : files.text path = .error fault) :
    (load o files path).on s = (.error (.file fault), s) := by
  rw [load, h]
  rfl

theorem text_of_eq {text : String} (h : files path = some text.toUTF8) : files.text path = .ok text := by
  have hutf : String.fromUTF8? text.toUTF8 = some text := by
    simp only [String.fromUTF8?, String.toUTF8_eq_toByteArray, dif_pos text.isValidUTF8]
    rfl
  rw [Files.text, h]
  dsimp only
  rw [hutf]

theorem text_of_none (h : files path = none) : files.text path = .error .notFound := by
  rw [Files.text, h]

theorem describes_of_document {document : SchemaDocument} (h : files path = some document.text.toUTF8)
    (hb : document.batch = .ok batch) : files.Describes path batch := by
  refine ⟨document.text, text_of_eq h, ?_⟩
  rw [definitionsOf, SchemaDocument.ofText_text]
  simp only [hb]

end Clean

section Sample

open Registry (codecBatch archiveBatch clean_codecBatch clean_archiveBatch)

def codecDocument : SchemaDocument := ⟨[⟨"Codec", [⟨"ZSTD", 0⟩]⟩], []⟩

def archiveDocument : SchemaDocument :=
  ⟨[], [⟨"Archive", .classType, [], [⟨"codec", "Codec", ⟨1, some 1, false⟩, false, false, false, none⟩], none⟩]⟩

def archiveFiles : Files := fun path =>
  if path = "codec.json" then some codecDocument.text.toUTF8
  else if path = "archive.json" then some archiveDocument.text.toUTF8
  else none

/-- What both files make, one after the other. -/
def archiveService : Service :=
  ⟨(⟨(⟨.empty, codecBatch⟩ : Scope).committed 0, archiveBatch⟩ : Scope).committed 1,
    [(⟨1, 0, codecBatch⟩ : Batch), ⟨2, 1, archiveBatch⟩].foldl Journal.append ∅⟩

theorem loadAll_archive (paths : List String) :
    (loadAll archiveFiles (.cons ⟨0, true⟩ fun n => ⟨n + 1, true⟩) ("codec.json" :: "archive.json" :: paths)).on
        Registry.empty = (loadAll archiveFiles (fun n => ⟨n + 2, true⟩) paths).on archiveService := by
  have hcodec : archiveFiles.Describes "codec.json" codecBatch := describes_of_document (if_pos rfl) rfl
  have harchive : archiveFiles.Describes "archive.json" archiveBatch :=
    describes_of_document ((if_neg (by decide)).trans (if_pos rfl)) rfl
  rw [loadAll_of_ok (load_of_clean hcodec clean_codecBatch (List.cons_ne_nil _ _) rfl),
    loadAll_of_ok (load_of_clean harchive clean_archiveBatch (List.cons_ne_nil _ _) rfl)]
  rfl

theorem integrity_codec : ((⟨.empty, codecBatch⟩ : Scope).committed 0).Integrity :=
  clean_codecBatch.integrity_committed Catalog.integrity_empty

theorem eq_of_defines_archive {n : String} (h : archiveService.catalog.Defines n) :
    n = "Codec" ∨ n = "Archive" := by
  rcases (clean_archiveBatch.makes integrity_codec 1).defined n h with hcodec | ⟨d, hd, rfl⟩
  · rcases (clean_codecBatch.makes Catalog.integrity_empty 0).defined n hcodec with hnone | ⟨d, hd, rfl⟩
    · exact absurd hnone Catalog.not_defines_empty
    · exact .inl (congrArg Definition.name (List.mem_singleton.1 hd))
  · exact .inr (congrArg Definition.name (List.mem_singleton.1 hd))

end Sample

end Service

end TypeCatalog
