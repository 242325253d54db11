import TypeCatalog.Proofs.Reachable
set_option autoImplicit false

/-!
Catalogs told by what is committed in them. Main statements: what is committed stays so in every catalog that
keeps it; and a batch of new names is accepted as soon as some catalog has committed it, and makes just that
catalog. So what two batches make one after the other, both make at once.
-/

namespace TypeCatalog

open Relation

namespace Catalog

variable {c c' : Catalog} {batch : List Definition} {staged : Staged} {now : Nat} {n : String}

theorem isCommitted_enumeration_iff {e : Enumeration} :
    c.isCommitted (.enumeration e) = true ↔ c.enum? e.name = some e := by
  simp [isCommitted]

theorem isCommitted_declaration_iff {d : Declaration} :
    c.isCommitted (.declaration d) = true ↔
      ∃ r, c.type? d.name = some r ∧ d.flatten c.type? = .ok r := by
  rw [isCommitted]
  cases c.type? d.name with
  | none => simp
  | some r => cases d.flatten c.type? <;> simp

theorem defines_of_isCommitted {d : Definition} (h : c.isCommitted d = true) : c.Defines d.name := by
  cases d with
  | enumeration e => exact .inr (mem_enums.2 ⟨e, isCommitted_enumeration_iff.1 h⟩)
  | declaration d =>
    obtain ⟨r, hr, -⟩ := isCommitted_declaration_iff.1 h
    exact .inl (mem_types.2 ⟨r, hr⟩)

/-- The ancestors of what is committed are committed with it, so it flattens to the same later. -/
theorem Keeps.isCommitted (hk : c'.Keeps c) (hi : c.Integrity) {d : Definition}
    (h : c.isCommitted d = true) : c'.isCommitted d = true := by
  cases d with
  | enumeration e =>
    exact isCommitted_enumeration_iff.2 (hk.enums _ e (isCommitted_enumeration_iff.1 h))
  | declaration d =>
    obtain ⟨r, hr, hok⟩ := isCommitted_declaration_iff.1 h
    have hsame : d.flatten c'.type? = d.flatten c.type? :=
      hi.coherent.closed.flatten_eq hk.types (Declaration.flattens_of_flatten hok).supers_known
    exact isCommitted_declaration_iff.2 ⟨r, hk.types _ r hr, hsame.trans hok⟩

theorem contains_of_defines (h : c.Defines n) : c.contains n = true :=
  contains_iff.2 (.inl (ownCategory?_isSome_iff.2 (.inl h)))

theorem Integrity.not_defined_twice (hi : c.Integrity) {r : Resolved} {e : Enumeration}
    (hr : c.type? n = some r) (he : c.enum? n = some e) : False :=
  hi.disjoint n (mem_types.2 ⟨r, hr⟩) (mem_enums.2 ⟨e, he⟩)

end Catalog

namespace Scope

variable {s : Scope} {c : Catalog} {n : String} {k : Kind} {r : Resolved} {e : Enumeration}

/-- A catalog that has committed the batch of a scope besides what was there, and nothing else. -/
structure Makes (s : Scope) (c : Catalog) : Prop where
  keeps : c.Keeps s.catalog
  committed : ∀ d ∈ s.accepted, c.isCommitted d = true
  defined : ∀ n, c.Defines n → s.Defines n

namespace Makes

variable (h : s.Makes c) (hi : c.Integrity)

include h hi

theorem type?_iff :
    c.type? n = some r ↔ s.catalog.type? n = some r ∨
      ∃ d ∈ s.declarations, d.name = n ∧ d.flatten c.type? = .ok r := by
  constructor
  · intro hr
    rcases h.defined n (.inl (Catalog.mem_types.2 ⟨r, hr⟩)) with (ht | he) | ⟨d, hd, rfl⟩
    · obtain ⟨q, hq⟩ := Catalog.mem_types.1 ht
      exact .inl (hq.trans (h.keeps.types n q hq ▸ hr))
    · obtain ⟨e, he⟩ := Catalog.mem_enums.1 he
      exact (hi.not_defined_twice hr (h.keeps.enums n e he)).elim
    · cases d with
      | enumeration e =>
        exact (hi.not_defined_twice hr
          (Catalog.isCommitted_enumeration_iff.1 (h.committed _ hd))).elim
      | declaration d =>
        obtain ⟨q, hq, hok⟩ := Catalog.isCommitted_declaration_iff.1 (h.committed _ hd)
        obtain rfl : q = r := Option.some.inj (hq.symm.trans hr)
        exact .inr ⟨d, mem_declarations.2 hd, rfl, hok⟩
  · intro hx
    rcases hx with hr | ⟨d, hd, rfl, hok⟩
    · exact h.keeps.types n r hr
    · obtain ⟨q, hq, hok'⟩ :=
        Catalog.isCommitted_declaration_iff.1 (h.committed _ (mem_declarations.1 hd))
      exact hq.trans (congrArg some (Except.ok.inj (hok'.symm.trans hok)))

theorem enum?_iff :
    c.enum? n = some e ↔ (.enumeration e ∈ s.accepted ∧ e.name = n) ∨ s.catalog.enum? n = some e := by
  constructor
  · intro he
    rcases h.defined n (.inr (Catalog.mem_enums.2 ⟨e, he⟩)) with (ht | hold) | ⟨d, hd, rfl⟩
    · obtain ⟨r, hr⟩ := Catalog.mem_types.1 ht
      exact (hi.not_defined_twice (h.keeps.types n r hr) he).elim
    · obtain ⟨e', he'⟩ := Catalog.mem_enums.1 hold
      exact .inr (he'.trans (h.keeps.enums n e' he' ▸ he))
    · cases d with
      | enumeration e' =>
        have he' := Catalog.isCommitted_enumeration_iff.1 (h.committed _ hd)
        obtain rfl : e' = e := Option.some.inj (he'.symm.trans he)
        exact .inl ⟨hd, rfl⟩
      | declaration d =>
        obtain ⟨r, hr, -⟩ := Catalog.isCommitted_declaration_iff.1 (h.committed _ hd)
        exact (hi.not_defined_twice hr he).elim
  · intro hx
    rcases hx with ⟨hd, rfl⟩ | he
    · exact Catalog.isCommitted_enumeration_iff.1 (h.committed _ hd)
    · exact h.keeps.enums n e he

theorem hasKind_iff : s.HasKind n k ↔ ∃ r, c.type? n = some r ∧ r.kind = k := by
  simp only [h.type?_iff hi]
  constructor
  · intro hx
    rcases hx with ⟨r, hr, hk⟩ | ⟨d, hd, rfl, hk⟩
    · exact ⟨r, .inl hr, hk⟩
    · obtain ⟨r, -, hok⟩ :=
        Catalog.isCommitted_declaration_iff.1 (h.committed _ (mem_declarations.1 hd))
      exact ⟨r, .inr ⟨d, hd, rfl, hok⟩, (Declaration.flattens_of_flatten hok).kind.trans hk⟩
  · intro hx
    obtain ⟨r, hr | ⟨d, hd, hn, hok⟩, hk⟩ := hx
    · exact .inl ⟨r, hr, hk⟩
    · exact .inr ⟨d, hd, hn, (Declaration.flattens_of_flatten hok).kind.symm.trans hk⟩

theorem superDefects_eq_nil (hs : s.Admitted) : ∀ d ∈ s.declarations, s.superDefects d = [] := by
  refine fun d hd => hs.superDefects_eq_nil_iff.2 fun m hm => ?_
  obtain ⟨r, hr, hok⟩ :=
    Catalog.isCommitted_declaration_iff.1 (h.committed _ (mem_declarations.1 hd))
  have hf := Declaration.flattens_of_flatten hok
  obtain ⟨q, hq, hk⟩ := (hi.coherent _ r hr).super m (hf.supers ▸ hm)
  exact (h.hasKind_iff hi).2 ⟨q, hq, hk.trans hf.kind⟩

theorem attributeDefects_eq_nil : ∀ d ∈ s.declarations, s.attributeDefects d = [] := by
  refine fun d hd => attributeDefects_eq_nil_iff.2 fun a ha m hm => ?_
  obtain ⟨r, hr, hok⟩ :=
    Catalog.isCommitted_declaration_iff.1 (h.committed _ (mem_declarations.1 hd))
  have hra := ((Declaration.flattens_of_flatten hok).holds a.name a).2 ⟨rfl, .inl ha⟩
  exact h.defined m (hi.references _ r hr _ a hra m hm)

/-- Whatever a declaration needs is an ancestor of the type that it has become. -/
theorem cycles_eq_nil (hs : s.Admitted) : s.cycles = [] := by
  have hext : ∀ m k, s.graph.Edge m k → Lookup.Extends c.type? m k := by
    intro m k he
    obtain ⟨d, hd, rfl, hk, -⟩ := hs.needs_of_edge he
    obtain ⟨r, hr, hok⟩ :=
      Catalog.isCommitted_declaration_iff.1 (h.committed _ (mem_declarations.1 hd))
    exact ⟨r, hr, (Declaration.flattens_of_flatten hok).supers ▸ hk⟩
  refine Graph.cycles_eq_nil_of_acyclic fun u hu => ?_
  have hu := TransGen.mono hext u u hu
  obtain ⟨-, ⟨r, hr, -⟩, -⟩ := TransGen.head'_iff.1 hu
  exact (hi.coherent u r hr).not_own_ancestor (((hi.coherent u r hr).ancestors u).2 hu)

theorem keeps_lookup (hs : s.Admitted) (hi₀ : s.catalog.Integrity) :
    Lookup.Keeps c.type? (s.resolveAll.lookup s.catalog) := by
  refine (sound_resolveAll hs hi₀).1.keeps_lookup hs hi₀ h.keeps.types fun n d r hd _ hok => ?_
  exact (h.type?_iff hi).2 (.inr ⟨d, mem_of_declaration? hd, name_of_declaration? hd, hok⟩)

theorem clean (hs : s.Admitted) (hi₀ : s.catalog.Integrity) (hrev : Lookup.Reversible c.type?) :
    s.Clean := by
  have hp := (sound_resolveAll hs hi₀).1
  have hk := h.keeps_lookup hi hs hi₀
  refine ⟨hs, h.superDefects_eq_nil hi hs, h.attributeDefects_eq_nil hi, h.cycles_eq_nil hi hs, ?defects,
    fun d hd => ?reverse⟩
  case defects =>
    refine List.eq_nil_iff_forall_not_mem.2 fun e he => ?_
    obtain ⟨d, hd, ds, hr, -⟩ := hp.defects e he
    obtain ⟨r, -, hok⟩ :=
      Catalog.isCommitted_declaration_iff.1 (h.committed _ (mem_declarations.1 hd))
    have hsame := (hp.closed hi₀).flatten_eq hk hr.supers_known
    cases hok.symm.trans (hsame.trans hr.error)
  case reverse =>
    obtain ⟨q, hq, hok⟩ :=
      Catalog.isCommitted_declaration_iff.1 (h.committed _ (mem_declarations.1 hd))
    refine Declaration.reverseDefects_eq_nil_iff.2 fun a ha reverse hr => ?_
    have hqa := ((Declaration.flattens_of_flatten hok).holds a.name a).2 ⟨rfl, .inl ha⟩
    obtain ⟨k, hkind, hclass⟩ := hrev _ q hq _ a hqa reverse hr
    exact ⟨k, hkind, fun r hr => hclass r (hk k r hr)⟩

theorem committed_eq (hs : s.Admitted) (hi₀ : s.catalog.Integrity)
    (hrev : Lookup.Reversible c.type?) (now : Nat) :
    (s.committed now).types = c.types ∧ (s.committed now).enums = c.enums := by
  have hc := h.clean hi hs hi₀ hrev
  constructor
  · refine SortedMap.ext_get? fun n => Option.ext fun r => ?_
    change (s.committed now).type? n = some r ↔ c.type? n = some r
    rw [type?_committed]
    refine ⟨h.keeps_lookup hi hs hi₀ n r, fun hr => ?_⟩
    have hfound : ∃ q, s.resolveAll.lookup s.catalog n = some q := by
      rcases (h.type?_iff hi).1 hr with hold | ⟨d, hd, rfl, -⟩
      · exact ⟨r, (hc.sound hi₀).keeps_catalog hs n r hold⟩
      · exact hc.resolved hi₀ hd
    obtain ⟨q, hq⟩ := hfound
    exact hq.trans ((h.keeps_lookup hi hs hi₀ n q hq).symm.trans hr)
  · refine SortedMap.ext_get? fun n => Option.ext fun e => ?_
    exact (enum?_committed hs).trans (h.enum?_iff hi).symm

end Makes

theorem Clean.flatten_lookup (hc : s.Clean) (hi : s.catalog.Integrity) {d : Declaration}
    (hd : d ∈ s.declarations) :
    ∃ r, s.resolveAll.lookup s.catalog d.name = some r ∧
      d.flatten (s.resolveAll.lookup s.catalog) = .ok r := by
  obtain ⟨r, hr⟩ := hc.resolved hi hd
  have hdecl := hc.admitted.declaration?_eq_some_iff.2 ⟨hd, rfl⟩
  exact ⟨r, hr, (hc.sound hi).flatten_of_found hc.admitted hdecl hr⟩

theorem Clean.makes (hc : s.Clean) (hi : s.catalog.Integrity) (now : Nat) :
    s.Makes (s.committed now) where
  keeps := hc.keeps hi
  committed d hd := by
    cases d with
    | enumeration e =>
      exact Catalog.isCommitted_enumeration_iff.2 ((enum?_committed hc.admitted).2 (.inl ⟨hd, rfl⟩))
    | declaration d =>
      rw [Catalog.isCommitted_declaration_iff, type?_committed]
      exact hc.flatten_lookup hi (mem_declarations.2 hd)
  defined n hn := (hc.defines_committed hi).1 hn

end Scope

namespace Catalog

variable {c c' : Catalog} {batch : List Definition} {staged : Staged} {now : Nat} {n : String}

theorem makes_commit (hi : c.Integrity) (h : c.stage batch = .ok staged) :
    (⟨c, batch⟩ : Scope).Makes (c.commit staged now) := by
  obtain ⟨hc, rfl⟩ := stage_eq_ok_iff.1 h
  exact hc.makes hi now

theorem exists_stage_of_makes (hi : c.Integrity) (hs : (⟨c, batch⟩ : Scope).Admitted)
    (hc' : c'.Reachable) (h : (⟨c, batch⟩ : Scope).Makes c') :
    ∃ staged, c.stage batch = .ok staged ∧ ∀ now, (c.commit staged now).types = c'.types ∧
      (c.commit staged now).enums = c'.enums :=
  ⟨_, stage_eq_ok_iff.2 ⟨h.clean hc'.integrity hs hi hc'.reversible, rfl⟩,
    h.committed_eq hc'.integrity hs hi hc'.reversible⟩

theorem get?_staged_types_of_eq (hi : c.Integrity) (h : c.stage batch = .ok staged)
    (ht : (c.commit staged now).types = c'.types) {r : Resolved} :
    staged.types.get? n = some r ↔ c'.type? n = some r ∧ n ∉ c.types := by
  have hnew : staged.types.get? n = some r ↔ (c.commit staged now).type? n = some r ∧ n ∉ c.types :=
    get?_staged_types_iff hi h
  rw [hnew, type?, ht, ← type?]

theorem admitted_of_stage (h : c.stage batch = .ok staged) : (⟨c, batch⟩ : Scope).Admitted :=
  (stage_eq_ok_iff.1 h).1.admitted

end Catalog

namespace Scope

variable {c c₁ c₂ : Catalog} {b₁ b₂ : List Definition}

theorem makes_nil (c : Catalog) : (⟨c, []⟩ : Scope).Makes c := ⟨.refl c, nofun, fun _ => .inl⟩

/-- What is made by the first batch is taken for the second, so no name is in both. -/
theorem admitted_append (hs₁ : (⟨c, b₁⟩ : Scope).Admitted) (hm : (⟨c, b₁⟩ : Scope).Makes c₁)
    (hs₂ : (⟨c₁, b₂⟩ : Scope).Admitted) : (⟨c, b₁ ++ b₂⟩ : Scope).Admitted := by
  refine ⟨?distinct, List.forall_mem_append.2 ⟨hs₁.free, fun d hd => ?free⟩⟩
  case distinct =>
    rw [List.map_append, List.nodup_append]
    refine ⟨hs₁.distinct, hs₂.distinct, fun n hn m hm' hnm => ?_⟩
    obtain ⟨d, hd, rfl⟩ := List.mem_map.1 hn
    obtain ⟨e, he, rfl⟩ := List.mem_map.1 hm'
    have htaken := Catalog.contains_of_defines (Catalog.defines_of_isCommitted (hm.committed d hd))
    rw [hnm, hs₂.free e he] at htaken
    cases htaken
  case free =>
    refine Bool.eq_false_iff.2 fun hd' => Bool.eq_false_iff.1 (hs₂.free d hd) ?_
    exact Catalog.contains_mono (fun m hm' => hm.keeps.defines hm') hd'

theorem makes_append (hi : c₁.Integrity) (hm₁ : (⟨c, b₁⟩ : Scope).Makes c₁)
    (hm₂ : (⟨c₁, b₂⟩ : Scope).Makes c₂) : (⟨c, b₁ ++ b₂⟩ : Scope).Makes c₂ where
  keeps := hm₂.keeps.trans hm₁.keeps
  committed := by
    refine List.forall_mem_append.2 ⟨fun d hd => ?_, hm₂.committed⟩
    exact hm₂.keeps.isCommitted hi (hm₁.committed d hd)
  defined n hn := by
    rcases hm₂.defined n hn with hn | ⟨d, hd, hdn⟩
    · rcases hm₁.defined n hn with hn | ⟨d, hd, hdn⟩
      · exact .inl hn
      · exact .inr ⟨d, List.mem_append_left b₂ hd, hdn⟩
    · exact .inr ⟨d, List.mem_append_right b₁ hd, hdn⟩

end Scope

namespace Registry

variable {r r' : Registry} {call : Call} {types : NameMap Resolved}

/-- Whether nothing but the batch can make a call fail. -/
def Call.writable : Call → Bool
  | .register _ _ => true
  | .persist o _ => o.writable

theorem Call.on_of_stage (hw : call.writable = true) (hb : call.batch ≠ []) {staged : Staged}
    (hst : r.catalog.stage call.batch = .ok staged) :
    call.action.on r = (.ok staged.types, call.committed r staged) := by
  cases call with
  | register now batch =>
    have hne : ¬batch.isEmpty := fun h => hb (List.isEmpty_iff.1 h)
    rw [action, on_register, if_neg hne, show r.catalog.stage batch = .ok staged from hst]
    rfl
  | persist o batch =>
    have hne : ¬batch.isEmpty := fun h => hb (List.isEmpty_iff.1 h)
    have hw : o.writable = true := hw
    rw [action, on_persist, if_neg hne, show r.catalog.stage batch = .ok staged from hst]
    dsimp only
    rw [if_pos hw]
    rfl

theorem Call.makes (call : Call) (hi : r.catalog.Integrity) (h : call.action.on r = (.ok types, r')) :
    (⟨r.catalog, call.batch⟩ : Scope).Admitted ∧ (⟨r.catalog, call.batch⟩ : Scope).Makes r'.catalog := by
  rcases call.on_cases r with ⟨hb, hon⟩ | ⟨e, hon⟩ | ⟨staged, hst, hon⟩
  · cases h.symm.trans hon
    rw [hb]
    exact ⟨⟨.nil, nofun⟩, Scope.makes_nil _⟩
  · cases h.symm.trans hon
  · cases h.symm.trans hon
    exact ⟨Catalog.admitted_of_stage hst, Catalog.makes_commit hi hst⟩

theorem merged_call_makes_same (ops : List Operation) (call₁ call₂ call : Call)
    {types₁ types₂ : NameMap Resolved} {r₁ r₂ : Registry}
    (h₁ : call₁.action.on (after ops) = (.ok types₁, r₁)) (h₂ : call₂.action.on r₁ = (.ok types₂, r₂))
    (hb : call.batch = call₁.batch ++ call₂.batch) (hw : call.writable = true) :
    ∃ types r, call.action.on (after ops) = (.ok types, r) ∧ r.catalog.types = r₂.catalog.types ∧
      r.catalog.enums = r₂.catalog.enums := by
  have hc := reachable_after ops
  have hc₁ : r₁.catalog.Reachable := by simpa [h₁] using call₁.reachable hc
  have hc₂ : r₂.catalog.Reachable := by simpa [h₂] using call₂.reachable hc₁
  obtain ⟨hs₁, hm₁⟩ := call₁.makes hc.integrity h₁
  obtain ⟨hs₂, hm₂⟩ := call₂.makes hc₁.integrity h₂
  by_cases hnil : call.batch = []
  · obtain ⟨hb₁, hb₂⟩ := List.append_eq_nil_iff.1 (hb.symm.trans hnil)
    cases h₁.symm.trans (Call.on_of_batch_eq_nil hb₁ _)
    cases h₂.symm.trans (Call.on_of_batch_eq_nil hb₂ _)
    exact ⟨_, _, Call.on_of_batch_eq_nil hnil _, rfl, rfl⟩
  · obtain ⟨staged, hst, heq⟩ := Catalog.exists_stage_of_makes hc.integrity
      (Scope.admitted_append hs₁ hm₁ hs₂) hc₂ (Scope.makes_append hc₁.integrity hm₁ hm₂)
    exact ⟨_, _, Call.on_of_stage hw hnil (hb ▸ hst), heq call.now⟩

def codecBatch : List Definition :=
  [.enumeration ⟨"Codec", [⟨"ZSTD", 0⟩], by decide, by decide, by decide, by decide⟩]

def archiveBatch : List Definition :=
  [.declaration ⟨.classType, "Archive", ∅,
    [⟨"codec", "Codec", .required, false, false, false, none, by decide, by decide, indexed_of_false⟩],
    by decide, no_supers_nonblank⟩]

theorem clean_codecBatch : (⟨.empty, codecBatch⟩ : Scope).Clean := Scope.clean_enumeration (by cbv)

theorem clean_archiveBatch : (⟨(⟨.empty, codecBatch⟩ : Scope).committed 0, archiveBatch⟩ : Scope).Clean := by
  refine ⟨⟨by decide, ?free⟩, ?supers, ?references, by cbv, by cbv, ?reverse⟩
  all_goals
    simp only [archiveBatch, Scope.declarations, List.filterMap_cons, Definition.declaration?,
      List.filterMap_nil, List.forall_mem_singleton]
    cbv

theorem merged_archive_call :
    ∃ types₁ types₂ r₁ r₂ types r,
      (Call.register 0 codecBatch).action.on (after []) = (.ok types₁, r₁) ∧
      (Call.register 1 archiveBatch).action.on r₁ = (.ok types₂, r₂) ∧
      (Call.persist ⟨2, true⟩ (codecBatch ++ archiveBatch)).action.on (after []) = (.ok types, r) ∧
      r.catalog.types = r₂.catalog.types ∧ r.catalog.enums = r₂.catalog.enums := by
  have h₁ := on_register_of_clean (r := after []) rfl clean_codecBatch 0
  have h₂ := on_register_of_clean (r := ⟨(⟨.empty, codecBatch⟩ : Scope).committed 0, ∅⟩) rfl
    clean_archiveBatch 1
  obtain ⟨types, r, h⟩ := merged_call_makes_same [] (.register 0 codecBatch) (.register 1 archiveBatch)
    (.persist ⟨2, true⟩ (codecBatch ++ archiveBatch)) h₁ h₂ rfl rfl
  exact ⟨_, _, _, _, types, r, h₁, h₂, h⟩

end Registry

end TypeCatalog
