import TypeCatalog.Proofs.Extension
set_option autoImplicit false

/-!
Batches in another order. Main statements: of the batches with the same definitions either all are staged to
the same types and enumerations or all are refused with the same defects; and what is staged does not depend
on the order of the attributes in a declaration, nor on how its supertypes were listed.
-/

namespace TypeCatalog

namespace Resolution

variable {s : Scope} {p q : Resolution} {pending : List Declaration} {d e : Declaration}
  {ds : List Defect} {told : List (Declaration × List Defect)}

theorem Rejects.unique {c : Catalog} {ds' : List Defect} (h : p.Rejects c d ds) (h' : p.Rejects c d ds') :
    ds = ds' := Except.error.inj (h.error.symm.trans h'.error)

theorem Sound.not_rejects_of_needs (hp : Sound s p) (hs : s.Admitted) (hd : s.declaration? d.name = some d)
    {m : String} (hm : s.Needs d.name m) (hst : Stuck s p m) : ¬p.Rejects s.catalog d ds := fun h => by
  obtain ⟨hsuper, hdecl⟩ := (hs.needs_of_declaration? hd).1 hm
  exact hp.unknown_of_stuck hs hdecl hst (h.supers_known m hsuper)

/-- A declaration that has failed was rejected then, or will never have all its supertypes. -/
theorem Sound.rejects_iff (hp : Sound s p) (hs : s.Admitted) (hi : s.catalog.Integrity)
    (hg : Grows s.catalog p q) (hq : Sound s q) (hd : s.declaration? d.name = some d)
    (hf : d.name ∈ p.failed) : q.Rejects s.catalog d ds ↔ p.Rejects s.catalog d ds := by
  have hc := hp.closed hi
  refine ⟨fun h => ?_, fun h => h.mono hg hc⟩
  obtain ⟨d', hd', ⟨m, hm, hst⟩ | ⟨ds', hr, -⟩⟩ := hp.failed _ hf
  · exact absurd h (hq.not_rejects_of_needs hs hd hm (hg.stuck hst))
  · obtain rfl : d = d' := Option.some.inj (hd.symm.trans hd')
    exact h.unique (hr.mono hg hc) ▸ hr

/-- The declarations that are told of, each with its defects and in the order in which they are told. -/
structure Tells (s : Scope) (p : Resolution) (told : List (Declaration × List Defect)) : Prop where
  nodup : told.Nodup
  defects : p.defects = told.flatMap Prod.snd
  mem_iff : ∀ d ds, (d, ds) ∈ told ↔
    s.declaration? d.name = some d ∧ d.name ∉ s.blocked ∧ d.name ∈ p.failed ∧ p.Rejects s.catalog d ds

theorem tells_start : Tells s start [] := ⟨.nil, rfl, by simp [start]⟩

theorem Tells.fail (ht : Tells s p told) (ho : Open s pending p d) (more : List (Declaration × List Defect))
    (hn : more.Nodup)
    (hold : ∀ e es, s.declaration? e.name = some e → e.name ∈ p.failed →
      ((p.fail d.name ds).Rejects s.catalog e es ↔ p.Rejects s.catalog e es))
    (hmore : ∀ e es, (e, es) ∈ more ↔ e = d ∧ (p.fail d.name ds).Rejects s.catalog d es)
    (hds : ds = more.flatMap Prod.snd) : Tells s (p.fail d.name ds) (told ++ more) := by
  refine ⟨?nodup, ?defects, fun e es => ?mem⟩
  case nodup =>
    refine List.nodup_append.2 ⟨ht.nodup, hn, fun x hx y hy hxy => ?_⟩
    subst hxy
    obtain ⟨hxd, -⟩ := (hmore x.1 x.2).1 hy
    exact ho.not_failed (hxd ▸ ((ht.mem_iff x.1 x.2).1 hx).2.2.1)
  case defects => rw [Resolution.fail, ht.defects, List.flatMap_append, hds]
  case mem =>
    rw [List.mem_append, ht.mem_iff, hmore]
    constructor
    · intro hx
      rcases hx with ⟨he, hb, hf, hr⟩ | ⟨rfl, hr⟩
      · exact ⟨he, hb, SortedMap.mem_insert.2 (.inr hf), (hold e es he hf).2 hr⟩
      · exact ⟨ho.declared, ho.not_blocked, SortedMap.mem_insert.2 (.inl rfl), hr⟩
    · intro hx
      obtain ⟨he, hb, hf, hr⟩ := hx
      rcases SortedMap.mem_insert.1 hf with hname | hf
      · obtain rfl : e = d := Option.some.inj (he.symm.trans (hname ▸ ho.declared))
        exact .inr ⟨rfl, hr⟩
      · exact .inl ⟨he, hb, hf, (hold e es he hf).1 hr⟩

theorem Turn.tells (h : Turn s pending d p q) (hp : Sound s p) (hs : s.Admitted)
    (hi : s.catalog.Integrity) (ht : Tells s p told) : ∃ told', Tells s q told' := by
  have hq := h.sound hp hs hi
  have hg := h.grows hp hs
  have hold : ∀ e es, s.declaration? e.name = some e → e.name ∈ p.failed →
      (q.Rejects s.catalog e es ↔ p.Rejects s.catalog e es) := fun e es he hf =>
    hp.rejects_iff hs hi hg hq he hf
  cases h.step with
  | succeed hok =>
    refine ⟨told, ht.nodup, ht.defects, fun e es => (ht.mem_iff e es).trans ?_⟩
    exact and_congr_right fun he => and_congr_right fun _ => and_congr_right fun hf => (hold e es he hf).symm
  | pass hm hst =>
    refine ⟨_, ht.fail h.toOpen [] .nil hold (fun e es => ?_) rfl⟩
    simpa using fun _ => hq.not_rejects_of_needs hs h.declared hm (hg.stuck hst)
  | @reject ds₀ hrej =>
    have hrej' := hrej.mono hg (hp.closed hi)
    refine ⟨_, ht.fail h.toOpen [(d, ds₀)] (List.nodup_singleton _) hold (fun e es => ?_) (by simp)⟩
    rw [List.mem_singleton, Prod.mk.injEq]
    exact and_congr_right fun _ => ⟨fun hes => hes ▸ hrej', fun hr => hr.unique hrej'⟩

theorem Turns.tells (h : Turns s pending p q) (hp : Sound s p) (hs : s.Admitted)
    (hi : s.catalog.Integrity) (ht : Tells s p told) : ∃ told', Tells s q told' := by
  induction h with
  | refl => exact ⟨told, ht⟩
  | tail hb hturn ih =>
    obtain ⟨d, hturn⟩ := hturn
    obtain ⟨told', ht'⟩ := ih
    exact hturn.tells (Turns.sound hb hp hs hi) hs hi ht'

end Resolution

namespace Scope

open Resolution

variable {s s' : Scope} {d : Declaration} {n : String} {r : Resolved} {ds : List Defect}

section Final

variable (hs : s.Admitted) (hi : s.catalog.Integrity)

include hs hi

theorem found_of_flatten (hd : s.declaration? n = some d) (hb : n ∉ s.blocked)
    (hok : d.flatten (s.resolveAll.lookup s.catalog) = .ok r) :
    s.resolveAll.lookup s.catalog n = some r := by
  obtain ⟨hsound, hall⟩ := sound_resolveAll hs hi
  obtain ⟨hm, rfl⟩ := hs.declaration?_eq_some_iff.1 hd
  rcases hall d hm with ⟨q, hq⟩ | hf | hblocked
  · exact hq.trans (congrArg some (Except.ok.inj ((hsound.flatten_of_found hs hd hq).symm.trans hok)))
  · obtain ⟨d', hd', hcause⟩ := hsound.failed _ hf
    obtain rfl : d = d' := Option.some.inj (hd.symm.trans hd')
    exact absurd (hcause.imp_right fun h => h.imp fun _ hr => hr.1) (hsound.not_failing hs hd hok)
  · exact absurd hblocked hb

theorem exists_tells : ∃ told : List (Declaration × List Defect), told.Nodup ∧
    s.resolveAll.defects = told.flatMap Prod.snd ∧ ∀ d ds, (d, ds) ∈ told ↔
      s.declaration? d.name = some d ∧ d.name ∉ s.blocked ∧ s.resolveAll.Rejects s.catalog d ds := by
  obtain ⟨hturns, hall⟩ := turns_resolveAll hs hi
  have hsound := hturns.sound sound_start hs hi
  obtain ⟨told, ht⟩ := hturns.tells sound_start hs hi tells_start
  refine ⟨told, ht.nodup, ht.defects, fun d ds => (ht.mem_iff d ds).trans ?_⟩
  refine and_congr_right fun hd => and_congr_right fun hb => and_iff_right_of_imp fun hr => ?_
  rcases hall d (mem_of_declaration? hd) with ⟨q, hq⟩ | hf | hblocked
  · cases (hsound.flatten_of_found hs hd hq).symm.trans hr.error
  · exact hf
  · exact absurd hblocked hb

end Final

structure Rearranges (s s' : Scope) : Prop where
  catalog : s'.catalog = s.catalog
  accepted : s.accepted.Perm s'.accepted

namespace Rearranges

theorem symm (h : s.Rearranges s') : s'.Rearranges s := ⟨h.catalog.symm, h.accepted.symm⟩

theorem admitted (h : s.Rearranges s') (hs : s.Admitted) : s'.Admitted where
  distinct := (h.accepted.map Definition.name).nodup_iff.1 hs.distinct
  free d hd := h.catalog ▸ hs.free d (h.accepted.mem_iff.2 hd)

theorem declarations (h : s.Rearranges s') : s.declarations.Perm s'.declarations :=
  h.accepted.filterMap Definition.declaration?

theorem enums (h : s.Rearranges s') : s.enums.Perm s'.enums :=
  h.accepted.filterMap Definition.enumeration?

section Admitted

variable (h : s.Rearranges s') (hs : s.Admitted)

include h hs

theorem declaration?_eq (n : String) : s'.declaration? n = s.declaration? n := by
  refine Option.ext fun d => ?_
  rw [(h.admitted hs).declaration?_eq_some_iff, hs.declaration?_eq_some_iff, h.declarations.mem_iff]

theorem batchCategory?_eq (n : String) : s'.batchCategory? n = s.batchCategory? n := by
  rw [batchCategory?, batchCategory?, h.declaration?_eq hs, h.enums.any_eq]

theorem ownCategory?_eq (n : String) : s'.ownCategory? n = s.ownCategory? n := by
  rw [ownCategory?, ownCategory?, h.catalog, h.batchCategory?_eq hs]

theorem category?_eq (n : String) : s'.category? n = s.category? n := by
  simp only [category?, h.catalog, h.batchCategory?_eq hs, h.ownCategory?_eq hs]

theorem superDefects_eq (d : Declaration) : s'.superDefects d = s.superDefects d := by
  simp only [superDefects, h.category?_eq hs]

theorem referenceDefects_eq (d : Declaration) : s'.referenceDefects d = s.referenceDefects d := by
  simp only [referenceDefects, superDefects, attributeDefects, h.category?_eq hs]

theorem edges_eq (d : Declaration) : s'.edges d = s.edges d := by
  simp only [edges, h.category?_eq hs, h.declaration?_eq hs]

/-- The graph is kept in the order of its names, so its cycles are found on the same ways. -/
theorem cycles_eq : s'.cycles = s.cycles := by
  have hkeys : ∀ {t : Scope}, t.Admitted →
      ((t.declarations.map fun d => (d.name, t.edges d)).map Prod.fst).Nodup := by
    intro t ht
    rw [List.map_map]
    exact ht.declarations_nodup
  have hgraph : s'.graph = s.graph := by
    refine SortedMap.ext_get? fun n => Option.ext fun edges => ?_
    rw [graph, graph, SortedMap.get?_ofList (hkeys (h.admitted hs)), SortedMap.get?_ofList (hkeys hs)]
    simp only [List.mem_map, h.edges_eq hs, h.declarations.mem_iff]
  rw [cycles, cycles, hgraph]

theorem blocked_eq : s'.blocked = s.blocked := by
  refine NameSet.ext_mem fun n => ?_
  simp only [mem_blocked, h.cycles_eq hs, h.superDefects_eq hs, h.declarations.mem_iff]

theorem keeps_lookup (hi : s.catalog.Integrity) :
    Lookup.Keeps (s'.resolveAll.lookup s.catalog) (s.resolveAll.lookup s.catalog) := by
  have hs' := h.admitted hs
  have hi' : s'.catalog.Integrity := h.catalog ▸ hi
  have hkeeps := (sound_resolveAll hs' hi').1.keeps_catalog hs'
  rw [h.catalog] at hkeeps
  refine (sound_resolveAll hs hi).1.keeps_lookup hs hi hkeeps fun n d r hd hb hok => ?_
  rw [← h.catalog] at hok ⊢
  exact found_of_flatten hs' hi' (h.declaration?_eq hs n ▸ hd) (h.blocked_eq hs ▸ hb) hok

theorem lookup_eq (hi : s.catalog.Integrity) :
    s'.resolveAll.lookup s.catalog = s.resolveAll.lookup s.catalog := by
  have hback := h.symm.keeps_lookup (h.admitted hs) (h.catalog ▸ hi)
  rw [h.catalog] at hback
  exact funext fun n => Option.ext fun r => ⟨hback n r, h.keeps_lookup hs hi n r⟩

theorem resolved_eq (hi : s.catalog.Integrity) : s'.resolveAll.resolved = s.resolveAll.resolved := by
  refine SortedMap.ext_get? fun n => Option.ext fun r => ?_
  have hs' := h.admitted hs
  have hi' : s'.catalog.Integrity := h.catalog ▸ hi
  rw [(sound_resolveAll hs' hi').1.get?_resolved_iff hs', (sound_resolveAll hs hi).1.get?_resolved_iff hs,
    h.catalog, h.lookup_eq hs hi]

theorem defects_perm (hi : s.catalog.Integrity) :
    s.resolveAll.defects.Perm s'.resolveAll.defects := by
  obtain ⟨told, hn, hd, hm⟩ := exists_tells hs hi
  obtain ⟨told', hn', hd', hm'⟩ := exists_tells (h.admitted hs) (h.catalog ▸ hi)
  rw [hd, hd']
  refine List.Perm.flatMap_right _ ((List.perm_ext_iff_of_nodup hn hn').2 fun x => ?_)
  obtain ⟨d, ds⟩ := x
  have hrej : s'.resolveAll.Rejects s'.catalog d ds ↔ s.resolveAll.Rejects s.catalog d ds := by
    rw [h.catalog]
    constructor
    · intro hr
      exact ⟨h.lookup_eq hs hi ▸ hr.supers_known, h.lookup_eq hs hi ▸ hr.error⟩
    · intro hr
      exact ⟨(h.lookup_eq hs hi).symm ▸ hr.supers_known, (h.lookup_eq hs hi).symm ▸ hr.error⟩
  rw [hm, hm', hrej, h.declaration?_eq hs, h.blocked_eq hs]

end Admitted

end Rearranges

end Scope

namespace Admission

variable {c : Catalog} {batch : List Definition}

theorem ofBatch_of_nodup (h : (batch.map Definition.name).Nodup) :
    (ofBatch c batch).accepted = batch.filter (fun d => !c.contains d.name) ∧
      (ofBatch c batch).refused =
        (batch.filter fun d => c.contains d.name).map fun d => .duplicateType d.name := by
  induction batch using List.reverseRecOn with
  | nil => exact ⟨rfl, rfl⟩
  | append_singleton batch d ih =>
    rw [List.map_append, List.nodup_append] at h
    obtain ⟨hbatch, -, hnew⟩ := h
    obtain ⟨haccepted, hrefused⟩ := ih hbatch
    have htaken : d.name ∉ (ofBatch c batch).taken := by
      rw [(valid_ofBatch c batch).taken, haccepted]
      intro hm
      obtain ⟨e, he, hn⟩ := List.mem_map.1 hm
      exact hnew e.name (List.mem_map_of_mem (List.mem_of_mem_filter he)) d.name (by simp) hn
    rw [ofBatch_concat, Admission.add]
    cases hd : c.contains d.name <;> simp [hd, htaken, haccepted, hrefused]

end Admission

namespace Catalog

variable {c : Catalog} {batch batch' : List Definition}

/-- Two results of staging that are the same but for the order in which things are listed. -/
inductive SameStaging : Except (List Defect) Staged → Except (List Defect) Staged → Prop
  | accepted {staged staged' : Staged} (types : staged.types = staged'.types)
    (enums : staged.enums.Perm staged'.enums) : SameStaging (.ok staged) (.ok staged')
  | refused {ds ds' : List Defect} (defects : ds.Perm ds') : SameStaging (.error ds) (.error ds')

theorem SameStaging.exists_ok {staged : Staged} {result : Except (List Defect) Staged}
    (h : SameStaging (.ok staged) result) :
    ∃ staged', result = .ok staged' ∧ staged.types = staged'.types ∧ staged.enums.Perm staged'.enums := by
  cases h with
  | accepted ht he => exact ⟨_, rfl, ht, he⟩

theorem rearranges_scope (hn : (batch.map Definition.name).Nodup) (hp : batch.Perm batch') :
    (c.scope batch).Rearranges (c.scope batch') := by
  refine ⟨rfl, ?_⟩
  rw [scope, scope, (Admission.ofBatch_of_nodup hn).1,
    (Admission.ofBatch_of_nodup ((hp.map Definition.name).nodup_iff.1 hn)).1]
  exact hp.filter _

theorem sameStaging_of_perm (hi : c.Integrity) (hn : (batch.map Definition.name).Nodup)
    (hp : batch.Perm batch') : SameStaging (c.stage batch) (c.stage batch') := by
  have h := rearranges_scope (c := c) hn hp
  have hs := Scope.admitted_scope c batch
  have hrefused : (Admission.ofBatch c batch).refused.Perm (Admission.ofBatch c batch').refused := by
    rw [(Admission.ofBatch_of_nodup hn).2,
      (Admission.ofBatch_of_nodup ((hp.map Definition.name).nodup_iff.1 hn)).2]
    exact (hp.filter _).map _
  have hreverse : ∀ d : Declaration, d.reverseDefects ((c.scope batch').resolveAll.lookup c) =
      d.reverseDefects ((c.scope batch).resolveAll.lookup c) := fun d =>
    congrArg d.reverseDefects (h.lookup_eq hs hi)
  have hdefects := (((hrefused.append
    (h.declarations.flatMap_right (c.scope batch).referenceDefects)).append
    (.refl ((c.scope batch).cycles.map Defect.cycle))).append (h.defects_perm hs hi)).append
    (h.declarations.flatMap_right fun d => d.reverseDefects ((c.scope batch).resolveAll.lookup c))
  simp only [stage, funext (h.referenceDefects_eq hs), h.cycles_eq hs, hreverse,
    ← List.Perm.isEmpty_eq hdefects]
  split
  · exact .accepted (h.resolved_eq hs hi).symm h.enums
  · exact .refused hdefects

structure Alike (batch batch' : List Definition) : Prop where
  names : (batch.map Definition.name).Perm (batch'.map Definition.name)
  committed : ∀ c : Catalog,
    (∀ d ∈ batch, c.isCommitted d = true) ↔ ∀ d ∈ batch', c.isCommitted d = true

namespace Alike

theorem symm (h : Alike batch batch') : Alike batch' batch := ⟨h.names.symm, fun c => (h.committed c).symm⟩

theorem exists_name_iff (h : Alike batch batch') {n : String} :
    (∃ d ∈ batch', d.name = n) ↔ ∃ d ∈ batch, d.name = n := by
  rw [← List.mem_map, ← List.mem_map, h.names.mem_iff]

theorem admitted (h : Alike batch batch') (hs : (⟨c, batch⟩ : Scope).Admitted) :
    (⟨c, batch'⟩ : Scope).Admitted := by
  refine ⟨h.names.nodup_iff.1 hs.distinct, fun d hd => ?_⟩
  obtain ⟨e, he, hn⟩ := h.exists_name_iff.1 ⟨d, hd, rfl⟩
  exact hn ▸ hs.free e he

theorem makes {c' : Catalog} (h : Alike batch batch') (hm : (⟨c, batch⟩ : Scope).Makes c') :
    (⟨c, batch'⟩ : Scope).Makes c' where
  keeps := hm.keeps
  committed := (h.committed c').1 hm.committed
  defined n hn := (hm.defined n hn).imp_right h.exists_name_iff.2

theorem stage (h : Alike batch batch') (hc : c.Reachable) {staged : Staged}
    (hst : c.stage batch = .ok staged) :
    ∃ staged', c.stage batch' = .ok staged' ∧ staged'.types = staged.types := by
  have hm : (⟨c, batch⟩ : Scope).Makes (c.commit staged 0) := makes_commit hc.integrity hst
  obtain ⟨staged', hst', heq⟩ := exists_stage_of_makes hc.integrity (h.admitted (admitted_of_stage hst))
    (hc.commit hst 0) (h.makes hm)
  refine ⟨staged', hst', SortedMap.ext_get? fun n => Option.ext fun r => ?_⟩
  rw [get?_staged_types_of_eq hc.integrity hst' (heq 0).1, get?_staged_types_iff hc.integrity hst]

theorem types_iff (h : Alike batch batch') (hc : c.Reachable) {types : NameMap Resolved} :
    (∃ staged, c.stage batch' = .ok staged ∧ staged.types = types) ↔
      ∃ staged, c.stage batch = .ok staged ∧ staged.types = types := by
  constructor
  · intro hx
    obtain ⟨staged', hst', rfl⟩ := hx
    exact h.symm.stage hc hst'
  · intro hx
    obtain ⟨staged, hst, rfl⟩ := hx
    exact h.stage hc hst

end Alike

end Catalog

namespace Declaration

variable {d : Declaration} {supers : List String} {attributes : List Attribute}

theorem make_listed (hs : ∀ n, n ∈ supers ↔ n ∈ d.supers) :
    make d.category d.name supers attributes = .ok { d with attributes } := by
  have hsupers : NameSet.ofList supers = d.supers :=
    NameSet.ext_mem fun n => NameSet.mem_ofList.trans (hs n)
  rw [make, category, Kind.kind?_category]
  simp only [ofKind, hsupers, d.name_nonblank, d.supers_nonblank, dite_true]

theorem flatten_reordered {lookup : Lookup} {r : Resolved} (ha : attributes.Perm d.attributes) :
    ({ d with attributes } : Declaration).flatten lookup = .ok r ↔ d.flatten lookup = .ok r := by
  have hcontributes : ∀ a, ({ d with attributes } : Declaration).Contributes lookup a ↔
      d.Contributes lookup a := fun a => or_congr_left ha.mem_iff
  rw [flatten_eq_ok_iff, flatten_eq_ok_iff]
  constructor
  · intro h
    exact ⟨h.name, h.kind, h.supers, h.ancestors, h.supers_known, h.ancestors_known, fun n a => by
      rw [h.holds, hcontributes]⟩
  · intro h
    exact ⟨h.name, h.kind, h.supers, h.ancestors, h.supers_known, h.ancestors_known, fun n a => by
      rw [h.holds, hcontributes]⟩

end Declaration

namespace Definition

/-- A definition is made once more: a declaration from its attributes in any order, and from its supertypes
in any order and as often as one likes. -/
inductive Remade : Definition → Except Defect Definition → Prop
  | enumeration (e : Enumeration) : Remade (.enumeration e) (.ok (.enumeration e))
  | declaration (d : Declaration) {supers : List String} {attributes : List Attribute}
    (hs : ∀ n, n ∈ supers ↔ n ∈ d.supers) (ha : attributes.Perm d.attributes) :
    Remade (.declaration d)
      ((Declaration.make d.category d.name supers attributes).map .declaration)

theorem Remade.exists_ok {d : Definition} {made : Except Defect Definition} (h : d.Remade made) :
    ∃ d', made = .ok d' ∧ d'.name = d.name ∧ ∀ c : Catalog, c.isCommitted d' = c.isCommitted d := by
  cases h with
  | enumeration e => exact ⟨_, rfl, rfl, fun _ => rfl⟩
  | declaration d hs ha =>
    rw [Declaration.make_listed hs]
    refine ⟨_, rfl, rfl, fun c => Bool.eq_iff_iff.2 ?_⟩
    simp only [Catalog.isCommitted_declaration_iff, Declaration.flatten_reordered ha]

theorem exists_alike {listed : List Definition} {made : List (Except Defect Definition)}
    (h : List.Forall₂ Remade listed made) :
    ∃ batch, made = batch.map .ok ∧ Catalog.Alike listed batch := by
  induction h with
  | nil => exact ⟨[], rfl, .refl _, fun _ => Iff.rfl⟩
  | cons h _ ih =>
    obtain ⟨d', rfl, hn, hc⟩ := h.exists_ok
    obtain ⟨batch, rfl, halike⟩ := ih
    refine ⟨d' :: batch, rfl, ?_, fun c => ?_⟩
    · rw [List.map_cons, List.map_cons, hn]
      exact halike.names.cons _
    · rw [List.forall_mem_cons, List.forall_mem_cons, hc, halike.committed]

end Definition

namespace Registry

theorem staging_ignores_order (ops : List Operation) {batch : List Definition}
    (hn : (batch.map Definition.name).Nodup) :
    (∀ batch', batch.Perm batch' →
      Catalog.SameStaging ((after ops).catalog.stage batch) ((after ops).catalog.stage batch')) ∧
    ∀ listed made, batch.Perm listed → List.Forall₂ Definition.Remade listed made →
      ∃ batch', made = batch'.map .ok ∧ ∀ types,
        (∃ staged, (after ops).catalog.stage batch' = .ok staged ∧ staged.types = types) ↔
          ∃ staged, (after ops).catalog.stage batch = .ok staged ∧ staged.types = types := by
  have hc := reachable_after ops
  refine ⟨fun batch' hp => Catalog.sameStaging_of_perm hc.integrity hn hp, fun listed made hp hm => ?_⟩
  obtain ⟨batch', rfl, halike⟩ := Definition.exists_alike hm
  have hbatch : Catalog.Alike batch batch' := by
    refine ⟨(hp.map Definition.name).trans halike.names, fun c => ?_⟩
    rw [← halike.committed]
    exact forall_congr' fun d => imp_congr_left hp.mem_iff
  exact ⟨batch', rfl, fun types => hbatch.types_iff hc⟩

/-- Attributes from the last to the first, and each supertype twice. -/
def madeAgain : Definition → Except Defect Definition
  | .enumeration e => .ok (.enumeration e)
  | .declaration d =>
    (Declaration.make d.category d.name (d.supers.toList ++ d.supers.toList) d.attributes.reverse).map
      .declaration

theorem remade_madeAgain (d : Definition) : d.Remade (madeAgain d) := by
  cases d with
  | enumeration e => exact .enumeration e
  | declaration d =>
    exact .declaration d (fun n => by simp [NameSet.mem_toList]) (List.reverse_perm d.attributes)

theorem staging_tables_ignores_order :
    (tableBatch.map Definition.name).Nodup ∧
      ∃ staged staged' batch staged'',
        Catalog.empty.stage tableBatch = .ok staged ∧
        Catalog.empty.stage tableBatch.reverse = .ok staged' ∧ staged.types = staged'.types ∧
        staged.enums.Perm staged'.enums ∧
        tableBatch.map madeAgain = batch.map .ok ∧
        Catalog.empty.stage batch = .ok staged'' ∧ staged''.types = staged.types := by
  have hn : (tableBatch.map Definition.name).Nodup := by decide
  have hst : Catalog.empty.stage tableBatch = .ok _ := Catalog.stage_eq_ok_iff.2 ⟨clean_tableBatch, rfl⟩
  obtain ⟨hperm, hremade⟩ := staging_ignores_order [] hn
  have hrev : Catalog.SameStaging (Catalog.empty.stage tableBatch) (Catalog.empty.stage tableBatch.reverse) :=
    hperm _ (List.reverse_perm tableBatch).symm
  obtain ⟨batch, hbatch, htypes⟩ := hremade tableBatch (tableBatch.map madeAgain) (.refl _)
    (List.forall₂_map_right_iff.2 (List.forall₂_same.2 fun d _ => remade_madeAgain d))
  obtain ⟨staged'', hst'', ht''⟩ := (htypes _).2 ⟨_, hst, rfl⟩
  obtain ⟨staged', hst', ht', he'⟩ := (hst ▸ hrev).exists_ok
  exact ⟨hn, _, staged', batch, staged'', hst, hst', ht', he', hbatch, hst'', ht''⟩

end Registry

end TypeCatalog
