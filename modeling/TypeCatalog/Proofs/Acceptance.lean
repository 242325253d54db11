import TypeCatalog.Proofs.Inherited
set_option autoImplicit false

namespace TypeCatalog

open Relation

/-- An attribute with a reverse refers to one type by name; if that inherits, it is a class with the
reverse attribute. -/
def Lookup.Reverses (lookup : Lookup) (a : Attribute) : Prop :=
  ∀ reverse, a.reverse = some reverse → ∃ k, a.dataType.element = .named k ∧
    ∀ r, lookup k = some r → r.kind = .classType ∧ (r.attribute? reverse).isSome

def Lookup.Reversible (lookup : Lookup) : Prop :=
  ∀ n r, lookup n = some r → ∀ m a, r.attribute? m = some a → lookup.Reverses a

theorem Declaration.reverseDefects_eq_nil_iff {d : Declaration} {lookup : Lookup} :
    d.reverseDefects lookup = [] ↔ ∀ a ∈ d.attributes, lookup.Reverses a := by
  simp only [Lookup.Reverses]
  rw [reverseDefects, List.flatMap_eq_nil_iff]
  refine forall₂_congr fun a _ => ?_
  cases a.reverse with
  | none => simp
  | some reverse =>
    cases a.dataType.element with
    | named k => cases hk : lookup k <;> simp [hk, Option.isSome_iff_ne_none]
    | _ => simp

theorem Declaration.ne_nil_of_flatten {d : Declaration} {lookup : Lookup} {ds : List Defect}
    (h : d.flatten lookup = .error ds) : ds ≠ [] := by
  rw [flatten] at h
  split at h
  · cases h
  · next hne =>
    obtain rfl := Except.error.inj h
    simpa using hne

namespace Scope

variable {s : Scope} {d : Declaration} {n : String}

structure WellFormed (s : Scope) : Prop where
  distinct : (s.accepted.map Definition.name).Nodup
  free : ∀ d ∈ s.accepted, s.catalog.contains d.name = false
  supers : ∀ d ∈ s.declarations, ∀ n ∈ d.supers, s.HasKind n d.kind
  references : ∀ d ∈ s.declarations, ∀ a ∈ d.attributes, ∀ n ∈ a.dataType.references, s.Defines n
  acyclic : ∀ n, ¬TransGen s.Needs n n
  agree : ∀ d ∈ s.declarations, ∀ a b, s.Holds d.name a → s.Holds d.name b → a.name = b.name → a = b
  reverse : ∀ d ∈ s.declarations, ∀ a ∈ d.attributes, ∀ reverse, a.reverse = some reverse →
    ∃ k, a.dataType.element = .named k ∧
      ∀ kind, s.HasKind k kind → kind = .classType ∧ ∃ b, s.Holds k b ∧ b.name = reverse

/-- A batch of which no check tells a defect. -/
structure Clean (s : Scope) : Prop where
  admitted : s.Admitted
  supers : ∀ d ∈ s.declarations, s.superDefects d = []
  references : ∀ d ∈ s.declarations, s.attributeDefects d = []
  cycles : s.cycles = []
  defects : s.resolveAll.defects = []
  reverse : ∀ d ∈ s.declarations, d.reverseDefects (s.resolveAll.lookup s.catalog) = []

def staged (s : Scope) : Staged := ⟨s.resolveAll.resolved, s.enums⟩

theorem clean_enumeration {c : Catalog} {e : Enumeration} (h : c.contains e.name = false) :
    (⟨c, [.enumeration e]⟩ : Scope).Clean :=
  ⟨⟨List.nodup_singleton _, List.forall_mem_singleton.2 h⟩, nofun, nofun, rfl, rfl, nofun⟩

theorem not_mem_blocked (hs : ∀ d ∈ s.declarations, s.superDefects d = []) (hc : s.cycles = []) :
    n ∉ s.blocked := by
  rw [mem_blocked, hc]
  intro h
  rcases h with ⟨d, hd, -, hne⟩ | ⟨path, hp, -⟩
  · exact hne (hs d hd)
  · cases hp

theorem Clean.sound (h : s.Clean) (hi : s.catalog.Integrity) : Resolution.Sound s s.resolveAll :=
  (sound_resolveAll h.admitted hi).1

/-- A declaration would fail only after one that it waits for, or with a defect. -/
theorem Clean.not_stuck (h : s.Clean) (hi : s.catalog.Integrity) :
    ¬Resolution.Stuck s s.resolveAll n := by
  have hb : ∀ n, n ∉ s.blocked := fun n => not_mem_blocked h.supers h.cycles
  induction n using h.admitted.wellFounded_waitsFor.induction with
  | _ n ih =>
  intro hx
  rcases hx with hf | hf
  · obtain ⟨d, -, ⟨m, hm, hst⟩ | ⟨ds, hr, hds⟩⟩ := (h.sound hi).failed n hf
    · exact ih m ⟨hm, hb n⟩ hst
    · refine Declaration.ne_nil_of_flatten hr.error (List.eq_nil_iff_forall_not_mem.2 fun e he => ?_)
      have := hds e he
      rw [h.defects] at this
      cases this
  · exact hb n hf

theorem Clean.resolved (h : s.Clean) (hi : s.catalog.Integrity) (hd : d ∈ s.declarations) :
    ∃ r, s.resolveAll.lookup s.catalog d.name = some r :=
  ((sound_resolveAll h.admitted hi).2 d hd).resolve_right (h.not_stuck hi)

theorem Clean.found_of_hasKind (h : s.Clean) (hi : s.catalog.Integrity) {k : Kind}
    (hk : s.HasKind n k) : ∃ r, s.resolveAll.lookup s.catalog n = some r ∧ r.kind = k := by
  have hfound : ∃ r, s.resolveAll.lookup s.catalog n = some r := by
    rcases hk with ⟨r, hr, -⟩ | ⟨d, hd, rfl, -⟩
    · exact ⟨r, (h.sound hi).keeps_catalog h.admitted n r hr⟩
    · exact h.resolved hi hd
  obtain ⟨r, hr⟩ := hfound
  exact ⟨r, hr, ((h.sound hi).hasKind_iff h.admitted hr).1 hk⟩

theorem Clean.wellFormed (h : s.Clean) (hi : s.catalog.Integrity) : s.WellFormed := by
  have hp := h.sound hi
  have hcoh := hp.coherent h.admitted hi
  refine ⟨h.admitted.distinct, h.admitted.free, fun d hd => ?supers, fun d hd => ?references,
    fun n hn => ?acyclic, fun d hd a b ha hb hn => ?agree, fun d hd a ha reverse hr => ?reverse⟩
  case supers => exact h.admitted.superDefects_eq_nil_iff.1 (h.supers d hd)
  case references => exact attributeDefects_eq_nil_iff.1 (h.references d hd)
  case acyclic =>
    refine h.admitted.not_waitsFor_itself (n := n) (TransGen.mono (fun m k hm => ?_) n n hn)
    exact ⟨hm, not_mem_blocked h.supers h.cycles⟩
  case agree =>
    obtain ⟨r, hr⟩ := h.resolved hi hd
    have hra := (hp.attribute?_iff_holds h.admitted hi hr).2 ha
    have hrb := (hp.attribute?_iff_holds h.admitted hi hr).2 hb
    exact Option.some.inj (hra.symm.trans (hn ▸ hrb))
  case reverse =>
    obtain ⟨k, hk, hclass⟩ :=
      Declaration.reverseDefects_eq_nil_iff.1 (h.reverse d hd) a ha reverse hr
    refine ⟨k, hk, fun kind hkind => ?_⟩
    obtain ⟨r, hr, rfl⟩ := h.found_of_hasKind hi hkind
    obtain ⟨hc, hs⟩ := hclass r hr
    obtain ⟨b, hb⟩ := Option.isSome_iff_exists.1 hs
    exact ⟨hc, b, hp.holds_of_attribute? h.admitted hi hr hb, (hcoh k r hr).keyed reverse b hb⟩

theorem WellFormed.admitted (h : s.WellFormed) : s.Admitted := ⟨h.distinct, h.free⟩

theorem WellFormed.cycles_eq_nil (h : s.WellFormed) : s.cycles = [] := by
  refine Graph.cycles_eq_nil_of_acyclic fun u hu => h.acyclic u ?_
  exact TransGen.mono (fun n m => h.admitted.needs_of_edge) u u hu

theorem Admitted.holds_of_contributes (hs : s.Admitted) (hi : s.catalog.Integrity) {p : Resolution}
    (hp : Resolution.Sound s p) (hd : d ∈ s.declarations) {a : Attribute}
    (ha : d.Contributes (p.lookup s.catalog) a) : s.Holds d.name a := by
  rcases ha with hown | ⟨x, hx, q, m, hq, hqa⟩
  · exact Gives.holds (.inr ⟨d, hd, rfl, hown⟩)
  · obtain ⟨t, ht, r, hr, hxt⟩ := Declaration.mem_ancestors.1 hx
    refine Holds.of_extends ?_ (.inr ⟨d, hd, rfl, ht⟩)
    rcases hxt with rfl | hxt
    · exact hp.holds_of_attribute? hs hi hq hqa
    · obtain ⟨q', hq', hinh⟩ := (hp.coherent hs hi t r hr).inherited x hxt
      obtain rfl : q = q' := Option.some.inj (hq.symm.trans hq')
      exact hp.holds_of_attribute? hs hi hr (hinh m a hqa)

theorem WellFormed.clean (h : s.WellFormed) (hi : s.catalog.Integrity) : s.Clean := by
  have hs := h.admitted
  have hp := (sound_resolveAll hs hi).1
  refine ⟨hs, fun d hd => ?supers, fun d hd => ?references, h.cycles_eq_nil, ?defects,
    fun d hd => ?reverse⟩
  case supers => exact hs.superDefects_eq_nil_iff.2 (h.supers d hd)
  case references => exact attributeDefects_eq_nil_iff.2 (h.references d hd)
  case defects =>
    refine List.eq_nil_iff_forall_not_mem.2 fun e he => ?_
    obtain ⟨d, hd, ds, hr, -⟩ := hp.defects e he
    have hok : ∃ r, d.flatten (s.resolveAll.lookup s.catalog) = .ok r := by
      refine Declaration.flatten_isOk_iff.2
        ⟨hr.supers_known, fun x hx => (hp.closed hi).ancestors_known hx, fun a b ha hb hn => ?_⟩
      exact h.agree d hd a b (hs.holds_of_contributes hi hp hd ha)
        (hs.holds_of_contributes hi hp hd hb) hn
    obtain ⟨r, hok⟩ := hok
    cases hok.symm.trans hr.error
  case reverse =>
    refine Declaration.reverseDefects_eq_nil_iff.2 fun a ha reverse hrev => ?_
    obtain ⟨k, hk, hclass⟩ := h.reverse d hd a ha reverse hrev
    refine ⟨k, hk, fun r hr => ?_⟩
    obtain ⟨hc, b, hb, rfl⟩ := hclass r.kind ((hp.hasKind_iff hs hr).2 rfl)
    exact ⟨hc, by simp [(hp.attribute?_iff_holds hs hi hr).2 hb]⟩

theorem clean_iff_wellFormed (hi : s.catalog.Integrity) : s.Clean ↔ s.WellFormed :=
  ⟨fun h => h.wellFormed hi, fun h => h.clean hi⟩

end Scope

namespace Catalog

variable {c : Catalog} {batch : List Definition} {staged : Staged}

theorem admitted_iff : (⟨c, batch⟩ : Scope).Admitted ↔ (Admission.ofBatch c batch).refused = [] := by
  rw [Admission.refused_eq_nil_iff]
  exact ⟨fun h => ⟨h.distinct, h.free⟩, fun h => ⟨h.1, h.2⟩⟩

theorem scope_of_refused_eq_nil (h : (Admission.ofBatch c batch).refused = []) :
    c.scope batch = ⟨c, batch⟩ := by
  rw [scope, Admission.accepted_of_refused_eq_nil h]

theorem clean_iff :
    (⟨c, batch⟩ : Scope).Clean ↔
      (Admission.ofBatch c batch).refused ++
        (c.scope batch).declarations.flatMap (c.scope batch).referenceDefects ++
        (c.scope batch).cycles.map .cycle ++
        (c.scope batch).resolveAll.defects ++
        ((c.scope batch).declarations.flatMap fun d =>
          d.reverseDefects ((c.scope batch).resolveAll.lookup c)) = [] := by
  simp only [List.append_eq_nil_iff, List.flatMap_eq_nil_iff, List.map_eq_nil_iff,
    Scope.referenceDefects]
  constructor
  · intro h
    have hr := admitted_iff.1 h.admitted
    rw [scope_of_refused_eq_nil hr]
    exact ⟨⟨⟨⟨hr, fun d hd => ⟨h.supers d hd, h.references d hd⟩⟩, h.cycles⟩, h.defects⟩, h.reverse⟩
  · intro hx
    obtain ⟨⟨⟨⟨hr, href⟩, hc⟩, hd⟩, hrev⟩ := hx
    rw [scope_of_refused_eq_nil hr] at href hc hd hrev
    exact ⟨admitted_iff.2 hr, fun d hd => (href d hd).1, fun d hd => (href d hd).2, hc, hd, hrev⟩

theorem stage_eq_ok_iff :
    c.stage batch = .ok staged ↔
      (⟨c, batch⟩ : Scope).Clean ∧ staged = (⟨c, batch⟩ : Scope).staged := by
  rw [stage]
  split
  · next h =>
    have hc := clean_iff.2 (List.isEmpty_iff.1 h)
    rw [scope_of_refused_eq_nil (admitted_iff.1 hc.admitted)]
    simp [hc, Scope.staged, eq_comm]
  · next h =>
    have hc : ¬(⟨c, batch⟩ : Scope).Clean := fun hc => h (List.isEmpty_iff.2 (clean_iff.1 hc))
    simp [hc]

theorem stage_isOk_iff (hi : c.Integrity) :
    (∃ staged, c.stage batch = .ok staged) ↔ (⟨c, batch⟩ : Scope).WellFormed := by
  rw [← Scope.clean_iff_wellFormed hi]
  simp [stage_eq_ok_iff]

end Catalog

end TypeCatalog
