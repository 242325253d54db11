import TypeCatalog.Proofs.Resolution
set_option autoImplicit false

namespace TypeCatalog

open Relation

namespace Scope

variable {s : Scope} {d : Declaration} {n m : String} {r : Resolved} {a : Attribute}

def Extends (s : Scope) (n m : String) : Prop :=
  Lookup.Extends s.catalog.type? n m ∨ ∃ d ∈ s.declarations, d.name = n ∧ m ∈ d.supers

/-- An attribute that a type is given: one of its declaration or, once it is committed, any that it
holds. -/
def Gives (s : Scope) (n : String) (a : Attribute) : Prop :=
  (∃ r m, s.catalog.type? n = some r ∧ r.attribute? m = some a) ∨
    ∃ d ∈ s.declarations, d.name = n ∧ a ∈ d.attributes

def Holds (s : Scope) (n : String) (a : Attribute) : Prop :=
  ∃ m, ReflTransGen s.Extends n m ∧ s.Gives m a

theorem Gives.holds (h : s.Gives n a) : s.Holds n a := ⟨n, .refl, h⟩

theorem Holds.of_extends (h : s.Holds m a) (hm : s.Extends n m) : s.Holds n a := by
  obtain ⟨k, hk, hg⟩ := h
  exact ⟨k, .head hm hk, hg⟩

theorem Admitted.extends_of_declaration? (h : s.Admitted) (hd : s.declaration? n = some d) :
    s.Extends n m ↔ m ∈ d.supers := by
  rw [Extends, h.exists_declaration_iff hd]
  simp [Lookup.Extends, h.type?_of_declared hd]

theorem Admitted.gives_of_declaration? (h : s.Admitted) (hd : s.declaration? n = some d) :
    s.Gives n a ↔ a ∈ d.attributes := by
  rw [Gives, h.exists_declaration_iff hd]
  simp [h.type?_of_declared hd]

theorem Admitted.extends_of_committed (h : s.Admitted) (hr : s.catalog.type? n = some r) :
    s.Extends n m ↔ m ∈ r.supers := by
  rw [Extends, Lookup.extends_iff hr, or_iff_left (h.not_exists_declaration hr)]

theorem Admitted.gives_of_committed (h : s.Admitted) (hr : s.catalog.type? n = some r) :
    s.Gives n a ↔ ∃ m, r.attribute? m = some a := by
  rw [Gives, or_iff_left (h.not_exists_declaration hr)]
  simp [hr]

end Scope

namespace Resolution

variable {s : Scope} {p : Resolution} {n m : String} {r : Resolved} {a : Attribute}

theorem Sound.hasKind_iff (hp : Sound s p) (hs : s.Admitted) (h : p.lookup s.catalog n = some r)
    {k : Kind} : s.HasKind n k ↔ r.kind = k := by
  rcases lookup_eq_some_iff.1 h with hr | ⟨-, hr⟩
  · obtain ⟨-, d, hd, hok⟩ := hp.resolved n r hr
    rw [(Declaration.flattens_of_flatten hok).kind, hs.hasKind_of_declaration? hd]
  · exact hs.hasKind_of_committed hr

/-- What is found is committed, or resolved after all of its supertypes. -/
theorem Sound.induct {motive : String → Resolved → Prop} (hp : Sound s p) (hs : s.Admitted)
    (committed : ∀ n r, s.catalog.type? n = some r → motive n r)
    (resolved : ∀ n r d, s.declaration? n = some d → p.lookup s.catalog n = some r →
      d.flatten (p.lookup s.catalog) = .ok r →
      (∀ m ∈ d.supers, ∃ q, p.lookup s.catalog m = some q ∧ q.kind = d.kind ∧ motive m q) →
      motive n r)
    (h : p.lookup s.catalog n = some r) : motive n r := by
  induction n using hs.wellFounded_waitsFor.induction generalizing r with
  | _ n ih =>
  rcases lookup_eq_some_iff.1 h with hr | ⟨-, hr⟩
  · obtain ⟨hb, d, hd, hok⟩ := hp.resolved n r hr
    refine resolved n r d hd h hok fun m hm => ?_
    obtain ⟨q, hq⟩ := (Declaration.flattens_of_flatten hok).supers_known m hm
    have hkind := (hp.hasKind_iff hs hq).1 (hs.super_hasKind hd hb m hm)
    refine ⟨q, hq, hkind, ?_⟩
    rcases lookup_eq_some_iff.1 hq with hqr | ⟨-, hqc⟩
    · obtain ⟨-, e, he, -⟩ := hp.resolved m q hqr
      exact ih m ⟨(hs.needs_of_declaration? hd).2 ⟨hm, by simp [he]⟩, hb⟩ hq
    · exact committed m q hqc
  · exact committed n r hr

theorem Sound.coherent (hp : Sound s p) (hs : s.Admitted) (hi : s.catalog.Integrity) :
    Lookup.Coherent (p.lookup s.catalog) := by
  intro n r h
  refine hp.induct (motive := Lookup.Intact (p.lookup s.catalog)) hs ?committed ?resolved h
  case committed => exact fun n r hr => .of_keeps hi.coherent (hp.keeps_catalog hs) hr
  case resolved =>
    intro n r d hd hr hok hsup
    obtain rfl := Scope.name_of_declaration? hd
    exact Lookup.intact_of_flatten hok hr hsup

/-- What is resolved is found by every look-up that keeps the catalog and holds what each declaration
flattens to, because supertypes and ancestors are found by it before. -/
theorem Sound.keeps_lookup {lookup : Lookup} (hp : Sound s p) (hs : s.Admitted)
    (hi : s.catalog.Integrity) (hc : lookup.Keeps s.catalog.type?)
    (hd : ∀ n d r, s.declaration? n = some d → n ∉ s.blocked → d.flatten lookup = .ok r →
      lookup n = some r) :
    lookup.Keeps (p.lookup s.catalog) := by
  intro n r h
  suffices hall : lookup n = some r ∧ ∀ a ∈ r.ancestors, p.lookup s.catalog a = lookup a from hall.1
  refine hp.induct
    (motive := fun n r => lookup n = some r ∧ ∀ a ∈ r.ancestors, p.lookup s.catalog a = lookup a)
    hs ?committed ?resolved h
  case committed =>
    refine fun n r hr => ⟨hc n r hr, fun a ha => ?_⟩
    obtain ⟨q, hq⟩ := hi.coherent.closed n r hr a ha
    rw [hp.keeps_catalog hs a q hq, hc a q hq]
  case resolved =>
    intro n r d hdecl hr hok hsup
    have hb : n ∉ s.blocked := by
      rcases lookup_eq_some_iff.1 hr with hr | ⟨-, hr⟩
      · exact (hp.resolved n r hr).1
      · cases (hs.type?_of_declared hdecl).symm.trans hr
    have hsame : ∀ m ∈ d.supers, p.lookup s.catalog m = lookup m := by
      intro m hm
      obtain ⟨q, hq, -, hlq, -⟩ := hsup m hm
      rw [hq, hlq]
    have hanc : ∀ a ∈ d.ancestors (p.lookup s.catalog), p.lookup s.catalog a = lookup a := by
      intro a ha
      obtain ⟨m, hm, q, hq, haq⟩ := Declaration.mem_ancestors.1 ha
      obtain ⟨q', hq', -, -, hqa⟩ := hsup m hm
      obtain rfl : q = q' := Option.some.inj (hq.symm.trans hq')
      rcases haq with rfl | haq
      · exact hsame a hm
      · exact hqa a haq
    refine ⟨hd n d r hdecl hb ((Declaration.flatten_congr hsame hanc).symm.trans hok), fun a ha => ?_⟩
    exact hanc a ((Declaration.flattens_of_flatten hok).ancestors ▸ ha)

theorem Sound.extends_iff (hp : Sound s p) (hs : s.Admitted) (h : p.lookup s.catalog n = some r) :
    s.Extends n m ↔ m ∈ r.supers := by
  rcases lookup_eq_some_iff.1 h with hr | ⟨-, hr⟩
  · obtain ⟨-, d, hd, hok⟩ := hp.resolved n r hr
    rw [hs.extends_of_declaration? hd, (Declaration.flattens_of_flatten hok).supers]
  · exact hs.extends_of_committed hr

theorem Sound.attribute?_of_gives (hp : Sound s p) (hs : s.Admitted)
    (hi : s.catalog.Integrity) (h : p.lookup s.catalog n = some r) (ha : s.Gives n a) :
    r.attribute? a.name = some a := by
  rcases lookup_eq_some_iff.1 h with hr | ⟨-, hr⟩
  · obtain ⟨-, d, hd, hok⟩ := hp.resolved n r hr
    refine ((Declaration.flattens_of_flatten hok).holds a.name a).2 ⟨rfl, .inl ?_⟩
    exact (hs.gives_of_declaration? hd).1 ha
  · obtain ⟨m, hm⟩ := (hs.gives_of_committed hr).1 ha
    rwa [(hi.coherent n r hr).keyed m a hm]

theorem Sound.attribute?_of_holds (hp : Sound s p) (hs : s.Admitted)
    (hi : s.catalog.Integrity) (h : p.lookup s.catalog n = some r) (ha : s.Holds n a) :
    r.attribute? a.name = some a := by
  obtain ⟨k, hk, hg⟩ := ha
  induction hk using ReflTransGen.head_induction_on generalizing r with
  | refl => exact hp.attribute?_of_gives hs hi h hg
  | head hstep _ ih =>
    have hm := (hp.extends_iff hs h).1 hstep
    have hint := hp.coherent hs hi _ r h
    obtain ⟨q, hq, hinh⟩ := hint.inherited _
      ((hint.ancestors _).2 (.single ((Lookup.extends_iff h).2 hm)))
    exact hinh a.name a (ih hq)

theorem Sound.holds_of_attribute? (hp : Sound s p) (hs : s.Admitted)
    (hi : s.catalog.Integrity) (h : p.lookup s.catalog n = some r) (ha : r.attribute? m = some a) :
    s.Holds n a := by
  have hcoh := hp.coherent hs hi
  refine hp.induct (motive := fun n r => ∀ m, r.attribute? m = some a → s.Holds n a) hs
    ?committed ?resolved h m ha
  case committed => exact fun n r hr m ha => ((hs.gives_of_committed hr).2 ⟨m, ha⟩).holds
  case resolved =>
    intro n r d hd hr hok hsup m ha
    have hf := Declaration.flattens_of_flatten hok
    rcases ((hf.holds m a).1 ha).2 with hown | ⟨x, hx, q, k, hq, hqa⟩
    · exact ((hs.gives_of_declaration? hd).2 hown).holds
    · obtain ⟨t, ht, q', hq', -, hqa'⟩ := Lookup.exists_super_of_inherited hf
        (fun t ht => by
          obtain ⟨q, hq, hkind, -⟩ := hsup t ht
          exact ⟨q, hq, hkind, hcoh t q hq⟩) (hf.ancestors ▸ hx) hq hqa
      obtain ⟨q'', hq'', -, hholds⟩ := hsup t ht
      obtain rfl : q' = q'' := Option.some.inj (hq'.symm.trans hq'')
      exact (hholds k hqa').of_extends ((hs.extends_of_declaration? hd).2 ht)

theorem Sound.attribute?_iff_holds (hp : Sound s p) (hs : s.Admitted)
    (hi : s.catalog.Integrity) (h : p.lookup s.catalog n = some r) :
    r.attribute? a.name = some a ↔ s.Holds n a :=
  ⟨hp.holds_of_attribute? hs hi h, hp.attribute?_of_holds hs hi h⟩

end Resolution

end TypeCatalog
