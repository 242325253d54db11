import Mathlib.Logic.Relation
import TypeCatalog.Catalog
import TypeCatalog.Proofs.Flattening
import TypeCatalog.Proofs.References
set_option autoImplicit false

namespace TypeCatalog.Lookup

open Relation

variable {lookup lookup' : Lookup} {n : String} {r : Resolved}

def Extends (lookup : Lookup) (n s : String) : Prop := ∃ r, lookup n = some r ∧ s ∈ r.supers

structure Intact (lookup : Lookup) (n : String) (r : Resolved) : Prop where
  name : r.name = n
  keyed : ∀ m a, r.attribute? m = some a → a.name = m
  super : ∀ s ∈ r.supers, ∃ q, lookup s = some q ∧ q.kind = r.kind
  ancestors : ∀ a, a ∈ r.ancestors ↔ TransGen lookup.Extends n a
  not_own_ancestor : n ∉ r.ancestors
  inherited : ∀ a ∈ r.ancestors, ∃ q, lookup a = some q ∧
    ∀ m x, q.attribute? m = some x → r.attribute? m = some x

def Coherent (lookup : Lookup) : Prop := ∀ n r, lookup n = some r → lookup.Intact n r

theorem Coherent.closed (h : lookup.Coherent) : lookup.Closed := by
  intro n r hr a ha
  obtain ⟨q, hq, -⟩ := (h n r hr).inherited a ha
  exact ⟨q, hq⟩

theorem extends_iff (h : lookup n = some r) {s : String} : lookup.Extends n s ↔ s ∈ r.supers := by
  simp [Extends, h]

/-- The supertypes of a type that is found are found, so no way leaves what is kept. -/
theorem transGen_extends_of_keeps (hi : lookup.Coherent) (hk : lookup'.Keeps lookup) {a : String}
    (h : TransGen lookup'.Extends n a) (hr : lookup n = some r) : TransGen lookup.Extends n a := by
  induction h using TransGen.head_induction_on generalizing r with
  | single h => exact .single ((extends_iff hr).2 ((extends_iff (hk _ r hr)).1 h))
  | head h _ ih =>
    have hs := (extends_iff (hk _ r hr)).1 h
    obtain ⟨q, hq, -⟩ := (hi _ r hr).super _ hs
    exact .head ((extends_iff hr).2 hs) (ih hq)

theorem Coherent.kind_of_mem_ancestors (hi : lookup.Coherent) (hr : lookup n = some r) {a : String}
    (ha : a ∈ r.ancestors) {q : Resolved} (hq : lookup a = some q) : q.kind = r.kind := by
  have h := ((hi n r hr).ancestors a).1 ha
  clear ha
  induction h using TransGen.head_induction_on generalizing r with
  | single h =>
    obtain ⟨p, hp, hk⟩ := (hi _ r hr).super a ((extends_iff hr).1 h)
    rw [← hk, Option.some.inj (hq.symm.trans hp)]
  | head h _ ih =>
    obtain ⟨p, hp, hk⟩ := (hi _ r hr).super _ ((extends_iff hr).1 h)
    exact (ih hp).trans hk

theorem Intact.of_keeps (hi : lookup.Coherent) (hk : lookup'.Keeps lookup) (hr : lookup n = some r) :
    lookup'.Intact n r where
  name := (hi n r hr).name
  keyed := (hi n r hr).keyed
  super s hs := by
    obtain ⟨q, hq, hkind⟩ := (hi n r hr).super s hs
    exact ⟨q, hk s q hq, hkind⟩
  ancestors a := by
    have hmono : ∀ m s, lookup.Extends m s → lookup'.Extends m s :=
      fun m s ⟨q, hq, hs⟩ => ⟨q, hk m q hq, hs⟩
    rw [(hi n r hr).ancestors]
    exact ⟨TransGen.mono hmono n a, fun h => transGen_extends_of_keeps hi hk h hr⟩
  not_own_ancestor := (hi n r hr).not_own_ancestor
  inherited a ha := by
    obtain ⟨q, hq, hx⟩ := (hi n r hr).inherited a ha
    exact ⟨q, hk a q hq, hx⟩

section Flatten

variable {d : Declaration}

theorem mem_ancestors_of_flattens (hf : d.Flattens lookup r) {a : String} :
    a ∈ r.ancestors ↔ ∃ s ∈ d.supers, ∃ q, lookup s = some q ∧ (a = s ∨ a ∈ q.ancestors) := by
  rw [hf.ancestors, Declaration.mem_ancestors]

theorem exists_super_of_inherited (hf : d.Flattens lookup r)
    (hs : ∀ s ∈ d.supers, ∃ q, lookup s = some q ∧ q.kind = d.kind ∧ lookup.Intact s q)
    {a m : String} {q : Resolved} {x : Attribute} (ha : a ∈ r.ancestors) (hq : lookup a = some q)
    (hx : q.attribute? m = some x) :
    ∃ s ∈ d.supers, ∃ q, lookup s = some q ∧ lookup.Intact s q ∧ q.attribute? m = some x := by
  obtain ⟨s, hm, q', hq', h⟩ := (mem_ancestors_of_flattens hf).1 ha
  obtain ⟨p, hp, -, hint⟩ := hs s hm
  obtain rfl : p = q' := Option.some.inj (hp.symm.trans hq')
  rcases h with rfl | h
  · obtain rfl : q = p := Option.some.inj (hq.symm.trans hp)
    exact ⟨a, hm, q, hq, hint, hx⟩
  · obtain ⟨q₁, hq₁, hinh⟩ := hint.inherited a h
    obtain rfl : q = q₁ := Option.some.inj (hq.symm.trans hq₁)
    exact ⟨s, hm, p, hp, hint, hinh m x hx⟩

theorem mem_ancestors_iff_transGen (hr : lookup d.name = some r) (hsup : r.supers = d.supers)
    (hs : ∀ s ∈ d.supers, ∃ q, lookup s = some q ∧ q.kind = d.kind ∧ lookup.Intact s q) {a : String} :
    a ∈ d.ancestors lookup ↔ TransGen lookup.Extends d.name a := by
  have hext : ∀ s, lookup.Extends d.name s ↔ s ∈ d.supers := fun s => by
    rw [extends_iff hr, hsup]
  rw [Declaration.mem_ancestors, TransGen.head'_iff]
  constructor
  · intro hx
    obtain ⟨s, hm, q, hq, h⟩ := hx
    refine ⟨s, (hext s).2 hm, ?_⟩
    rcases h with rfl | h
    · exact .refl
    · obtain ⟨p, hp, -, hint⟩ := hs s hm
      obtain rfl : p = q := Option.some.inj (hp.symm.trans hq)
      exact ((hint.ancestors a).1 h).to_reflTransGen
  · intro hx
    obtain ⟨s, hm, h⟩ := hx
    obtain ⟨q, hq, -, hint⟩ := hs s ((hext s).1 hm)
    refine ⟨s, (hext s).1 hm, q, hq, ?_⟩
    rcases reflTransGen_iff_eq_or_transGen.1 h with h | h
    · exact .inl h
    · exact .inr ((hint.ancestors a).2 h)

theorem intact_of_flatten (h : d.flatten lookup = .ok r) (hr : lookup d.name = some r)
    (hs : ∀ s ∈ d.supers, ∃ q, lookup s = some q ∧ q.kind = d.kind ∧ lookup.Intact s q) :
    lookup.Intact d.name r := by
  have hf := Declaration.flattens_of_flatten h
  have hanc : ∀ a, a ∈ r.ancestors ↔ TransGen lookup.Extends d.name a := fun a => by
    rw [hf.ancestors]
    exact mem_ancestors_iff_transGen hr hf.supers hs
  refine ⟨hf.name, fun m a ha => ((hf.holds m a).1 ha).1, ?super, hanc, ?own, ?inherited⟩
  case super =>
    intro s hm
    obtain ⟨q, hq, hkind, -⟩ := hs s (hf.supers ▸ hm)
    exact ⟨q, hq, hkind.trans hf.kind.symm⟩
  case own =>
    -- A way from the type to itself would make one of its supertypes an ancestor of its own.
    intro hm
    obtain ⟨s, hms, q, hq, h⟩ := (mem_ancestors_of_flattens hf).1 hm
    obtain ⟨p, hp, -, hint⟩ := hs s hms
    obtain rfl : p = q := Option.some.inj (hp.symm.trans hq)
    have hstep : lookup.Extends d.name s := (extends_iff hr).2 (hf.supers ▸ hms)
    rcases h with rfl | h
    · exact hint.not_own_ancestor ((hint.ancestors _).2 (.single hstep))
    · exact hint.not_own_ancestor ((hint.ancestors s).2 (((hint.ancestors _).1 h).tail hstep))
  case inherited =>
    intro a ha
    obtain ⟨q, hq⟩ := hf.ancestors_known a (hf.ancestors ▸ ha)
    refine ⟨q, hq, fun m x hx => (hf.holds m x).2 ⟨?_, .inr ⟨a, hf.ancestors ▸ ha, q, m, hq, hx⟩⟩⟩
    obtain ⟨s, -, p, -, hint, hpx⟩ := exists_super_of_inherited hf hs ha hq hx
    exact hint.keyed m x hpx

end Flatten

end TypeCatalog.Lookup

namespace TypeCatalog.Catalog

variable {c c' : Catalog} {n : String}

def Defines (c : Catalog) (n : String) : Prop := n ∈ c.types ∨ n ∈ c.enums

theorem mem_types : n ∈ c.types ↔ ∃ r, c.type? n = some r := SortedMap.mem_iff

theorem mem_enums : n ∈ c.enums ↔ ∃ e, c.enum? n = some e := SortedMap.mem_iff

theorem not_defines_empty : ¬empty.Defines n := fun h =>
  h.elim (SortedMap.not_mem_empty n) (SortedMap.not_mem_empty n)

structure Integrity (c : Catalog) : Prop where
  disjoint : ∀ n ∈ c.types, n ∉ c.enums
  not_primitive : ∀ n, c.Defines n → Primitive.ofName? n = none
  enum_name : ∀ n e, c.enum? n = some e → e.name = n
  coherent : Lookup.Coherent c.type?
  references : ∀ n r, c.type? n = some r → ∀ m a, r.attribute? m = some a →
    ∀ k ∈ a.dataType.references, c.Defines k

theorem integrity_empty : empty.Integrity where
  disjoint _ _ := SortedMap.not_mem_empty _
  not_primitive _ h := absurd h not_defines_empty
  enum_name _ _ h := by cases h
  coherent _ _ h := by cases h
  references _ _ h := by cases h

structure Keeps (c' c : Catalog) : Prop where
  types : Lookup.Keeps c'.type? c.type?
  enums : ∀ n e, c.enum? n = some e → c'.enum? n = some e

theorem Keeps.defines (h : c'.Keeps c) (hn : c.Defines n) : c'.Defines n := by
  rcases hn with hn | hn
  · obtain ⟨r, hr⟩ := mem_types.1 hn
    exact .inl (mem_types.2 ⟨r, h.types n r hr⟩)
  · obtain ⟨e, he⟩ := mem_enums.1 hn
    exact .inr (mem_enums.2 ⟨e, h.enums n e he⟩)

end TypeCatalog.Catalog
