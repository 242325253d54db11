import TypeCatalog.Schema.Document
import TypeCatalog.Proofs.Enumeration
import Mathlib.Data.List.Forall2
set_option autoImplicit false

namespace TypeCatalog

theorem bind_eq_ok_iff {α β ε : Type} {x : Except ε α} {f : α → Except ε β} {y : β} :
    x >>= f = .ok y ↔ ∃ a, x = .ok a ∧ f a = .ok y := by
  cases x with
  | error e => exact iff_of_false nofun (by simp)
  | ok a => exact ⟨fun h => ⟨a, rfl, h⟩, fun ⟨_, ha, h⟩ => Except.ok.inj ha ▸ h⟩

theorem mapM_eq_ok_iff {α β ε : Type} {f : α → Except ε β} {xs : List α} {ys : List β} :
    xs.mapM f = .ok ys ↔ List.Forall₂ (fun x y => f x = .ok y) xs ys := by
  induction xs generalizing ys with
  | nil =>
    rw [List.mapM_nil, List.forall₂_nil_left_iff]
    exact ⟨fun h => (Except.ok.inj h).symm, fun h => h ▸ rfl⟩
  | cons x xs ih =>
    rw [List.mapM_cons, List.forall₂_cons_left_iff, bind_eq_ok_iff]
    refine exists_congr fun y => ?_
    rw [bind_eq_ok_iff, exists_and_left]
    refine and_congr_right fun _ => exists_congr fun zs => ?_
    rw [ih]
    exact and_congr_right fun _ => ⟨fun h => (Except.ok.inj h).symm, fun h => h ▸ rfl⟩

theorem mapM_map_of_mapM {α β γ ε : Type} {f : α → Except ε β} {xs : List α} {ys : List β} (g : β → γ)
    (h : xs.mapM f = .ok ys) : (xs.mapM fun x => (f x).map g) = .ok (ys.map g) := by
  rw [mapM_eq_ok_iff] at h ⊢
  rw [List.forall₂_map_right_iff]
  refine h.imp fun x y hxy => ?_
  rw [hxy]
  rfl

theorem mapM_map_self {α β ε : Type} {f : β → Except ε α} {g : α → β} (h : ∀ a, f (g a) = .ok a)
    (xs : List α) : (xs.map g).mapM f = .ok xs := by
  rw [mapM_eq_ok_iff, List.forall₂_map_left_iff, List.forall₂_same]
  exact fun a _ => h a

theorem AttributeDocument.attr_ofAttribute (a : Attribute) : (ofAttribute a).attr = .ok a := by
  obtain ⟨name, typeName, multiplicity, composite, unique, indexed, reverse, hn, ht, hu⟩ := a
  have hm : Attribute.make name typeName multiplicity =
      .ok ⟨name, typeName, multiplicity, false, false, false, none, hn, ht, by simp⟩ := by
    rw [Attribute.make, dif_pos hn, dif_pos ht]
  simp only [attr, ofAttribute, MultiplicityDocument.ofMultiplicity, MultiplicityDocument.multiplicity,
    Multiplicity.declare_self, hm, bind, Except.bind, pure, Except.pure, Except.ok.injEq]
  cases composite <;> cases unique <;> cases indexed <;> cases reverse <;>
    simp_all [Attribute.asComposite, Attribute.asUnique, Attribute.asIndexed, Attribute.withReverse]

theorem EnumDocument.enumeration_ofEnumeration (e : Enumeration) : (ofEnumeration e).enumeration = .ok e :=
  e.make_self

/-- A declaration of a resolved type that repeats all that the type inherits. -/
structure Declaration.Restates (d : Declaration) (r : Resolved) : Prop where
  name : d.name = r.name
  kind : d.kind = r.kind
  supers : d.supers = r.supers
  attributes : d.attributes = r.attributes.values

theorem TypeDocument.declaration_ofResolved {r : Resolved} (hn : Text.isBlank r.name = false)
    (hs : ∀ s ∈ r.supers, Text.isBlank s = false) :
    ∃ d, (ofResolved r).declaration = .ok d ∧ d.Restates r := by
  have hs' : r.supers.toList.all (fun s => !Text.isBlank s) = true := by
    simpa [NameSet.mem_toList] using hs
  have hd : Declaration.ofKind r.kind r.name r.supers.toList r.attributes.values =
      .ok ⟨r.kind, r.name, r.supers, r.attributes.values, hn, hs'⟩ := by
    simp only [Declaration.ofKind, dif_pos hn, NameSet.ofList_toList, dif_pos hs']
  refine ⟨⟨r.kind, r.name, r.supers, r.attributes.values, hn, hs'⟩, ?_, rfl, rfl, rfl, rfl⟩
  rw [declaration, ofResolved, mapM_map_self AttributeDocument.attr_ofAttribute]
  exact hd

end TypeCatalog
