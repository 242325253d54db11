import TypeCatalog.Proofs.Conformity
import TypeCatalog.Proofs.Extension
import TypeCatalog.Proofs.Spelling
set_option autoImplicit false

/-!
What names stand for, while a batch is checked and once it is committed. Main statements: in both a name has
the same category; and a committed name, as that of a data type, stands for what is committed under it
unless white space stands at its ends or it is written as a collection. Such names are not refused: a name is
only compared with what is committed, as it is written, and never read.
-/

namespace TypeCatalog

theorem Category.option_ext {o o' : Option Category}
    (kind : ∀ k : Kind, o = some k.category ↔ o' = some k.category)
    (enumeration : o = some .enumeration ↔ o' = some .enumeration)
    (known : o.isSome = true ↔ o'.isSome = true) : o = o' := by
  have hprimitive (p : Option Category) : p = some .primitive ↔
      p.isSome = true ∧ p ≠ some .enumeration ∧ p ≠ some .classType ∧ p ≠ some .traitType := by
    rcases p with _ | _ | _ | _ | _ <;> simp
  refine Option.ext fun category => ?_
  cases category with
  | primitive =>
    rw [hprimitive, hprimitive, known]
    exact and_congr_right fun _ => and_congr enumeration.not
      (and_congr (kind .classType).not (kind .traitType).not)
  | enumeration => exact enumeration
  | classType => exact kind .classType
  | traitType => exact kind .traitType

def DataType.IsBuiltIn (defined : String → Prop) (n : String) : Prop :=
  (Primitive.ofName? n).isSome = true ∨
    (ofName n).isCollection = true ∧ ∀ m ∈ (ofName n).references, defined m

theorem DataType.IsBuiltIn.mono {defined defined' : String → Prop} {n : String}
    (h : ∀ m, defined m → defined' m) (hn : DataType.IsBuiltIn defined n) :
    DataType.IsBuiltIn defined' n :=
  hn.imp_right fun hx => ⟨hx.1, fun m hm => h m (hx.2 m hm)⟩

namespace Catalog

variable {c : Catalog} {n : String}

theorem isKnownCollection_iff {known : String → Bool} {defined : String → Prop}
    (h : ∀ m, DataType.ofName m = .named m → (known m = true ↔ defined m)) :
    isKnownCollection known n = true ↔
      (DataType.ofName n).isCollection = true ∧ ∀ m ∈ (DataType.ofName n).references, defined m := by
  rw [isKnownCollection, Bool.and_eq_true, List.all_eq_true]
  exact and_congr_right fun _ => forall₂_congr fun m hm => h m (DataType.ofName_of_mem_references hm)

theorem ownCategory?_isSome_iff_defines (h : DataType.ofName n = .named n) :
    (c.ownCategory? n).isSome = true ↔ c.Defines n := by
  simp [ownCategory?_isSome_iff, DataType.not_primitive_of_named h]

/-- The elements of a collection may be collections themselves: it is enough that all have a category. -/
theorem category?_eq :
    c.category? n =
      (c.ownCategory? n).or (if isKnownCollection c.contains n then some .primitive else none) := by
  have hcontains (m : String) (hm : DataType.ofName m = .named m) : c.contains m = true ↔ c.Defines m :=
    category?_isSome_iff_defines hm
  have hknown : isKnownCollection c.contains n =
      isKnownCollection (fun m => (c.ownCategory? m).isSome) n := by
    rw [Bool.eq_iff_iff, isKnownCollection_iff hcontains,
      isKnownCollection_iff fun m hm => ownCategory?_isSome_iff_defines hm]
  rw [hknown, category?]
  cases c.ownCategory? n <;> rfl

theorem category?_isSome_iff :
    (c.category? n).isSome = true ↔ c.Defines n ∨ DataType.IsBuiltIn c.Defines n := by
  have hcontains : (c.category? n).isSome = true ↔ c.contains n = true := .rfl
  rw [hcontains, contains_iff, ownCategory?_isSome_iff, or_assoc, DataType.IsBuiltIn,
    isKnownCollection_iff fun m hm => ownCategory?_isSome_iff_defines hm]

theorem contains_empty_eq_false (hp : Primitive.ofName? n = none)
    (hr : (DataType.ofName n).references.isEmpty = false) : empty.contains n = false := by
  have hnone : ¬(empty.category? n).isSome = true := by
    rw [category?_isSome_iff, DataType.IsBuiltIn, hp]
    simpa [not_defines_empty] using fun _ => List.exists_mem_of_ne_nil _ (List.isEmpty_eq_false_iff.1 hr)
  exact Bool.eq_false_iff.2 hnone

theorem category?_eq_enumeration_iff (hi : c.Integrity) :
    c.category? n = some .enumeration ↔ ∃ e, c.enum? n = some e := by
  rw [← mem_enums, category?, ownCategory?]
  cases ht : c.type? n with
  | some r =>
    have hne := r.kind.enumeration_ne_category
    have hno := hi.disjoint n (mem_types.2 ⟨r, ht⟩)
    simp [Resolved.category, hne.symm, hno]
  | none =>
    by_cases he : n ∈ c.enums
    · simp [he]
    · cases Primitive.ofName? n <;> simp [he]

/-- Nothing can be named like a collection of what is committed already. -/
theorem exists_unknown_of_stage {batch : List Definition} {staged : Staged}
    (h : c.stage batch = .ok staged) {d : Definition} (hd : d ∈ batch)
    (hw : DataType.WrittenCollection (Text.trim d.name.toList)) :
    ∃ m ∈ (DataType.ofName d.name).references, ¬c.Defines m := by
  have hnone : ¬(c.category? d.name).isSome = true := by
    have hfree := (admitted_of_stage h).free d hd
    rw [contains] at hfree
    simp [hfree]
  by_contra hall
  have hknown : ∀ m ∈ (DataType.ofName d.name).references, c.Defines m := by simpa using hall
  exact hnone (category?_isSome_iff.2 (.inr (.inr ⟨DataType.isCollection_parse_iff.2 hw, hknown⟩)))

end Catalog

namespace Scope

variable {s : Scope} {c : Catalog} {n : String}

theorem ownCategory?_isSome_iff_defines (h : DataType.ofName n = .named n) :
    (s.ownCategory? n).isSome = true ↔ s.Defines n := by
  rw [ownCategory?, Option.isSome_or, Bool.or_eq_true, Catalog.ownCategory?_isSome_iff_defines h,
    batchCategory?_isSome_iff, Defines]

theorem category?_eq :
    s.category? n =
      ((s.catalog.category? n).or (s.batchCategory? n)).or
        (if Catalog.isKnownCollection (fun m => (s.category? m).isSome) n then some .primitive else none) := by
  have hknown : Catalog.isKnownCollection (fun m => (s.category? m).isSome) n =
      Catalog.isKnownCollection (fun m => (s.ownCategory? m).isSome) n := by
    rw [Bool.eq_iff_iff, Catalog.isKnownCollection_iff fun m hm => category?_isSome_iff_defines hm,
      Catalog.isKnownCollection_iff fun m hm => ownCategory?_isSome_iff_defines hm]
  rw [hknown, category?]
  cases (s.catalog.category? n).or (s.batchCategory? n) <;> rfl

theorem category?_isSome_iff :
    (s.category? n).isSome = true ↔ s.Defines n ∨ DataType.IsBuiltIn s.Defines n := by
  have hc := Catalog.category?_isSome_iff (c := s.catalog) (n := n)
  have hb := batchCategory?_isSome_iff (s := s) (n := n)
  rw [category?]
  cases hcat : s.catalog.category? n with
  | some category =>
    rw [hcat] at hc
    have hknown : s.Defines n ∨ DataType.IsBuiltIn s.Defines n :=
      (hc.1 rfl).imp .inl (DataType.IsBuiltIn.mono fun m hm => .inl hm)
    exact iff_of_true rfl hknown
  | none =>
    rw [hcat] at hc
    obtain ⟨hno, hbuilt⟩ := not_or.1 (hc.not.1 Bool.false_ne_true)
    cases hbat : s.batchCategory? n with
    | some category =>
      rw [hbat] at hb
      exact iff_of_true rfl (.inl (.inr (hb.1 rfl)))
    | none =>
      rw [hbat] at hb
      have hno' : ¬s.Defines n := not_or.2 ⟨hno, hb.not.1 Bool.false_ne_true⟩
      have hprim : ¬(Primitive.ofName? n).isSome = true := fun hp => hbuilt (.inl hp)
      rw [DataType.IsBuiltIn, or_iff_right hno', or_iff_right hprim,
        ← Catalog.isKnownCollection_iff fun m hm => ownCategory?_isSome_iff_defines hm]
      dsimp only [Option.or]
      split <;> simp_all

theorem Admitted.batchCategory?_eq_enumeration_iff (hs : s.Admitted) :
    s.batchCategory? n = some .enumeration ↔ ∃ e, .enumeration e ∈ s.accepted ∧ e.name = n := by
  rw [batchCategory?]
  cases hd : s.declaration? n with
  | some d =>
    have hne := d.kind.enumeration_ne_category
    have hno : ¬∃ e, .enumeration e ∈ s.accepted ∧ e.name = n := by
      rintro ⟨e, he, hn⟩
      obtain ⟨hm, hdn⟩ := hs.declaration?_eq_some_iff.1 hd
      cases hs.eq_of_name he (mem_declarations.1 hm) (hn.trans hdn.symm)
    simp [Declaration.category, hne.symm, hno]
  | none => simp [mem_enums]

theorem Admitted.category?_eq_enumeration_iff (hs : s.Admitted) (hi : s.catalog.Integrity) :
    s.category? n = some .enumeration ↔
      ∃ e, (.enumeration e ∈ s.accepted ∧ e.name = n) ∨ s.catalog.enum? n = some e := by
  rw [exists_or, ← Catalog.category?_eq_enumeration_iff hi, ← hs.batchCategory?_eq_enumeration_iff,
    category?]
  cases hc : s.catalog.category? n with
  | some category =>
    have hb : ¬(s.batchCategory? n).isSome := fun hb => by
      obtain ⟨d, hd, rfl⟩ := batchCategory?_isSome_iff.1 hb
      have hfree := hs.free d hd
      rw [Catalog.contains, hc] at hfree
      cases hfree
    simp_all
  | none =>
    cases s.batchCategory? n with
    | some category => simp
    | none =>
      dsimp only [Option.or]
      split <;> simp

theorem category?_of_defines (hn : s.catalog.Defines n) : s.category? n = s.catalog.ownCategory? n := by
  obtain ⟨category, h⟩ := Option.isSome_iff_exists.1 (Catalog.ownCategory?_isSome_iff.2 (.inl hn))
  rw [category?, Catalog.category?, h]
  rfl

theorem Admitted.lookup_of_defines (hs : s.Admitted) (hi : s.catalog.Integrity) (hn : s.catalog.Defines n) :
    s.resolveAll.lookup s.catalog n = s.catalog.type? n := by
  have hnew : s.resolveAll.resolved.get? n = none := by
    cases hr : s.resolveAll.resolved.get? n with
    | none => rfl
    | some r =>
      obtain ⟨-, d, hd, -⟩ := (sound_resolveAll hs hi).1.resolved n r hr
      have hfree := hs.free_declaration (mem_of_declaration? hd)
      rw [name_of_declaration? hd, Catalog.contains_of_defines hn] at hfree
      cases hfree
  rw [Resolution.lookup, hnew]
  rfl

namespace Makes

variable (h : s.Makes c) (hi : c.Integrity)

include h

theorem defines_iff : c.Defines n ↔ s.Defines n := by
  refine ⟨h.defined n, fun hn => ?_⟩
  rcases hn with hn | ⟨d, hd, rfl⟩
  · exact h.keeps.defines hn
  · exact Catalog.defines_of_isCommitted (h.committed d hd)

include hi

/-- Each category by what it means, so it does not matter in which order names are looked up. -/
theorem category?_eq (hs : s.Admitted) (hi₀ : s.catalog.Integrity) (n : String) :
    s.category? n = c.category? n := by
  refine Category.option_ext (fun k => ?kind) ?enumeration ?known
  case kind => rw [hs.category?_eq_kind_iff, h.hasKind_iff hi, Catalog.category?_eq_kind_iff]
  case enumeration =>
    rw [hs.category?_eq_enumeration_iff hi₀, Catalog.category?_eq_enumeration_iff hi]
    exact exists_congr fun e => (h.enum?_iff hi).symm
  case known =>
    have hd : c.Defines = s.Defines := funext fun m => propext h.defines_iff
    rw [category?_isSome_iff, Catalog.category?_isSome_iff, hd]

end Makes

end Scope

/-- Read as a data type, a committed name stands for what is committed under it: whatever attribute is
declared with it is checked and validated against that and nothing else. -/
structure Catalog.DenotesItself (c : Catalog) (n : String) : Prop where
  read : DataType.ofName n = .named n
  needed : ∀ a : Attribute, a.typeName = n → a.dataType.references = [n]
  checked : ∀ batch, (c.scope batch).category? n = c.ownCategory? n ∧
    (c.scope batch).resolveAll.lookup c n = c.type? n
  validated : ∀ a : Attribute, a.typeName = n → ∀ owner v,
    Value.violations c owner a.name v a.dataType = [] ↔ Inhabits c v (.named n)

theorem Catalog.denotesItself_iff {c : Catalog} (hi : c.Integrity) {n : String} (hn : c.Defines n) :
    c.DenotesItself n ↔ DataType.ofName n = .named n := by
  refine ⟨fun h => h.read, fun h => ⟨h, ?needed, fun batch => ⟨?category, ?lookup⟩, ?validated⟩⟩
  case needed =>
    rintro a rfl
    rw [Attribute.dataType, h]
    rfl
  case category => exact Scope.category?_of_defines (s := c.scope batch) hn
  case lookup => exact (Scope.admitted_scope c batch).lookup_of_defines (s := c.scope batch) hi hn
  case validated =>
    rintro a rfl owner v
    rw [Attribute.dataType, h]
    exact Value.violations_eq_nil_iff hi v owner a.name _

namespace Registry

theorem category_kept_by_commit (ops : List Operation) {batch : List Definition} {staged : Staged}
    (h : (after ops).catalog.stage batch = .ok staged) (now : Nat) (n : String) :
    ((after ops).catalog.scope batch).category? n = ((after ops).catalog.commit staged now).category? n := by
  have hi := (reachable_after ops).integrity
  have hs := Catalog.admitted_of_stage h
  rw [Catalog.scope_of_refused_eq_nil (Catalog.admitted_iff.1 hs)]
  exact (Catalog.makes_commit hi h).category?_eq (Catalog.integrity_commit hi h) hs hi n

/-- A crate, a class that is named like a collection of crates, and two enumerations with odd names. -/
def crateBatch : List Definition :=
  [.declaration ⟨.classType, "array<Crate>", ∅, [], by decide, no_supers_nonblank⟩,
    .declaration ⟨.classType, "Crate", ∅, [], by decide, no_supers_nonblank⟩,
    .enumeration ⟨"map<Crate>", [⟨"FULL", 0⟩], by decide, by decide, by decide, by decide⟩,
    .enumeration ⟨" Format ", [⟨"CSV", 1⟩], by decide, by decide, by decide, by decide⟩]

theorem free_crateBatch : ∀ d ∈ crateBatch, Catalog.empty.contains d.name = false := by
  simp only [crateBatch, List.forall_mem_cons]
  refine ⟨?array, ?plain, ?map, ?spaced, by simp⟩
  all_goals exact Catalog.contains_empty_eq_false (by decide) (by cbv)

theorem clean_crateBatch : (⟨.empty, crateBatch⟩ : Scope).Clean := by
  have hbare : ∀ d ∈ (⟨.empty, crateBatch⟩ : Scope).declarations, d.supers = ∅ ∧ d.attributes = [] := by
    decide
  refine ⟨⟨by decide, free_crateBatch⟩, fun d hd => ?supers, fun d hd => ?references, by cbv, by cbv,
    fun d hd => ?reverse⟩
  case supers =>
    rw [Scope.superDefects, (hbare d hd).1]
    rfl
  case references =>
    rw [Scope.attributeDefects, (hbare d hd).2]
    rfl
  case reverse =>
    rw [Declaration.reverseDefects, (hbare d hd).2]
    rfl

theorem crate_category_kept :
    ∃ staged, (after []).catalog.stage crateBatch = .ok staged ∧
      ((after []).catalog.scope crateBatch).category? "array<Crate>" = some .classType ∧
      ((after []).catalog.commit staged 0).category? "array<Crate>" = some .classType := by
  have h : (after []).catalog.stage crateBatch = .ok (⟨.empty, crateBatch⟩ : Scope).staged :=
    Catalog.stage_eq_ok_iff.2 ⟨clean_crateBatch, rfl⟩
  have hs := Scope.admitted_scope (after []).catalog crateBatch
  have hcat : ((after []).catalog.scope crateBatch).category? "array<Crate>" = some .classType := by
    refine (hs.category?_eq_kind_iff (k := .classType)).2 (.inr ?_)
    rw [Catalog.scope_of_refused_eq_nil (Catalog.admitted_iff.1 (Catalog.admitted_of_stage h))]
    exact ⟨_, List.mem_cons_self .., rfl, rfl⟩
  exact ⟨_, h, hcat, (category_kept_by_commit [] h 0 "array<Crate>").symm.trans hcat⟩

theorem denotes_itself_iff_plain (ops : List Operation) {n : String} (hn : (after ops).catalog.Defines n) :
    (after ops).catalog.DenotesItself n ↔
      Text.trimmed n = n ∧ ¬DataType.WrittenCollection n.toList := by
  have hi := (reachable_after ops).integrity
  rw [Catalog.denotesItself_iff hi hn, DataType.ofName_eq_named_iff]
  exact and_iff_right (hi.not_primitive n hn)

theorem defines_crateBatch {d : Definition} (hd : d ∈ crateBatch) :
    (after [.call (.register 0 crateBatch)]).catalog.Defines d.name := by
  rw [catalog_after_register 0 rfl clean_crateBatch]
  exact (clean_crateBatch.defines_committed Catalog.integrity_empty).2 (.inr ⟨d, hd, rfl⟩)

theorem crates_map_denotes_itself :
    (after [.call (.register 0 crateBatch)]).catalog.Defines "map<Crate>" ∧
      (after [.call (.register 0 crateBatch)]).catalog.DenotesItself "map<Crate>" := by
  have hn : (after [.call (.register 0 crateBatch)]).catalog.Defines "map<Crate>" :=
    defines_crateBatch (.tail _ (.tail _ (.head _)))
  exact ⟨hn, (denotes_itself_iff_plain _ hn).2 ⟨by decide, by decide⟩⟩

theorem crates_array_denotes_no_class :
    (after [.call (.register 0 crateBatch)]).catalog.Defines "array<Crate>" ∧
      DataType.ofName "array<Crate>" = .array (.named "Crate") ∧
      (after [.call (.register 0 crateBatch)]).catalog.Defines " Format " ∧
      DataType.ofName " Format " = .named "Format" :=
  ⟨defines_crateBatch (.head _), by cbv, defines_crateBatch (.tail _ (.tail _ (.tail _ (.head _)))), by cbv⟩

end Registry

end TypeCatalog
