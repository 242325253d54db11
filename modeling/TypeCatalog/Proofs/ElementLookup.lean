import TypeCatalog.Proofs.Naming
set_option autoImplicit false

/-!
How far down the look-up of a category goes. The category of a collection is found by looking up the names of its
elements in the same way, so it is not plain that this ends. Main statement: the names that a data type needs stand
for themselves, so no look-up goes deeper than from a collection to its elements, and a collection is known exactly
when all of these names are defined.
-/

namespace TypeCatalog

/-- The look-up of a category by recursion, with at most so many calls inside each other: `none` tells that more
are needed. What a name stands for by itself is found by `own`, which has as many calls left. -/
def categoryBy (own : Nat → String → Option (Option Category)) : Nat → String → Option (Option Category)
  | 0, _ => none
  | depth + 1, n => do
    match ← own (depth + 1) n with
    | some category => some (some category)
    | none =>
      if (DataType.ofName n).isCollection then do
        let known ← (DataType.ofName n).references.allM fun m => (categoryBy own depth m).map Option.isSome
        some (if known then some .primitive else none)
      else some none

theorem DataType.isBuiltIn_of_isCollection {defined : String → Prop} {n : String}
    (h : (ofName n).isCollection = true) :
    IsBuiltIn defined n ↔ ∀ m ∈ (ofName n).references, defined m := by
  have hprimitive : ¬(Primitive.ofName? n).isSome = true := by
    intro hp
    obtain ⟨p, hp⟩ := Option.isSome_iff_exists.1 hp
    rw [← Primitive.name_of_ofName? hp, ofName_primitive] at h
    cases h
  rw [IsBuiltIn, or_iff_right hprimitive, and_iff_right h]

theorem allM_eq_some {α : Type} {p : α → Option Bool} {q : α → Bool} {xs : List α}
    (h : ∀ x ∈ xs, p x = some (q x)) : xs.allM p = some (xs.all q) := by
  induction xs with
  | nil => rfl
  | cons x xs ih =>
    obtain ⟨hx, hxs⟩ := List.forall_mem_cons.1 h
    rw [List.allM, hx, List.all_cons]
    cases q x with
    | false => rfl
    | true => exact ih hxs

section CategoryBy

variable {own : Nat → String → Option (Option Category)} {depth : Nat} {n : String} {found : Option Category}

theorem categoryBy_succ (h : own (depth + 1) n = some found) {known : String → Bool}
    (hk : (DataType.ofName n).isCollection = true → ∀ m ∈ (DataType.ofName n).references,
      (categoryBy own depth m).map Option.isSome = some (known m)) :
    categoryBy own (depth + 1) n =
      some (found.or (if Catalog.isKnownCollection known n then some .primitive else none)) := by
  rw [categoryBy, h]
  cases found with
  | some category => rfl
  | none =>
    rw [Catalog.isKnownCollection]
    dsimp only [Option.bind_eq_bind, Option.bind_some]
    split
    · next hc => simp [allM_eq_some (hk hc), hc]
    · next hc => simp [hc]

theorem categoryBy_of_named (hn : DataType.ofName n = .named n) (h : own (depth + 1) n = some found) :
    categoryBy own (depth + 1) n = some found := by
  rw [categoryBy, h]
  cases found with
  | some category => rfl
  | none => simp [hn, DataType.isCollection]

end CategoryBy

namespace Catalog

variable {c : Catalog} {n : String}

def categoryWithin (c : Catalog) : Nat → String → Option (Option Category) :=
  categoryBy fun _ n => some (c.ownCategory? n)

theorem category?_of_named (h : DataType.ofName n = .named n) : c.category? n = c.ownCategory? n := by
  rw [category?, isKnownCollection, h]
  cases c.ownCategory? n <;> rfl

theorem categoryWithin_of_named (h : DataType.ofName n = .named n) (depth : Nat) :
    c.categoryWithin (depth + 1) n = some (c.category? n) :=
  category?_of_named h ▸ categoryBy_of_named h rfl

theorem categoryWithin_eq (c : Catalog) (depth : Nat) (n : String) :
    c.categoryWithin (depth + 2) n = some (c.category? n) := by
  rw [category?_eq]
  refine categoryBy_succ rfl fun _ m hm => ?_
  exact congrArg (Option.map Option.isSome)
    (categoryWithin_of_named (DataType.ofName_of_mem_references hm) depth)

theorem collection_isSome_iff (hc : (DataType.ofName n).isCollection = true) (hn : ¬c.Defines n) :
    (c.category? n).isSome = true ↔ ∀ m ∈ (DataType.ofName n).references, c.Defines m := by
  rw [category?_isSome_iff, or_iff_right hn]
  exact DataType.isBuiltIn_of_isCollection hc

end Catalog

namespace Scope

variable {s : Scope} {n : String}

/-- The catalog is asked first, and goes down by itself. -/
def categoryWithin (s : Scope) : Nat → String → Option (Option Category) :=
  categoryBy fun depth n => (s.catalog.categoryWithin depth n).map fun found => found.or (s.batchCategory? n)

theorem category?_of_named (h : DataType.ofName n = .named n) :
    s.category? n = (s.catalog.category? n).or (s.batchCategory? n) := by
  rw [category?, Catalog.isKnownCollection, h]
  cases (s.catalog.category? n).or (s.batchCategory? n) <;> rfl

theorem categoryWithin_of_named (h : DataType.ofName n = .named n) (depth : Nat) :
    s.categoryWithin (depth + 1) n = some (s.category? n) := by
  rw [category?_of_named h]
  refine categoryBy_of_named h ?_
  rw [Catalog.categoryWithin_of_named h, Option.map_some]

theorem categoryWithin_eq (s : Scope) (depth : Nat) (n : String) :
    s.categoryWithin (depth + 2) n = some (s.category? n) := by
  rw [category?_eq]
  refine categoryBy_succ ?_ fun _ m hm => ?_
  · rw [Catalog.categoryWithin_eq, Option.map_some]
  · exact congrArg (Option.map Option.isSome)
      (categoryWithin_of_named (DataType.ofName_of_mem_references hm) depth)

theorem collection_isSome_iff (hc : (DataType.ofName n).isCollection = true) (hn : ¬s.Defines n) :
    (s.category? n).isSome = true ↔ ∀ m ∈ (DataType.ofName n).references, s.Defines m := by
  rw [category?_isSome_iff, or_iff_right hn]
  exact DataType.isBuiltIn_of_isCollection hc

end Scope

theorem lookups_end_at_elements :
    (∀ name : String, ∀ n ∈ (DataType.ofName name).references, DataType.ofName n = .named n) ∧
      (∀ (c : Catalog) (n : String),
        (∀ depth, c.categoryWithin (depth + 2) n = some (c.category? n)) ∧
          ((DataType.ofName n).isCollection = true → ¬c.Defines n →
            ((c.category? n).isSome = true ↔ ∀ m ∈ (DataType.ofName n).references, c.Defines m))) ∧
        ∀ (s : Scope) (n : String),
          (∀ depth, s.categoryWithin (depth + 2) n = some (s.category? n)) ∧
            ((DataType.ofName n).isCollection = true → ¬s.Defines n →
              ((s.category? n).isSome = true ↔ ∀ m ∈ (DataType.ofName n).references, s.Defines m)) :=
  ⟨fun _ _ => DataType.ofName_of_mem_references,
    fun c n => ⟨fun depth => c.categoryWithin_eq depth n, Catalog.collection_isSome_iff⟩,
    fun s n => ⟨fun depth => s.categoryWithin_eq depth n, Scope.collection_isSome_iff⟩⟩

/-- Crates by label are known to a batch that has crates, and to nothing before it. -/
theorem crates_by_label_looked_up :
    (DataType.ofName "map<string,array<Crate>>").references = ["Crate"] ∧
      DataType.ofName "Crate" = .named "Crate" ∧
      (∃ category, (⟨.empty, Registry.crateBatch⟩ : Scope).categoryWithin 2 "map<string,array<Crate>>" =
        some (some category)) ∧
      Catalog.empty.categoryWithin 2 "map<string,array<Crate>>" = some none := by
  have hneeds : (DataType.ofName "map<string,array<Crate>>").references = ["Crate"] := by cbv
  have hcollection : (DataType.ofName "map<string,array<Crate>>").isCollection = true := by cbv
  have hscope : (⟨.empty, Registry.crateBatch⟩ : Scope).Defines "Crate" :=
    .inr ⟨_, .tail _ (.head _), rfl⟩
  have hother : ¬(⟨.empty, Registry.crateBatch⟩ : Scope).Defines "map<string,array<Crate>>" :=
    not_or.2 ⟨Catalog.not_defines_empty, by decide⟩
  obtain ⟨hnamed, hcatalogs, hscopes⟩ := lookups_end_at_elements
  obtain ⟨hfound, hknown⟩ := hscopes ⟨.empty, Registry.crateBatch⟩ "map<string,array<Crate>>"
  obtain ⟨hfound', hknown'⟩ := hcatalogs .empty "map<string,array<Crate>>"
  rw [hneeds, List.forall_mem_singleton] at hknown hknown'
  obtain ⟨category, hcategory⟩ := Option.isSome_iff_exists.1 ((hknown hcollection hother).2 hscope)
  have hnone : Catalog.empty.category? "map<string,array<Crate>>" = none := by
    simpa using (hknown' hcollection Catalog.not_defines_empty).not.2 Catalog.not_defines_empty
  refine ⟨hneeds, hnamed "map<string,array<Crate>>" "Crate" (hneeds ▸ .head _), ⟨category, ?_⟩, ?_⟩
  · rw [hfound 0, hcategory]
  · rw [hfound' 0, hnone]

end TypeCatalog
