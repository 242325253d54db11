import Mathlib.Data.List.Basic
import Mathlib.Data.List.Induction
import TypeCatalog.Inheritance.Flattening
import TypeCatalog.Proofs.SortedMap
set_option autoImplicit false

namespace TypeCatalog.Contribution

def first? (cs : List Contribution) (name : String) : Option Contribution :=
  cs.find? fun c => c.attr.name == name

def conflict? (type : String) (cs : List Contribution) (c : Contribution) : Option Defect :=
  (first? cs c.attr.name).bind fun k =>
    if k.attr = c.attr then none
    else some (.conflict type c.attr.name k.source k.attr c.source c.attr)

theorem name_of_first? {cs : List Contribution} {name : String} {c : Contribution}
    (h : first? cs name = some c) : c.attr.name = name := by
  simpa using List.find?_some h

theorem exists_first? {cs : List Contribution} {c : Contribution} (h : c ∈ cs) :
    ∃ k, first? cs c.attr.name = some k :=
  Option.isSome_iff_exists.1 (List.find?_isSome.2 ⟨c, h, by simp⟩)

theorem first?_concat (cs : List Contribution) (c : Contribution) (name : String) :
    first? (cs ++ [c]) name =
      (first? cs name).or (if c.attr.name = name then some c else none) := by
  rw [first?, List.find?_append]
  by_cases h : c.attr.name = name <;> simp [first?, h]

theorem merge_concat (type : String) (cs : List Contribution) (c : Contribution) :
    merge type (cs ++ [c]) = Merge.add type (merge type cs) c := by
  simp [merge, List.foldl_append]

theorem get?_kept_merge (type : String) (cs : List Contribution) (name : String) :
    (merge type cs).kept.get? name = first? cs name := by
  induction cs using List.reverseRecOn generalizing name with
  | nil => rfl
  | append_singleton cs c ih =>
    rw [merge_concat, Merge.add, first?_concat, ih]
    by_cases hn : c.attr.name = name
    · subst hn
      cases hk : first? cs c.attr.name with
      | none => simp [SortedMap.get?_insert]
      | some k =>
        dsimp only
        split <;> simp [ih, hk]
    · cases first? cs c.attr.name with
      | none => simp [SortedMap.get?_insert, hn, ih]
      | some k =>
        dsimp only
        split <;> simp [ih]

theorem conflict?_concat {type : String} {cs : List Contribution} {c d : Contribution}
    (h : d ∈ cs) : conflict? type (cs ++ [c]) d = conflict? type cs d := by
  obtain ⟨k, hk⟩ := exists_first? h
  simp [conflict?, first?_concat, hk]

/-- A later contribution is compared with the first of its name only. -/
theorem conflicts_merge (type : String) (cs : List Contribution) :
    (merge type cs).conflicts = cs.filterMap (conflict? type cs) := by
  induction cs using List.reverseRecOn with
  | nil => rfl
  | append_singleton cs c ih =>
    rw [merge_concat, List.filterMap_append, List.filterMap_congr fun d hd => conflict?_concat hd,
      ← ih, Merge.add, get?_kept_merge]
    cases hk : first? cs c.attr.name with
    | none => simp [conflict?, first?_concat, hk]
    | some k =>
      dsimp only
      split <;> simp [conflict?, first?_concat, *]

theorem conflicts_merge_eq_nil_iff {type : String} {cs : List Contribution} :
    (merge type cs).conflicts = [] ↔
      ∀ c ∈ cs, ∀ d ∈ cs, c.attr.name = d.attr.name → c.attr = d.attr := by
  have hfirst : ∀ c ∈ cs, conflict? type cs c = none ↔
      ∀ k, first? cs c.attr.name = some k → k.attr = c.attr := by
    intro c hc
    simp [conflict?, Option.bind_eq_none_iff]
  rw [conflicts_merge, List.filterMap_eq_nil_iff]
  constructor
  · intro h c hc d hd hn
    obtain ⟨k, hk⟩ := exists_first? hc
    exact ((hfirst c hc).1 (h c hc) k hk).symm.trans ((hfirst d hd).1 (h d hd) k (hn ▸ hk))
  · intro h c hc
    exact (hfirst c hc).2 fun k hk => h k (List.mem_of_find?_eq_some hk) c hc (name_of_first? hk)

end TypeCatalog.Contribution

namespace TypeCatalog.Declaration

variable {d : Declaration} {lookup lookup' : Lookup}

def Contributes (d : Declaration) (lookup : Lookup) (a : Attribute) : Prop :=
  a ∈ d.attributes ∨
    ∃ s ∈ d.ancestors lookup, ∃ r n, lookup s = some r ∧ r.attribute? n = some a

def Agrees (d : Declaration) (lookup : Lookup) : Prop :=
  ∀ a b, d.Contributes lookup a → d.Contributes lookup b → a.name = b.name → a = b

/-- A type that is flat: it holds the declaration and all that the ancestors hold. -/
structure Flattens (d : Declaration) (lookup : Lookup) (r : Resolved) : Prop where
  name : r.name = d.name
  kind : r.kind = d.kind
  supers : r.supers = d.supers
  ancestors : r.ancestors = d.ancestors lookup
  supers_known : ∀ s ∈ d.supers, ∃ q, lookup s = some q
  ancestors_known : ∀ s ∈ d.ancestors lookup, ∃ q, lookup s = some q
  holds : ∀ n a, r.attribute? n = some a ↔ a.name = n ∧ d.Contributes lookup a

theorem unknown_eq_nil_iff {names : List String} :
    d.unknown lookup names = [] ↔ ∀ n ∈ names, ∃ r, lookup n = some r := by
  simp [unknown, List.filter_eq_nil_iff, Option.ne_none_iff_exists']

theorem mem_ancestors {a : String} :
    a ∈ d.ancestors lookup ↔
      ∃ s ∈ d.supers, ∃ r, lookup s = some r ∧ (a = s ∨ a ∈ r.ancestors) := by
  trans a ∈ (∅ : NameSet) ∨
    ∃ s ∈ d.supers.toList, ∃ r, lookup s = some r ∧ (a = s ∨ a ∈ r.ancestors)
  · rw [ancestors]
    generalize d.supers.toList = names, (∅ : NameSet) = acc
    induction names generalizing acc with
    | nil => simp
    | cons s names ih =>
      rw [List.foldl_cons, ih]
      cases hs : lookup s with
      | none => simp [hs]
      | some r =>
        simp only [SortedMap.mem_union, SortedMap.mem_insert, List.exists_mem_cons_iff, hs,
          Option.some.injEq, exists_eq_left']
        grind
  · simp [NameSet.mem_toList]

def Collects (d : Declaration) (lookup : Lookup) (source : String) (a : Attribute) : Prop :=
  (source = d.name ∧ a ∈ d.attributes) ∨
    source ∈ d.ancestors lookup ∧ ∃ r n, lookup source = some r ∧ r.attribute? n = some a

theorem mem_contributions {source : String} {a : Attribute} :
    ⟨source, a⟩ ∈ d.contributions lookup ↔ d.Collects lookup source a := by
  simp only [Collects, contributions, List.mem_append, List.mem_map, List.mem_flatMap,
    NameSet.mem_toList, Contribution.mk.injEq]
  refine or_congr (by grind) ?_
  constructor
  · intro hx
    obtain ⟨s, hs, hm⟩ := hx
    cases hr : lookup s with
    | none => simp [hr] at hm
    | some r =>
      simp only [hr, List.mem_map, Contribution.mk.injEq] at hm
      obtain ⟨b, hb, rfl, rfl⟩ := hm
      obtain ⟨n, hn⟩ := SortedMap.mem_values.1 hb
      exact ⟨hs, r, n, hr, hn⟩
  · intro hx
    obtain ⟨hs, r, n, hr, hn⟩ := hx
    exact ⟨source, hs, by simpa [hr] using SortedMap.mem_values.2 ⟨n, hn⟩⟩

theorem contributes_iff_collects {a : Attribute} :
    d.Contributes lookup a ↔ ∃ source, d.Collects lookup source a := by
  simp only [Contributes, Collects, exists_or, exists_and_right, exists_eq, true_and]

theorem contributes_iff {a : Attribute} :
    d.Contributes lookup a ↔ ∃ c ∈ d.contributions lookup, c.attr = a := by
  rw [contributes_iff_collects]
  constructor
  · intro hx
    obtain ⟨source, h⟩ := hx
    exact ⟨_, mem_contributions.2 h, rfl⟩
  · intro hx
    obtain ⟨c, hc, rfl⟩ := hx
    exact ⟨c.source, mem_contributions.1 hc⟩

theorem conflicts_eq_nil_iff :
    (Contribution.merge d.name (d.contributions lookup)).conflicts = [] ↔ d.Agrees lookup := by
  rw [Contribution.conflicts_merge_eq_nil_iff]
  constructor
  · intro h a b ha hb hn
    obtain ⟨c, hc, rfl⟩ := contributes_iff.1 ha
    obtain ⟨e, he, rfl⟩ := contributes_iff.1 hb
    exact h c hc e he hn
  · intro h c hc e he hn
    exact h c.attr e.attr (contributes_iff.2 ⟨c, hc, rfl⟩) (contributes_iff.2 ⟨e, he, rfl⟩) hn

theorem flatten_defects_eq_nil_iff :
    d.unknown lookup d.supers.toList ++ d.unknown lookup (d.ancestors lookup).toList ++
        (Contribution.merge d.name (d.contributions lookup)).conflicts = [] ↔
      (∀ s ∈ d.supers, ∃ q, lookup s = some q) ∧
        (∀ s ∈ d.ancestors lookup, ∃ q, lookup s = some q) ∧ d.Agrees lookup := by
  simp only [List.append_eq_nil_iff, unknown_eq_nil_iff, conflicts_eq_nil_iff, NameSet.mem_toList,
    and_assoc]

theorem flatten_isOk_iff :
    (∃ r, d.flatten lookup = .ok r) ↔
      (∀ s ∈ d.supers, ∃ q, lookup s = some q) ∧
        (∀ s ∈ d.ancestors lookup, ∃ q, lookup s = some q) ∧ d.Agrees lookup := by
  rw [← flatten_defects_eq_nil_iff, flatten]
  split <;> simp_all

theorem flattens_of_flatten {r : Resolved} (h : d.flatten lookup = .ok r) :
    d.Flattens lookup r := by
  obtain ⟨hs, ha, hagree⟩ := flatten_isOk_iff.1 ⟨r, h⟩
  rw [flatten] at h
  split at h
  case isFalse => simp at h
  obtain rfl := Except.ok.inj h
  refine ⟨rfl, rfl, rfl, rfl, hs, ha, fun n a => ?_⟩
  rw [Resolved.attribute?, SortedMap.get?_map, Contribution.get?_kept_merge]
  constructor
  · intro h
    obtain ⟨c, hc, rfl⟩ := Option.map_eq_some_iff.1 h
    exact ⟨Contribution.name_of_first? hc, contributes_iff.2 ⟨c, List.mem_of_find?_eq_some hc, rfl⟩⟩
  · intro hx
    obtain ⟨rfl, hc⟩ := hx
    obtain ⟨c, hc', rfl⟩ := contributes_iff.1 hc
    obtain ⟨k, hk⟩ := Contribution.exists_first? hc'
    have hkc : d.Contributes lookup k.attr :=
      contributes_iff.2 ⟨k, List.mem_of_find?_eq_some hk, rfl⟩
    rw [hk, Option.map_some, hagree _ _ hkc hc (Contribution.name_of_first? hk)]

theorem Flattens.agrees {r : Resolved} (h : d.Flattens lookup r) : d.Agrees lookup := fun a b ha hb hn =>
  Option.some.inj (((h.holds a.name a).2 ⟨rfl, ha⟩).symm.trans ((h.holds a.name b).2 ⟨hn.symm, hb⟩))

theorem Flattens.unique {r r' : Resolved} (h : d.Flattens lookup r) (h' : d.Flattens lookup r') : r = r' := by
  have hattrs : r.attributes = r'.attributes :=
    SortedMap.ext_get? fun n => Option.ext fun a => (h.holds n a).trans (h'.holds n a).symm
  obtain ⟨name, kind, supers, ancestors, attributes⟩ := r
  obtain rfl : attributes = r'.attributes := hattrs
  obtain rfl : name = r'.name := h.name.trans h'.name.symm
  obtain rfl : kind = r'.kind := h.kind.trans h'.kind.symm
  obtain rfl : supers = r'.supers := h.supers.trans h'.supers.symm
  obtain rfl : ancestors = r'.ancestors := h.ancestors.trans h'.ancestors.symm
  rfl

theorem flatten_eq_ok_iff {r : Resolved} : d.flatten lookup = .ok r ↔ d.Flattens lookup r := by
  refine ⟨flattens_of_flatten, fun h => ?_⟩
  obtain ⟨r', hr'⟩ := flatten_isOk_iff.2 ⟨h.supers_known, h.ancestors_known, h.agrees⟩
  rw [hr', (flattens_of_flatten hr').unique h]

theorem ancestors_congr (h : ∀ s ∈ d.supers, lookup s = lookup' s) :
    d.ancestors lookup = d.ancestors lookup' :=
  List.foldl_ext _ _ _ fun acc s hs => by rw [h s (NameSet.mem_toList.1 hs)]

theorem flatten_congr (h : ∀ s ∈ d.supers, lookup s = lookup' s)
    (ha : ∀ s ∈ d.ancestors lookup, lookup s = lookup' s) :
    d.flatten lookup = d.flatten lookup' := by
  have hu : ∀ names : List String, (∀ n ∈ names, lookup n = lookup' n) →
      d.unknown lookup names = d.unknown lookup' names := fun names hn => by
    rw [unknown, unknown, List.filter_congr fun n hm => by rw [hn n hm]]
  have hc : d.contributions lookup = d.contributions lookup' := by
    rw [contributions, contributions, ← ancestors_congr h]
    congr 1
    exact List.flatMap_congr fun s hs => by rw [ha s (NameSet.mem_toList.1 hs)]
  rw [flatten, flatten, hc, ← ancestors_congr h,
    hu _ fun n hn => h n (NameSet.mem_toList.1 hn),
    hu _ fun n hn => ha n (NameSet.mem_toList.1 hn)]

end TypeCatalog.Declaration

namespace TypeCatalog.Lookup

variable {d : Declaration} {lookup lookup' : Lookup}

def Keeps (lookup' lookup : Lookup) : Prop := ∀ n r, lookup n = some r → lookup' n = some r

def Closed (lookup : Lookup) : Prop :=
  ∀ n r, lookup n = some r → ∀ a ∈ r.ancestors, ∃ q, lookup a = some q

theorem Closed.ancestors_known (h : lookup.Closed) {a : String} (ha : a ∈ d.ancestors lookup) :
    ∃ q, lookup a = some q := by
  obtain ⟨s, -, r, hr, rfl | hm⟩ := Declaration.mem_ancestors.1 ha
  · exact ⟨r, hr⟩
  · exact h s r hr a hm

/-- What is found besides the supertypes and ancestors does not matter. -/
theorem Closed.flatten_eq (h : lookup.Closed) (hk : lookup'.Keeps lookup)
    (hs : ∀ s ∈ d.supers, ∃ q, lookup s = some q) : d.flatten lookup' = d.flatten lookup := by
  refine (Declaration.flatten_congr (fun s hm => ?_) fun a ha => ?_).symm
  · obtain ⟨q, hq⟩ := hs s hm
    rw [hq, hk s q hq]
  · obtain ⟨q, hq⟩ := h.ancestors_known ha
    rw [hq, hk a q hq]

end TypeCatalog.Lookup
