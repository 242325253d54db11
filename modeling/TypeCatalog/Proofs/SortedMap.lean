import Mathlib.Data.List.Nodup
import TypeCatalog.SortedMap.Lookup
set_option autoImplicit false

namespace TypeCatalog

theorem find?_eq_some_iff_of_nodup {α κ : Type} [DecidableEq κ] {key : α → κ} {xs : List α}
    (h : (xs.map key).Nodup) {k : κ} {x : α} :
    xs.find? (fun y => key y == k) = some x ↔ x ∈ xs ∧ key x = k := by
  constructor
  · exact fun hx => ⟨List.mem_of_find?_eq_some hx, by simpa using List.find?_some hx⟩
  · rintro ⟨hx, rfl⟩
    obtain ⟨y, hy⟩ := Option.isSome_iff_exists.1
      (List.find?_isSome (p := fun y => key y == key x).2 ⟨x, hx, by simp⟩)
    have hkey : key y = key x := by simpa using List.find?_some hy
    rw [hy, List.inj_on_of_nodup_map h (List.mem_of_find?_eq_some hy) hx hkey]

theorem find?_eq_none_of_not_mem {α κ : Type} [DecidableEq κ] {key : α → κ} {xs : List α} {k : κ}
    (h : k ∉ xs.map key) : xs.find? (fun y => key y == k) = none := by
  rw [List.find?_eq_none]
  intro x hx hk
  exact h (List.mem_map.2 ⟨x, hx, by simpa using hk⟩)

end TypeCatalog

namespace TypeCatalog.SortedMap

variable {κ α β : Type} [LT κ] [DecidableEq κ]

theorem not_mem_iff {m : SortedMap κ α} {k : κ} : k ∉ m ↔ m.get? k = none := by
  rw [mem_iff, Option.eq_none_iff_forall_ne_some, not_exists]

omit [LT κ] in
theorem find_filter {p : κ → Bool} {k : κ} (h : p k = true) (es : List (κ × α)) :
    find k (es.filter fun e => p e.1) = find k es := by
  induction es with
  | nil => rfl
  | cons e es ih =>
    by_cases he : p e.1 = true
    · rw [List.filter_cons_of_pos (by simpa using he), find, find, ih]
    · have hk : e.1 ≠ k := fun hk => he (hk ▸ h)
      rw [List.filter_cons_of_neg (by simpa using he), ih, find, if_neg hk]

omit [LT κ] in
theorem find_filter_ne {k k' : κ} (h : k ≠ k') (es : List (κ × α)) :
    find k (es.filter fun e => e.1 ≠ k') = find k es :=
  find_filter (p := fun k => k ≠ k') (by simpa using h) es

omit [LT κ] in
theorem find_of_mem {es : List (κ × α)} (h : (es.map Prod.fst).Nodup) {k : κ} {v : α}
    (hm : (k, v) ∈ es) : find k es = some v := by
  induction es with
  | nil => simp at hm
  | cons e es ih =>
    obtain ⟨he, hes⟩ := List.nodup_cons.1 h
    rcases List.mem_cons.1 hm with rfl | hm
    · simp [find]
    · have hk : e.1 ≠ k := fun hk => he (List.mem_map.2 ⟨(k, v), hm, hk.symm⟩)
      rw [find, if_neg hk, ih hes hm]

omit [DecidableEq κ] in
@[simp] theorem emptyCollection_eq : (∅ : SortedMap κ α) = empty := rfl

@[simp] theorem not_mem_empty (k : κ) : k ∉ (empty : SortedMap κ α) := not_mem_iff.2 rfl

@[simp] theorem mem_map {f : α → β} {m : SortedMap κ α} {k : κ} : k ∈ m.map f ↔ k ∈ m := by
  simp only [mem_iff, get?_map, Option.map_eq_some_iff]
  exact ⟨fun ⟨_, v, hv, _⟩ => ⟨v, hv⟩, fun ⟨v, hv⟩ => ⟨f v, v, hv, rfl⟩⟩

section Ordered

variable [LE κ] [Std.IsLinearOrder κ] [Std.LawfulOrderLT κ]

omit [Std.IsLinearOrder κ] in
theorem mem_keys {m : SortedMap κ α} {k : κ} : k ∈ m.keys ↔ k ∈ m := by
  rw [mem_iff, keys, List.mem_map]
  constructor
  · intro h
    obtain ⟨⟨k, v⟩, he, rfl⟩ := h
    exact ⟨v, get?_eq_some_iff.2 he⟩
  · intro h
    obtain ⟨v, hv⟩ := h
    exact ⟨(k, v), get?_eq_some_iff.1 hv, rfl⟩

omit [Std.IsLinearOrder κ] in
theorem mem_values {m : SortedMap κ α} {v : α} : v ∈ m.values ↔ ∃ k, m.get? k = some v := by
  simp only [values, List.mem_map, get?_eq_some_iff]
  constructor
  · intro h
    obtain ⟨⟨k, v⟩, he, rfl⟩ := h
    exact ⟨k, he⟩
  · intro h
    obtain ⟨k, hk⟩ := h
    exact ⟨(k, v), hk, rfl⟩

omit [Std.IsLinearOrder κ] in
theorem map_values_eq_keys {m : SortedMap κ α} {f : α → κ} (h : ∀ k v, m.get? k = some v → f v = k) :
    m.values.map f = m.keys := by
  rw [values, keys, List.map_map]
  exact List.map_congr_left fun e he => h e.1 e.2 (get?_eq_some_iff.2 he)

omit [DecidableEq κ] [Std.IsLinearOrder κ] in
theorem keys_nodup (m : SortedMap κ α) : m.keys.Nodup :=
  List.nodup_iff_pairwise_ne.2 (m.keys_ascending.imp Std.ne_of_lt)

variable [DecidableLT κ]

theorem mem_insert {m : SortedMap κ α} {k k' : κ} {v : α} :
    k' ∈ m.insert k v ↔ k' = k ∨ k' ∈ m := by
  by_cases h : k = k'
  · subst h
    simp [mem_iff, get?_insert]
  · simp [mem_iff, get?_insert, h, Ne.symm h]

omit [DecidableEq κ] [Std.IsLinearOrder κ] in
theorem place_of_forall_lt {k : κ} {v : α} {es : List (κ × α)} (h : ∀ e ∈ es, e.1 < k) :
    place k v es = es ++ [(k, v)] := by
  induction es with
  | nil => rfl
  | cons e es ih =>
    obtain ⟨he, hes⟩ := List.forall_mem_cons.1 h
    rw [place, if_neg (Std.Asymm.asymm _ _ he), if_pos he, ih hes, List.cons_append]

omit [DecidableEq κ] in
theorem entries_insert_of_forall_lt {m : SortedMap κ α} {k : κ} {v : α}
    (h : ∀ e ∈ m.entries, e.1 < k) : (m.insert k v).entries = m.entries ++ [(k, v)] :=
  place_of_forall_lt h

theorem get?_foldl_insert {es : List (κ × α)} (h : (es.map Prod.fst).Nodup) (m : SortedMap κ α)
    (k : κ) :
    (es.foldl (fun m e => m.insert e.1 e.2) m).get? k = (find k es).or (m.get? k) := by
  induction es generalizing m with
  | nil => rfl
  | cons e es ih =>
    obtain ⟨he, hes⟩ := List.nodup_cons.1 h
    rw [List.foldl_cons, ih hes, get?_insert, find]
    by_cases hk : e.1 = k
    · have hn : find k es = none :=
        find_eq_none_iff.2 fun d hd hdk => he (List.mem_map.2 ⟨d, hd, hdk.trans hk.symm⟩)
      simp [hk, hn]
    · simp [hk]

theorem mem_foldl_insert {es : List (κ × α)} {m : SortedMap κ α} {k : κ} :
    k ∈ es.foldl (fun m e => m.insert e.1 e.2) m ↔ k ∈ es.map Prod.fst ∨ k ∈ m := by
  induction es generalizing m with
  | nil => simp
  | cons e es ih =>
    rw [List.foldl_cons, ih, mem_insert, List.map_cons, List.mem_cons]
    grind

/-- Where no key is put twice and none stands there before, nothing is lost. -/
theorem get?_foldl_insert_eq_some_iff {es : List (κ × α)} (h : (es.map Prod.fst).Nodup)
    {m : SortedMap κ α} (hm : ∀ e ∈ es, e.1 ∉ m) {k : κ} {v : α} :
    (es.foldl (fun m e => m.insert e.1 e.2) m).get? k = some v ↔
      (k, v) ∈ es ∨ m.get? k = some v := by
  rw [get?_foldl_insert h, Option.or_eq_some_iff]
  refine or_congr ⟨mem_of_find, find_of_mem h⟩ (and_iff_right_of_imp fun hv => ?_)
  exact find_eq_none_iff.2 fun e he hk => hm e he (mem_iff.2 ⟨v, hk ▸ hv⟩)

theorem get?_ofList {es : List (κ × α)} (h : (es.map Prod.fst).Nodup) {k : κ} {v : α} :
    (ofList es).get? k = some v ↔ (k, v) ∈ es := by
  rw [ofList, get?_foldl_insert_eq_some_iff h (by simp)]
  simp

theorem ofList_entries (m : SortedMap κ α) : ofList m.entries = m :=
  ext_get? fun _ => Option.ext fun _ => (get?_ofList m.keys_nodup).trans get?_eq_some_iff.symm

theorem get?_union (m n : SortedMap κ α) (k : κ) :
    (m.union n).get? k = (n.get? k).or (m.get? k) :=
  get?_foldl_insert n.keys_nodup m k

theorem mem_union {m n : SortedMap κ α} {k : κ} : k ∈ m.union n ↔ k ∈ n ∨ k ∈ m := by
  rw [← mem_keys (m := n)]
  exact mem_foldl_insert

end Ordered

end TypeCatalog.SortedMap

namespace TypeCatalog.NameSet

theorem mem_toList {s : NameSet} {n : String} : n ∈ s.toList ↔ n ∈ s := SortedMap.mem_keys

theorem mem_ofList {names : List String} {n : String} : n ∈ NameSet.ofList names ↔ n ∈ names := by
  rw [NameSet.ofList, SortedMap.ofList, SortedMap.mem_foldl_insert, List.map_map]
  simp [Function.comp_def]

theorem ext_mem {s t : NameSet} (h : ∀ n, n ∈ s ↔ n ∈ t) : s = t := by
  refine SortedMap.ext_get? fun n => Option.ext fun u => ?_
  have hn := h n
  rw [SortedMap.mem_iff, SortedMap.mem_iff] at hn
  exact ⟨fun hu => (hn.1 ⟨u, hu⟩).elim fun _ hv => hv, fun hu => (hn.2 ⟨u, hu⟩).elim fun _ hv => hv⟩

@[simp] theorem ofList_toList (s : NameSet) : ofList s.toList = s :=
  ext_mem fun _ => mem_ofList.trans mem_toList

end TypeCatalog.NameSet
