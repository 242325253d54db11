import TypeCatalog.SortedMap
set_option autoImplicit false

namespace TypeCatalog.SortedMap

variable {κ α β : Type} [LT κ]

variable [DecidableEq κ]

@[simp] theorem get?_empty (k : κ) : (empty : SortedMap κ α).get? k = none := rfl

omit [LT κ] in
theorem find_map (f : α → β) (k : κ) (es : List (κ × α)) :
    find k (es.map fun e => (e.1, f e.2)) = (find k es).map f := by
  induction es with
  | nil => rfl
  | cons e es ih =>
    by_cases h : e.1 = k <;> simp [find, h, ih]

@[simp] theorem get?_map (f : α → β) (m : SortedMap κ α) (k : κ) :
    (m.map f).get? k = (m.get? k).map f := find_map f k m.entries

omit [LT κ] in
theorem find_eq_none_iff {k : κ} {es : List (κ × α)} :
    find k es = none ↔ ∀ e ∈ es, e.1 ≠ k := by
  induction es with
  | nil => simp [find]
  | cons e es ih =>
    by_cases h : e.1 = k <;> simp [find, h, ih]

omit [LT κ] in
theorem mem_of_find {k : κ} {v : α} {es : List (κ × α)} (h : find k es = some v) :
    (k, v) ∈ es := by
  induction es with
  | nil => simp [find] at h
  | cons e es ih =>
    by_cases hk : e.1 = k
    · rw [find, if_pos hk] at h
      cases h; subst hk; simp
    · rw [find, if_neg hk] at h
      exact List.mem_cons_of_mem _ (ih h)

theorem mem_iff {m : SortedMap κ α} {k : κ} : k ∈ m ↔ ∃ v, m.get? k = some v :=
  Option.isSome_iff_exists

theorem find_place_self [DecidableLT κ] (k : κ) (v : α) (es : List (κ × α)) :
    find k (place k v es) = some v := by
  induction es with
  | nil => simp [place, find]
  | cons e es ih =>
    rw [place]
    split
    · simp [find]
    · split
      · rw [find]
        split
        · next h₁ h₂ h₃ => subst h₃; exact absurd h₂ h₁
        · exact ih
      · simp [find]

theorem find_place_of_ne [DecidableLT κ] [Std.Trichotomous (α := κ) (· < ·)] {k k' : κ}
    (h : k ≠ k') (v : α) (es : List (κ × α)) : find k' (place k v es) = find k' es := by
  induction es with
  | nil => simp [place, find, h]
  | cons e es ih =>
    rw [place]
    split
    · simp [find, h]
    · split
      · rw [find, find, ih]
      · next h₁ h₂ =>
        have hk : k = e.1 := by
          rcases Std.lt_trichotomy k e.1 with h | h | h
          · exact absurd h h₁
          · exact h
          · exact absurd h h₂
        subst hk
        simp [find, h]

variable [DecidableLT κ] [LE κ] [Std.IsLinearOrder κ] [Std.LawfulOrderLT κ]

theorem get?_insert (m : SortedMap κ α) (k k' : κ) (v : α) :
    (m.insert k v).get? k' = if k = k' then some v else m.get? k' := by
  by_cases h : k = k'
  · subst h; rw [if_pos rfl]; exact find_place_self k v m.entries
  · rw [if_neg h]; exact find_place_of_ne h v m.entries

omit [DecidableLT κ] [Std.IsLinearOrder κ] in
theorem find_eq_some_iff {k : κ} {v : α} {es : List (κ × α)}
    (hs : es.Pairwise (fun a b => a.1 < b.1)) : find k es = some v ↔ (k, v) ∈ es := by
  refine ⟨mem_of_find, fun h => ?_⟩
  induction es with
  | nil => simp at h
  | cons e es ih =>
    obtain ⟨he, hes⟩ := List.pairwise_cons.1 hs
    rcases List.mem_cons.1 h with rfl | h
    · simp [find]
    · have hne : e.1 ≠ k := fun hk => by
        have hlt := he _ h
        rw [hk] at hlt
        exact Std.lt_irrefl hlt
      rw [find, if_neg hne]
      exact ih hes h

omit [DecidableLT κ] [Std.IsLinearOrder κ] in
theorem get?_eq_some_iff {m : SortedMap κ α} {k : κ} {v : α} :
    m.get? k = some v ↔ (k, v) ∈ m.entries := find_eq_some_iff m.ascending

omit [DecidableLT κ] in
theorem entries_eq_of_find_eq {es ds : List (κ × α)}
    (hes : es.Pairwise (fun a b => a.1 < b.1)) (hds : ds.Pairwise (fun a b => a.1 < b.1))
    (h : ∀ k, find k es = find k ds) : es = ds := by
  induction es generalizing ds with
  | nil =>
    cases ds with
    | nil => rfl
    | cons d ds => simpa [find] using h d.1
  | cons e es ih =>
    cases ds with
    | nil => simpa [find] using h e.1
    | cons d ds =>
      obtain ⟨he, hes'⟩ := List.pairwise_cons.1 hes
      obtain ⟨hd, hds'⟩ := List.pairwise_cons.1 hds
      have hkey : e.1 = d.1 := by
        have h₁ := (find_eq_some_iff hds).1 ((h e.1).symm.trans (by simp [find] : _ = some e.2))
        have h₂ := (find_eq_some_iff hes).1 ((h d.1).trans (by simp [find] : _ = some d.2))
        rcases List.mem_cons.1 h₁ with h₁ | h₁
        · rw [← h₁]
        · rcases List.mem_cons.1 h₂ with h₂ | h₂
          · rw [← h₂]
          · exact absurd (Std.lt_trans (hd _ h₁) (he _ h₂)) Std.lt_irrefl
      have hval : e.2 = d.2 := by
        have := h e.1
        rw [find, if_pos rfl, find, if_pos hkey.symm] at this
        exact Option.some.inj this
      have hed : e = d := Prod.ext hkey hval
      subst hed
      refine congrArg (e :: ·) (ih hes' hds' fun k => ?_)
      have hk := h k
      rw [find, find] at hk
      split at hk
      · next hek =>
        have none_of : ∀ l : List (κ × α), (∀ x ∈ l, e.1 < x.1) → find k l = none := fun l hl =>
          find_eq_none_iff.2 fun x hx hxk =>
            Std.lt_irrefl (a := k) (by have := hl x hx; rwa [hxk, hek] at this)
        rw [none_of es he, none_of ds hd]
      · exact hk

omit [DecidableLT κ] in
@[ext] theorem ext_get? {m n : SortedMap κ α} (h : ∀ k, m.get? k = n.get? k) : m = n :=
  ext_entries (entries_eq_of_find_eq m.ascending n.ascending h)

end TypeCatalog.SortedMap
