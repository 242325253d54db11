import TypeCatalog.Proofs.References
set_option autoImplicit false

namespace TypeCatalog.DataType

/-- The texts that close all brackets that are open, with commas only inside of brackets. -/
inductive Closes : Nat → List Char → Prop
  | nil : Closes 0 []
  | opening {depth : Nat} {cs : List Char} (h : Closes (depth + 1) cs) : Closes depth ('<' :: cs)
  | closing {depth : Nat} {cs : List Char} (h : Closes depth cs) : Closes (depth + 1) ('>' :: cs)
  | other {depth : Nat} {c : Char} {cs : List Char} (opens : c ≠ '<') (closes : c ≠ '>')
    (splits : depth = 0 → c ≠ ',') (h : Closes depth cs) : Closes depth (c :: cs)

/-- Collections as they are written. White space may stand in front of the outer bracket. -/
inductive WrittenCollection : List Char → Prop
  | array {gap inner : List Char} (hg : ∀ c ∈ gap, Text.isSpace c = true) :
    WrittenCollection (['a', 'r', 'r', 'a', 'y'] ++ gap ++ '<' :: inner ++ ['>'])
  | map {gap k v : List Char} (hg : ∀ c ∈ gap, Text.isSpace c = true) (hk : Closes 0 k) :
    WrittenCollection (['m', 'a', 'p'] ++ gap ++ '<' :: (k ++ ',' :: v) ++ ['>'])

theorem behind?_eq_some_iff {word cs rest : List Char} :
    behind? word cs = some rest ↔ cs = word ++ rest := by
  refine ⟨eq_append_of_behind?, ?_⟩
  rintro rfl
  induction word with
  | nil => rfl
  | cons w word ih => rw [List.cons_append, behind?, if_pos rfl, ih]

theorem before?_eq_some_iff {word cs rest : List Char} :
    before? word cs = some rest ↔ cs = rest ++ word := by
  refine ⟨eq_append_of_before?, ?_⟩
  rintro rfl
  rw [before?, List.reverse_append, behind?_eq_some_iff.2 rfl, Option.map_some, List.reverse_reverse]

theorem trimLeft_eq_cons_iff {c : Char} (hc : Text.isSpace c = false) {cs rest : List Char} :
    Text.trimLeft cs = c :: rest ↔ ∃ gap, (∀ g ∈ gap, Text.isSpace g = true) ∧ cs = gap ++ c :: rest := by
  constructor
  · intro h
    refine ⟨cs.takeWhile Text.isSpace, fun g hg => List.all_eq_true.1 List.all_takeWhile g hg, ?_⟩
    rw [← h, Text.trimLeft, List.takeWhile_append_dropWhile]
  · intro h
    obtain ⟨gap, hg, rfl⟩ := h
    rw [Text.trimLeft, List.dropWhile_append_of_pos hg, List.dropWhile_cons_of_neg (by simp [hc])]

theorem inside?_eq_some_iff {keyword cs inner : List Char} :
    inside? keyword cs = some inner ↔
      ∃ gap, (∀ c ∈ gap, Text.isSpace c = true) ∧ cs = keyword ++ gap ++ '<' :: inner ++ ['>'] := by
  have hbracket : Text.isSpace '<' = false := by decide
  simp only [inside?, Option.bind_eq_some_iff, behind?_eq_some_iff, before?_eq_some_iff,
    List.singleton_append, trimLeft_eq_cons_iff hbracket]
  constructor
  · intro h
    obtain ⟨_, rfl, _, ⟨gap, hg, rfl⟩, rfl⟩ := h
    exact ⟨gap, hg, by simp⟩
  · intro h
    obtain ⟨gap, hg, rfl⟩ := h
    exact ⟨gap ++ '<' :: (inner ++ ['>']), by simp, _, ⟨gap, hg, rfl⟩, rfl⟩

theorem closes_of_splitComma? {depth : Nat} {cs k v : List Char}
    (h : splitComma? depth cs = some (k, v)) : Closes depth k := by
  fun_induction splitComma? depth cs generalizing k v with
  | case1 => cases h
  | case2 => cases h
  | case3 cs =>
    cases h
    exact .nil
  | case4 depth cs ih =>
    obtain ⟨⟨a, b⟩, hs, he⟩ := Option.map_eq_some_iff.1 h
    cases he
    exact .closing (ih hs)
  | case5 depth cs ih =>
    obtain ⟨⟨a, b⟩, hs, he⟩ := Option.map_eq_some_iff.1 h
    cases he
    exact .opening (ih hs)
  | case6 depth c cs hclose hcomma hclose' hopen ih =>
    obtain ⟨⟨a, b⟩, hs, he⟩ := Option.map_eq_some_iff.1 h
    cases he
    refine .other hopen ?closes hcomma (ih hs)
    case closes =>
      cases depth with
      | zero => exact hclose rfl
      | succ depth => exact hclose' depth rfl

theorem splitComma?_eq_some_iff {depth : Nat} {cs k v : List Char} :
    splitComma? depth cs = some (k, v) ↔ cs = k ++ ',' :: v ∧ Closes depth k := by
  refine ⟨fun h => ⟨eq_append_of_splitComma? h, closes_of_splitComma? h⟩, ?_⟩
  intro h
  obtain ⟨rfl, hk⟩ := h
  induction hk with
  | nil => rfl
  | opening _ ih | closing _ ih =>
    rw [List.cons_append, splitComma?, ih]
    simp
  | other opens closes splits _ ih =>
    rw [List.cons_append, splitComma?, ih]
    · rfl
    · exact opens
    · exact fun _ => closes
    · exact splits
    · exact fun _ _ => closes

theorem writtenCollection_iff {cs : List Char} :
    WrittenCollection cs ↔
      (inside? ['a', 'r', 'r', 'a', 'y'] cs).isSome = true ∨
        ((inside? ['m', 'a', 'p'] cs).bind (splitComma? 0)).isSome = true := by
  simp only [Option.isSome_iff_exists, Option.bind_eq_some_iff, inside?_eq_some_iff, Prod.exists,
    splitComma?_eq_some_iff]
  constructor
  · intro h
    cases h with
    | array hg => exact .inl ⟨_, _, hg, rfl⟩
    | map hg hk => exact .inr ⟨_, _, _, ⟨_, hg, rfl⟩, rfl, hk⟩
  · intro h
    rcases h with ⟨inner, gap, hg, rfl⟩ | ⟨k, v, _, ⟨gap, hg, rfl⟩, rfl, hk⟩
    · exact .array hg
    · exact .map hg hk

instance : DecidablePred WrittenCollection := fun _ => decidable_of_iff _ writtenCollection_iff.symm

theorem not_writtenCollection_primitive (p : Primitive) : ¬WrittenCollection p.name.toList := by
  cases p <;> decide

theorem parse_cases (cs : List Char) :
    (∃ p, parse cs = .primitive p ∧ Primitive.ofName? (String.ofList (Text.trim cs)) = some p) ∨
      ((parse cs).isCollection = true ∧ WrittenCollection (Text.trim cs)) ∨
      (parse cs = .named (String.ofList (Text.trim cs)) ∧ ¬WrittenCollection (Text.trim cs)) := by
  rw [parse, writtenCollection_iff]
  split
  · next p hp => exact .inl ⟨p, rfl, hp⟩
  · split
    · next inner hi => exact .inr (.inl ⟨rfl, .inl (by rw [hi]; rfl)⟩)
    · next hi =>
      split
      · next k v hm => exact .inr (.inl ⟨rfl, .inr (by rw [hm]; rfl)⟩)
      · next hm => exact .inr (.inr ⟨rfl, by simp [hi, hm]⟩)

theorem isCollection_parse_iff {cs : List Char} :
    (parse cs).isCollection = true ↔ WrittenCollection (Text.trim cs) := by
  rcases parse_cases cs with ⟨p, hcs, hp⟩ | ⟨hcs, hw⟩ | ⟨hcs, hw⟩
  · have hno := not_writtenCollection_primitive p
    rw [Primitive.name_of_ofName? hp, String.toList_ofList] at hno
    simpa [hcs, isCollection] using hno
  · exact iff_of_true hcs hw
  · simpa [hcs, isCollection] using hw

theorem ofName_eq_named_iff {n : String} :
    ofName n = .named n ↔
      Primitive.ofName? n = none ∧ Text.trimmed n = n ∧ ¬WrittenCollection n.toList := by
  have htrim (ht : Text.trimmed n = n) : Text.trim n.toList = n.toList := by
    rw [← String.toList_ofList (l := Text.trim n.toList)]
    exact congrArg String.toList ht
  constructor
  · intro h
    have ht : Text.trimmed n = n := by
      rcases parse_cases n.toList with ⟨p, hcs, -⟩ | ⟨hcs, -⟩ | ⟨hcs, -⟩
      · cases h.symm.trans hcs
      · rw [← ofName, h] at hcs
        cases hcs
      · exact named.inj (hcs.symm.trans h)
    refine ⟨not_primitive_of_named h, ht, ?_⟩
    rw [← htrim ht, ← isCollection_parse_iff, ← ofName, h]
    exact Bool.false_ne_true
  · intro h
    obtain ⟨hp, ht, hw⟩ := h
    rcases parse_cases n.toList with ⟨p, -, hp'⟩ | ⟨-, hw'⟩ | ⟨hcs, -⟩
    · rw [← Text.trimmed, ht, hp] at hp'
      cases hp'
    · exact absurd (htrim ht ▸ hw') hw
    · exact hcs.trans (congrArg named ht)

end TypeCatalog.DataType
