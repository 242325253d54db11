import TypeCatalog.Proofs.Spelling
set_option autoImplicit false

namespace TypeCatalog.DataType

def isMark (c : Char) : Bool := c == '<' || c == '>' || c == ','

def marks (cs : List Char) : List Char := cs.filter isMark

@[simp] theorem marks_append (cs ds : List Char) : marks (cs ++ ds) = marks cs ++ marks ds :=
  List.filter_append cs ds

theorem marks_reverse (cs : List Char) : marks cs.reverse = (marks cs).reverse := List.filter_reverse

theorem marks_cons {c : Char} (h : isMark c = true) (cs : List Char) : marks (c :: cs) = c :: marks cs :=
  List.filter_cons_of_pos h

theorem marks_eq_nil_iff {cs : List Char} : marks cs = [] ↔ ∀ c ∈ cs, c ≠ '<' ∧ c ≠ '>' ∧ c ≠ ',' := by
  simp [marks, isMark, List.filter_eq_nil_iff, and_assoc]

theorem marks_eq_nil_of_isSpace {gap : List Char} (h : ∀ c ∈ gap, Text.isSpace c = true) :
    marks gap = [] := by
  refine marks_eq_nil_iff.2 fun c hc => ⟨?_, ?_, ?_⟩
  all_goals
    rintro rfl
    exact absurd (h _ hc) (by decide)

theorem marks_dropWhile_isSpace (cs : List Char) : marks (cs.dropWhile Text.isSpace) = marks cs := by
  have hgap : marks (cs.takeWhile Text.isSpace) = [] :=
    marks_eq_nil_of_isSpace fun c hc => List.all_eq_true.1 List.all_takeWhile c hc
  calc
    marks (cs.dropWhile Text.isSpace)
      = marks (cs.takeWhile Text.isSpace) ++ marks (cs.dropWhile Text.isSpace) := by rw [hgap, List.nil_append]
    _ = marks cs := by rw [← marks_append, List.takeWhile_append_dropWhile]

theorem marks_trim (cs : List Char) : marks (Text.trim cs) = marks cs := by
  rw [Text.trim, Text.trimRight, marks_reverse, marks_dropWhile_isSpace, marks_reverse, List.reverse_reverse,
    Text.trimLeft, marks_dropWhile_isSpace]

/-- Whether brackets are closed and commas are inside of them shows in the marks alone. -/
theorem closes_marks_iff {depth : Nat} {cs : List Char} : Closes depth (marks cs) ↔ Closes depth cs := by
  constructor
  · intro h
    induction cs generalizing depth with
    | nil => exact h
    | cons c cs ih =>
      by_cases hc : isMark c = true
      · rw [marks_cons hc] at h
        cases h with
        | opening h => exact .opening (ih h)
        | closing h => exact .closing (ih h)
        | other opens closes splits h => exact .other opens closes splits (ih h)
      · rw [marks, List.filter_cons_of_neg hc] at h
        simp only [isMark, Bool.or_eq_true, beq_iff_eq, not_or] at hc
        exact .other hc.1.1 hc.1.2 (fun _ => hc.2) (ih h)
  · intro h
    induction h with
    | nil => exact .nil
    | opening _ ih => exact .opening ih
    | closing _ ih => exact .closing ih
    | @other depth c cs opens closes splits _ ih =>
      by_cases hc : isMark c = true
      · rw [marks_cons hc]
        exact .other opens closes splits ih
      · rwa [marks, List.filter_cons_of_neg hc]

theorem chars_array (element : DataType) :
    (array element).chars = ['a', 'r', 'r', 'a', 'y'] ++ [] ++ '<' :: element.chars ++ ['>'] := rfl

theorem chars_map (key value : DataType) :
    (map key value).chars = ['m', 'a', 'p'] ++ [] ++ '<' :: (key.chars ++ ',' :: value.chars) ++ ['>'] := by
  simp [chars]

theorem marks_enclosed {keyword gap inner : List Char} (hk : marks keyword = [])
    (hg : ∀ c ∈ gap, Text.isSpace c = true) :
    marks (keyword ++ gap ++ '<' :: inner ++ ['>']) = '<' :: marks inner ++ ['>'] := by
  rw [marks_append, marks_append, marks_append, hk, marks_eq_nil_of_isSpace hg, marks_cons rfl, marks_cons rfl]
  rfl

/-- To read and write again moves no mark, because a collection is only split where one stands. -/
theorem marks_chars_parse (cs : List Char) : marks (parse cs).chars = marks cs := by
  rw [← marks_trim cs]
  fun_induction parse cs with
  | case1 cs p hp => rw [chars, Primitive.name_of_ofName? hp, String.toList_ofList]
  | case2 cs hp inner hi ih =>
    obtain ⟨gap, hgap, hcs⟩ := inside?_eq_some_iff.1 hi
    rw [hcs, chars_array, marks_enclosed rfl (List.forall_mem_nil _), marks_enclosed rfl hgap, ih, marks_trim]
  | case3 cs hp ha k v hm ihk ihv =>
    obtain ⟨inner, hi, hs⟩ := Option.bind_eq_some_iff.1 hm
    obtain ⟨gap, hgap, hcs⟩ := inside?_eq_some_iff.1 hi
    obtain ⟨rfl, -⟩ := splitComma?_eq_some_iff.1 hs
    rw [hcs, chars_map, marks_enclosed rfl (List.forall_mem_nil _), marks_enclosed rfl hgap, marks_append,
      marks_append, marks_cons rfl, marks_cons rfl, ihk, ihv, marks_trim, marks_trim]
  | case4 cs hp ha hm => rw [chars, String.toList_ofList]

theorem parse_of_plain {cs : List Char} (hp : Primitive.ofName? (String.ofList (Text.trim cs)) = none)
    (hw : ¬WrittenCollection (Text.trim cs)) : parse cs = named (String.ofList (Text.trim cs)) := by
  rcases parse_cases cs with ⟨p, -, hp'⟩ | ⟨-, hw'⟩ | ⟨hcs, -⟩
  · cases hp.symm.trans hp'
  · exact absurd hw' hw
  · exact hcs

theorem not_primitive_of_written {cs : List Char} (h : WrittenCollection cs) :
    Primitive.ofName? (String.ofList cs) = none := by
  rw [Option.eq_none_iff_forall_ne_some]
  intro p hp
  refine not_writtenCollection_primitive p ?_
  rwa [Primitive.name_of_ofName? hp, String.toList_ofList]

theorem trim_enclosed {c : Char} {cs inner : List Char} (h : Text.isSpace c = false) :
    Text.trim (c :: cs ++ [] ++ '<' :: inner ++ ['>']) = c :: cs ++ [] ++ '<' :: inner ++ ['>'] := by
  have hclose : Text.isSpace '>' = false := by decide
  rw [Text.trim, List.cons_append, List.cons_append, List.cons_append, Text.trimLeft_of_head h,
    ← List.cons_append, Text.trimRight_concat hclose]

theorem parse_of_array {cs inner : List Char}
    (h : inside? ['a', 'r', 'r', 'a', 'y'] (Text.trim cs) = some inner) : parse cs = array (parse inner) := by
  have hp : Primitive.ofName? (String.ofList (Text.trim cs)) = none :=
    not_primitive_of_written (writtenCollection_iff.2 (.inl (by rw [h]; rfl)))
  rw [parse]
  split
  · next p hp' => cases hp.symm.trans hp'
  · split
    · next inner' hi => rw [Option.some.inj (hi.symm.trans h)]
    · next hi => cases hi.symm.trans h

theorem parse_of_map {cs inner k v : List Char} (h : inside? ['m', 'a', 'p'] (Text.trim cs) = some inner)
    (hs : splitComma? 0 inner = some (k, v)) : parse cs = map (parse k) (parse v) := by
  have hm : (inside? ['m', 'a', 'p'] (Text.trim cs)).bind (splitComma? 0) = some (k, v) := by
    rw [h, Option.bind_some, hs]
  have hp : Primitive.ofName? (String.ofList (Text.trim cs)) = none :=
    not_primitive_of_written (writtenCollection_iff.2 (.inr (by rw [hm]; rfl)))
  have ha : inside? ['a', 'r', 'r', 'a', 'y'] (Text.trim cs) = none := by
    obtain ⟨gap, -, hcs⟩ := inside?_eq_some_iff.1 h
    rw [hcs]
    rfl
  rw [parse]
  split
  · next p hp' => cases hp.symm.trans hp'
  · split
    · next hi => cases ha.symm.trans hi
    · split
      · next k' v' hm' =>
        cases hm.symm.trans hm'
        rfl
      · next hm' => cases hm.symm.trans hm'

theorem parse_chars_array (element : DataType) :
    parse (array element).chars = array (parse element.chars) := by
  refine parse_of_array ?_
  rw [chars_array, trim_enclosed (by decide), inside?_eq_some_iff]
  exact ⟨[], List.forall_mem_nil _, rfl⟩

theorem parse_chars_map {key : DataType} (hk : Closes 0 key.chars) (value : DataType) :
    parse (map key value).chars = map (parse key.chars) (parse value.chars) := by
  have hinside : inside? ['m', 'a', 'p'] (Text.trim (map key value).chars) =
      some (key.chars ++ ',' :: value.chars) := by
    rw [chars_map, trim_enclosed (by decide), inside?_eq_some_iff]
    exact ⟨[], List.forall_mem_nil _, rfl⟩
  exact parse_of_map hinside (splitComma?_eq_some_iff.2 ⟨rfl, hk⟩)

theorem closes_chars_parse {cs : List Char} (h : Closes 0 cs) : Closes 0 (parse cs).chars := by
  rw [← closes_marks_iff, marks_chars_parse, closes_marks_iff]
  exact h

theorem parse_chars_parse (cs : List Char) : parse (parse cs).chars = parse cs := by
  fun_induction parse cs with
  | case1 cs p hp => exact ofName_primitive p
  | case2 cs hp inner hi ih => rw [parse_chars_array, ih]
  | case3 cs hp ha k v hm ihk ihv =>
    obtain ⟨inner, -, hs⟩ := Option.bind_eq_some_iff.1 hm
    rw [parse_chars_map (closes_chars_parse (splitComma?_eq_some_iff.1 hs).2), ihk, ihv]
  | case4 cs hp ha hm =>
    have hw : ¬WrittenCollection (Text.trim cs) := by
      rw [writtenCollection_iff, ha, hm]
      simp
    rw [chars, String.toList_ofList, parse_congr (Text.trim_trim cs), parse_of_plain hp hw]

/-- The name that is written for what a text is read as is read as that again, also where brackets or commas
are missing or white space stands around them. -/
theorem ofName_name_ofName (s : String) : ofName (ofName s).name = ofName s := by
  rw [ofName, name, String.toList_ofList]
  exact parse_chars_parse s.toList

structure IsPlain (n : String) : Prop where
  unmarked : ∀ c ∈ n.toList, c ≠ '<' ∧ c ≠ '>' ∧ c ≠ ','
  trimmed : Text.trimmed n = n
  not_primitive : Primitive.ofName? n = none

theorem isPlain_iff {n : String} :
    IsPlain n ↔ marks n.toList = [] ∧ Text.trimmed n = n ∧ Primitive.ofName? n = none :=
  ⟨fun h => ⟨marks_eq_nil_iff.2 h.unmarked, h.trimmed, h.not_primitive⟩,
    fun h => ⟨marks_eq_nil_iff.1 h.1, h.2.1, h.2.2⟩⟩

instance : DecidablePred IsPlain := fun _ => decidable_of_iff' _ isPlain_iff

def WellNamed : DataType → Prop
  | .primitive _ => True
  | .array element => element.WellNamed
  | .map key value => key.WellNamed ∧ value.WellNamed
  | .named name => IsPlain name

instance decidableWellNamed : (t : DataType) → Decidable t.WellNamed
  | .primitive _ => isTrue trivial
  | .array element => decidableWellNamed element
  | .map key value => @instDecidableAnd _ _ (decidableWellNamed key) (decidableWellNamed value)
  | .named name => inferInstanceAs (Decidable (IsPlain name))

theorem closes_of_marks_eq_nil {cs : List Char} (h : marks cs = []) : Closes 0 cs := by
  rw [← closes_marks_iff, h]
  exact .nil

theorem Closes.append {depth depth' : Nat} {cs ds : List Char} (h : Closes depth cs)
    (hd : Closes depth' ds) : Closes (depth + depth') (cs ++ ds) := by
  induction h with
  | nil => rwa [Nat.zero_add]
  | opening _ ih => exact .opening (by rwa [Nat.add_right_comm])
  | closing _ ih =>
    rw [Nat.add_right_comm]
    exact .closing ih
  | other opens closes splits _ ih =>
    exact .other opens closes (fun hz => splits (Nat.eq_zero_of_add_eq_zero_right hz)) ih

theorem closes_enclosed {keyword inner : List Char} (hk : Closes 0 keyword)
    (h : Closes 1 (inner ++ ['>'])) : Closes 0 (keyword ++ [] ++ '<' :: inner ++ ['>']) := by
  rw [List.append_nil, List.append_assoc]
  exact hk.append (.opening h)

theorem WellNamed.closes_chars {t : DataType} (h : t.WellNamed) : Closes 0 t.chars := by
  induction t with
  | primitive p =>
    refine closes_of_marks_eq_nil ?_
    cases p <;> rfl
  | array element ih =>
    rw [chars_array]
    exact closes_enclosed (closes_of_marks_eq_nil rfl) ((ih h).append (.closing .nil))
  | map key value ihk ihv =>
    rw [chars_map]
    refine closes_enclosed (closes_of_marks_eq_nil rfl) ?_
    have hvalue : Closes 1 (',' :: (value.chars ++ ['>'])) :=
      .other (by decide) (by decide) nofun ((ihv h.2).append (.closing .nil))
    rw [List.append_assoc]
    exact (ihk h.1).append hvalue
  | named n => exact closes_of_marks_eq_nil (marks_eq_nil_iff.2 h.unmarked)

theorem not_written_of_unmarked {cs : List Char} (h : ∀ c ∈ cs, c ≠ '<' ∧ c ≠ '>' ∧ c ≠ ',') :
    ¬WrittenCollection cs := by
  intro hw
  cases hw with
  | array | map => exact (h '<' (by simp)).1 rfl

theorem WellNamed.ofName_name {t : DataType} (h : t.WellNamed) : ofName t.name = t := by
  rw [ofName, name, String.toList_ofList]
  induction t with
  | primitive p => exact ofName_primitive p
  | array element ih => rw [parse_chars_array, ih h]
  | map key value ihk ihv => rw [parse_chars_map h.1.closes_chars, ihk h.1, ihv h.2]
  | named n =>
    exact ofName_eq_named_iff.2 ⟨h.not_primitive, h.trimmed, not_written_of_unmarked h.unmarked⟩

/-- A data type of plain names is read back from the name that is written for it, which no other has. -/
theorem name_tells_well_named {t : DataType} (h : t.WellNamed) :
    ofName t.name = t ∧ ∀ u : DataType, u.WellNamed → u.name = t.name → u = t := by
  refine ⟨h.ofName_name, fun u hu hn => ?_⟩
  calc
    u = ofName u.name := hu.ofName_name.symm
    _ = ofName t.name := by rw [hn]
    _ = t := h.ofName_name

/-- Columns by name, for all tables of a list. -/
def columnsByTables : DataType := map (array (named "Table")) (map (primitive .string) (named "Column"))

theorem map_of_maps_told_by_name :
    columnsByTables.WellNamed ∧ ofName "map<array<Table>,map<string,Column>>" = columnsByTables ∧
      ∀ u : DataType, u.WellNamed → u.name = "map<array<Table>,map<string,Column>>" → u = columnsByTables := by
  have h : columnsByTables.WellNamed := by decide
  exact ⟨h, name_tells_well_named h⟩

end TypeCatalog.DataType
