import Mathlib.Data.List.Induction
import TypeCatalog.Definition.Enumeration
import TypeCatalog.Proofs.SortedMap
set_option autoImplicit false

namespace TypeCatalog

namespace EnumValue

def Repeats (v : EnumValue) (before : List EnumValue) : Prop :=
  ∃ w ∈ before, w.name = v.name ∨ w.ordinal = v.ordinal

def Distinct (vs : List EnumValue) : Prop :=
  (vs.map EnumValue.name).Nodup ∧ (vs.map EnumValue.ordinal).Nodup

theorem repeats_iff {v : EnumValue} {before : List EnumValue} :
    v.Repeats before ↔ v.name ∈ before.map EnumValue.name ∨ v.ordinal ∈ before.map EnumValue.ordinal := by
  simp only [Repeats, and_or_left, exists_or, List.mem_map]

theorem repeats_reverse {v : EnumValue} {before : List EnumValue} :
    v.Repeats before.reverse ↔ v.Repeats before := by
  simp only [Repeats, List.mem_reverse]

theorem distinct_concat {v : EnumValue} {before : List EnumValue} :
    Distinct (before ++ [v]) ↔ Distinct before ∧ ¬v.Repeats before := by
  have hconcat {α : Type} (xs : List α) (x : α) : (xs ++ [x]).Nodup ↔ xs.Nodup ∧ x ∉ xs := by
    rw [← List.concat_eq_append, List.nodup_concat, and_comm]
  rw [Distinct, Distinct, List.map_append, List.map_append, List.map_singleton, List.map_singleton, hconcat,
    hconcat, repeats_iff, not_or, and_and_and_comm]

theorem distinct_iff {vs : List EnumValue} :
    Distinct vs ↔ ∀ before v, before ++ [v] <+: vs → ¬v.Repeats before := by
  induction vs using List.reverseRecOn with
  | nil => simp [Distinct]
  | append_singleton vs w ih =>
    rw [distinct_concat, ih]
    constructor
    · rintro ⟨hvs, hw⟩ before v hp
      rcases List.prefix_concat_iff.1 hp with he | hp
      · obtain ⟨rfl, rfl⟩ : before = vs ∧ v = w := by simpa using he
        exact hw
      · exact hvs before v hp
    · intro h
      exact ⟨fun before v hp => h before v (hp.trans (List.prefix_append ..)), h vs w List.prefix_rfl⟩

end EnumValue

namespace Enumeration

open EnumValue

variable {enum name : String} {seen vs ws values : List EnumValue} {v : EnumValue} {d : Defect}

theorem defect?_append :
    defect? enum seen (vs ++ ws) = (defect? enum seen vs).or (defect? enum (vs.reverse ++ seen) ws) := by
  induction vs generalizing seen with
  | nil => rfl
  | cons v vs ih =>
    rw [List.cons_append, defect?, defect?]
    split
    · rfl
    · split
      · rfl
      · rw [ih, List.reverse_cons, List.append_assoc]
        rfl

theorem defect?_singleton_eq_none :
    defect? enum seen [v] = none ↔ Text.isBlank v.name = false ∧ ¬v.Repeats seen := by
  rw [defect?]
  split
  · next hb => simp [hb]
  · next hb =>
    split
    · next hr => simp [repeats_iff.2 hr]
    · next hr => simp [hb, repeats_iff.not.2 hr, defect?]

theorem defect?_eq_none_iff :
    defect? enum [] vs = none ↔ (∀ v ∈ vs, Text.isBlank v.name = false) ∧ Distinct vs := by
  induction vs using List.reverseRecOn with
  | nil => simp [defect?, Distinct]
  | append_singleton vs v ih =>
    rw [defect?_append, Option.or_eq_none_iff, ih, List.append_nil, defect?_singleton_eq_none, repeats_reverse,
      distinct_concat, List.forall_mem_append, List.forall_mem_singleton, and_and_and_comm]

/-- The defect of some values is that of the first one with which there is any. -/
theorem defect?_eq_some_iff :
    defect? enum [] vs = some d ↔
      ∃ before v, before ++ [v] <+: vs ∧ defect? enum [] before = none ∧
        defect? enum before.reverse [v] = some d := by
  constructor
  · induction vs using List.reverseRecOn with
    | nil => simp [defect?]
    | append_singleton vs w ih =>
      intro h
      rw [defect?_append, List.append_nil] at h
      cases hvs : defect? enum [] vs with
      | none => exact ⟨vs, w, List.prefix_rfl, hvs, by simpa [hvs] using h⟩
      | some d' =>
        obtain ⟨before, v, hp, hv⟩ := ih (by simpa [hvs] using h)
        exact ⟨before, v, hp.trans (List.prefix_append ..), hv⟩
  · rintro ⟨before, v, ⟨after, rfl⟩, hnone, hsome⟩
    rw [List.append_assoc, defect?_append, hnone, List.append_nil, Option.none_or, defect?_append, hsome]
    rfl

theorem defect?_singleton :
    defect? enum seen [v] = some d ↔
      Text.isBlank v.name = true ∧ d = .emptyName .enumValueName ∨
        Text.isBlank v.name = false ∧ v.Repeats seen ∧ d = .duplicateEnumValue enum v.name v.ordinal := by
  rw [defect?]
  split
  · next hb => simp [hb, eq_comm]
  · next hb =>
    split
    · next hr => simp [hb, repeats_iff.2 hr, eq_comm]
    · next hr => simp [hb, repeats_iff.not.2 hr, defect?]

theorem defect?_eq_duplicate_iff {n : String} {o : UInt32} :
    defect? enum [] vs = some (.duplicateEnumValue name n o) ↔
      name = enum ∧ ∃ before, before ++ [⟨n, o⟩] <+: vs ∧
        (∀ v ∈ before ++ [⟨n, o⟩], Text.isBlank v.name = false) ∧ Distinct before ∧
          EnumValue.Repeats ⟨n, o⟩ before := by
  simp only [defect?_eq_some_iff, defect?_eq_none_iff, defect?_singleton, repeats_reverse, List.forall_mem_append,
    List.forall_mem_singleton, reduceCtorEq, and_false, false_or, Defect.duplicateEnumValue.injEq]
  constructor
  · rintro ⟨before, ⟨n', o'⟩, hp, ⟨hb, hd⟩, hn, hr, rfl, rfl, rfl⟩
    exact ⟨rfl, before, hp, ⟨hb, hn⟩, hd, hr⟩
  · rintro ⟨rfl, before, hp, ⟨hb, hn⟩, hd, hr⟩
    exact ⟨before, _, hp, ⟨hb, hd⟩, hn, hr, rfl, rfl, rfl⟩

@[simp] theorem make_self (e : Enumeration) : make e.name e.values = .ok e := by
  have hd : defect? e.name [] e.values = none :=
    defect?_eq_none_iff.2 ⟨e.values_nonblank, e.names_nodup, e.ordinals_nodup⟩
  rw [make, dif_pos e.name_nonblank]
  split
  · rfl
  · next h => cases hd.symm.trans h

theorem make_eq_ok_iff {e : Enumeration} :
    make name values = .ok e ↔ e.name = name ∧ e.values = values := by
  constructor
  · intro h
    rw [make] at h
    split at h
    · split at h
      · cases h
        exact ⟨rfl, rfl⟩
      · cases h
    · cases h
  · rintro ⟨rfl, rfl⟩
    exact e.make_self

theorem exists_make_iff :
    (∃ e, make name values = .ok e) ↔
      Text.isBlank name = false ∧ (∀ v ∈ values, Text.isBlank v.name = false) ∧ Distinct values := by
  constructor
  · rintro ⟨e, he⟩
    obtain ⟨rfl, rfl⟩ := make_eq_ok_iff.1 he
    exact ⟨e.name_nonblank, e.values_nonblank, e.names_nodup, e.ordinals_nodup⟩
  · rintro ⟨hn, hb, hd⟩
    exact ⟨⟨name, values, hn, hb, hd.1, hd.2⟩, make_eq_ok_iff.2 ⟨rfl, rfl⟩⟩

theorem make_eq_duplicate_iff {n : String} {o : UInt32} :
    make name values = .error (.duplicateEnumValue enum n o) ↔
      Text.isBlank name = false ∧ defect? name [] values = some (.duplicateEnumValue enum n o) := by
  rw [make]
  split
  · next hn =>
    split
    · next h => simp [h]
    · next h => simp [h, hn]
  · next hn => simp [hn]

section Lookup

variable {e : Enumeration} {n : String} {o : UInt32}

theorem find?_eq_some_iff : e.find? n = some v ↔ v ∈ e.values ∧ v.name = n :=
  find?_eq_some_iff_of_nodup e.names_nodup

theorem findOrdinal?_eq_some_iff : e.findOrdinal? o = some v ↔ v ∈ e.values ∧ v.ordinal = o :=
  find?_eq_some_iff_of_nodup e.ordinals_nodup

theorem value_eq_ok_iff : e.value n = .ok v ↔ v ∈ e.values ∧ v.name = n := by
  rw [← find?_eq_some_iff, value]
  cases e.find? n <;> simp

theorem valueOfOrdinal_eq_ok_iff : e.valueOfOrdinal o = .ok v ↔ v ∈ e.values ∧ v.ordinal = o := by
  rw [← findOrdinal?_eq_some_iff, valueOfOrdinal]
  cases e.findOrdinal? o <;> simp

theorem value_of_not_mem (h : n ∉ e.values.map EnumValue.name) :
    e.value n = .error (.unknownEnumValue e.name n) := by
  have hnone : e.find? n = none := find?_eq_none_of_not_mem h
  rw [value, hnone]

theorem valueOfOrdinal_of_not_mem (h : o ∉ e.values.map EnumValue.ordinal) :
    e.valueOfOrdinal o = .error (.unknownEnumValue e.name (toString o.toNat)) := by
  have hnone : e.findOrdinal? o = none := find?_eq_none_of_not_mem h
  rw [valueOfOrdinal, hnone]

theorem contains_iff : e.contains n = true ↔ ∃ v, e.value n = .ok v := by
  simp only [value_eq_ok_iff, contains, List.any_eq_true, beq_iff_eq]

end Lookup

/-- Declared values are found by their names and by their ordinals, each of which leads to the other, and
nothing else is found. -/
structure LooksUp (e : Enumeration) (values : List EnumValue) : Prop where
  contains : ∀ n, e.contains n = true ↔ ∃ v, e.value n = .ok v
  declared : ∀ v ∈ values, e.value v.name = .ok v ∧ e.valueOfOrdinal v.ordinal = .ok v
  byName : ∀ n v, e.value n = .ok v → v ∈ values ∧ v.name = n ∧ e.valueOfOrdinal v.ordinal = .ok v
  byOrdinal : ∀ o v, e.valueOfOrdinal o = .ok v → v ∈ values ∧ v.ordinal = o ∧ e.value v.name = .ok v
  otherNames : ∀ n, n ∉ values.map EnumValue.name → e.value n = .error (.unknownEnumValue e.name n)
  otherOrdinals : ∀ o, o ∉ values.map EnumValue.ordinal →
    e.valueOfOrdinal o = .error (.unknownEnumValue e.name (toString o.toNat))

theorem looksUp (e : Enumeration) : e.LooksUp e.values where
  contains _ := contains_iff
  declared v hv := ⟨value_eq_ok_iff.2 ⟨hv, rfl⟩, valueOfOrdinal_eq_ok_iff.2 ⟨hv, rfl⟩⟩
  byName n v h := by
    obtain ⟨hv, hn⟩ := value_eq_ok_iff.1 h
    exact ⟨hv, hn, valueOfOrdinal_eq_ok_iff.2 ⟨hv, rfl⟩⟩
  byOrdinal o v h := by
    obtain ⟨hv, ho⟩ := valueOfOrdinal_eq_ok_iff.1 h
    exact ⟨hv, ho, value_eq_ok_iff.2 ⟨hv, rfl⟩⟩
  otherNames _ := value_of_not_mem
  otherOrdinals _ := valueOfOrdinal_of_not_mem

/-- Values make an enumeration when all names stand for something and none is shared, nor an ordinal; then both
tell the values apart. Otherwise, unless a blank name comes first, the first value that repeats one is told. -/
theorem values_told_apart (name : String) (values : List EnumValue) :
    ((∃ e, make name values = .ok e) ↔
        Text.isBlank name = false ∧ (∀ v ∈ values, Text.isBlank v.name = false) ∧
          (values.map EnumValue.name).Nodup ∧ (values.map EnumValue.ordinal).Nodup) ∧
      (∀ enum n o, make name values = .error (.duplicateEnumValue enum n o) ↔
        enum = name ∧ Text.isBlank name = false ∧ ∃ before, before ++ [⟨n, o⟩] <+: values ∧
          (∀ v ∈ before ++ [⟨n, o⟩], Text.isBlank v.name = false) ∧ EnumValue.Repeats ⟨n, o⟩ before ∧
            ∀ earlier v, earlier ++ [v] <+: before → ¬v.Repeats earlier) ∧
      ∀ e, make name values = .ok e → e.name = name ∧ e.values = values ∧ e.LooksUp values := by
  refine ⟨exists_make_iff, fun enum n o => ?_, fun e he => ?_⟩
  · rw [make_eq_duplicate_iff, defect?_eq_duplicate_iff, and_left_comm]
    simp only [distinct_iff, and_comm (a := EnumValue.Repeats _ _)]
  · obtain ⟨rfl, rfl⟩ := make_eq_ok_iff.1 he
    exact ⟨rfl, rfl, e.looksUp⟩

/-- A third codec that takes the ordinal of the first is told; the two before it can be looked up. -/
theorem codecs_told_apart :
    make "Codec" [⟨"ZSTD", 0⟩, ⟨"LZ4", 1⟩, ⟨"SNAPPY", 0⟩] =
        .error (.duplicateEnumValue "Codec" "SNAPPY" 0) ∧
      ∃ e, make "Codec" [⟨"ZSTD", 0⟩, ⟨"LZ4", 1⟩] = .ok e ∧ e.value "LZ4" = .ok ⟨"LZ4", 1⟩ ∧
        e.valueOfOrdinal 1 = .ok ⟨"LZ4", 1⟩ := by
  have hdistinct : Distinct [⟨"ZSTD", 0⟩, ⟨"LZ4", 1⟩] := ⟨by decide, by decide⟩
  obtain ⟨-, hrepeated, -⟩ := values_told_apart "Codec" [⟨"ZSTD", 0⟩, ⟨"LZ4", 1⟩, ⟨"SNAPPY", 0⟩]
  obtain ⟨hmade, -, hlooksUp⟩ := values_told_apart "Codec" [⟨"ZSTD", 0⟩, ⟨"LZ4", 1⟩]
  refine ⟨(hrepeated _ _ _).2 ⟨rfl, by decide, [⟨"ZSTD", 0⟩, ⟨"LZ4", 1⟩], by decide, by decide,
    ⟨_, .head _, .inr rfl⟩, distinct_iff.1 hdistinct⟩, ?_⟩
  obtain ⟨e, he⟩ := hmade.2 ⟨by decide, by decide, hdistinct⟩
  exact ⟨e, he, (hlooksUp e he).2.2.declared ⟨"LZ4", 1⟩ (.tail _ (.head _))⟩

end Enumeration

end TypeCatalog
