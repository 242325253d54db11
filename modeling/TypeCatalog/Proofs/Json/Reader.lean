import TypeCatalog.Proofs.Json.Layout
import TypeCatalog.Json.Record
import TypeCatalog.Json.Variant
set_option autoImplicit false

/-!
Readers that read back what has been written. Main statements: the law passes from the items of a list to
the list, and from the fields of a record to the record; and who reads a value at the front of the tokens
reads it from its text.
-/

namespace TypeCatalog.Json

theorem exists_toTokens (j : Json) :
    ∃ t ts, j.toTokens = t :: ts ∧ t ≠ .closeBracket ∧ (t = .null → j = .null) := by
  cases j <;> rw [toTokens] <;> exact ⟨_, _, rfl, by simp, by simp⟩

theorem separated_cons_cons (ts us : List Token) (tss : List (List Token)) :
    separated (ts :: us :: tss) = ts ++ .comma :: separated (us :: tss) := rfl

namespace Reader

variable {α β δ : Type} {r : Reader α} {a : α} {j : Json}

/-- The written value is read as what it stands for, whatever follows. -/
structure Reads (r : Reader α) (a : α) (j : Json) : Prop where
  exact : j.Exact
  run : ∀ rest, r.run (j.toTokens ++ rest) = .ok (a, rest)

theorem Reads.parse (h : r.Reads a j) {style : Style} (hs : style.Lawful) :
    r.parse (String.ofList (render style 0 j)) = .ok a := by
  have hrun := h.run []
  rw [List.append_nil] at hrun
  rw [Reader.parse, tokens_render hs h.exact, hrun]
  rfl

theorem Reads.map (h : r.Reads a j) (f : α → β) : (r.map f).Reads (f a) j where
  exact := h.exact
  run rest := by
    simp only [Reader.map, h.run]
    rfl

theorem reads_string (s : String) : string.Reads s (.string s) := ⟨.string s, fun _ => rfl⟩

theorem reads_bool (b : Bool) : bool.Reads b (.bool b) := ⟨.bool b, fun _ => rfl⟩

theorem reads_word (n : UInt32) : word.Reads n (ofWord n) where
  exact := .number ⟨Nat.lt_trans n.toNat_lt_size (by decide), fun h => absurd h (by omega)⟩
  run rest := by
    have hn : 0 ≤ (n.toNat : Int) ∧ ((n.toNat : Int).toNat < UInt32.size) :=
      ⟨Int.natCast_nonneg _, n.toNat_lt_size⟩
    rw [ofWord, toTokens]
    simp only [word, List.singleton_append, if_pos hn]
    rw [Int.toNat_natCast, UInt32.ofNat_toNat]

theorem reads_none : (option r).Reads none .null := ⟨.null, fun _ => rfl⟩

theorem Reads.some (h : r.Reads a j) (hj : j ≠ .null) : (option r).Reads (some a) j where
  exact := h.exact
  run rest := by
    obtain ⟨t, ts, ht, -, hnull⟩ := exists_toTokens j
    have hmap := (h.map Option.some).run rest
    rw [ht, List.cons_append] at hmap ⊢
    simp only [option]
    split
    · next heq => exact absurd (hnull (List.cons.inj heq).1) hj
    · exact hmap

theorem items_eq {ts us rest : List Token} (more : Bool) (h : r.run ts = .ok (a, us))
    (hu : afterItem us = .ok (more, rest)) :
    items r ts = if more then (items r rest).map fun p => (a :: p.1, p.2) else .ok ([a], rest) := by
  rw [items]
  split
  · next hr => cases h.symm.trans hr
  · next hr =>
    cases h.symm.trans hr
    split
    · next ha => cases hu.symm.trans ha
    · next ha =>
      cases hu.symm.trans ha
      rfl
    · next ha =>
      cases hu.symm.trans ha
      rfl

theorem afterItem_comma (j : Json) (rest : List Token) :
    afterItem (.comma :: (j.toTokens ++ rest)) = .ok (true, j.toTokens ++ rest) := by
  obtain ⟨t, ts, ht, hclose, -⟩ := exists_toTokens j
  rw [ht, List.cons_append]
  cases t <;> first | exact absurd rfl hclose | rfl

theorem items_separated {write : α → Json} {as : List α} (has : as ≠ [])
    (h : ∀ a ∈ as, r.Reads a (write a)) (rest : List Token) :
    items r (separated ((as.map write).map toTokens) ++ .closeBracket :: rest) = .ok (as, rest) := by
  induction as with
  | nil => exact absurd rfl has
  | cons a as ih =>
    have ha := (h a (List.mem_cons_self ..)).run
    cases as with
    | nil =>
      rw [List.map_singleton, List.map_singleton, separated, List.flatMap_nil, List.append_nil]
      exact items_eq false (ha (.closeBracket :: rest)) rfl
    | cons b bs =>
      specialize ih (by simp) fun a ha => h a (List.mem_cons_of_mem _ ha)
      simp only [List.map_cons, separated_cons_cons, List.append_assoc, List.cons_append] at ih ⊢
      refine (items_eq true (ha _) ?_).trans (by rw [ih]; rfl)
      rw [separated, List.append_assoc]
      exact afterItem_comma _ _

theorem reads_list {write : α → Json} {as : List α} (h : ∀ a ∈ as, r.Reads a (write a)) :
    (list r).Reads as (.array (as.map write)) where
  exact := .array fun j hj => by
    obtain ⟨a, ha, rfl⟩ := List.mem_map.1 hj
    exact (h a ha).exact
  run rest := by
    rw [toTokens, itemTokens_eq, List.append_assoc, List.cons_append, List.singleton_append]
    cases as with
    | nil => rfl
    | cons a as =>
      rw [← items_separated (List.cons_ne_nil a as) h rest]
      obtain ⟨t, ts, ht, hclose, -⟩ := exists_toTokens (write a)
      simp only [list, List.map_cons, separated, ht, List.cons_append]
      split
      · next heq => exact absurd (List.cons.inj (List.cons.inj heq).2).1 hclose
      · next heq => cases heq
      · next heq =>
        cases heq
        rfl
      · next hno => exact absurd rfl (hno _)

/-- A draft after some members: each of them is a field of its own that the draft has not taken yet. -/
inductive Fills (fields : List (Field δ)) : δ → List (String × Json) → δ → Prop
  | nil (d : δ) : Fills fields d [] d
  | cons {d d' : δ} {name : String} {j : Json} {members : List (String × Json)} {f : Field δ} {update : δ → δ}
    (hf : fields.find? (fun f => f.name == name) = some f) (hd : f.filled d = false)
    (hj : f.read.Reads update j) (h : Fills fields (update d) members d') :
    Fills fields d ((name, j) :: members) d'

theorem Fills.part {fields : List (Field δ)} {name : String} {get : δ → Option α} {set : δ → α → δ}
    {read : Reader α} {opt : Bool} {d d' : δ} {members : List (String × Json)}
    (hf : fields.find? (fun f => f.name == name) = some (.part name get set read opt)) (hd : get d = none)
    (hj : read.Reads a j) (h : Fills fields (set d a) members d') :
    Fills fields d ((name, j) :: members) d' :=
  .cons hf (by simp only [Field.part, hd, Option.isSome_none]) (hj.map fun a d => set d a) h

theorem fieldValue_eq {fields : List (Field δ)} {f : Field δ} {name : String} {d : δ} {update : δ → δ}
    (hf : fields.find? (fun f => f.name == name) = some f) (hd : f.filled d = false)
    (hj : f.read.Reads update j) (rest : List Token) :
    fieldValue fields d name (.colon :: (j.toTokens ++ rest)) = .ok (update d, rest) := by
  rw [fieldValue, hf]
  simp only [hd, colon, hj.run]
  rfl

theorem objectFields_eq {fields : List (Field δ)} {name : String} {d d' : δ} {ts us rest : List Token}
    (more : Bool) (hv : fieldValue fields d name ts = .ok (d', us)) (hu : afterField us = .ok (more, rest)) :
    objectFields fields d (.string name :: ts) =
      if more then objectFields fields d' rest else .ok (d', rest) := by
  rw [objectFields]
  split
  · next hn => cases hn
  · next hn =>
    cases hn
    split
    · next h => cases hv.symm.trans h
    · next h =>
      cases hv.symm.trans h
      split
      · next h => cases hu.symm.trans h
      · next h =>
        cases hu.symm.trans h
        rfl
      · next h =>
        cases hu.symm.trans h
        rfl

theorem Fills.objectFields {fields : List (Field δ)} {d d' : δ} {members : List (String × Json)}
    (h : Fills fields d members d') (hm : members ≠ []) (rest : List Token) :
    objectFields fields d (separated (memberTokens members) ++ .closeBrace :: rest) = .ok (d', rest) := by
  induction h with
  | nil => exact absurd rfl hm
  | @cons d d' name j members f update hf hd hj h ih =>
    have hv := fieldValue_eq hf hd hj
    rw [memberTokens]
    cases h with
    | nil =>
      rw [memberTokens, separated, List.flatMap_nil, List.append_nil, List.cons_append, List.cons_append]
      exact objectFields_eq false (hv (.closeBrace :: rest)) rfl
    | cons =>
      specialize ih (by simp)
      rw [memberTokens] at ih ⊢
      simp only [separated_cons_cons, List.append_assoc, List.cons_append] at ih ⊢
      exact (objectFields_eq true (hv _) rfl).trans ih

theorem Fills.exact {fields : List (Field δ)} {d d' : δ} {members : List (String × Json)}
    (h : Fills fields d members d') : ∀ m ∈ members, m.2.Exact := by
  induction h with
  | nil => exact nofun
  | cons _ _ hj _ ih => exact List.forall_mem_cons.2 ⟨hj.exact, ih⟩

theorem reads_record {form : RecordForm δ α} {members : List (String × Json)} {d : δ}
    (h : Fills form.fields form.blank members d) (ha : form.complete d = .ok a) :
    (record form).Reads a (.object members) where
  exact := .object h.exact
  run rest := by
    have hc : completed form (d, rest) = .ok (a, rest) := by rw [completed, ha]
    rw [toTokens, List.append_assoc, List.cons_append, List.singleton_append]
    cases h with
    | nil => exact hc
    | @cons _ _ name j members f update hf hd hj h =>
      have hfields := (Fills.cons hf hd hj h).objectFields (by simp) rest
      rw [memberTokens, separated, List.cons_append, List.cons_append] at hfields ⊢
      simp only [record, recordTokens, hfields]
      exact hc

theorem reads_variant {variants : List (String × α)} {name : String} (h : variants.lookup name = some a)
    (wanted : String) : (variant variants wanted).Reads a (.string name) where
  exact := .string name
  run rest := by
    rw [toTokens, List.singleton_append]
    simp only [variant, variantTokens, variantTokens.named, h]
    rfl

end Reader

end TypeCatalog.Json
