import TypeCatalog.Proofs.Conformity
set_option autoImplicit false

namespace TypeCatalog

namespace SortedMap

variable {κ α : Type} [LT κ] [DecidableEq κ] [LE κ] [Std.IsLinearOrder κ] [Std.LawfulOrderLT κ]
  [DecidableLT κ]

theorem entries_union_perm {m n : SortedMap κ α} (h : ∀ k ∈ m, k ∉ n) :
    (m.union n).entries.Perm (m.entries ++ n.entries) := by
  have hnodup (l : SortedMap κ α) : l.entries.Nodup := List.Nodup.of_map Prod.fst l.keys_nodup
  have happart : (m.entries ++ n.entries).Nodup := by
    refine List.nodup_append.2 ⟨hnodup m, hnodup n, fun e he f hf hef => ?_⟩
    have hm : e.1 ∈ m := mem_iff.2 ⟨e.2, get?_eq_some_iff.2 he⟩
    exact h e.1 hm (mem_iff.2 ⟨e.2, get?_eq_some_iff.2 (hef ▸ hf)⟩)
  refine (List.perm_ext_iff_of_nodup (hnodup _) happart).2 fun e => ?_
  obtain ⟨k, v⟩ := e
  have hfree (hk : m.get? k = some v) : n.get? k = none := not_mem_iff.1 (h k (mem_iff.2 ⟨v, hk⟩))
  simp only [List.mem_append, ← get?_eq_some_iff, get?_union, Option.or_eq_some_iff]
  rw [and_iff_right_of_imp hfree, or_comm]

end SortedMap

/-- What is told of two maps at once is told of them one by one, what is told of no entries apart. -/
def Separable (told : NameMap Value → List Violation) : Prop :=
  ∀ v w : NameMap Value, (∀ n ∈ v, n ∉ w) → (told (v.union w) ++ told ∅).Perm (told v ++ told w)

namespace Separable

variable {f g : NameMap Value → List Violation}

theorem const (vs : List Violation) (h : ∀ v, f v = vs) : Separable f := by
  intro v w _
  rw [h, h, h, h]

theorem append (hf : Separable f) (hg : Separable g) : Separable fun v => f v ++ g v := by
  intro v w h
  have hswap (as bs cs ds : List Violation) : (as ++ bs ++ (cs ++ ds)).Perm (as ++ cs ++ (bs ++ ds)) := by
    simp only [← Multiset.coe_eq_coe, ← Multiset.coe_add]
    exact add_add_add_comm _ _ _ _
  calc
    (f (v.union w) ++ g (v.union w) ++ (f ∅ ++ g ∅)).Perm
        (f (v.union w) ++ f ∅ ++ (g (v.union w) ++ g ∅)) := hswap _ _ _ _
    List.Perm _ (f v ++ f w ++ (g v ++ g w)) := (hf v w h).append (hg v w h)
    List.Perm _ (f v ++ g v ++ (f w ++ g w)) := hswap _ _ _ _

theorem flatMap {α : Type} {l : List α} {f : α → NameMap Value → List Violation}
    (h : ∀ a ∈ l, Separable (f a)) : Separable fun v => l.flatMap fun a => f a v := by
  induction l with
  | nil => exact const [] fun _ => rfl
  | cons a l ih =>
    obtain ⟨ha, hl⟩ := List.forall_mem_cons.1 h
    exact ha.append (ih hl)

theorem lookup (n : String) (f : Option Value → List Violation) : Separable fun v => f (v.get? n) := by
  intro v w h
  dsimp only
  rw [SortedMap.get?_union]
  cases hv : v.get? n with
  | none =>
    rw [Option.or_none]
    exact List.perm_append_comm
  | some x =>
    have hw : w.get? n = none := SortedMap.not_mem_iff.1 (h n (SortedMap.mem_iff.2 ⟨x, hv⟩))
    rw [hw]
    exact .refl _

theorem entries (f : String × Value → List Violation) : Separable fun v => v.entries.flatMap f := by
  intro v w h
  have hunion := (SortedMap.entries_union_perm h).flatMap_right f
  rw [List.flatMap_append] at hunion
  simpa [SortedMap.empty] using hunion

end Separable

theorem Resolved.unknownFields_eq (r : Resolved) (fields : List (String × Value)) :
    r.unknownFields fields =
      fields.flatMap fun f => if (r.attribute? f.1).isNone then [.flaw r.name f.1 .unknown] else [] := by
  induction fields with
  | nil => rfl
  | cons f fields ih =>
    rw [List.flatMap_cons, ← ih, unknownFields, List.filter_cons]
    split <;> rfl

variable {c : Catalog}

theorem Catalog.separable_fieldsViolations (r : Resolved) :
    Separable fun v => c.fieldsViolations r v.entries := by
  simp only [fieldsViolations, Resolved.unknownFields_eq]
  refine .append (.flatMap fun a _ => ?_) (.entries _)
  have htold (v : NameMap Value) : Value.fieldViolations c r.name a v.entries =
      (v.get? a.name).elim (a.absent r.name) fun x =>
        a.violations r.name x (Value.violations c r.name a.name x) := by
    rw [Value.fieldViolations_eq, SortedMap.get?]
    cases SortedMap.find a.name v.entries <;> rfl
  simp only [htold]
  exact .lookup a.name fun o => o.elim _ _

theorem Catalog.separable_validate (type : String) : Separable (c.validate type) := by
  cases hr : c.type? type with
  | some r =>
    cases hk : r.kind with
    | classType =>
      have hclass : c.validate type = fun v => c.fieldsViolations r v.entries := by
        funext v
        simp only [validate, hr, hk]
      rw [hclass]
      exact separable_fieldsViolations r
    | traitType =>
      refine .const [.notInstantiable type .traitType] fun v => ?_
      simp only [validate, hr, hk]
  | none =>
    refine .const (c.validate type ∅) fun v => ?_
    simp only [validate, hr]

/-- A struct that no data type of its kind is wanted for is wrong as a whole, whatever it holds. -/
theorem Value.separable_violations (owner attr : String) (t : DataType) :
    Separable fun v => violations c owner attr (.ofFields v) t := by
  cases t with
  | primitive p =>
    have hno (v : NameMap Value) : p.accepts (.ofFields v) = false := by cases p <;> rfl
    refine .const [.flaw owner attr (.mismatch (.primitive p) .struct)] fun v => ?_
    rw [violations_primitive, hno]
    rfl
  | array t =>
    refine .const [.flaw owner attr (.mismatch (.array t) .struct)] fun v => ?_
    rw [violations_array]
    rfl
  | map keyType t =>
    simp only [violations_map, ofFields]
    exact .entries _
  | named n =>
    cases he : c.enum? n with
    | some e =>
      refine .const [.flaw owner attr (.mismatch (.named n) .struct)] fun v => ?_
      rw [violations_enum he]
      rfl
    | none =>
      cases hr : c.type? n with
      | none =>
        refine .const [.flaw owner attr (.mismatch (.named n) .struct)] fun v => ?_
        rw [violations_unknown he hr]
        rfl
      | some r =>
        simp only [violations_type he hr, ofFields]
        exact Catalog.separable_fieldsViolations r

namespace Registry

/-- No field has a say in what is told of another, at whatever depth the struct stands that holds them. -/
theorem violations_of_fields_apart (ops : List Operation) {v w : Entity} (h : ∀ n ∈ v, n ∉ w) :
    (∀ type,
      ((after ops).catalog.validate type (v.union w) ++ (after ops).catalog.validate type ∅).Perm
        ((after ops).catalog.validate type v ++ (after ops).catalog.validate type w)) ∧
    ∀ owner attr t,
      (Value.violations (after ops).catalog owner attr (.ofFields (v.union w)) t ++
        Value.violations (after ops).catalog owner attr (.ofFields ∅) t).Perm
      (Value.violations (after ops).catalog owner attr (.ofFields v) t ++
        Value.violations (after ops).catalog owner attr (.ofFields w) t) :=
  ⟨fun type => Catalog.separable_validate type v w h,
    fun owner attr t => Value.separable_violations owner attr t v w h⟩

section Sample

def strayOwner : Entity := SortedMap.ofList [("owner", .int 5), ("colour", .string "red")]

def strayParts : Entity :=
  SortedMap.ofList [("format", .string "XML"), ("parts", .array [.struct [("size", .int 1)], .null])]

theorem table_fields_apart :
    (∀ n ∈ strayOwner, n ∉ strayParts) ∧
      ((after [.call (.register 0 tableBatch)]).catalog.validate "Table" (strayOwner.union strayParts) ++
          (after [.call (.register 0 tableBatch)]).catalog.validate "Table" ∅).Perm
        ((after [.call (.register 0 tableBatch)]).catalog.validate "Table" strayOwner ++
          (after [.call (.register 0 tableBatch)]).catalog.validate "Table" strayParts) ∧
      (Value.violations (after [.call (.register 0 tableBatch)]).catalog "Table" "parts"
            (.ofFields (strayOwner.union strayParts)) (.named "Asset") ++
          Value.violations (after [.call (.register 0 tableBatch)]).catalog "Table" "parts"
            (.ofFields ∅) (.named "Asset")).Perm
        (Value.violations (after [.call (.register 0 tableBatch)]).catalog "Table" "parts"
            (.ofFields strayOwner) (.named "Asset") ++
          Value.violations (after [.call (.register 0 tableBatch)]).catalog "Table" "parts"
            (.ofFields strayParts) (.named "Asset")) := by
  have hkeys : ∀ n ∈ strayOwner.keys, n ∉ strayParts := by decide
  have h : ∀ n ∈ strayOwner, n ∉ strayParts := fun n hn => hkeys n (SortedMap.mem_keys.2 hn)
  obtain ⟨hentity, hstruct⟩ := violations_of_fields_apart [.call (.register 0 tableBatch)] h
  exact ⟨h, hentity "Table", hstruct "Table" "parts" (.named "Asset")⟩

end Sample

end Registry

end TypeCatalog
