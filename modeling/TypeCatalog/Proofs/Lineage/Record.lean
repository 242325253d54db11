import Mathlib
import TypeCatalog.Lineage.Record
import TypeCatalog.Proofs.SortedMap
set_option autoImplicit false

namespace TypeCatalog

namespace SortedMap

variable {κ α β : Type}

/-- What is made of the values in a list, where something is made of them. -/
def kept (f : β → Option α) (es : List (κ × β)) : List (κ × α) :=
  es.filterMap fun e => (f e.2).map fun v => (e.1, v)

theorem keys_kept_sublist (f : β → Option α) (es : List (κ × β)) :
    ((kept f es).map Prod.fst).Sublist (es.map Prod.fst) := by
  induction es with
  | nil => exact .slnil
  | cons e es ih =>
    rw [kept, List.filterMap_cons]
    cases f e.2 with
    | none => exact ih.cons _
    | some v => exact ih.cons_cons _

variable [DecidableEq κ]

theorem find_kept {f : β → Option α} {es : List (κ × β)} (h : (es.map Prod.fst).Nodup) (k : κ) :
    find k (kept f es) = (find k es).bind f := by
  induction es with
  | nil => rfl
  | cons e es ih =>
    obtain ⟨he, hes⟩ := List.nodup_cons.1 h
    rw [kept, List.filterMap_cons, find]
    cases hf : f e.2 with
    | none =>
      refine (ih hes).trans ?_
      split
      · next hk =>
        have hnone : find k es = none :=
          find_eq_none_iff.2 fun d hd hdk => he (List.mem_map.2 ⟨d, hd, hdk.trans hk.symm⟩)
        rw [hnone, Option.bind_some, hf, Option.bind_none]
      · rfl
    | some v =>
      dsimp only [Option.map_some]
      rw [find]
      split
      · exact hf.symm
      · exact ih hes

variable [LT κ] [LE κ] [Std.IsLinearOrder κ] [Std.LawfulOrderLT κ] [DecidableLT κ]

theorem get?_ofList_kept {f : β → Option α} {es : List (κ × β)} (h : (es.map Prod.fst).Nodup) (k : κ) :
    (ofList (kept f es)).get? k = (find k es).bind f := by
  rw [ofList, get?_foldl_insert (h.sublist (keys_kept_sublist f es)), find_kept h]
  exact Option.or_none

end SortedMap

namespace Lineage

open SortedMap (kept find get?_ofList_kept)

inductive Member where
  | text (s : Option String)
  | parts (components : List Texts)

def Record.members (r : Record) : List (String × Member) :=
  ("queryId", .text (some r.queryId)) :: r.texts.map (fun t => (t.1, .text t.2)) ++
    r.parts.map fun p => (p.1, .parts p.2)

/-- The names of the attributes, which are the same in every record. -/
def Record.names : List String := ({ queryId := "" } : Record).members.map Prod.fst

theorem Record.map_fst_members (r : Record) : r.members.map Prod.fst = names := rfl

theorem Record.nodup_members (r : Record) : (r.members.map Prod.fst).Nodup := by
  rw [map_fst_members]
  decide

def Texts.struct (write : Option String → Option Value) (ts : Texts) : Value :=
  .ofFields (SortedMap.ofList (kept write ts))

/-- A text that is absent is left out, and a list that is empty. -/
def Member.sparse? : Member → Option Value
  | .text s => s.map .string
  | .parts components =>
    if components.isEmpty then none
    else some (.array (components.map (Texts.struct (Option.map .string))))

def Record.written (write : Member → Option Value) (r : Record) : Entity :=
  SortedMap.ofList (kept write r.members)

theorem Record.get?_written (write : Member → Option Value) (r : Record) (n : String) :
    (r.written write).get? n = (find n r.members).bind write := get?_ofList_kept r.nodup_members n

theorem textValues_eq (ts : Texts) : textValues ts = kept (Option.map .string) ts := by
  rw [kept, textValues]
  simp only [Option.map_map]
  rfl

theorem Record.entity_eq (r : Record) : r.entity = r.written Member.sparse? := by
  have htexts : textValues r.texts = kept Member.sparse? (r.texts.map fun t => (t.1, .text t.2)) := by
    rw [textValues_eq, kept, kept, List.filterMap_map]
    rfl
  have hparts : (r.parts.filter fun p => !p.2.isEmpty).map (fun p =>
        (p.1, Value.array (p.2.map fun ts => .ofFields (SortedMap.ofList (textValues ts))))) =
      kept Member.sparse? (r.parts.map fun p => (p.1, .parts p.2)) := by
    rw [kept, List.filterMap_map, ← List.filterMap_eq_filter, List.map_filterMap]
    refine congrArg (fun f => r.parts.filterMap f) (funext fun p => ?_)
    by_cases h : p.2 = [] <;> simp [h, Member.sparse?, Option.guard, Texts.struct, textValues_eq]
  have happ : kept Member.sparse? r.members = ("queryId", .string r.queryId) ::
      kept Member.sparse? (r.texts.map fun t => (t.1, .text t.2)) ++
      kept Member.sparse? (r.parts.map fun p => (p.1, .parts p.2)) := by
    rw [members, kept, List.filterMap_append, List.filterMap_cons]
    rfl
  rw [entity, written, htexts, hparts, happ]

def textIn (fields : List (String × Value)) (name : String) : Option String :=
  (find name fields).bind Value.text?

section Parts

variable {α : Type} {texts : α → Texts} {ofTexts : (String → Option String) → α}

def partOf (ofTexts : (String → Option String) → α) : Value → α
  | .struct fields => ofTexts (textIn fields)
  | _ => ofTexts fun _ => none

def listIn (ofTexts : (String → Option String) → α) (fields : List (String × Value)) (name : String) : List α :=
  match find name fields with
  | some (.array items) => items.map (partOf ofTexts)
  | _ => []

structure Recovers (ofTexts : (String → Option String) → α) (texts : α → Texts) : Prop where
  distinct (a : α) : ((texts a).map Prod.fst).Nodup
  ofTexts (a : α) : (ofTexts fun n => (find n (texts a)).join) = a

theorem Recovers.partOf_struct (h : Recovers ofTexts texts) (a : α) :
    partOf ofTexts ((texts a).struct (Option.map .string)) = a := by
  have htexts : textIn (SortedMap.ofList (kept (Option.map Value.string) (texts a))).entries =
      fun n => (find n (texts a)).join := by
    funext n
    have hget := get?_ofList_kept (f := Option.map Value.string) (h.distinct a) n
    rw [SortedMap.get?] at hget
    rw [textIn, hget]
    rcases find n (texts a) with _ | _ | s <;> rfl
  rw [Texts.struct, Value.ofFields, partOf, htexts, h.ofTexts]

end Parts

def SourceTable.ofAttributes (get : String → Option String) : SourceTable :=
  ⟨get "tableName", get "tableAlias", get "databaseName"⟩

def QueryColumn.ofAttributes (get : String → Option String) : QueryColumn :=
  ⟨get "tbAliasOrName", get "columnName", get "columnAlias", get "columnFunction"⟩

def WhereClause.ofAttributes (get : String → Option String) : WhereClause :=
  ⟨get "tbAliasOrName", get "columnCondition", get "columnName", get "columnOperator", get "columnValue"⟩

def CreateColumn.ofAttributes (get : String → Option String) : CreateColumn :=
  ⟨get "columnName", get "columnType"⟩

def ColumnRef.ofAttributes (get : String → Option String) : ColumnRef :=
  ⟨get "tbAliasOrName", get "columnName"⟩

theorem SourceTable.recovers : Recovers ofAttributes attributes :=
  ⟨fun _ => by simp [attributes], fun _ => rfl⟩

theorem QueryColumn.recovers : Recovers ofAttributes attributes :=
  ⟨fun _ => by simp [attributes], fun _ => rfl⟩

theorem WhereClause.recovers : Recovers ofAttributes attributes :=
  ⟨fun _ => by simp [attributes], fun _ => rfl⟩

theorem CreateColumn.recovers : Recovers ofAttributes attributes :=
  ⟨fun _ => by simp [attributes], fun _ => rfl⟩

theorem ColumnRef.recovers : Recovers ofAttributes attributes :=
  ⟨fun _ => by simp [attributes], fun _ => rfl⟩

def Record.ofEntity (e : Entity) : Record where
  queryId := (textIn e.entries "queryId").getD ""
  user := textIn e.entries "user"
  startTime := textIn e.entries "queryStartTime"
  endTime := textIn e.entries "queryEndTime"
  query := textIn e.entries "query"
  tableName := textIn e.entries "tableName"
  tableLocation := textIn e.entries "tableLocation"
  sourceTables := listIn SourceTable.ofAttributes e.entries "sourceTables"
  queryColumns := listIn QueryColumn.ofAttributes e.entries "queryColumns"
  whereClause := listIn WhereClause.ofAttributes e.entries "whereClause"
  createColumns := listIn CreateColumn.ofAttributes e.entries "createColumns"
  groupBy := listIn ColumnRef.ofAttributes e.entries "groupBy"
  orderBy := listIn ColumnRef.ofAttributes e.entries "orderBy"

namespace Record

variable {r : Record} {n : String}

theorem find_entity (n : String) : find n r.entity.entries = (find n r.members).bind Member.sparse? := by
  rw [entity_eq]
  exact r.get?_written _ n

theorem textIn_entity {s : Option String} (h : find n r.members = some (.text s)) :
    textIn r.entity.entries n = s := by
  rw [textIn, find_entity, h]
  cases s <;> rfl

theorem listIn_entity {α : Type} {texts : α → Texts} {ofTexts : (String → Option String) → α}
    (hr : Recovers ofTexts texts) {as : List α} (h : find n r.members = some (.parts (as.map texts))) :
    listIn ofTexts r.entity.entries n = as := by
  have hback : partOf ofTexts ∘ Texts.struct (Option.map .string) ∘ texts = id := funext hr.partOf_struct
  rw [listIn, find_entity, h, Option.bind_some, Member.sparse?]
  cases as with
  | nil => rfl
  | cons a as =>
    rw [if_neg (by simp)]
    simp only [List.map_map, hback, List.map_id]

theorem ofEntity_entity (r : Record) : ofEntity r.entity = r := by
  rw [ofEntity, textIn_entity (n := "queryId") rfl, textIn_entity (n := "user") rfl,
    textIn_entity (n := "queryStartTime") rfl, textIn_entity (n := "queryEndTime") rfl,
    textIn_entity (n := "query") rfl, textIn_entity (n := "tableName") rfl,
    textIn_entity (n := "tableLocation") rfl, listIn_entity SourceTable.recovers (n := "sourceTables") rfl,
    listIn_entity QueryColumn.recovers (n := "queryColumns") rfl,
    listIn_entity WhereClause.recovers (n := "whereClause") rfl,
    listIn_entity CreateColumn.recovers (n := "createColumns") rfl,
    listIn_entity ColumnRef.recovers (n := "groupBy") rfl,
    listIn_entity ColumnRef.recovers (n := "orderBy") rfl]
  rfl

/-- Nothing of a record is lost in its entity, or mixed up with another part of it. -/
theorem entity_tells_record :
    (∀ r : Record, ofEntity r.entity = r) ∧ ∀ r₁ r₂ : Record, r₁.entity = r₂.entity ↔ r₁ = r₂ := by
  refine ⟨ofEntity_entity, fun r₁ r₂ => ⟨fun h => ?_, congrArg entity⟩⟩
  calc
    r₁ = ofEntity r₁.entity := (ofEntity_entity r₁).symm
    _ = ofEntity r₂.entity := by rw [h]
    _ = r₂ := ofEntity_entity r₂

end Record

end Lineage

end TypeCatalog
