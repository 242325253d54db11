import TypeCatalog.Lineage.Ingestion
import TypeCatalog.Proofs.Json.Value
import TypeCatalog.Proofs.Lineage.Record
set_option autoImplicit false

namespace TypeCatalog

section Forall₂

variable {α β γ : Type} {R : α → β → Prop} {S : β → γ → Prop} {as : List α} {bs : List β} {cs : List γ}

theorem exists_right_of_forall₂ (h : List.Forall₂ R as bs) : ∀ a ∈ as, ∃ b ∈ bs, R a b := by
  induction h with
  | nil => exact nofun
  | cons hab _ ih =>
    refine List.forall_mem_cons.2 ⟨⟨_, List.mem_cons_self .., hab⟩, fun a ha => ?_⟩
    obtain ⟨b, hb, hab⟩ := ih a ha
    exact ⟨b, List.mem_cons_of_mem _ hb, hab⟩

theorem exists_left_of_forall₂ (h : List.Forall₂ R as bs) : ∀ b ∈ bs, ∃ a ∈ as, R a b :=
  exists_right_of_forall₂ h.flip

theorem forall₂_trans (h : List.Forall₂ R as bs) (h' : List.Forall₂ S bs cs) :
    List.Forall₂ (fun a c => ∃ b, R a b ∧ S b c) as cs := by
  induction h generalizing cs with
  | nil =>
    cases h'
    exact .nil
  | cons hab _ ih =>
    cases h' with
    | cons hbc h' => exact .cons ⟨_, hab, hbc⟩ (ih h')

end Forall₂

namespace SortedMap

section Kept

variable {κ α β γ : Type}

theorem kept_congr {f g : β → Option α} {es : List (κ × β)} (h : ∀ e ∈ es, f e.2 = g e.2) :
    kept f es = kept g es :=
  List.filterMap_congr fun e he => by rw [h e he]

theorem kept_some (f : β → α) (es : List (κ × β)) :
    kept (fun b => some (f b)) es = es.map fun e => (e.1, f e.2) :=
  congrFun List.filterMap_eq_map' es

theorem filter_eq_kept (p : β → Bool) (es : List (κ × β)) :
    es.filter (fun e => p e.2) = kept (fun b => if p b then some b else none) es := by
  rw [← List.filterMap_eq_filter, kept]
  refine List.filterMap_congr fun e _ => ?_
  cases h : p e.2 <;> simp [Option.guard, h]

variable [LT κ] [DecidableEq κ] [LE κ] [Std.IsLinearOrder κ] [Std.LawfulOrderLT κ] [DecidableLT κ]

theorem kept_entries_ofList {f : α → Option γ} {g : β → Option α} {es : List (κ × β)}
    (h : (es.map Prod.fst).Nodup) :
    kept f (ofList (kept g es)).entries = (ofList (kept (fun b => (g b).bind f) es)).entries := by
  have hsorted : (kept f (ofList (kept g es)).entries).Pairwise fun a b => a.1 < b.1 :=
    List.pairwise_map.1 ((ofList (kept g es)).keys_ascending.sublist (keys_kept_sublist ..))
  refine entries_eq_of_find_eq hsorted (ofList _).ascending fun k => ?_
  calc
    find k (kept f (ofList (kept g es)).entries) = ((ofList (kept g es)).get? k).bind f :=
      find_kept (ofList (kept g es)).keys_nodup k
    _ = (find k es).bind fun b => (g b).bind f := by rw [get?_ofList_kept h, Option.bind_assoc]
    _ = (ofList (kept (fun b => (g b).bind f) es)).get? k := (get?_ofList_kept h k).symm

end Kept

end SortedMap

open SortedMap (kept find)

namespace Value

mutual

/-- Without the fields that are null, at whatever depth they stand. -/
def withoutNulls : Value → Value
  | .array items => .array (itemsWithoutNulls items)
  | .struct fields => .struct (fieldsWithoutNulls fields)
  | v => v

def itemsWithoutNulls : List Value → List Value
  | [] => []
  | v :: vs => withoutNulls v :: itemsWithoutNulls vs

def fieldsWithoutNulls : List (String × Value) → List (String × Value)
  | [] => []
  | (name, v) :: fields =>
    if v.isNull then fieldsWithoutNulls fields else (name, withoutNulls v) :: fieldsWithoutNulls fields

end

def isEmptyArray : Value → Bool
  | .array [] => true
  | _ => false

def nonNull? (v : Value) : Option Value := if v.isNull then none else some v.withoutNulls

theorem ofItems_eq (items : List Json) : ofItems items = items.map ofJson := by
  induction items with
  | nil => rfl
  | cons j items ih => rw [ofItems, ih, List.map_cons]

theorem ofMembers_eq (members : List (String × Json)) :
    ofMembers members = members.map fun m => (m.1, ofJson m.2) := by
  induction members with
  | nil => rfl
  | cons m members ih => rw [ofMembers, ih, List.map_cons]

theorem itemsWithoutNulls_eq (items : List Value) : itemsWithoutNulls items = items.map withoutNulls := by
  induction items with
  | nil => rfl
  | cons v items ih => rw [itemsWithoutNulls, ih, List.map_cons]

theorem fieldsWithoutNulls_eq (fields : List (String × Value)) :
    fieldsWithoutNulls fields = kept nonNull? fields := by
  induction fields with
  | nil => rfl
  | cons f fields ih =>
    rw [fieldsWithoutNulls, ih, kept, kept, List.filterMap_cons, nonNull?]
    cases f.2.isNull <;> rfl

end Value

/-- Without the fields that are null, and without what is an empty array as a whole. -/
def Entity.pruned (e : Entity) : Entity :=
  SortedMap.ofList (Value.fieldsWithoutNulls (e.entries.filter fun f => !f.2.isEmptyArray))

namespace Lineage

open SortedMap (kept_congr kept_some filter_eq_kept kept_entries_ofList)

def Member.value : Member → Value
  | .text s => .ofOption .string s
  | .parts components => .array (components.map (Texts.struct fun s => some (.ofOption .string s)))

def Member.json : Member → Json
  | .text none => .null
  | .text (some s) => .string s
  | .parts components => .array (components.map fun ts => .object (textsJson ts))

def Record.full (r : Record) : Entity := r.written fun m => some m.value

theorem textsJson_eq (ts : Texts) : textsJson ts = ts.map fun t => (t.1, Member.json (.text t.2)) :=
  List.map_congr_left fun t _ => by cases t.2 <;> rfl

section Names

variable {α : Type}

theorem Component.json_eq {c : Component α} {f : α → Texts} (h : c.texts = f) (as : List α) :
    Json.array (as.map c.json) = Member.json (.parts (as.map f)) := by
  rw [Member.json, List.map_map, ← h]
  rfl

theorem Record.json_eq (r : Record) : r.json = .object (r.members.map fun m => (m.1, m.2.json)) := by
  rw [json, textsJson_eq,
    Component.json_eq (c := SourceTable.component) (f := SourceTable.attributes) rfl,
    Component.json_eq (c := QueryColumn.component) (f := QueryColumn.attributes) rfl,
    Component.json_eq (c := WhereClause.component) (f := WhereClause.attributes) rfl,
    Component.json_eq (c := CreateColumn.component) (f := CreateColumn.attributes) rfl,
    Component.json_eq (c := ColumnRef.component) (f := ColumnRef.attributes) rfl,
    Component.json_eq (c := ColumnRef.component) (f := ColumnRef.attributes) rfl]
  rfl

end Names

theorem Member.ofJson_json (m : Member) : Value.ofJson m.json = m.value := by
  have htext (s : Option String) : Value.ofJson (json (.text s)) = .ofOption .string s := by
    cases s <;> rfl
  cases m with
  | text s => exact htext s
  | parts components =>
    have hstruct (ts : Texts) :
        Value.ofJson (.object (textsJson ts)) = ts.struct fun s => some (.ofOption .string s) := by
      rw [Value.ofJson, Value.ofMembers_eq, textsJson_eq, List.map_map, Texts.struct, kept_some]
      simp only [Function.comp_def, htext]
    rw [json, Value.ofJson, Value.ofItems_eq, List.map_map, value]
    exact congrArg Value.array (List.map_congr_left fun ts _ => hstruct ts)

theorem Record.ofMembers_json (r : Record) :
    Entity.ofMembers (r.members.map fun m => (m.1, m.2.json)) = r.full := by
  rw [Entity.ofMembers, Value.ofMembers_eq, List.map_map, full, written, kept_some]
  simp only [Function.comp_def, Member.ofJson_json]

section Text

open Json (Exact Nests maxDepth tokens_render Style.lawful_compact)

theorem Member.exact_json (m : Member) : m.json.Exact := by
  have htext (s : Option String) : (json (.text s)).Exact := by
    cases s with
    | none => exact .null
    | some s => exact .string s
  cases m with
  | text s => exact htext s
  | parts components =>
    refine .array fun j hj => ?_
    obtain ⟨ts, -, rfl⟩ := List.mem_map.1 hj
    rw [textsJson_eq]
    exact .object (List.forall_mem_map.2 fun t _ => htext t.2)

/-- Components are the only containers in the lists of a record, and hold texts only. -/
theorem Member.nests_json (n : Nat) (m : Member) : Nests (n + 2) m.json := by
  have htext (n : Nat) (s : Option String) : Nests n (json (.text s)) := by
    cases s with
    | none => exact .null n
    | some s => exact .string n s
  cases m with
  | text s => exact htext _ s
  | parts components =>
    refine .array fun j hj => ?_
    obtain ⟨ts, -, rfl⟩ := List.mem_map.1 hj
    rw [textsJson_eq]
    exact .object (List.forall_mem_map.2 fun t _ => htext n t.2)

theorem entityOfText_compact {members : List (String × Json)} (he : ∀ m ∈ members, m.2.Exact)
    (hn : ∀ m ∈ members, Nests 126 m.2) :
    entityOfText (Json.object members).compact = .ok (Entity.ofMembers members) := by
  have hrun := (Nests.object hn).run_toTokens
  have hread : membersReader.run (Json.object members).toTokens = .ok (members, []) := by
    rw [Json.toTokens] at hrun ⊢
    simp only [membersReader, List.cons_append] at hrun ⊢
    rw [hrun]
  rw [entityOfText, Json.Reader.parse, Json.compact, tokens_render Style.lawful_compact (.object he), hread]
  rfl

theorem Record.entityOfText_text (r : Record) : entityOfText r.text = .ok r.full := by
  rw [text, json_eq, ← ofMembers_json]
  exact entityOfText_compact (List.forall_mem_map.2 fun m _ => m.2.exact_json)
    (List.forall_mem_map.2 fun m _ => m.2.nests_json 124)

end Text

/-- The components of a list have their texts under the names of the attributes of a class. -/
structure Lists (l : String × ComponentClass) (p : String × List Texts) : Prop where
  name : p.1 = l.1
  distinct : l.2.attributes.Nodup
  texts : ∀ ts ∈ p.2, ts.map Prod.fst = l.2.attributes

theorem lists_map {α : Type} {k : ComponentClass} {attributes : α → Texts} (hd : k.attributes.Nodup)
    (h : ∀ a, (attributes a).map Prod.fst = k.attributes) (name : String) (as : List α) :
    Lists (name, k) (name, as.map attributes) :=
  ⟨rfl, hd, List.forall_mem_map.2 fun a _ => h a⟩

theorem Record.forall₂_lists (r : Record) : List.Forall₂ (fun p l => Lists l p) r.parts lists :=
  .cons (lists_map (by decide) (fun _ => rfl) _ _) <| .cons (lists_map (by decide) (fun _ => rfl) _ _) <|
    .cons (lists_map (by decide) (fun _ => rfl) _ _) <| .cons (lists_map (by decide) (fun _ => rfl) _ _) <|
    .cons (lists_map (by decide) (fun _ => rfl) _ _) <| .cons (lists_map (by decide) (fun _ => rfl) _ _) .nil

/-- No component has two texts under one name. -/
def Member.Distinct : Member → Prop
  | .text _ => True
  | .parts components => ∀ ts ∈ components, (ts.map Prod.fst).Nodup

theorem Lists.member_distinct {l : String × ComponentClass} {p : String × List Texts} (h : Lists l p) :
    Member.Distinct (.parts p.2) := fun ts hts => h.texts ts hts ▸ h.distinct

theorem Record.members_distinct (r : Record) : ∀ m ∈ r.members, m.2.Distinct := by
  rw [members]
  refine List.forall_mem_append.2 ⟨List.forall_mem_cons.2 ⟨trivial, ?texts⟩, ?parts⟩
  case texts => exact List.forall_mem_map.2 fun t _ => trivial
  case parts =>
    refine List.forall_mem_map.2 fun p hp => ?_
    obtain ⟨l, -, hl⟩ := exists_right_of_forall₂ r.forall₂_lists p hp
    exact hl.member_distinct

/-- Nulls are all that a component has more in the text than in the entity. -/
theorem Texts.withoutNulls_struct {ts : Texts} (h : (ts.map Prod.fst).Nodup) :
    (ts.struct fun s => some (.ofOption .string s)).withoutNulls = ts.struct (Option.map .string) := by
  have htext (s : Option String) :
      (some (Value.ofOption Value.string s)).bind Value.nonNull? = s.map .string := by cases s <;> rfl
  rw [struct, Value.ofFields, Value.withoutNulls, Value.fieldsWithoutNulls_eq, kept_entries_ofList h]
  simp only [htext]
  rfl

theorem Member.pruned_value {m : Member} (h : m.Distinct) :
    ((some m.value).bind fun v => if !v.isEmptyArray then some v else none).bind Value.nonNull? =
      m.sparse? := by
  cases m with
  | text s => cases s <;> rfl
  | parts components =>
    cases components with
    | nil => rfl
    | cons ts components =>
      have hstructs : (ts :: components).map
          (Value.withoutNulls ∘ Texts.struct fun s => some (.ofOption .string s)) =
            (ts :: components).map (Texts.struct (Option.map .string)) :=
        List.map_congr_left fun us hus => Texts.withoutNulls_struct (h us hus)
      rw [← List.map_map, ← Value.itemsWithoutNulls_eq] at hstructs
      exact congrArg (fun items => some (Value.array items)) hstructs

theorem Record.pruned_full (r : Record) : r.full.pruned = r.entity := by
  rw [full, Entity.pruned, Value.fieldsWithoutNulls_eq, filter_eq_kept fun v : Value => !v.isEmptyArray, written,
    kept_entries_ofList r.nodup_members, kept_entries_ofList r.nodup_members, SortedMap.ofList_entries,
    entity_eq, written]
  exact congrArg SortedMap.ofList (kept_congr fun m hm => Member.pruned_value (r.members_distinct m hm))

end Lineage

end TypeCatalog
