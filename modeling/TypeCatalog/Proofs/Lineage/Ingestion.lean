import Mathlib
import TypeCatalog.Proofs.Extension
import TypeCatalog.Proofs.Conformity
import TypeCatalog.Proofs.Lineage.Text
import TypeCatalog.Proofs.NormalDocument
set_option autoImplicit false

namespace TypeCatalog

open SortedMap (find kept)

theorem map_eq_ok_iff {α β ε : Type} {x : Except ε α} {f : α → β} {y : β} :
    x.map f = .ok y ↔ ∃ a, x = .ok a ∧ f a = y := by
  cases x <;> simp [Except.map]

theorem Catalog.attribute?_of_isCommitted {c : Catalog} {d : Declaration}
    (h : c.isCommitted (.declaration d) = true) (hs : d.supers = ∅) :
    ∃ r, c.type? d.name = some r ∧ r.kind = d.kind ∧
      ∀ n a, r.attribute? n = some a ↔ a.name = n ∧ a ∈ d.attributes := by
  obtain ⟨r, hr, hf⟩ := isCommitted_declaration_iff.1 h
  have hflat := Declaration.flattens_of_flatten hf
  have hown (a : Attribute) : d.Contributes c.type? a ↔ a ∈ d.attributes := by
    refine or_iff_left fun hx => ?_
    obtain ⟨s, hx, -⟩ := hx
    obtain ⟨t, ht, -⟩ := Declaration.mem_ancestors.1 hx
    rw [hs] at ht
    exact SortedMap.not_mem_empty t ht
  exact ⟨r, hr, hflat.kind, fun n a => (hflat.holds n a).trans (and_congr_right fun _ => hown a)⟩

theorem Scope.Admitted.wellFormed_of_no_supers {s : Scope} (h : s.Admitted)
    (hs : ∀ d ∈ s.declarations, d.supers = ∅)
    (references : ∀ d ∈ s.declarations, ∀ a ∈ d.attributes, ∀ n ∈ a.dataType.references,
      ∃ e ∈ s.accepted, e.name = n)
    (agree : ∀ d ∈ s.declarations, ∀ a ∈ d.attributes, ∀ b ∈ d.attributes, a.name = b.name → a = b)
    (reverse : ∀ d ∈ s.declarations, ∀ a ∈ d.attributes, a.reverse = none) : s.WellFormed where
  distinct := h.distinct
  free := h.free
  supers d hd n hn := absurd (hs d hd ▸ hn) (SortedMap.not_mem_empty n)
  references d hd a ha n hn := .inr (references d hd a ha n hn)
  acyclic n hn := by
    obtain ⟨m, ⟨d, hd, -, hm, -⟩, -⟩ := Relation.TransGen.head'_iff.1 hn
    exact SortedMap.not_mem_empty m (hs d hd ▸ hm)
  agree d hd a b ha hb := by
    have hfound := h.declaration?_eq_some_iff.2 ⟨hd, rfl⟩
    have hown {a : Attribute} (ha : s.Holds d.name a) : a ∈ d.attributes := by
      obtain ⟨m, hm, hgives⟩ := ha
      rcases Relation.ReflTransGen.cases_head hm with rfl | ⟨k, hk, -⟩
      · exact (h.gives_of_declaration? hfound).1 hgives
      · exact absurd (hs d hd ▸ (h.extends_of_declaration? hfound).1 hk) (SortedMap.not_mem_empty k)
    exact agree d hd a (hown ha) b (hown hb)
  reverse d hd a ha reverse' hr := by cases (reverse d hd a ha).symm.trans hr

namespace Attribute

structure IsOptionalText (a : Attribute) : Prop where
  dataType : a.dataType = .primitive .string
  multiplicity : a.multiplicity = .optional
  unique : a.unique = false

structure IsKeyText (a : Attribute) : Prop where
  dataType : a.dataType = .primitive .string
  multiplicity : a.multiplicity = .required
  unique : a.unique = true

structure IsListOf (a : Attribute) (type : String) : Prop where
  dataType : a.dataType = .named type
  multiplicity : a.multiplicity = .collection
  unique : a.unique = false

theorem isOptionalText_of_optional {name : String} {a : Attribute}
    (h : optional name Primitive.string.name = .ok a) : a.name = name ∧ a.IsOptionalText := by
  obtain ⟨_, _, rfl⟩ := exists_of_make h
  exact ⟨rfl, DataType.ofName_primitive .string, rfl, rfl⟩

theorem isKeyText_of_key {name : String} {a : Attribute} (h : key name Primitive.string.name = .ok a) :
    a.name = name ∧ a.IsKeyText := by
  obtain ⟨b, hb, rfl⟩ := map_eq_ok_iff.1 h
  obtain ⟨_, _, rfl⟩ := exists_of_make hb
  exact ⟨rfl, DataType.ofName_primitive .string, rfl, rfl⟩

theorem isListOf_of_partAttribute {name type : String} {a : Attribute} (ht : DataType.ofName type = .named type)
    (h : Lineage.partAttribute name type = .ok a) : a.name = name ∧ a.IsListOf type := by
  obtain ⟨b, hb, rfl⟩ := map_eq_ok_iff.1 h
  obtain ⟨_, _, rfl⟩ := exists_of_make hb
  exact ⟨rfl, ht, rfl, rfl⟩

theorem IsOptionalText.suits {a : Attribute} (h : a.IsOptionalText) {c : Catalog} {o : Option Value}
    (ho : ∀ v ∈ o, v = .null ∨ ∃ s, v = .string s) : Suits c o a := by
  have hlower : a.multiplicity.lower = 0 := by rw [h.multiplicity]; rfl
  have hone : a.multiplicity.isMany = false := by rw [h.multiplicity]; rfl
  cases o with
  | none => exact .absent hlower
  | some v =>
    rcases ho v rfl with rfl | ⟨s, rfl⟩
    · exact .null hlower
    · refine (suits_one_iff (by simp) hone).2 ⟨?_, fun hu => absurd (h.unique.symm.trans hu) nofun⟩
      rw [h.dataType]
      exact .primitive rfl

theorem IsKeyText.suits_iff {a : Attribute} (h : a.IsKeyText) {c : Catalog} {s : String} :
    Suits c (some (.string s)) a ↔ Text.isBlank s = false := by
  have hone : a.multiplicity.isMany = false := by rw [h.multiplicity]; rfl
  rw [suits_one_iff (by simp) hone, h.dataType, h.unique]
  exact ⟨fun hx => hx.2 rfl, fun hs => ⟨.primitive rfl, fun _ => hs⟩⟩

end Attribute

namespace Lineage

variable {c : Catalog} {a : Attribute}

/-- A committed type with nothing but optional texts, under some names. -/
def HasTexts (c : Catalog) (k : ComponentClass) : Prop :=
  ∃ r, c.type? k.name = some r ∧ (∀ n ∈ k.attributes, n ∈ r.attributes) ∧
    ∀ n a, r.attribute? n = some a → a.name = n ∧ a.IsOptionalText

theorem forall₂_optionalTexts {names : List String} {attributes : List Attribute}
    (h : optionalTexts names = .ok attributes) :
    List.Forall₂ (fun n a => a.name = n ∧ a.IsOptionalText) names attributes :=
  (mapM_eq_ok_iff.1 h).imp fun _ _ => Attribute.isOptionalText_of_optional

theorem ComponentClass.hasTexts {k : ComponentClass} {d : Definition} (hd : k.definition = .ok d)
    (hc : c.isCommitted d = true) : HasTexts c k := by
  obtain ⟨attributes, hattributes, hd⟩ := bind_eq_ok_iff.1 hd
  obtain ⟨d, hmade, rfl⟩ := map_eq_ok_iff.1 hd
  obtain ⟨-, hname, hsupers, rfl⟩ := Declaration.fields_of_ofKind hmade
  obtain ⟨r, hr, -, ha⟩ := Catalog.attribute?_of_isCommitted hc hsupers
  have htexts := forall₂_optionalTexts hattributes
  refine ⟨r, hname ▸ hr, fun n hn => ?_, fun n a hna => ?_⟩
  · obtain ⟨a, hmem, han, -⟩ := exists_right_of_forall₂ htexts n hn
    exact SortedMap.mem_iff.2 ⟨a, (ha n a).2 ⟨han, hmem⟩⟩
  · obtain ⟨hn, hmem⟩ := (ha n a).1 hna
    obtain ⟨m, -, -, htext⟩ := exists_left_of_forall₂ htexts a hmem
    exact ⟨hn, htext⟩

/-- What an attribute asks for is what a record has under its name. -/
inductive Asks (c : Catalog) (a : Attribute) : Member → Prop
  | text (h : a.IsOptionalText) (s : Option String) : Asks c a (.text s)
  | parts {l : String × ComponentClass} {p : String × List Texts} (h : a.IsListOf l.2.name) (hl : Lists l p)
    (hc : HasTexts c l.2) : Asks c a (.parts p.2)

structure IsRecordClass (c : Catalog) (type : Resolved) (key : Attribute) (others : List Attribute) : Prop where
  found : c.type? recordType = some type
  kind : type.kind = .classType
  attribute? : ∀ n a, type.attribute? n = some a ↔ a.name = n ∧ a ∈ key :: others
  key_name : key.name = "queryId"
  key : key.IsKeyText
  others : ∀ r : Record, List.Forall₂ (fun m a => a.name = m.1 ∧ Asks c a m.2) r.members.tail others

theorem lists_named : ∀ l ∈ lists, DataType.ofName l.2.name = .named l.2.name := by
  decide +kernel

/-- The attributes of the class have the names under which the entity of a record has its values. -/
theorem exists_isRecordClass_of_recordDefinition {d : Definition} (hd : recordDefinition = .ok d)
    (hc : c.isCommitted d = true) (hparts : ∀ l ∈ lists, HasTexts c l.2) :
    ∃ type key others, IsRecordClass c type key others := by
  obtain ⟨key, hkey, hd⟩ := bind_eq_ok_iff.1 hd
  obtain ⟨texts, htexts, hd⟩ := bind_eq_ok_iff.1 hd
  obtain ⟨parts, hlists, hd⟩ := bind_eq_ok_iff.1 hd
  obtain ⟨d, hmade, rfl⟩ := map_eq_ok_iff.1 hd
  obtain ⟨hkind, hname, hsupers, hattributes⟩ := Declaration.fields_of_ofKind hmade
  obtain ⟨r, hr, hrkind, ha⟩ := Catalog.attribute?_of_isCommitted hc hsupers
  rw [hname] at hr
  rw [hkind] at hrkind
  rw [hattributes, List.cons_append] at ha
  obtain ⟨hkname, hk⟩ := Attribute.isKeyText_of_key hkey
  refine ⟨r, key, texts ++ parts, hr, hrkind, ha, hkname, hk, fun record => List.rel_append ?texts ?parts⟩
  case texts =>
    have hnamed : List.Forall₂ (fun n a => a.name = n ∧ a.IsOptionalText) (record.texts.map Prod.fst) texts :=
      forall₂_optionalTexts htexts
    refine List.forall₂_map_left_iff.2 ((List.forall₂_map_left_iff.1 hnamed).imp fun t a htext => ?_)
    exact ⟨htext.1, .text htext.2 t.2⟩
  case parts =>
    have hlisted := (List.forall₂_and_left _ _).2 ⟨hparts, mapM_eq_ok_iff.1 hlists⟩
    have hnamed := (List.forall₂_and_left _ _).2 ⟨lists_named, hlisted⟩
    refine List.forall₂_map_left_iff.2 ((forall₂_trans record.forall₂_lists hnamed).imp fun p a hp => ?_)
    obtain ⟨l, hl, hn, htexts, hok⟩ := hp
    obtain ⟨hname, ha⟩ := Attribute.isListOf_of_partAttribute hn hok
    exact ⟨hname.trans hl.name.symm, .parts ha hl htexts⟩

theorem exists_isRecordClass {ds : List Definition} (h : definitions = .ok ds)
    (hc : ∀ d ∈ ds, c.isCommitted d = true) : ∃ type key others, IsRecordClass c type key others := by
  obtain ⟨tables, htables, h⟩ := bind_eq_ok_iff.1 h
  obtain ⟨columns, hcolumns, h⟩ := bind_eq_ok_iff.1 h
  obtain ⟨clauses, hclauses, h⟩ := bind_eq_ok_iff.1 h
  obtain ⟨refs, hrefs, h⟩ := bind_eq_ok_iff.1 h
  obtain ⟨created, hcreated, h⟩ := bind_eq_ok_iff.1 h
  obtain ⟨record, hrecord, h⟩ := bind_eq_ok_iff.1 h
  obtain rfl := Except.ok.inj h
  simp only [List.forall_mem_cons] at hc
  obtain ⟨htables', hcolumns', hclauses', hrefs', hcreated', hrecord', -⟩ := hc
  refine exists_isRecordClass_of_recordDefinition hrecord hrecord' ?_
  simp only [lists, List.forall_mem_cons]
  exact ⟨ComponentClass.hasTexts htables htables', ComponentClass.hasTexts hcolumns hcolumns',
    ComponentClass.hasTexts hclauses hclauses', ComponentClass.hasTexts hcreated hcreated',
    ComponentClass.hasTexts hrefs hrefs', ComponentClass.hasTexts hrefs hrefs', nofun⟩

theorem suits_parts {l : String × ComponentClass} {p : String × List Texts} (h : a.IsListOf l.2.name)
    (hl : Lists l p) (hc : HasTexts c l.2) {write : Option String → Option Value}
    (hw : ∀ s, ∀ v ∈ write s, v = .null ∨ ∃ t, v = .string t) :
    Suits c (some (.array (p.2.map (Texts.struct write)))) a := by
  have hmany : a.multiplicity.isMany = true := by rw [h.multiplicity]; rfl
  obtain ⟨r, hr, hknown, htexts⟩ := hc
  refine (suits_many_iff (by simp) hmany).2 ⟨?count, ?distinct, ?each, ?nonblank⟩
  case count =>
    rw [h.multiplicity]
    exact ⟨Nat.zero_le _, nofun⟩
  case distinct =>
    rw [h.multiplicity]
    exact nofun
  case each =>
    rw [h.dataType]
    refine List.forall_mem_map.2 fun ts hts => .struct hr ?_
    have hnodup : (ts.map Prod.fst).Nodup := hl.texts ts hts ▸ hl.distinct
    have hfind (n : String) : find n (SortedMap.ofList (kept write ts)).entries = (find n ts).bind write :=
      SortedMap.get?_ofList_kept hnodup n
    refine conforms_iff.2 ⟨fun f hf => ?_, fun n a ha => ?_⟩
    · obtain ⟨s, hs, -⟩ := Option.bind_eq_some_iff.1 ((hfind f.1).symm.trans (SortedMap.get?_eq_some_iff.2 hf))
      exact hknown _ (hl.texts ts hts ▸ List.mem_map_of_mem (SortedMap.mem_of_find hs))
    · obtain ⟨rfl, hopt⟩ := htexts n a ha
      refine hopt.suits fun v hv => ?_
      rw [hfind] at hv
      obtain ⟨s, -, hs⟩ := Option.bind_eq_some_iff.1 hv
      exact hw s v hs
  case nonblank => exact fun hu => absurd (h.unique.symm.trans hu) nofun

/-- A way to write members down that suits whatever attribute asks for them. -/
structure Suitable (c : Catalog) (write : Member → Option Value) : Prop where
  text : ∀ s, write (.text (some s)) = some (.string s)
  suits : ∀ a m, Asks c a m → Suits c (write m) a

theorem suitable_sparse : Suitable c Member.sparse? where
  text _ := rfl
  suits a m h := by
    cases h with
    | text h s =>
      refine h.suits fun v hv => ?_
      obtain ⟨t, -, rfl⟩ := Option.map_eq_some_iff.1 hv
      exact .inr ⟨t, rfl⟩
    | parts h hl hc =>
      rw [Member.sparse?]
      split
      · exact .absent (by rw [h.multiplicity]; rfl)
      · refine suits_parts h hl hc fun s v hv => ?_
        obtain ⟨t, -, rfl⟩ := Option.map_eq_some_iff.1 hv
        exact .inr ⟨t, rfl⟩

theorem suitable_value : Suitable c fun m => some m.value where
  text _ := rfl
  suits a m h := by
    have htext (s : Option String) : ∀ v ∈ some (Value.ofOption Value.string s),
        v = .null ∨ ∃ t, v = .string t := by
      rintro v ⟨⟩
      cases s with
      | none => exact .inl rfl
      | some t => exact .inr ⟨t, rfl⟩
    cases h with
    | text h s => exact h.suits (htext s)
    | parts h hl hc => exact suits_parts h hl hc htext

section Validation

variable {type : Resolved} {key : Attribute} {others : List Attribute} {write write' : Member → Option Value}

theorem find_written {r : Record} {n : String} {m : Member} (h : (n, m) ∈ r.members) :
    find n (r.written write).entries = write m := by
  have hfind := r.get?_written write n
  rwa [SortedMap.find_of_mem r.nodup_members h] at hfind

theorem find_key (hw : Suitable c write) (h : IsRecordClass c type key others) (r : Record) :
    find key.name (r.written write).entries = some (.string r.queryId) := by
  rw [h.key_name, find_written (m := .text (some r.queryId)) (List.mem_cons_self ..), hw.text]

theorem suits_others (hw : Suitable c write) (h : IsRecordClass c type key others) (r : Record) :
    ∀ a ∈ others, Suits c (find a.name (r.written write).entries) a := by
  intro a ha
  obtain ⟨m, hm, hname, hasks⟩ := exists_left_of_forall₂ (h.others r) a ha
  rw [hname, find_written (List.mem_of_mem_tail hm)]
  exact hw.suits a m.2 hasks

theorem known_written (h : IsRecordClass c type key others) (r : Record) :
    ∀ f ∈ (r.written write).entries, f.1 ∈ type.attributes := by
  intro f hf
  have hget := (r.get?_written write f.1).symm.trans (SortedMap.get?_eq_some_iff.2 hf)
  obtain ⟨m, hm, -⟩ := Option.bind_eq_some_iff.1 hget
  rcases List.mem_cons.1 (SortedMap.mem_of_find hm) with hid | hrest
  · have hkey : key.name = f.1 := h.key_name.trans (congrArg Prod.fst hid).symm
    exact SortedMap.mem_iff.2 ⟨key, (h.attribute? _ _).2 ⟨hkey, List.mem_cons_self ..⟩⟩
  · obtain ⟨a, ha, hname, -⟩ := exists_right_of_forall₂ (h.others r) _ hrest
    exact SortedMap.mem_iff.2 ⟨a, (h.attribute? _ _).2 ⟨hname, List.mem_cons_of_mem _ ha⟩⟩

theorem validate_written_eq_nil_iff (hi : c.Integrity) (h : IsRecordClass c type key others)
    (hw : Suitable c write) (r : Record) :
    c.validate recordType (r.written write) = [] ↔ Text.isBlank r.queryId = false := by
  rw [Catalog.validate_eq_nil_iff hi, h.found, ← h.key.suits_iff, ← find_key hw h r]
  constructor
  · intro hx
    obtain ⟨type', ⟨⟩, -, hconforms⟩ := hx
    exact (conforms_iff.1 hconforms).2 _ key ((h.attribute? _ key).2 ⟨rfl, List.mem_cons_self ..⟩)
  · intro hkey
    refine ⟨type, rfl, h.kind, conforms_iff.2 ⟨known_written h r, fun n a ha => ?_⟩⟩
    rcases List.mem_cons.1 ((h.attribute? n a).1 ha).2 with rfl | hother
    · exact hkey
    · exact suits_others hw h r a hother

theorem validate_written_congr (hi : c.Integrity) (h : IsRecordClass c type key others)
    (hw : Suitable c write) (hw' : Suitable c write') (r : Record) :
    c.validate recordType (r.written write) = c.validate recordType (r.written write') := by
  have hunknown (write : Member → Option Value) : type.unknownFields (r.written write).entries = [] :=
    Resolved.unknownFields_eq_nil_iff.2 (known_written h r)
  have hfields : ∀ a ∈ type.attributes.values,
      Value.fieldViolations c type.name a (r.written write).entries =
        Value.fieldViolations c type.name a (r.written write').entries := by
    intro a ha
    obtain ⟨n, hn⟩ := SortedMap.mem_values.1 ha
    rcases List.mem_cons.1 ((h.attribute? n a).1 hn).2 with rfl | hother
    · rw [Value.fieldViolations_eq, Value.fieldViolations_eq, find_key hw h, find_key hw' h]
    · have hnil {write : Member → Option Value} (hw : Suitable c write) :
          Value.fieldViolations c type.name a (r.written write).entries = [] :=
        (Value.fieldViolations_eq_nil_iff fun f _ => Value.violations_eq_nil_iff hi f.2).2
          (suits_others hw h r a hother)
      rw [hnil hw, hnil hw']
  rw [Catalog.validate, Catalog.validate, h.found]
  simp only [h.kind, Catalog.fieldsViolations, List.flatMap_congr hfields, hunknown]

end Validation

theorem ingest_of_eq_nil {e : Entity} (h : c.validate recordType e = []) (t : Tally) :
    (ingest c e t).1 = .ok e := by
  rw [ingest, h]

theorem ingest_of_ne_nil {e : Entity} (h : c.validate recordType e ≠ []) (t : Tally) :
    (ingest c e t).1 = .error (.invalid (c.validate recordType e)) := by
  rw [ingest]
  split
  · next hnil => exact absurd hnil h
  · rfl

/-- A record and its text are both accepted or both refused. -/
theorem ingestions_agree (ops : List Registry.Operation) {ds : List Definition} (h : definitions = .ok ds)
    (hc : ∀ d ∈ ds, (Registry.after ops).catalog.isCommitted d = true) (r : Record) (t t' : Tally) :
    ((∃ e, (ingestRecord (Registry.after ops).catalog r t).1 = .ok e) ↔ Text.isBlank r.queryId = false) ∧
      (Text.isBlank r.queryId = true → ∃ violations,
        (ingestRecord (Registry.after ops).catalog r t).1 = .error (.invalid violations) ∧
          (ingestText (Registry.after ops).catalog r.text t').1 = .error (.invalid violations)) ∧
      (Text.isBlank r.queryId = false →
        (ingestRecord (Registry.after ops).catalog r t).1 = .ok r.entity ∧
          ∃ e, (ingestText (Registry.after ops).catalog r.text t').1 = .ok e ∧ e.pruned = r.entity) := by
  have hi := (Registry.reachable_after ops).integrity
  obtain ⟨type, key, others, hclass⟩ := exists_isRecordClass h hc
  have hentity := validate_written_eq_nil_iff hi hclass suitable_sparse r
  have hfull := validate_written_eq_nil_iff hi hclass suitable_value r
  have hsame := validate_written_congr hi hclass suitable_sparse suitable_value r
  rw [← Record.entity_eq] at hentity hsame
  simp only [ingestRecord, ingestText, r.entityOfText_text]
  cases hb : Text.isBlank r.queryId with
  | false =>
    have hok := ingest_of_eq_nil (hentity.2 hb) t
    have hok' := ingest_of_eq_nil (hfull.2 hb) t'
    exact ⟨iff_of_true ⟨_, hok⟩ rfl, fun h => absurd h Bool.false_ne_true, fun _ => ⟨hok, _, hok', r.pruned_full⟩⟩
  | true =>
    have hne : (Registry.after ops).catalog.validate recordType r.entity ≠ [] := by
      rw [ne_eq, hentity, hb]
      decide
    have hrefused := ingest_of_ne_nil hne t
    have hrefused' := ingest_of_ne_nil (e := r.full) (hsame ▸ hne) t'
    rw [Record.full, ← hsame] at hrefused'
    have hblank : ¬true = false := fun h => absurd h.symm Bool.false_ne_true
    refine ⟨iff_of_false ?_ hblank, fun _ => ⟨_, hrefused, hrefused'⟩, fun h => absurd h hblank⟩
    intro hx
    obtain ⟨e, he⟩ := hx
    cases he.symm.trans hrefused

section Classes

def classes : List Definition := definitions.toOption.getD []

theorem definitions_eq : definitions = .ok classes := by rfl

theorem classes_named : ∀ d ∈ classes, DataType.ofName d.name = .named d.name := by
  decide +kernel

theorem clean_classes (hi : c.Integrity) (h : ∀ d ∈ classes, ¬c.Defines d.name) :
    (⟨c, classes⟩ : Scope).Clean := by
  have hfree : ∀ d ∈ classes, c.contains d.name = false := fun d hd =>
    Bool.eq_false_iff.2 fun hx => h d hd ((Catalog.category?_isSome_iff_defines (classes_named d hd)).1 hx)
  have hdistinct : (classes.map Definition.name).Nodup := by decide +kernel
  have hadmitted : (⟨c, classes⟩ : Scope).Admitted := ⟨hdistinct, hfree⟩
  have hsupers : ∀ d ∈ classes.filterMap Definition.declaration?, d.supers = ∅ := by decide +kernel
  have hreferences : ∀ d ∈ classes.filterMap Definition.declaration?, ∀ a ∈ d.attributes,
      ∀ n ∈ a.dataType.references, ∃ e ∈ classes, e.name = n := by decide +kernel
  have hagree : ∀ d ∈ classes.filterMap Definition.declaration?, ∀ a ∈ d.attributes, ∀ b ∈ d.attributes,
      a.name = b.name → a = b := by decide +kernel
  have hreverse : ∀ d ∈ classes.filterMap Definition.declaration?, ∀ a ∈ d.attributes, a.reverse = none := by
    decide +kernel
  exact (Scope.clean_iff_wellFormed hi).2
    (hadmitted.wellFormed_of_no_supers hsupers hreferences hagree hreverse)

end Classes

section Sample

/-- A query on one table, with nothing said of its columns. -/
def queryRecord : Record :=
  { queryId := "q1", user := some "etl", sourceTables := [⟨some "orders", none, none⟩] }

theorem query_ingested :
    definitions = .ok classes ∧
      (∀ d ∈ classes, (Registry.after [.call (.register 0 classes)]).catalog.isCommitted d = true) ∧
      Text.isBlank queryRecord.queryId = false ∧
      (ingestRecord (Registry.after [.call (.register 0 classes)]).catalog queryRecord {}).1 =
        .ok queryRecord.entity ∧
      ∃ e, (ingestText (Registry.after [.call (.register 0 classes)]).catalog queryRecord.text {}).1 = .ok e ∧
        e.pruned = queryRecord.entity := by
  have hc : ∀ d ∈ classes, (Registry.after [.call (.register 0 classes)]).catalog.isCommitted d = true := by
    have hclean : (⟨.empty, classes⟩ : Scope).Clean :=
      clean_classes Catalog.integrity_empty fun _ _ => Catalog.not_defines_empty
    rw [Registry.catalog_after_register 0 rfl hclean]
    exact (hclean.makes Catalog.integrity_empty 0).committed
  have hid : Text.isBlank queryRecord.queryId = false := by decide
  obtain ⟨-, -, hok⟩ := ingestions_agree _ definitions_eq hc queryRecord {} {}
  exact ⟨definitions_eq, hc, hid, hok hid⟩

end Sample

end Lineage

end TypeCatalog
