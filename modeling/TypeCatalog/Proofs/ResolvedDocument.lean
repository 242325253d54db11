import TypeCatalog.Proofs.Reachable
import TypeCatalog.Proofs.SchemaText
import TypeCatalog.Proofs.Document
set_option autoImplicit false

namespace TypeCatalog

namespace TypeDocument

variable {type : String} {m : NameMap Attribute} {a : Attribute}

theorem addAttribute_ofAttribute (h : a.name ∉ m) :
    addAttribute type m (.ofAttribute a) = .ok (m.insert a.name a) := by
  rw [addAttribute, AttributeDocument.attr_ofAttribute]
  simp only [bind, Except.bind, SortedMap.not_mem_iff.1 h]
  rfl

theorem foldlM_addAttribute {as : List Attribute} (hd : (as.map Attribute.name).Nodup)
    (hm : ∀ a ∈ as, a.name ∉ m) :
    (as.map .ofAttribute).foldlM (addAttribute type) m =
      .ok (as.foldl (fun m a => m.insert a.name a) m) := by
  induction as generalizing m with
  | nil => rfl
  | cons a as ih =>
    obtain ⟨ha, has⟩ := List.nodup_cons.1 hd
    obtain ⟨hma, hmas⟩ := List.forall_mem_cons.1 hm
    have hfresh : ∀ b ∈ as, b.name ∉ m.insert a.name a := by
      intro b hb hmem
      rcases SortedMap.mem_insert.1 hmem with heq | hmem
      · exact ha (List.mem_map.2 ⟨b, hb, heq⟩)
      · exact hmas b hb hmem
    rw [List.map_cons, List.foldlM_cons, addAttribute_ofAttribute hma]
    exact ih has hfresh

/-- It is enough that each attribute stands under its own name. -/
theorem resolved_ofResolved {r : Resolved} (hk : ∀ n a, r.attribute? n = some a → a.name = n) :
    (ofResolved r).resolved = .ok r := by
  have hnames : (r.attributes.values.map Attribute.name).Nodup := by
    rw [SortedMap.map_values_eq_keys hk]
    exact r.attributes.keys_nodup
  have hentries : r.attributes.values.map (fun a => (a.name, a)) = r.attributes.entries := by
    rw [SortedMap.values, List.map_map]
    refine (List.map_congr_left fun e he => ?_).trans (List.map_id _)
    exact Prod.ext (hk e.1 e.2 (SortedMap.get?_eq_some_iff.2 he)) rfl
  have hfold : r.attributes.values.foldl (fun m a => m.insert a.name a) ∅ = r.attributes := by
    have hofList := SortedMap.ofList_entries r.attributes
    rw [← hentries, SortedMap.ofList, List.foldl_map] at hofList
    exact hofList
  have hadded : (r.attributes.values.map .ofAttribute).foldlM (addAttribute r.name) ∅ = .ok r.attributes :=
    (foldlM_addAttribute hnames fun a _ => SortedMap.not_mem_empty a.name).trans (congrArg Except.ok hfold)
  refine bind_eq_ok_iff.2 ⟨r.attributes, hadded, ?_⟩
  simp only [pure, Except.pure, ofResolved, Option.getD_some, NameSet.ofList_toList]

end TypeDocument

namespace Registry

variable {n : String} {r : Resolved}

/-- Nothing of a type is lost or made another in its document, as it is or as a text. -/
theorem resolved_survives_document (ops : List Operation) (hr : (after ops).catalog.type? n = some r) :
    (TypeDocument.ofResolved r).resolved = .ok r ∧
      ∀ style : Json.Style, style.Lawful →
        ∃ d, TypeDocument.reader.parse (String.ofList ((TypeDocument.ofResolved r).json.render style 0)) = .ok d ∧
          d.resolved = .ok r := by
  have hi := (reachable_after ops).integrity
  have hresolved := TypeDocument.resolved_ofResolved (hi.coherent n r hr).keyed
  exact ⟨hresolved, fun style hs => ⟨_, (TypeDocument.reads _).parse hs, hresolved⟩⟩

section Sample

set_option maxRecDepth 20000 in
/-- A table with what it inherits, got back from one line and from indented lines. -/
theorem table_survives_document :
    ∃ r d d', (after [.call (.register 0 tableBatch)]).catalog.type? "Table" = some r ∧
      (TypeDocument.ofResolved r).resolved = .ok r ∧
      TypeDocument.reader.parse (TypeDocument.ofResolved r).json.compact = .ok d ∧ d.resolved = .ok r ∧
      TypeDocument.reader.parse (TypeDocument.ofResolved r).json.pretty = .ok d' ∧ d'.resolved = .ok r := by
  have hs : (((⟨.empty, tableBatch⟩ : Scope).committed 0).type? "Table").isSome = true := by cbv
  rw [← catalog_after_register 0 (by rfl) clean_tableBatch] at hs
  obtain ⟨r, hr⟩ := Option.isSome_iff_exists.1 hs
  obtain ⟨hresolved, htext⟩ := resolved_survives_document _ hr
  obtain ⟨d, hd, hcompact⟩ := htext .compact Json.Style.lawful_compact
  obtain ⟨d', hd', hpretty⟩ := htext .pretty Json.Style.lawful_pretty
  exact ⟨r, d, d', hr, hresolved, hd, hcompact, hd', hpretty⟩

end Sample

end Registry

end TypeCatalog
