import TypeCatalog.Proofs.Json.Token
import Mathlib.Data.List.Forall2
set_option autoImplicit false

namespace TypeCatalog

/-- An integer that fits 64 bits, with its sign if it has one, is kept as it is. -/
def Numeral.Exact : Numeral → Prop
  | .integer i => i.natAbs < UInt64.size ∧ (i < 0 → 2 * i.natAbs ≤ UInt64.size)
  | .real _ => False

namespace Json

inductive Exact : Json → Prop
  | null : Exact .null
  | bool (b : Bool) : Exact (.bool b)
  | number {n : Numeral} (h : n.Exact) : Exact (.number n)
  | string (s : String) : Exact (.string s)
  | array {items : List Json} (h : ∀ j ∈ items, Exact j) : Exact (.array items)
  | object {members : List (String × Json)} (h : ∀ m ∈ members, Exact m.2) : Exact (.object members)

def separated : List (List Token) → List Token
  | [] => []
  | ts :: rest => ts ++ rest.flatMap (.comma :: ·)

mutual

def toTokens : Json → List Token
  | .null => [.null]
  | .bool b => [.bool b]
  | .number n => [.number n]
  | .string s => [.string s]
  | .array items => .openBracket :: separated (itemTokens items) ++ [.closeBracket]
  | .object members => .openBrace :: separated (memberTokens members) ++ [.closeBrace]

def itemTokens : List Json → List (List Token)
  | [] => []
  | j :: js => j.toTokens :: itemTokens js

def memberTokens : List (String × Json) → List (List Token)
  | [] => []
  | (key, j) :: members => (.string key :: .colon :: j.toTokens) :: memberTokens members

end

/-- Nothing but gaps stands where a style leaves room. -/
structure Style.Lawful (style : Style) : Prop where
  line : ∀ depth, ∀ c ∈ style.line depth, isGap c = true
  colon : ∃ gap, style.colon = ':' :: gap ∧ ∀ c ∈ gap, isGap c = true

theorem Style.lawful_compact : Style.compact.Lawful where
  line _ _ h := by cases h
  colon := ⟨[], rfl, fun _ h => by cases h⟩

theorem Style.lawful_pretty : Style.pretty.Lawful where
  line depth c h := by
    rcases List.mem_cons.1 h with rfl | h
    · rfl
    · rw [List.eq_of_mem_replicate h]
      rfl
  colon := ⟨[' '], rfl, List.forall_mem_singleton.2 rfl⟩

theorem scan_cons {c : Char} (h : isGap c = false) (cs : List Char) :
    scan (c :: cs) = (scanToken c cs).1 :: scan (scanToken c cs).2 := by
  rw [scan, if_neg (by simp [h])]

theorem scan_gaps {gap : List Char} (h : ∀ c ∈ gap, isGap c = true) (cs : List Char) :
    scan (gap ++ cs) = scan cs := by
  induction gap with
  | nil => rfl
  | cons c gap ih =>
    rw [List.cons_append, scan, if_pos (h c (List.mem_cons_self ..)),
      ih fun d hd => h d (List.mem_cons_of_mem _ hd)]

theorem delimits_cons {c : Char} (h : c = ',' ∨ c = ']' ∨ c = '}' ∨ isGap c = true) (cs : List Char) :
    Delimits (c :: cs) := by
  rintro d ⟨⟩
  simp only [isGap, Bool.or_eq_true, beq_iff_eq] at h
  rcases h with rfl | rfl | rfl | ((rfl | rfl) | rfl) | rfl <;> decide

theorem delimits_gap {gap : List Char} (h : ∀ c ∈ gap, isGap c = true) {cs : List Char} (hcs : Delimits cs) :
    Delimits (gap ++ cs) := by
  cases gap with
  | nil => exact hcs
  | cons c gap => exact delimits_cons (.inr (.inr (.inr (h c (List.mem_cons_self ..))))) _

/-- The text is scanned to these tokens wherever it stands. -/
def Spells (text : List Char) (ts : List Token) : Prop :=
  ∀ rest, Delimits rest → scan (text ++ rest) = ts ++ scan rest

theorem scan_quoted (s : String) (rest : List Char) : scan (quoted s ++ rest) = .string s :: scan rest := by
  have h := scanString_escapes s.toList [] rest
  rw [List.reverse_nil, List.nil_append, String.ofList_toList] at h
  have happ : quoted s ++ rest = '"' :: (s.toList.flatMap escape ++ '"' :: rest) := by simp [quoted]
  rw [happ, scan_cons (by decide), scanToken, h]

theorem isGap_of_isDigit {c : Char} (h : c.isDigit = true) : isGap c = false := by
  by_contra hg
  simp only [isGap, Bool.not_eq_false, Bool.or_eq_true, beq_iff_eq] at hg
  rcases hg with ((rfl | rfl) | rfl) | rfl <;> exact absurd h (by decide)

theorem scanToken_of_isDigit {c : Char} (h : c.isDigit = true) (cs : List Char) :
    scanToken c cs = scanNumber false (c :: cs) := by
  unfold scanToken
  split
  case h_12 => rw [if_pos h]
  all_goals exact absurd h (by decide)

theorem spells_number {n : Numeral} (h : n.Exact) : Spells n.chars [.number n] := by
  intro rest hr
  cases n with
  | real x => exact h.elim
  | integer i =>
    obtain ⟨hfits, hneg⟩ := h
    rw [Numeral.chars]
    split
    · next hi =>
      have hs := scanNumber_natDigits true hfits (fun _ => ⟨by omega, hneg hi⟩) hr
      rw [List.cons_append, scan_cons (by decide), scanToken, hs, if_pos rfl,
        show -(i.natAbs : Int) = i by omega]
      rfl
    · next hi =>
      have hs := scanNumber_natDigits false hfits nofun hr
      cases hd : natDigits i.natAbs with
      | nil => exact absurd hd Nat.toDigits_ne_nil
      | cons d ds =>
        have hdigit : d.isDigit = true :=
          Nat.isDigit_of_mem_toDigits (by decide) (by decide)
            (show d ∈ natDigits i.natAbs from hd ▸ List.mem_cons_self ..)
        rw [hd, List.cons_append] at hs
        rw [List.cons_append, scan_cons (isGap_of_isDigit hdigit), scanToken_of_isDigit hdigit, hs,
          if_neg (by decide), show (i.natAbs : Int) = i by omega]
        rfl

theorem scan_items {line : List Char} (hl : ∀ c ∈ line, isGap c = true) {texts : List (List Char)}
    {tss : List (List Token)} (h : List.Forall₂ Spells texts tss) {cs : List Char} (hcs : Delimits cs) :
    scan (texts.flatMap (fun text => ',' :: line ++ text) ++ cs) = tss.flatMap (.comma :: ·) ++ scan cs ∧
      Delimits (texts.flatMap (fun text => ',' :: line ++ text) ++ cs) := by
  induction h with
  | nil => exact ⟨rfl, hcs⟩
  | @cons text ts texts tss ht _ ih =>
    rw [List.flatMap_cons, List.flatMap_cons, List.append_assoc, List.append_assoc, List.cons_append]
    refine ⟨?_, delimits_cons (.inl rfl) _⟩
    rw [List.append_assoc, scan_cons (by decide), scanToken, scan_gaps hl, ht _ ih.2, ih.1]
    rfl

theorem spells_enclose {style : Style} (hs : style.Lawful) (depth : Nat) {first last : Char} {t t' : Token}
    (hf : ∀ cs, scan (first :: cs) = t :: scan cs) (hl : ∀ cs, scan (last :: cs) = t' :: scan cs)
    (hd : ∀ cs, Delimits (last :: cs)) {texts : List (List Char)} {tss : List (List Token)}
    (h : List.Forall₂ Spells texts tss) :
    Spells (enclose style depth first last texts) (t :: separated tss ++ [t']) := by
  intro rest _
  cases h with
  | nil =>
    rw [enclose, List.cons_append, hf, List.singleton_append, hl]
    rfl
  | @cons text ts texts tss ht h =>
    obtain ⟨hscan, hdel⟩ := scan_items (hs.line (depth + 1)) h
      (delimits_gap (hs.line depth) (hd rest))
    rw [scan_gaps (hs.line depth), hl] at hscan
    have happ : enclose style depth first last (text :: texts) ++ rest =
        first :: (style.line (depth + 1) ++ (text ++
          (texts.flatMap (fun text => ',' :: style.line (depth + 1) ++ text) ++
            (style.line depth ++ last :: rest)))) := by
      simp [enclose]
    rw [happ, hf, scan_gaps (hs.line (depth + 1)), ht _ hdel, hscan]
    simp [separated]

theorem renderItems_eq (style : Style) (depth : Nat) (items : List Json) :
    renderItems style depth items = items.map (render style depth) := by
  induction items with
  | nil => rfl
  | cons j js ih => rw [renderItems, ih, List.map_cons]

theorem renderMembers_eq (style : Style) (depth : Nat) (members : List (String × Json)) :
    renderMembers style depth members =
      members.map fun m => quoted m.1 ++ style.colon ++ render style depth m.2 := by
  induction members with
  | nil => rfl
  | cons m ms ih => rw [renderMembers, ih, List.map_cons]

theorem itemTokens_eq (items : List Json) : itemTokens items = items.map toTokens := by
  induction items with
  | nil => rfl
  | cons j js ih => rw [itemTokens, ih, List.map_cons]

theorem memberTokens_eq (members : List (String × Json)) :
    memberTokens members = members.map fun m => .string m.1 :: .colon :: m.2.toTokens := by
  induction members with
  | nil => rfl
  | cons m ms ih => rw [memberTokens, ih, List.map_cons]

theorem spells_render {style : Style} (hs : style.Lawful) {j : Json} (h : j.Exact) (depth : Nat) :
    Spells (render style depth j) j.toTokens := by
  induction h generalizing depth with
  | null => exact fun rest _ => by rw [render, toTokens]; exact scan_cons (by decide) _
  | bool b =>
    intro rest _
    cases b <;> rw [render, toTokens] <;> exact scan_cons (by decide) _
  | number h => exact spells_number h
  | string s => exact fun rest _ => scan_quoted s rest
  | @array items _ ih =>
    rw [render, toTokens, renderItems_eq, itemTokens_eq]
    refine spells_enclose hs depth (fun cs => scan_cons (by decide) cs) (fun cs => scan_cons (by decide) cs)
      (fun cs => delimits_cons (by decide) cs) ?_
    rw [List.forall₂_map_left_iff, List.forall₂_map_right_iff, List.forall₂_same]
    exact fun j hj => ih j hj (depth + 1)
  | @object members _ ih =>
    rw [render, toTokens, renderMembers_eq, memberTokens_eq]
    refine spells_enclose hs depth (fun cs => scan_cons (by decide) cs) (fun cs => scan_cons (by decide) cs)
      (fun cs => delimits_cons (by decide) cs) ?_
    rw [List.forall₂_map_left_iff, List.forall₂_map_right_iff, List.forall₂_same]
    intro m hm rest hrest
    obtain ⟨gap, hcolon, hgap⟩ := hs.colon
    rw [List.append_assoc, List.append_assoc, scan_quoted, hcolon, List.cons_append, scan_cons (by decide),
      scanToken, scan_gaps hgap, ih m hm (depth + 1) rest hrest]
    rfl

theorem tokens_render {style : Style} (hs : style.Lawful) {j : Json} (h : j.Exact) (depth : Nat) :
    tokens (String.ofList (render style depth j)) = j.toTokens := by
  have := spells_render hs h depth [] nofun
  rwa [scan, List.append_nil, List.append_nil, ← String.toList_ofList (l := render style depth j)] at this

end Json

end TypeCatalog
