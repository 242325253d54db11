import TypeCatalog.Proofs.Json.Reader
set_option autoImplicit false

namespace TypeCatalog.Json

inductive Nests : Nat → Json → Prop
  | null (n : Nat) : Nests n .null
  | bool (n : Nat) (b : Bool) : Nests n (.bool b)
  | number (n : Nat) (m : Numeral) : Nests n (.number m)
  | string (n : Nat) (s : String) : Nests n (.string s)
  | array {n : Nat} {items : List Json} (h : ∀ j ∈ items, Nests n j) : Nests (n + 1) (.array items)
  | object {n : Nat} {members : List (String × Json)} (h : ∀ m ∈ members, Nests n m.2) :
    Nests (n + 1) (.object members)

def Progress.resume : Progress → List Token → Except Fault (Json × List Token)
  | .more place stack, ts => run .reading place stack ts
  | .done v, ts => .ok (v, ts)

theorem run_cons {place : Place} {stack : List Frame} {t : Token} {p : Progress}
    (h : step .reading place stack t = .ok p) (ts : List Token) :
    run .reading place stack (t :: ts) = p.resume ts := by
  rw [run, h]
  cases p <;> rfl

/-- A value is read in front of whatever follows, and put into the innermost container. -/
def ReadOn (stack : List Frame) (j : Json) : Prop :=
  ∀ rest, run .reading .value stack (j.toTokens ++ rest) = (Progress.complete j stack).resume rest

theorem run_firstItem {items : List Json} {stack : List Frame} (j : Json) (rest : List Token) :
    run .reading .firstItem (.array items :: stack) (j.toTokens ++ rest) =
      run .reading .value (.array items :: stack) (j.toTokens ++ rest) := by
  obtain ⟨t, ts, ht, hclose, -⟩ := exists_toTokens j
  have hstep : step .reading .firstItem (.array items :: stack) t =
      step .reading .value (.array items :: stack) t := by
    cases t <;> first | rfl | exact absurd rfl hclose
  rw [ht, List.cons_append, run, run, hstep]

theorem run_items {stack : List Frame} {items : List Json} (hne : items ≠ [])
    (h : ∀ j ∈ items, ∀ acc, ReadOn (.array acc :: stack) j) (acc : List Json) (rest : List Token) :
    run .reading .value (.array acc :: stack) (separated (items.map toTokens) ++ .closeBracket :: rest) =
      (Progress.complete (.array (acc.reverse ++ items)) stack).resume rest := by
  induction items generalizing acc with
  | nil => exact absurd rfl hne
  | cons j items ih =>
    obtain ⟨hj, hitems⟩ := List.forall_mem_cons.1 h
    cases items with
    | nil =>
      rw [List.map_singleton, separated, List.flatMap_nil, List.append_nil, hj acc]
      exact (run_cons rfl rest).trans (by rw [List.reverse_cons])
    | cons k items =>
      rw [List.map_cons, List.map_cons, separated_cons_cons, List.append_assoc, List.cons_append, hj acc]
      have hcomma (ts : List Token) :
          run .reading .next (.array (j :: acc) :: stack) (.comma :: ts) =
            run .reading .value (.array (j :: acc) :: stack) ts := rfl
      refine (hcomma _).trans ((ih (by simp) hitems (j :: acc)).trans ?_)
      rw [List.reverse_cons, List.append_assoc, List.singleton_append]

theorem run_members {stack : List Frame} {members : List (String × Json)} (hne : members ≠ [])
    (h : ∀ m ∈ members, ∀ acc, ReadOn (.object acc m.1 :: stack) m.2) (acc : List (String × Json))
    (key : String) (rest : List Token) :
    run .reading .key (.object acc key :: stack) (separated (memberTokens members) ++ .closeBrace :: rest) =
      (Progress.complete (.object (acc.reverse ++ members)) stack).resume rest := by
  induction members generalizing acc key with
  | nil => exact absurd rfl hne
  | cons m members ih =>
    obtain ⟨name, j⟩ := m
    obtain ⟨hj, hmembers⟩ := List.forall_mem_cons.1 h
    -- A name and a colon stand in front of each value.
    have hvalue (ts : List Token) :
        run .reading .key (.object acc key :: stack) (.string name :: .colon :: (j.toTokens ++ ts)) =
          run .reading .next (.object ((name, j) :: acc) "" :: stack) ts := hj acc ts
    cases members with
    | nil =>
      rw [memberTokens, memberTokens, separated, List.flatMap_nil, List.append_nil, List.cons_append,
        List.cons_append, hvalue]
      exact (run_cons rfl rest).trans (by rw [List.reverse_cons])
    | cons m members =>
      obtain ⟨next, k⟩ := m
      rw [memberTokens, memberTokens, separated_cons_cons, List.append_assoc, List.cons_append,
        List.cons_append, hvalue, List.cons_append]
      have hcomma (ts : List Token) :
          run .reading .next (.object ((name, j) :: acc) "" :: stack) (.comma :: ts) =
            run .reading .key (.object ((name, j) :: acc) "" :: stack) ts := rfl
      refine (hcomma _).trans ((ih (by simp) hmembers ((name, j) :: acc) "").trans ?_)
      rw [List.reverse_cons, List.append_assoc, List.singleton_append]

theorem run_firstKey {stack : List Frame} {members : List (String × Json)} (hne : members ≠ [])
    (rest : List Token) :
    run .reading .firstKey (.object [] "" :: stack) (separated (memberTokens members) ++ rest) =
      run .reading .key (.object [] "" :: stack) (separated (memberTokens members) ++ rest) := by
  cases members with
  | nil => exact absurd rfl hne
  | cons => rfl

theorem openFrame_eq {stack : List Frame} {n : Nat} (h : stack.length + (n + 1) ≤ maxDepth) (place : Place)
    (frame : Frame) : openFrame .reading place frame stack = .ok (.more place (frame :: stack)) := by
  rw [openFrame, if_neg (by omega)]

theorem run_openBracket {stack : List Frame} {n : Nat} (h : stack.length + (n + 1) ≤ maxDepth)
    (ts : List Token) :
    run .reading .value stack (.openBracket :: ts) = run .reading .firstItem (.array [] :: stack) ts := by
  rw [run, step, stepValue, openFrame_eq h]

theorem run_openBrace {stack : List Frame} {n : Nat} (h : stack.length + (n + 1) ≤ maxDepth)
    (ts : List Token) :
    run .reading .value stack (.openBrace :: ts) = run .reading .firstKey (.object [] "" :: stack) ts := by
  rw [run, step, stepValue, openFrame_eq h]

theorem Nests.readOn {n : Nat} {j : Json} (h : Nests n j) :
    ∀ stack : List Frame, stack.length + n ≤ maxDepth → ReadOn stack j := by
  induction h with
  | null | bool | number | string => exact fun _ _ rest => run_cons rfl rest
  | @array n items h ih =>
    intro stack hn rest
    have hitems : ∀ j ∈ items, ∀ acc, ReadOn (.array acc :: stack) j :=
      fun j hj acc => ih j hj _ (by rw [List.length_cons]; omega)
    rw [toTokens, itemTokens_eq, List.append_assoc, List.cons_append, List.singleton_append,
      run_openBracket hn]
    cases items with
    | nil => exact run_cons rfl rest
    | cons j items =>
      rw [List.map_cons, separated, List.append_assoc, run_firstItem, ← List.append_assoc]
      exact run_items (List.cons_ne_nil j items) hitems [] rest
  | @object n members h ih =>
    intro stack hn rest
    have hmembers : ∀ m ∈ members, ∀ acc, ReadOn (.object acc m.1 :: stack) m.2 :=
      fun m hm acc => ih m hm _ (by rw [List.length_cons]; omega)
    rw [toTokens, List.append_assoc, List.cons_append, List.singleton_append,
      run_openBrace hn]
    by_cases hne : members = []
    · rw [hne]
      exact run_cons rfl rest
    · rw [run_firstKey hne]
      exact run_members hne hmembers [] "" rest

theorem Nests.run_toTokens {j : Json} (h : Nests maxDepth j) :
    run .reading .value [] j.toTokens = .ok (j, []) := by
  have hrun := h.readOn [] (by simp) []
  rwa [List.append_nil] at hrun

/-- A value that is not nested too deeply is read from its text, however that is laid out. -/
theorem parse_render {style : Style} (hs : style.Lawful) {j : Json} (he : j.Exact) (hn : Nests maxDepth j) :
    parse (String.ofList (render style 0 j)) = .ok j := by
  rw [parse, tokens_render hs he, hn.run_toTokens]
  rfl

end TypeCatalog.Json
