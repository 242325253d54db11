set_option autoImplicit false

namespace TypeCatalog.Text

/-- The characters with the Unicode property White_Space. -/
def isSpace (c : Char) : Bool :=
  let n := c.toNat
  (9 ≤ n && n ≤ 13) || n == 0x20 || n == 0x85 || n == 0xA0 || n == 0x1680 ||
    (0x2000 ≤ n && n ≤ 0x200A) || n == 0x2028 || n == 0x2029 || n == 0x202F || n == 0x205F ||
    n == 0x3000

def trimLeft (cs : List Char) : List Char := cs.dropWhile isSpace

def trimRight (cs : List Char) : List Char := (cs.reverse.dropWhile isSpace).reverse

def trim (cs : List Char) : List Char := trimRight (trimLeft cs)

def trimmed (s : String) : String := String.ofList (trim s.toList)

def isBlank (s : String) : Bool := s.toList.all isSpace

theorem length_trimLeft_le (cs : List Char) : (trimLeft cs).length ≤ cs.length :=
  (List.dropWhile_suffix isSpace).length_le

theorem length_trimRight_le (cs : List Char) : (trimRight cs).length ≤ cs.length := by
  have h := (List.dropWhile_suffix (l := cs.reverse) isSpace).length_le
  simpa [trimRight] using h

theorem length_trim_le (cs : List Char) : (trim cs).length ≤ cs.length :=
  Nat.le_trans (length_trimRight_le _) (length_trimLeft_le _)

theorem dropWhile_dropWhile {α : Type} (p : α → Bool) (l : List α) :
    (l.dropWhile p).dropWhile p = l.dropWhile p := by
  induction l with
  | nil => rfl
  | cons a l ih => by_cases h : p a <;> simp [h, ih]

@[simp] theorem trimLeft_trimLeft (cs : List Char) : trimLeft (trimLeft cs) = trimLeft cs :=
  dropWhile_dropWhile isSpace cs

@[simp] theorem trimRight_trimRight (cs : List Char) : trimRight (trimRight cs) = trimRight cs := by
  simp [trimRight, dropWhile_dropWhile]

theorem exists_trimRight_append (cs : List Char) : ∃ ds, cs = trimRight cs ++ ds := by
  refine ⟨(cs.reverse.takeWhile isSpace).reverse, ?_⟩
  rw [trimRight, ← List.reverse_append, List.takeWhile_append_dropWhile, List.reverse_reverse]

theorem trimLeft_of_head {c : Char} {cs : List Char} (h : isSpace c = false) :
    trimLeft (c :: cs) = c :: cs := by simp [trimLeft, h]

theorem trimRight_concat {c : Char} {cs : List Char} (h : isSpace c = false) :
    trimRight (cs ++ [c]) = cs ++ [c] := by simp [trimRight, h]

theorem trimLeft_eq_self_of_append {cs ds t : List Char} (h : trimLeft ds = cs ++ t) :
    trimLeft cs = cs := by
  cases cs with
  | nil => rfl
  | cons c cs =>
    have hd : trimLeft ds = c :: (cs ++ t) := h
    have hc : isSpace c = false := by
      have hs := trimLeft_trimLeft ds
      rw [hd] at hs
      cases hb : isSpace c with
      | false => rfl
      | true =>
        have hl := length_trimLeft_le (cs ++ t)
        have he : trimLeft (cs ++ t) = c :: (cs ++ t) := by
          simpa [trimLeft, List.dropWhile_cons, hb] using hs
        rw [he, List.length_cons] at hl
        omega
    exact trimLeft_of_head hc

@[simp] theorem trim_trim (cs : List Char) : trim (trim cs) = trim cs := by
  obtain ⟨t, ht⟩ := exists_trimRight_append (trimLeft cs)
  have h : trimLeft (trim cs) = trim cs := trimLeft_eq_self_of_append ht
  rw [show trim (trim cs) = trimRight (trimLeft (trim cs)) from rfl, h]
  exact trimRight_trimRight _

end TypeCatalog.Text
