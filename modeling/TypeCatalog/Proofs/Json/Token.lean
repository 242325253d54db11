import TypeCatalog.Json.Token.Scan
import TypeCatalog.Json.Layout
import Mathlib.Data.List.Basic
set_option autoImplicit false

namespace TypeCatalog.Json

/-- What stands behind a number does not go on with it. -/
def Delimits (rest : List Char) : Prop :=
  ∀ c ∈ rest.head?, c.isDigit = false ∧ c ≠ '.' ∧ c ≠ 'e' ∧ c ≠ 'E'

theorem le_ofDigitChars (n : Nat) (cs : List Char) : n ≤ Nat.ofDigitChars 10 cs n := by
  induction cs generalizing n with
  | nil => exact Nat.le_refl n
  | cons c cs ih =>
    rw [Nat.ofDigitChars_cons]
    exact Nat.le_trans (by omega) (ih _)

theorem significand_eq {n : Nat} {cs : List Char} (h : Nat.ofDigitChars 10 cs n < UInt64.size) :
    significand n cs = (Nat.ofDigitChars 10 cs n, []) := by
  induction cs generalizing n with
  | nil => rfl
  | cons c cs ih =>
    have hstep : Nat.ofDigitChars 10 (c :: cs) n = Nat.ofDigitChars 10 cs (n * 10 + Number.digit c) := by
      rw [Nat.ofDigitChars_cons, Nat.mul_comm]
      rfl
    rw [hstep] at h ⊢
    rw [significand, if_pos (Nat.lt_of_le_of_lt (le_ofDigitChars _ cs) h), ih h]

theorem head?_natDigits_ne {n : Nat} (h : n ≠ 0) : (natDigits n).head? ≠ some '0' := by
  induction n using Nat.strongRecOn with
  | _ n ih =>
    rw [natDigits, Nat.toDigits_eq_if (by decide)]
    split
    · simpa using h
    · rw [List.head?_append_of_ne_nil _ Nat.toDigits_ne_nil]
      exact ih (n / 10) (by omega) (by omega)

theorem natDigits_unpadded (n : Nat) : ¬((natDigits n).head? = some '0' ∧ 1 < (natDigits n).length) := by
  rintro ⟨h0, hl⟩
  rcases eq_or_ne n 0 with rfl | hn
  · exact absurd hl (by decide)
  · exact head?_natDigits_ne hn h0

theorem span_natDigits (n : Nat) {rest : List Char} (h : Delimits rest) :
    (natDigits n ++ rest).takeWhile Char.isDigit = natDigits n ∧
      (natDigits n ++ rest).dropWhile Char.isDigit = rest := by
  have hd : ∀ c ∈ natDigits n, c.isDigit = true := fun c hc =>
    Nat.isDigit_of_mem_toDigits (by decide) (by decide) hc
  rw [List.takeWhile_append_of_pos hd, List.dropWhile_append_of_pos hd]
  cases rest with
  | nil => simp
  | cons c rest =>
    have hc : ¬c.isDigit = true := by simp [(h c rfl).1]
    rw [List.takeWhile_cons_of_neg hc, List.dropWhile_cons_of_neg hc, List.append_nil]
    exact ⟨rfl, rfl⟩

theorem scanFraction_of_delimits {rest : List Char} (h : Delimits rest)
    (finish : Option (List Char) → Option Int → Option Numeral) :
    scanFraction finish rest = (numberToken (finish none none), rest) := by
  cases rest with
  | nil => rfl
  | cons c rest =>
    obtain ⟨-, hp, he, hE⟩ := h c rfl
    rw [scanFraction, scanExponent, if_neg (by simp [he, hE])]
    rintro cs ⟨⟩
    exact hp rfl

theorem scanNumber_natDigits (negative : Bool) {n : Nat} {rest : List Char} (hn : n < UInt64.size)
    (hneg : negative = true → 0 < n ∧ 2 * n ≤ UInt64.size) (h : Delimits rest) :
    scanNumber negative (natDigits n ++ rest) =
      (.number (.integer (if negative then -n else n)), rest) := by
  obtain ⟨ht, hd⟩ := span_natDigits n h
  have hv : Nat.ofDigitChars 10 (natDigits n) 0 = n := Nat.ofDigitChars_ten_toDigits
  have hs : significand 0 (natDigits n) = (n, []) := by
    rw [significand_eq (hv.symm ▸ hn), hv]
  have he : (natDigits n).isEmpty = false := by
    rw [List.isEmpty_eq_false_iff]
    exact Nat.toDigits_ne_nil
  simp only [scanNumber, ht, hd, he, if_neg (natDigits_unpadded n), scanFraction_of_delimits h]
  cases negative with
  | false => simp [numeral?, hs, numberToken]
  | true => simp [numeral?, hs, numberToken, hneg rfl]

theorem hexUnit?_control : ∀ n < 32,
    hexUnit? '0' '0' (Nat.digitChar (n / 16)) (Nat.digitChar (n % 16)) = some n := by decide

theorem scanString_unicode {a b c d : Char} {u : Nat} (h : hexUnit? a b c d = some u) (hu : u < 0xD800)
    (p : Draft) (rest : List Char) :
    scanString p ('\\' :: 'u' :: a :: b :: c :: d :: rest) = scanString (p.push (Char.ofNat u)) rest := by
  have ht : isTrail u = false := by
    rw [isTrail, Bool.and_eq_false_iff, decide_eq_false_iff_not]
    exact .inl (by omega)
  have hl : isLead u = false := by
    rw [isLead, Bool.and_eq_false_iff, decide_eq_false_iff_not]
    exact .inl (by omega)
  rw [scanString, h]
  simp only [ht, hl, Bool.false_eq_true, if_false]

theorem scanString_plain {c : Char} (hq : c ≠ '"') (hb : c ≠ '\\') (hc : ¬c < ' ') (p : Draft)
    (rest : List Char) : scanString p (c :: rest) = scanString (p.push c) rest := by
  rw [scanString, if_neg hc]
  all_goals simp [hq, hb]

theorem scanString_escape (c : Char) (p : Draft) (rest : List Char) :
    scanString p (escape c ++ rest) = scanString (p.push c) rest := by
  unfold escape
  split
  case h_8 hq hb _ _ _ _ _ =>
    split
    · next hc =>
      have hn : c.toNat < 32 := hc
      exact (scanString_unicode (hexUnit?_control c.toNat hn) (by omega) p rest).trans
        (by rw [Char.ofNat_toNat])
    · next hc => exact scanString_plain hq hb hc p rest
  all_goals rfl

theorem scanString_escapes (cs acc rest : List Char) :
    scanString (.ok acc) (cs.flatMap escape ++ '"' :: rest) =
      (.string (String.ofList (acc.reverse ++ cs)), rest) := by
  induction cs generalizing acc with
  | nil => rw [List.append_nil]; rfl
  | cons c cs ih =>
    rw [List.flatMap_cons, List.append_assoc, scanString_escape]
    exact (ih (c :: acc)).trans (by rw [List.reverse_cons, List.append_assoc]; rfl)

end TypeCatalog.Json
