set_option autoImplicit false

namespace TypeCatalog

structure Journal.Key where
  bytes : List Nat
  deriving DecidableEq, Repr

namespace Journal.Key

instance : LT Key := ⟨fun a b => List.Lex (· < ·) a.bytes b.bytes⟩

instance : LE Key := ⟨fun a b => ¬b < a⟩

instance : DecidableLT Key := fun a b => List.decidableLex (· < ·) a.bytes b.bytes

theorem lt_irrefl (a : Key) : ¬a < a := List.lex_irrefl Nat.lt_irrefl a.bytes

theorem lt_trans {a b c : Key} (h₁ : a < b) (h₂ : b < c) : a < c := List.lex_trans Nat.lt_trans h₁ h₂

theorem eq_of_not_lt {a b : Key} (h₁ : ¬a < b) (h₂ : ¬b < a) : a = b := by
  have hb : a.bytes = b.bytes :=
    List.lex_trichotomous (fun _ _ hx hy => Nat.le_antisymm (Nat.not_lt.1 hy) (Nat.not_lt.1 hx)) h₂ h₁
  cases a; cases b; cases hb; rfl

theorem lt_asymm {a b : Key} (h : a < b) : ¬b < a := fun h' => lt_irrefl a (lt_trans h h')

instance : Std.IsLinearOrder Key where
  le_refl := lt_irrefl
  le_trans a b c hab hbc hca := by
    by_cases h : a < b
    · exact hbc (lt_trans hca h)
    · exact hbc (eq_of_not_lt h hab ▸ hca)
  le_antisymm _ _ hab hba := eq_of_not_lt hba hab
  le_total a b := by
    by_cases h : a < b
    · exact .inl (lt_asymm h)
    · exact .inr h

instance : Std.LawfulOrderLT Key where
  lt_iff _ _ := ⟨fun h => ⟨lt_asymm h, fun hn => hn h⟩, fun h => Decidable.not_not.1 h.2⟩

/-- The digits of a number to the base 256, as many as asked for; the first takes all that is left. -/
def digits : Nat → Nat → List Nat
  | 0, _ => []
  | 1, n => [n]
  | count + 2, n => digits (count + 1) (n / 256) ++ [n % 256]

def ofVersion (version : Nat) : Key := ⟨digits 8 version⟩

def version? (key : Key) : Option Nat :=
  if key.bytes.length = 8 then some (key.bytes.foldl (fun n b => n * 256 + b) 0) else none

end Journal.Key

end TypeCatalog
