import TypeCatalog.Json.Value
set_option autoImplicit false

/-!
Readers take what they want from the front of the tokens and leave a shorter rest. The first fault in the
order of the text decides: a reader looks at no token before it has taken all tokens in front of it.
-/

namespace TypeCatalog.Json

structure Reader (α : Type) where
  run : List Token → Except Fault (α × List Token)
  shrinks : ∀ {ts rest : List Token} {a : α}, run ts = .ok (a, rest) → rest.length < ts.length

def mismatch (wanted : String) : List Token → Fault
  | [] => .truncated
  | .null :: _ => .mismatch (.invalidType .null wanted)
  | .bool b :: _ => .mismatch (.invalidType (.bool b) wanted)
  | .number n :: _ => .mismatch (.invalidType (.number n) wanted)
  | .string s :: _ => .mismatch (.invalidType (.string s) wanted)
  | .openBracket :: _ => .mismatch (.invalidType .sequence wanted)
  | .openBrace :: _ => .mismatch (.invalidType .mapping wanted)
  | t :: _ => t.fault .reading

namespace Reader

variable {α β : Type}

def parse (r : Reader α) (text : String) : Except Fault α := finish (r.run (tokens text))

def map (f : α → β) (r : Reader α) : Reader β where
  run ts := (r.run ts).map fun p => (f p.1, p.2)
  shrinks := by
    intro ts rest b h
    cases hr : r.run ts with
    | error => simp [hr, Except.map] at h
    | ok p =>
      simp only [hr, Except.map, Except.ok.injEq, Prod.mk.injEq] at h
      exact h.2 ▸ r.shrinks (a := p.1) (by rw [hr])

def string : Reader String where
  run
    | .string s :: ts => .ok (s, ts)
    | ts => .error (mismatch "a string" ts)
  shrinks := by
    intro ts rest a h
    split at h
    · cases h; simp
    · simp at h

def bool : Reader Bool where
  run
    | .bool b :: ts => .ok (b, ts)
    | ts => .error (mismatch "a boolean" ts)
  shrinks := by
    intro ts rest a h
    split at h
    · cases h; simp
    · simp at h

def word : Reader UInt32 where
  run
    | .number (.integer i) :: ts =>
      if 0 ≤ i ∧ i.toNat < UInt32.size then .ok (UInt32.ofNat i.toNat, ts)
      else .error (.mismatch (.invalidValue (.number (.integer i)) "u32"))
    | ts => .error (mismatch "u32" ts)
  shrinks := by
    intro ts rest a h
    split at h
    · split at h
      · cases h; simp
      · simp at h
    · simp at h

def option (r : Reader α) : Reader (Option α) where
  run
    | .null :: ts => .ok (none, ts)
    | ts => (r.map some).run ts
  shrinks := by
    intro ts rest a h
    split at h
    · cases h; simp
    · exact (r.map some).shrinks h

def skip : Reader Unit where
  run ts := (Json.run .skipping .value [] ts).map fun p => ((), p.2)
  shrinks := by
    intro ts rest a h
    cases hr : Json.run .skipping .value [] ts with
    | error => simp [hr, Except.map] at h
    | ok p =>
      simp only [hr, Except.map, Except.ok.injEq, Prod.mk.injEq] at h
      exact h.2 ▸ length_lt_of_run (v := p.1) (by rw [hr])

def afterItem : List Token → Except Fault (Bool × List Token)
  | [] => .error .truncated
  | .closeBracket :: ts => .ok (false, ts)
  | .comma :: ts =>
    match ts with
    | [] => .error .truncated
    | .closeBracket :: _ => .error .malformed
    | ts => .ok (true, ts)
  | _ :: _ => .error .malformed

theorem length_lt_of_afterItem {ts rest : List Token} {more : Bool}
    (h : afterItem ts = .ok (more, rest)) : rest.length < ts.length := by
  unfold afterItem at h
  split at h <;> try simp at h
  · cases h; simp_all
  · split at h <;> simp_all

def items (r : Reader α) (ts : List Token) : Except Fault (List α × List Token) :=
  match _hr : r.run ts with
  | .error fault => .error fault
  | .ok (a, rest) =>
    match _ha : afterItem rest with
    | .error fault => .error fault
    | .ok (false, rest') => .ok ([a], rest')
    | .ok (true, rest') => (items r rest').map fun p => (a :: p.1, p.2)
  termination_by ts.length
  decreasing_by exact Nat.lt_trans (length_lt_of_afterItem _ha) (r.shrinks _hr)

theorem length_lt_of_items {r : Reader α} {ts rest : List Token} {as : List α}
    (h : items r ts = .ok (as, rest)) : rest.length < ts.length := by
  fun_induction items r ts generalizing as rest with
  | case1 => simp at h
  | case2 => simp at h
  | case3 ts a rest₁ h₁ rest₂ h₂ =>
    cases h
    exact Nat.lt_trans (length_lt_of_afterItem h₂) (r.shrinks h₁)
  | case4 ts a rest₁ h₁ rest₂ h₂ ih =>
    cases hi : items r rest₂ with
    | error => simp [hi, Except.map] at h
    | ok p =>
      simp only [hi, Except.map, Except.ok.injEq, Prod.mk.injEq] at h
      have : p.2.length < rest₂.length := ih hi
      rw [← h.2]
      exact Nat.lt_trans this (Nat.lt_trans (length_lt_of_afterItem h₂) (r.shrinks h₁))

def list (r : Reader α) : Reader (List α) where
  run
    | .openBracket :: .closeBracket :: ts => .ok ([], ts)
    | .openBracket :: [] => .error .truncated
    | .openBracket :: ts => items r ts
    | ts => .error (mismatch "a sequence" ts)
  shrinks := by
    intro ts rest as h
    split at h
    · cases h; simp only [List.length_cons]; omega
    · simp at h
    · exact Nat.lt_succ_of_lt (length_lt_of_items h)
    · simp at h

end Reader

end TypeCatalog.Json
