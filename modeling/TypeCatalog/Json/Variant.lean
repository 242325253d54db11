import TypeCatalog.Json.Record
set_option autoImplicit false

namespace TypeCatalog.Json

namespace Reader

variable {α : Type}

/-- One of a few names: a string, or an object with the name as its only field and null as its value. -/
def variantTokens (variants : List (String × α)) (wanted : String) :
    List Token → Except Fault (α × List Token)
  | [] => .error .truncated
  | .string s :: ts => (named s).map fun a => (a, ts)
  | .broken true reading _ :: _ => .error reading
  | .openBrace :: ts =>
    (fieldName ts).bind fun p => (named p.1).bind fun a => (colon p.2).bind fun ts => closed a ts
  | _ :: _ => .error .malformed
where
  named (s : String) : Except Fault α :=
    match variants.lookup s with
    | some a => .ok a
    | none => .error (.mismatch (.unknownVariant s wanted))
  closed (a : α) : List Token → Except Fault (α × List Token)
    | .null :: ts =>
      match ts with
      | [] => .error .truncated
      | .closeBrace :: ts => .ok (a, ts)
      | _ :: _ => .error .malformed
    | ts => .error (mismatch "unit" ts)

theorem length_lt_of_closed {a b : α} {ts rest : List Token}
    (h : variantTokens.closed a ts = .ok (b, rest)) : rest.length < ts.length := by
  unfold variantTokens.closed at h
  split at h
  · split at h <;> simp at h
    cases h.2; simp only [List.length_cons]; omega
  · simp at h

theorem length_lt_of_variantTokens {variants : List (String × α)} {wanted : String}
    {ts rest : List Token} {a : α} (h : variantTokens variants wanted ts = .ok (a, rest)) :
    rest.length < ts.length := by
  unfold variantTokens at h
  split at h
  · simp at h
  · next s ts =>
    cases hn : variantTokens.named variants wanted s with
    | error => simp [hn, Except.map] at h
    | ok b =>
      simp only [hn, Except.map, Except.ok.injEq, Prod.mk.injEq] at h
      cases h.2; simp
  · simp at h
  · next ts =>
    cases hf : fieldName ts with
    | error => simp [hf, Except.bind] at h
    | ok p =>
      cases hn : variantTokens.named variants wanted p.1 with
      | error => simp [hf, hn, Except.bind] at h
      | ok b =>
        cases hc : colon p.2 with
        | error => simp [hf, hn, hc, Except.bind] at h
        | ok us =>
          simp only [hf, hn, hc, Except.bind] at h
          have h₁ := length_lt_of_closed h
          have h₂ := length_lt_of_colon hc
          have h₃ := length_lt_of_fieldName hf
          simp only [List.length_cons]
          omega
  · simp at h

def variant (variants : List (String × α)) (wanted : String) : Reader α where
  run := variantTokens variants wanted
  shrinks := length_lt_of_variantTokens

end Reader

end TypeCatalog.Json
