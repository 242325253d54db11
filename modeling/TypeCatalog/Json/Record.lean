import TypeCatalog.Json.Reader
set_option autoImplicit false

/-!
Records. A form says which fields there are, how each of them changes a draft, and what the draft is worth in
the end. As objects records have their fields in any order; as sequences all of them in the order of the form,
where only fields at the end may be left out. What is missing is told after all that is there.
-/

namespace TypeCatalog.Json

structure Field (δ : Type) where
  name : String
  filled : δ → Bool
  read : Reader (δ → δ)
  /-- May be left out at the end of a sequence. -/
  optional : Bool

/-- How a record is read into a draft, and what a draft is worth or which field it misses. -/
structure RecordForm (δ α : Type) where
  name : String
  fields : List (Field δ)
  blank : δ
  complete : δ → Except String α

def ofWord (n : UInt32) : Json := .number (.integer n.toNat)

def ofStrings (names : List String) : Json := .array (names.map .string)

def optional (name : String) (value : Option Json) : List (String × Json) :=
  match value with
  | some j => [(name, j)]
  | none => []

def Field.part {δ α : Type} (name : String) (get : δ → Option α) (set : δ → α → δ)
    (read : Reader α) (optional : Bool) : Field δ where
  name := name
  filled d := (get d).isSome
  read := read.map fun a d => set d a
  optional := optional

def needed {α : Type} (name : String) (part : Option α) : Except String α :=
  match part with
  | some a => .ok a
  | none => .error name

namespace Reader

variable {δ : Type}

def fieldName : List Token → Except Fault (String × List Token)
  | [] => .error .truncated
  | .string s :: ts => .ok (s, ts)
  | .broken true reading _ :: _ => .error reading
  | _ :: _ => .error .malformed

def colon : List Token → Except Fault (List Token)
  | [] => .error .truncated
  | .colon :: ts => .ok ts
  | _ :: _ => .error .malformed

def afterField : List Token → Except Fault (Bool × List Token)
  | [] => .error .truncated
  | .closeBrace :: ts => .ok (false, ts)
  | .comma :: ts => .ok (true, ts)
  | _ :: _ => .error .malformed

theorem length_lt_of_fieldName {ts rest : List Token} {s : String}
    (h : fieldName ts = .ok (s, rest)) : rest.length < ts.length := by
  unfold fieldName at h
  split at h <;> simp at h
  cases h.2; simp

theorem length_lt_of_colon {ts rest : List Token} (h : colon ts = .ok rest) :
    rest.length < ts.length := by
  unfold colon at h
  split at h <;> simp at h
  cases h; simp

theorem length_lt_of_afterField {ts rest : List Token} {more : Bool}
    (h : afterField ts = .ok (more, rest)) : rest.length < ts.length := by
  unfold afterField at h
  split at h <;> simp at h
  all_goals cases h.2; simp

def fieldValue (fields : List (Field δ)) (draft : δ) (name : String) (ts : List Token) :
    Except Fault (δ × List Token) :=
  match fields.find? fun f => f.name == name with
  | some f =>
    if f.filled draft then .error (.mismatch (.duplicateField name))
    else
      match colon ts with
      | .error fault => .error fault
      | .ok ts => (f.read.run ts).map fun p => (p.1 draft, p.2)
  | none =>
    match colon ts with
    | .error fault => .error fault
    | .ok ts => (skip.run ts).map fun p => (draft, p.2)

theorem length_lt_of_fieldValue {fields : List (Field δ)} {draft draft' : δ} {name : String}
    {ts rest : List Token} (h : fieldValue fields draft name ts = .ok (draft', rest)) :
    rest.length < ts.length := by
  have through {β : Type} (r : Reader β) (f : β → δ) (us : List Token)
      (hu : (r.run us).map (fun p => (f p.1, p.2)) = .ok (draft', rest)) :
      rest.length < us.length := (r.map f).shrinks hu
  unfold fieldValue at h
  split at h
  · next f _ =>
    split at h
    · simp at h
    · split at h
      · simp at h
      · next hc =>
        exact Nat.lt_trans (through f.read (fun g => g draft) _ h) (length_lt_of_colon hc)
  · split at h
    · simp at h
    · next hc => exact Nat.lt_trans (through skip (fun _ => draft) _ h) (length_lt_of_colon hc)

def objectFields (fields : List (Field δ)) (draft : δ) (ts : List Token) :
    Except Fault (δ × List Token) :=
  match _hn : fieldName ts with
  | .error fault => .error fault
  | .ok (name, ts₁) =>
    match _hv : fieldValue fields draft name ts₁ with
    | .error fault => .error fault
    | .ok (draft', ts₂) =>
      match _ha : afterField ts₂ with
      | .error fault => .error fault
      | .ok (false, ts₃) => .ok (draft', ts₃)
      | .ok (true, ts₃) => objectFields fields draft' ts₃
  termination_by ts.length
  decreasing_by
    exact Nat.lt_trans (length_lt_of_afterField _ha)
      (Nat.lt_trans (length_lt_of_fieldValue _hv) (length_lt_of_fieldName _hn))

theorem length_lt_of_objectFields {fields : List (Field δ)} {draft draft' : δ}
    {ts rest : List Token} (h : objectFields fields draft ts = .ok (draft', rest)) :
    rest.length < ts.length := by
  fun_induction objectFields fields draft ts with
  | case1 => simp at h
  | case2 => simp at h
  | case3 => simp at h
  | case4 _ _ _ ts₁ hn _ ts₂ hv ts₃ ha =>
    cases h
    exact Nat.lt_trans (length_lt_of_afterField ha)
      (Nat.lt_trans (length_lt_of_fieldValue hv) (length_lt_of_fieldName hn))
  | case5 _ _ _ ts₁ hn _ ts₂ hv ts₃ ha ih =>
    exact Nat.lt_trans (ih h) (Nat.lt_trans (length_lt_of_afterField ha)
      (Nat.lt_trans (length_lt_of_fieldValue hv) (length_lt_of_fieldName hn)))

def nextElement (first : Bool) : List Token → Except Fault (Option (List Token))
  | [] => .error .truncated
  | .closeBracket :: _ => .ok none
  | .comma :: ts =>
    if first then .ok (some (.comma :: ts))
    else
      match ts with
      | [] => .error .truncated
      | .closeBracket :: _ => .error .malformed
      | ts => .ok (some ts)
  | t :: ts => if first then .ok (some (t :: ts)) else .error .malformed

theorem length_le_of_nextElement {first : Bool} {ts us : List Token}
    (h : nextElement first ts = .ok (some us)) : us.length ≤ ts.length := by
  unfold nextElement at h
  split at h
  · simp at h
  · simp at h
  · split at h
    · cases h; exact Nat.le_refl _
    · split at h <;> simp at h
      cases h; simp
  · split at h
    · cases h; exact Nat.le_refl _
    · simp at h

def sequenceFields (short : Nat → Fault) (place : Nat) :
    List (Field δ) → δ → List Token → Except Fault (δ × List Token)
  | [], draft, ts =>
    match ts with
    | [] => .error .truncated
    | .closeBracket :: ts => .ok (draft, ts)
    | _ :: _ => .error .malformed
  | f :: fs, draft, ts =>
    match nextElement (place == 0) ts with
    | .error fault => .error fault
    | .ok none =>
      if f.optional then sequenceFields short (place + 1) fs draft ts else .error (short place)
    | .ok (some us) =>
      match f.read.run us with
      | .error fault => .error fault
      | .ok (update, rest) => sequenceFields short (place + 1) fs (update draft) rest

theorem length_lt_of_sequenceFields {short : Nat → Fault} {place : Nat} {fields : List (Field δ)}
    {draft draft' : δ} {ts rest : List Token}
    (h : sequenceFields short place fields draft ts = .ok (draft', rest)) :
    rest.length < ts.length := by
  induction fields generalizing place draft ts with
  | nil =>
    unfold sequenceFields at h
    split at h <;> simp at h
    cases h.2; simp
  | cons f fs ih =>
    rw [sequenceFields] at h
    split at h
    · simp at h
    · split at h
      · exact ih h
      · simp at h
    · next hn =>
      split at h
      · simp at h
      · next hr =>
        exact Nat.lt_of_lt_of_le (Nat.lt_trans (ih h) (f.read.shrinks hr))
          (length_le_of_nextElement hn)

variable {α : Type}

def tooShort (form : RecordForm δ α) (length : Nat) : Fault :=
  .mismatch (.invalidLength length
    ("struct " ++ form.name ++ " with " ++ toString form.fields.length ++ " elements"))

def completed (form : RecordForm δ α) (p : δ × List Token) : Except Fault (α × List Token) :=
  match form.complete p.1 with
  | .ok a => .ok (a, p.2)
  | .error name => .error (.mismatch (.missingField name))

def recordTokens (form : RecordForm δ α) : List Token → Except Fault (α × List Token)
  | .openBrace :: .closeBrace :: ts => completed form (form.blank, ts)
  | .openBrace :: ts => (objectFields form.fields form.blank ts).bind (completed form)
  | .openBracket :: ts =>
    (sequenceFields (tooShort form) 0 form.fields form.blank ts).bind (completed form)
  | ts => .error (mismatch ("struct " ++ form.name) ts)

theorem eq_of_completed {form : RecordForm δ α} {p : δ × List Token} {a : α} {rest : List Token}
    (h : completed form p = .ok (a, rest)) : p.2 = rest := by
  unfold completed at h
  split at h
  · cases h; rfl
  · simp at h

theorem length_lt_of_recordTokens {form : RecordForm δ α} {ts rest : List Token} {a : α}
    (h : recordTokens form ts = .ok (a, rest)) : rest.length < ts.length := by
  unfold recordTokens at h
  split at h
  · have := eq_of_completed h
    simp only at this
    subst this
    simp only [List.length_cons]
    omega
  · next ts _ =>
    cases hf : objectFields form.fields form.blank ts with
    | error => simp [hf, Except.bind] at h
    | ok p =>
      rw [hf] at h
      exact eq_of_completed h ▸ Nat.lt_succ_of_lt (length_lt_of_objectFields hf)
  · next ts =>
    cases hf : sequenceFields (tooShort form) 0 form.fields form.blank ts with
    | error => simp [hf, Except.bind] at h
    | ok p =>
      rw [hf] at h
      exact eq_of_completed h ▸ Nat.lt_succ_of_lt (length_lt_of_sequenceFields hf)
  · simp at h

def record (form : RecordForm δ α) : Reader α where
  run := recordTokens form
  shrinks := length_lt_of_recordTokens

end Reader

end TypeCatalog.Json
