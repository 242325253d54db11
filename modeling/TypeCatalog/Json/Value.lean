import TypeCatalog.Json.Token.Scan
set_option autoImplicit false

/-!
JSON values read from tokens, one token after the other, with the open containers on a stack. A value that
is only skipped is read with more patience, see the tokens, and may nest without limit.
-/

namespace TypeCatalog.Json

def maxDepth : Nat := 127

inductive Patience where
  | reading
  | skipping
  deriving DecidableEq, Repr

/-- An open container with what it holds so far, the last first. -/
inductive Frame where
  | array (items : List Json)
  | object (members : List (String × Json)) (key : String)

inductive Place where
  | value
  | firstItem
  | firstKey
  | key
  | colon
  | next
  deriving DecidableEq, Repr

inductive Progress where
  | more (place : Place) (stack : List Frame)
  | done (value : Json)

def Progress.complete (v : Json) : List Frame → Progress
  | [] => .done v
  | .array items :: stack => .more .next (.array (v :: items) :: stack)
  | .object members key :: stack => .more .next (.object ((key, v) :: members) "" :: stack)

def Token.fault (patience : Patience) : Token → Fault
  | .broken _ reading skipping =>
    match patience with
    | .reading => reading
    | .skipping => skipping
  | _ => .malformed

def openFrame (patience : Patience) (place : Place) (frame : Frame) (stack : List Frame) :
    Except Fault Progress :=
  if patience = .reading ∧ maxDepth ≤ stack.length then .error .malformed
  else .ok (.more place (frame :: stack))

def stepValue (patience : Patience) (stack : List Frame) (t : Token) : Except Fault Progress :=
  match t with
  | .null => .ok (.complete .null stack)
  | .bool b => .ok (.complete (.bool b) stack)
  | .number n => .ok (.complete (.number n) stack)
  | .string s => .ok (.complete (.string s) stack)
  | .outOfRange | .unpaired =>
    match patience with
    | .reading => .error .malformed
    | .skipping => .ok (.complete .null stack)
  | .openBracket => openFrame patience .firstItem (.array []) stack
  | .openBrace => openFrame patience .firstKey (.object [] "") stack
  | t => .error (t.fault patience)

def stepKey (patience : Patience) (members : List (String × Json)) (stack : List Frame) (t : Token) :
    Except Fault Progress :=
  match t with
  | .string s => .ok (.more .colon (.object members s :: stack))
  | .unpaired =>
    match patience with
    | .reading => .error .malformed
    | .skipping => .ok (.more .colon (.object members "" :: stack))
  | .broken true _ _ => .error (t.fault patience)
  | _ => .error .malformed

def step (patience : Patience) (place : Place) (stack : List Frame) (t : Token) :
    Except Fault Progress :=
  match place, stack, t with
  | .value, stack, t => stepValue patience stack t
  | .firstItem, .array items :: stack, .closeBracket => .ok (.complete (.array items.reverse) stack)
  | .firstItem, stack, t => stepValue patience stack t
  | .firstKey, .object members _ :: stack, .closeBrace =>
    .ok (.complete (.object members.reverse) stack)
  | .firstKey, .object members _ :: stack, t => stepKey patience members stack t
  | .key, .object members _ :: stack, t => stepKey patience members stack t
  | .colon, stack, .colon => .ok (.more .value stack)
  | .next, .array items :: stack, .closeBracket => .ok (.complete (.array items.reverse) stack)
  | .next, .array items :: stack, .comma => .ok (.more .value (.array items :: stack))
  | .next, .object members _ :: stack, .closeBrace =>
    .ok (.complete (.object members.reverse) stack)
  | .next, .object members key :: stack, .comma => .ok (.more .key (.object members key :: stack))
  | _, _, _ => .error .malformed

def run (patience : Patience) : Place → List Frame → List Token → Except Fault (Json × List Token)
  | _, _, [] => .error .truncated
  | place, stack, t :: ts =>
    match step patience place stack t with
    | .error fault => .error fault
    | .ok (.done v) => .ok (v, ts)
    | .ok (.more place' stack') => run patience place' stack' ts

theorem length_lt_of_run {patience : Patience} {place : Place} {stack : List Frame}
    {ts rest : List Token} {v : Json} (h : run patience place stack ts = .ok (v, rest)) :
    rest.length < ts.length := by
  fun_induction run patience place stack ts with
  | case1 => simp at h
  | case2 => simp at h
  | case3 => cases h; simp
  | case4 _ _ _ _ _ _ _ ih => exact Nat.lt_succ_of_lt (ih h)

/-- Nothing but the value may stand in the text. -/
def finish {α : Type} : Except Fault (α × List Token) → Except Fault α
  | .error fault => .error fault
  | .ok (a, []) => .ok a
  | .ok (_, _ :: _) => .error .malformed

def parse (text : String) : Except Fault Json := finish (run .reading .value [] (tokens text))

end TypeCatalog.Json
