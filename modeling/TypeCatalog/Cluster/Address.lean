import TypeCatalog.Number.Literal
set_option autoImplicit false

/-!
Network addresses written as numbers. An address of version 4 has four decimal parts; one of version 6
has eight hexadecimal groups, of which one run of zeros may be left out, and may end in an address of
version 4. A port follows after a colon, and an address of version 6 stands in brackets before it.
-/

namespace TypeCatalog.Cluster

inductive IpAddress where
  | v4 (parts : List Nat)
  | v6 (groups : List Nat)
  deriving DecidableEq, Repr

structure SocketAddress where
  ip : IpAddress
  port : Nat
  deriving DecidableEq, Repr

namespace IpAddress

/-- A part of an address of version 4: up to three digits, none of them a leading zero. -/
def part? (cs : List Char) : Option (Nat × List Char) :=
  let ds := cs.takeWhile Char.isDigit
  if ds.isEmpty || 3 < ds.length || (1 < ds.length && ds.head? = some '0') then none
  else if Number.ofDigits ds < 256 then some (Number.ofDigits ds, cs.drop ds.length)
  else none

def dot? : List Char → Option (List Char)
  | '.' :: cs => some cs
  | _ => none

def parts? (cs : List Char) : Option (List Nat × List Char) := do
  let (a, cs) ← part? cs
  let cs ← dot? cs
  let (b, cs) ← part? cs
  let cs ← dot? cs
  let (c, cs) ← part? cs
  let cs ← dot? cs
  let (d, cs) ← part? cs
  pure ([a, b, c, d], cs)

def group? (cs : List Char) : Option (Nat × List Char) :=
  let ds := cs.takeWhile fun c => (Number.hexDigit? c).isSome
  if ds.isEmpty || 4 < ds.length then none
  else some (ds.foldl (fun n c => n * 16 + (Number.hexDigit? c).getD 0) 0, cs.drop ds.length)

/-- The text behind the colon that stands before every group but the first. -/
def separated (first : Bool) (cs : List Char) : Option (List Char) :=
  if first then some cs
  else
    match cs with
    | ':' :: cs => some cs
    | _ => none

/-- At most so many groups; four decimal parts stand for two groups and end them. -/
def groups (first : Bool) : Nat → List Char → List Nat × Bool × List Char
  | 0, cs => ([], false, cs)
  | room + 1, cs =>
    let v4 := if room = 0 then none else (separated first cs).bind parts?
    match v4 with
    | some ([a, b, c, d], rest) => ([a * 256 + b, c * 256 + d], true, rest)
    | _ =>
      match (separated first cs).bind group? with
      | none => ([], false, cs)
      | some (g, rest) =>
        let (gs, ended, rest) := groups false room rest
        (g :: gs, ended, rest)

def groups? (cs : List Char) : Option (List Nat × List Char) :=
  let (head, ended, rest) := groups true 8 cs
  if head.length = 8 then some (head, rest)
  else if ended then none
  else
    match rest with
    | ':' :: ':' :: rest =>
      let (tail, _, rest) := groups true (7 - head.length) rest
      some (head ++ List.replicate (8 - head.length - tail.length) 0 ++ tail, rest)
    | _ => none

def ofText? (s : String) : Option IpAddress :=
  match parts? s.toList with
  | some (ps, []) => some (.v4 ps)
  | _ =>
    match groups? s.toList with
    | some (gs, []) => some (.v6 gs)
    | _ => none

def isLoopback : IpAddress → Bool
  | .v4 parts => parts.head? = some 127
  | .v6 groups => groups = [0, 0, 0, 0, 0, 0, 0, 1]

def isUnspecified : IpAddress → Bool
  | .v4 parts => parts = [0, 0, 0, 0]
  | .v6 groups => groups = [0, 0, 0, 0, 0, 0, 0, 0]

def isLocal (ip : IpAddress) : Bool := ip.isLoopback || ip.isUnspecified

end IpAddress

namespace SocketAddress

def port? (cs : List Char) : Option Nat :=
  match cs with
  | ':' :: ds => if Number.areDigits ds ∧ Number.ofDigits ds < UInt16.size then some (Number.ofDigits ds) else none
  | _ => none

def dropZone (cs : List Char) : List Char :=
  match cs with
  | '%' :: ds =>
    let zone := ds.takeWhile Char.isDigit
    if zone.isEmpty || UInt32.size ≤ Number.ofDigits zone then cs else ds.dropWhile Char.isDigit
  | cs => cs

/-- An address and a port, an address of version 6 in brackets. -/
def strict? (cs : List Char) : Option SocketAddress :=
  match cs with
  | '[' :: cs => do
    let (gs, rest) ← IpAddress.groups? cs
    match dropZone rest with
    | ']' :: rest => (port? rest).map (⟨.v6 gs, ·⟩)
    | _ => none
  | cs => do
    let (ps, rest) ← IpAddress.parts? cs
    (port? rest).map (⟨.v4 ps, ·⟩)

/-- An address before the last colon and a port behind it. -/
def loose? (cs : List Char) : Option SocketAddress :=
  let port := (cs.reverse.takeWhile (· != ':')).reverse
  let host := (cs.reverse.dropWhile (· != ':')).drop 1
  match IpAddress.ofText? (String.ofList host.reverse),
      Number.below? UInt16.size (String.ofList port) with
  | some ip, some port => some ⟨ip, port⟩
  | _, _ => none

def ofText? (s : String) : Option SocketAddress := (strict? s.toList).or (loose? s.toList)

end SocketAddress

end TypeCatalog.Cluster
