import TypeCatalog.SortedMap
set_option autoImplicit false

/-!
Cycles in a graph of names. The graph is searched in depth, from each of its names in order; every edge
back to a name on the way to it closes a cycle, which is reported from that name around to it again.
-/

namespace TypeCatalog

/-- The edges that leave each name; they may lead to names without an entry. -/
abbrev Graph := NameMap (List String)

namespace Graph

structure Search where
  done : NameSet
  cycles : List (List String)

/-- The way from an open name to itself; the open names stand innermost first. -/
def closedPath (trail : List String) (name : String) : List String :=
  name :: (trail.takeWhile (· ≠ name)).reverse ++ [name]

theorem length_filter_lt_of_find {name : String} {edges : List String}
    {entries : List (String × List String)} (h : SortedMap.find name entries = some edges) :
    (entries.filter fun e => e.1 ≠ name).length < entries.length := by
  induction entries with
  | nil => simp [SortedMap.find] at h
  | cons e es ih =>
    by_cases he : e.1 = name
    · have := List.length_filter_le (fun e => decide (e.1 ≠ name)) es
      simp [he]
      simp at this
      omega
    · rw [SortedMap.find, if_neg he] at h
      have := ih h
      simp [he]
      simp at this
      omega

mutual

/-- Searches from a name; the entries are those of names that are not open. -/
def visit (entries : List (String × List String)) (trail : List String) (name : String)
    (s : Search) : Search :=
  let s := match _h : SortedMap.find name entries with
    | none => s
    | some edges => follow (entries.filter fun e => e.1 ≠ name) (name :: trail) edges s
  { s with done := s.done.insert name () }
  termination_by (entries.length, 0)
  decreasing_by exact Prod.Lex.left _ _ (length_filter_lt_of_find _h)

def follow (entries : List (String × List String)) (trail : List String) :
    List String → Search → Search
  | [], s => s
  | next :: edges, s =>
    let s :=
      if next ∈ trail then { s with cycles := s.cycles ++ [closedPath trail next] }
      else if next ∈ s.done then s
      else visit entries trail next s
    follow entries trail edges s
  termination_by edges => (entries.length, edges.length + 1)

end

def search (g : Graph) : Search :=
  g.keys.foldl (fun s name => if name ∈ s.done then s else visit g.entries [] name s) ⟨∅, []⟩

def cycles (g : Graph) : List (List String) := g.search.cycles

end Graph

end TypeCatalog
