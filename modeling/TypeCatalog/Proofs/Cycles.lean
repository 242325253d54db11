import Mathlib.Data.List.Chain
import Mathlib.Data.List.Nodup
import Mathlib.Order.WellFounded
import TypeCatalog.Inheritance.Cycle
import TypeCatalog.Proofs.SortedMap
set_option autoImplicit false

/-!
The search for cycles. Main statements: every path that is reported goes around a cycle of the graph, and
the edges that close no reported path lead on for ever from no name, so each cycle of the graph has an
edge that closes a reported path. Nothing is reported exactly when there is no cycle.
-/

namespace TypeCatalog.Graph

open Relation

def Edge (g : Graph) (u v : String) : Prop := ∃ edges, g.get? u = some edges ∧ v ∈ edges

/-- A way from a name around to it again that meets no other name twice. -/
def IsCycle (g : Graph) (path : List String) : Prop :=
  ∃ u way, path = u :: way ++ [u] ∧ (u :: way).Nodup ∧ path.IsChain g.Edge

/-- The edge from the last name but one of a path to its last. -/
def Closes (cycles : List (List String)) (u v : String) : Prop := ∃ way, way ++ [u, v] ∈ cycles

/-- The edges into a name that close no path, read backwards as a relation to descend along. -/
def Leads (g : Graph) (cycles : List (List String)) (v u : String) : Prop :=
  g.Edge u v ∧ ¬Closes cycles u v

theorem transGen_of_isChain {r : String → String → Prop} {u : String} {way : List String}
    (h : (u :: way ++ [u]).IsChain r) : TransGen r u u := by
  cases way with
  | nil => exact .single (List.isChain_pair.1 h)
  | cons v way =>
    obtain ⟨huv, h⟩ := List.isChain_cons_cons.1 h
    exact .head' huv (List.relationReflTransGen_of_exists_isChain_cons _ h (by simp))

theorem IsCycle.transGen {g : Graph} {path : List String} (h : g.IsCycle path) :
    ∃ u, TransGen g.Edge u u := by
  obtain ⟨u, way, rfl, -, hc⟩ := h
  exact ⟨u, transGen_of_isChain hc⟩

theorem Closes.mono {cycles cycles' : List (List String)} {u v : String}
    (h : ∀ p ∈ cycles, p ∈ cycles') : Closes cycles u v → Closes cycles' u v :=
  fun ⟨way, hw⟩ => ⟨way, h _ hw⟩

theorem acc_leads_mono {g : Graph} {cycles cycles' : List (List String)} {u : String}
    (h : ∀ p ∈ cycles, p ∈ cycles') (hu : Acc (g.Leads cycles) u) : Acc (g.Leads cycles') u :=
  Subrelation.accessible (fun hl => ⟨hl.1, fun hc => hl.2 (hc.mono h)⟩) hu

theorem closes_closedPath (u next : String) (trail : List String) :
    ∃ way, closedPath (u :: trail) next = way ++ [u, next] := by
  by_cases h : u = next
  · exact ⟨[], by simp [closedPath, h]⟩
  · exact ⟨next :: (trail.takeWhile (· ≠ next)).reverse, by simp [closedPath, h]⟩

theorem exists_eq_takeWhile_append {next : String} {trail : List String} (h : next ∈ trail) :
    ∃ rest, trail = trail.takeWhile (· ≠ next) ++ next :: rest := by
  induction trail with
  | nil => simp at h
  | cons u trail ih =>
    by_cases hu : u = next
    · exact ⟨trail, by simp [hu]⟩
    · obtain ⟨rest, hr⟩ := ih (List.mem_of_ne_of_mem (Ne.symm hu) h)
      exact ⟨rest, by simpa [hu] using hr⟩

theorem isCycle_closedPath {g : Graph} {u next : String} {trail : List String}
    (hc : (u :: trail).IsChain fun a b => g.Edge b a) (hn : (u :: trail).Nodup)
    (hm : next ∈ u :: trail) (he : g.Edge u next) : g.IsCycle (closedPath (u :: trail) next) := by
  obtain ⟨rest, hr⟩ := exists_eq_takeWhile_append hm
  have hhead : ((u :: trail).takeWhile (· ≠ next) ++ [next]).head? = some u := by
    by_cases h : u = next <;> simp [h]
  generalize hl : (u :: trail).takeWhile (· ≠ next) = open' at hr hhead
  have hpre : open' ++ [next] <+: u :: trail := ⟨rest, by simp [hr]⟩
  refine ⟨next, open'.reverse, by rw [closedPath, hl], ?_, ?_⟩
  · have hnd := List.nodup_reverse.2 (hn.sublist hpre.sublist)
    simpa using hnd
  · have hch : (open' ++ [next]).reverse.IsChain g.Edge :=
      List.isChain_reverse.2 ( List.IsChain.prefix hc hpre)
    rw [closedPath, hl, List.isChain_append]
    refine ⟨by simpa using hch, List.isChain_singleton next, ?_⟩
    intro v hv w hw
    obtain rfl : next = w := by simpa using hw
    have hlast : (next :: open'.reverse).getLast? = some u := by
      rw [← hhead, ← List.getLast?_reverse]
      simp
    obtain rfl : u = v := Option.some.inj (hlast.symm.trans hv)
    exact he

/-- What the search has found so far is right: its paths are cycles, and the names that are done lead
to nothing endless. -/
structure Search.Sound (g : Graph) (s : Search) : Prop where
  cycle : ∀ path ∈ s.cycles, g.IsCycle path
  settled : ∀ u ∈ s.done, Acc (g.Leads s.cycles) u

structure Search.Grows (s t : Search) : Prop where
  done : ∀ u ∈ s.done, u ∈ t.done
  cycles : ∀ path ∈ s.cycles, path ∈ t.cycles

/-- The open names are a way through the graph, and the entries are those of all other names. -/
structure IsTrail (g : Graph) (entries : List (String × List String)) (trail : List String) :
    Prop where
  chain : trail.IsChain fun a b => g.Edge b a
  nodup : trail.Nodup
  rest : ∀ n, n ∉ trail → SortedMap.find n entries = g.get? n

namespace Search

theorem Grows.refl (s : Search) : Grows s s := ⟨fun _ h => h, fun _ h => h⟩

theorem Grows.trans {s t r : Search} (h₁ : Grows s t) (h₂ : Grows t r) : Grows s r :=
  ⟨fun u h => h₂.done u (h₁.done u h), fun p h => h₂.cycles p (h₁.cycles p h)⟩

theorem grows_close (s : Search) (path : List String) :
    Grows s { s with cycles := s.cycles ++ [path] } :=
  ⟨fun _ h => h, fun _ h => List.mem_append_left _ h⟩

theorem grows_finish (s : Search) (u : String) : Grows s { s with done := s.done.insert u () } :=
  ⟨fun _ h => SortedMap.mem_insert.2 (.inr h), fun _ h => h⟩

theorem Sound.close {g : Graph} {s : Search} {path : List String} (h : s.Sound g)
    (hp : g.IsCycle path) : Sound g { s with cycles := s.cycles ++ [path] } where
  cycle p hm := by
    rcases List.mem_append.1 hm with hm | hm
    · exact h.cycle p hm
    · exact List.mem_singleton.1 hm ▸ hp
  settled u hu := acc_leads_mono (s.grows_close path).cycles (h.settled u hu)

theorem Sound.finish {g : Graph} {s : Search} {u : String} (h : s.Sound g)
    (hu : ∀ v, g.Edge u v → v ∈ s.done ∨ Closes s.cycles u v) :
    Sound g { s with done := s.done.insert u () } where
  cycle := h.cycle
  settled w hw := by
    rcases SortedMap.mem_insert.1 hw with rfl | hw
    · refine Acc.intro w fun v hv => ?_
      rcases hu v hv.1 with hd | hc
      · exact h.settled v hd
      · exact absurd hc hv.2
    · exact h.settled w hw

structure Visited (g : Graph) (name : String) (s t : Search) : Prop where
  sound : t.Sound g
  grows : Grows s t
  done : name ∈ t.done

structure Followed (g : Graph) (u : String) (edges : List String) (s t : Search) : Prop where
  sound : t.Sound g
  grows : Grows s t
  edges : ∀ v ∈ edges, v ∈ t.done ∨ Closes t.cycles u v

end Search

theorem IsTrail.push {g : Graph} {entries : List (String × List String)} {trail : List String}
    {name : String} (h : IsTrail g entries trail) (hn : name ∉ trail)
    (he : ∀ u ∈ trail.head?, g.Edge u name) :
    IsTrail g (entries.filter fun e => e.1 ≠ name) (name :: trail) where
  chain := List.isChain_cons.2 ⟨he, h.chain⟩
  nodup := List.nodup_cons.2 ⟨hn, h.nodup⟩
  rest n hm := by
    obtain ⟨hne, hm⟩ := not_or.1 (mt List.mem_cons.2 hm)
    rw [SortedMap.find_filter_ne hne, h.rest n hm]

theorem visit_of_find_eq_none {entries : List (String × List String)} {name : String}
    (h : SortedMap.find name entries = none) (trail : List String) (s : Search) :
    visit entries trail name s = { s with done := s.done.insert name () } := by
  rw [visit]
  split <;> simp_all

theorem visit_of_find_eq_some {entries : List (String × List String)} {name : String}
    {edges : List String} (h : SortedMap.find name entries = some edges) (trail : List String)
    (s : Search) :
    visit entries trail name s =
      let t := follow (entries.filter fun e => e.1 ≠ name) (name :: trail) edges s
      { t with done := t.done.insert name () } := by
  rw [visit]
  split <;> simp_all

open Search in
theorem followed_edge {g : Graph} {entries : List (String × List String)} {u next : String}
    {rest : List String} {s : Search} (ht : IsTrail g entries (u :: rest)) (he : g.Edge u next)
    (hs : s.Sound g)
    (hv : next ∉ u :: rest → Visited g next s (visit entries (u :: rest) next s)) :
    Followed g u [next] s
      (if next ∈ u :: rest then { s with cycles := s.cycles ++ [closedPath (u :: rest) next] }
       else if next ∈ s.done then s else visit entries (u :: rest) next s) := by
  split
  · next hm =>
    obtain ⟨way, hw⟩ := closes_closedPath u next rest
    refine ⟨hs.close (isCycle_closedPath ht.chain ht.nodup hm he), s.grows_close _, ?_⟩
    exact List.forall_mem_singleton.2 (.inr ⟨way, by simp [hw]⟩)
  · next hm =>
    split
    · next hd => exact ⟨hs, Grows.refl s, List.forall_mem_singleton.2 (.inl hd)⟩
    · have h := hv hm
      exact ⟨h.sound, h.grows, List.forall_mem_singleton.2 (.inl h.done)⟩

open Search in
/-- The induction is on the names that are not open. A visit finishes its name because each edge of it
has been followed to a name that is done or on the way itself. -/
theorem visited_and_followed (g : Graph) :
    (∀ entries trail name s, IsTrail g entries trail → name ∉ trail →
      (∀ u ∈ trail.head?, g.Edge u name) → s.Sound g →
        Visited g name s (visit entries trail name s)) ∧
    (∀ entries trail edges s, ∀ u rest, trail = u :: rest → IsTrail g entries trail →
      (∀ v ∈ edges, g.Edge u v) → s.Sound g →
        Followed g u edges s (follow entries trail edges s)) := by
  refine visit.mutual_induct
    (fun entries trail name s => IsTrail g entries trail → name ∉ trail →
      (∀ u ∈ trail.head?, g.Edge u name) → s.Sound g →
        Visited g name s (visit entries trail name s))
    (fun entries trail edges s => ∀ u rest, trail = u :: rest → IsTrail g entries trail →
      (∀ v ∈ edges, g.Edge u v) → s.Sound g →
        Followed g u edges s (follow entries trail edges s)) ?visit ?nil ?cons
  case visit =>
    intro entries trail name s ih ht hn he hs
    have hself : ∀ t : Search, name ∈ t.done.insert name () := fun t => SortedMap.mem_insert.2 (.inl rfl)
    cases hf : SortedMap.find name entries with
    | none =>
      rw [visit_of_find_eq_none hf]
      refine ⟨hs.finish ?_, s.grows_finish name, hself s⟩
      intro v h
      obtain ⟨edges, hg, -⟩ := h
      simp [← ht.rest name hn, hf] at hg
    | some edges =>
      have hg : g.get? name = some edges := (ht.rest name hn).symm.trans hf
      have hfol := ih edges hf name trail rfl (ht.push hn he) (fun v hv => ⟨edges, hg, hv⟩) hs
      rw [visit_of_find_eq_some hf]
      refine ⟨hfol.sound.finish ?_, hfol.grows.trans (grows_finish _ name), hself _⟩
      intro v h
      obtain ⟨edges', hg', hv⟩ := h
      obtain rfl : edges = edges' := Option.some.inj (hg.symm.trans hg')
      exact hfol.edges v hv
  case nil =>
    intro entries trail s u rest _ _ _ hs
    rw [follow]
    exact ⟨hs, Grows.refl s, by simp⟩
  case cons =>
    intro entries trail next edges s
    dsimp only
    intro ihv ihf u rest htr ht he hs
    obtain ⟨hnext, hedges⟩ := List.forall_mem_cons.1 he
    rw [follow]
    simp only [dite_eq_ite] at ihf
    subst htr
    have hstep := followed_edge ht hnext hs fun hm => ihv ht hm (by simpa using hnext) hs
    have hrest := ihf u rest rfl ht hedges hstep.sound
    refine ⟨hrest.sound, hstep.grows.trans hrest.grows, List.forall_mem_cons.2 ⟨?_, hrest.edges⟩⟩
    rcases List.forall_mem_singleton.1 hstep.edges with hd | hc
    · exact .inl (hrest.grows.done next hd)
    · exact .inr (hc.mono hrest.grows.cycles)

theorem isTrail_nil (g : Graph) : IsTrail g g.entries [] := ⟨.nil, .nil, fun _ _ => rfl⟩

open Search in
theorem search_sound (g : Graph) : g.search.Sound g ∧ ∀ u ∈ g, u ∈ g.search.done := by
  suffices h : ∀ (names : List String) (s : Search), s.Sound g →
      let t := names.foldl (fun s name => if name ∈ s.done then s else visit g.entries [] name s) s
      t.Sound g ∧ Grows s t ∧ ∀ u ∈ names, u ∈ t.done by
    obtain ⟨hs, -, hd⟩ := h g.keys ⟨∅, []⟩ ⟨by simp, by simp⟩
    exact ⟨hs, fun u hu => hd u (SortedMap.mem_keys.2 hu)⟩
  intro names
  induction names with
  | nil => exact fun s hs => ⟨hs, Grows.refl s, by simp⟩
  | cons name names ih =>
    intro s hs
    rw [List.foldl_cons]
    have hstep : Visited g name s (if name ∈ s.done then s else visit g.entries [] name s) := by
      split
      · next hd => exact ⟨hs, Grows.refl s, hd⟩
      · exact (visited_and_followed g).1 g.entries [] name s (isTrail_nil g) (by simp) (by simp) hs
    obtain ⟨ht, hg, hd⟩ := ih _ hstep.sound
    exact ⟨ht, hstep.grows.trans hg, List.forall_mem_cons.2 ⟨hg.done name hstep.done, hd⟩⟩

theorem isCycle_of_mem_cycles {g : Graph} {path : List String} (h : path ∈ g.cycles) :
    g.IsCycle path := (search_sound g).1.cycle path h

/-- Without the edges that close a reported path, no way through the graph is endless. -/
theorem acc_leads_cycles (g : Graph) (u : String) : Acc (g.Leads g.cycles) u := by
  by_cases hu : u ∈ g
  · exact (search_sound g).1.settled u ((search_sound g).2 u hu)
  · refine Acc.intro u fun v hv => ?_
    obtain ⟨⟨edges, hg, -⟩, -⟩ := hv
    exact absurd (SortedMap.mem_iff.2 ⟨edges, hg⟩) hu

theorem cycles_eq_nil_of_acyclic {g : Graph} (h : ∀ u, ¬TransGen g.Edge u u) : g.cycles = [] := by
  refine List.eq_nil_iff_forall_not_mem.2 fun path hp => ?_
  obtain ⟨u, hu⟩ := (isCycle_of_mem_cycles hp).transGen
  exact h u hu

theorem not_transGen_leads (g : Graph) (u : String) :
    ¬TransGen (fun v w => g.Leads g.cycles w v) u u := fun h =>
  (WellFounded.intro (acc_leads_cycles g)).transGen.irrefl.irrefl u (transGen_swap.1 h)

theorem exists_closing_edge {g : Graph} {u : String} {way : List String}
    (h : (u :: way ++ [u]).IsChain g.Edge) :
    ∃ v w, [v, w] <:+: u :: way ++ [u] ∧ Closes g.cycles v w := by
  by_contra hno
  have hleads : (u :: way ++ [u]).IsChain fun v w => g.Leads g.cycles w v := by
    rw [List.isChain_iff_forall_rel_of_append_cons_cons] at h ⊢
    intro v w before after heq
    exact ⟨h heq, fun hc => hno ⟨v, w, ⟨before, after, by simp [heq]⟩, hc⟩⟩
  exact not_transGen_leads g u (transGen_of_isChain hleads)

theorem cycles_eq_nil_iff {g : Graph} : g.cycles = [] ↔ ∀ u, ¬TransGen g.Edge u u := by
  refine ⟨fun hc u hu => ?_, cycles_eq_nil_of_acyclic⟩
  refine not_transGen_leads g u (TransGen.mono (fun v w he => ⟨he, fun hcloses => ?_⟩) u u hu)
  obtain ⟨way, hway⟩ := hcloses
  rw [hc] at hway
  cases hway

theorem cycles_sound_complete (g : Graph) :
    (∀ path ∈ g.cycles, g.IsCycle path) ∧
      (∀ u way, (u :: way ++ [u]).IsChain g.Edge →
        ∃ v w, [v, w] <:+: u :: way ++ [u] ∧ Closes g.cycles v w) ∧
      (g.cycles = [] ↔ ∀ u, ¬TransGen g.Edge u u) :=
  ⟨fun _ hp => isCycle_of_mem_cycles hp, fun _ _ h => exists_closing_edge h, cycles_eq_nil_iff⟩

end TypeCatalog.Graph
