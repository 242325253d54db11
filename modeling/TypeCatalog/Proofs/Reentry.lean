import TypeCatalog.Proofs.CyclicBatch
import TypeCatalog.Proofs.Reachable
set_option autoImplicit false

/-!
Resolving a declaration calls itself for each of its supertypes, and what it keeps does not tell which declarations
it is at. Main statement: nothing has to tell that. On every way from a declaration over supertypes back to it one
is blocked, so none is entered while it is being resolved; the calls inside each other are never more than the
declarations and one; and in the end each declaration is resolved, has failed or is blocked, and only one of these.
-/

namespace TypeCatalog

namespace Scope

/-- Resolves the supertypes in the batch by a way to resolve one, up to the first that cannot be. -/
def resolveEach (s : Scope) (resolve : String → Resolution → Option (Outcome × Resolution)) :
    List String → Resolution → Option (Outcome × Resolution)
  | [], p => some (.resolved, p)
  | n :: names, p =>
    if (s.declaration? n).isSome then
      match resolve n p with
      | some (.resolved, p) => resolveEach s resolve names p
      | other => other
    else resolveEach s resolve names p

def conclude (s : Scope) (d : Declaration) (n : String) : Outcome × Resolution → Outcome × Resolution
  | (.resolved, p) =>
    match d.flatten (p.lookup s.catalog) with
    | .ok r => (.resolved, p.succeed n r)
    | .error defects => (.unresolved, p.fail n defects)
  | (outcome, p) => (outcome, p.fail n [])

/-- Resolves a name with at most so many calls inside each other: `none` tells that more are needed. A declaration
is entered whether or not it is being resolved already. -/
def resolveWithin (s : Scope) : Nat → String → Resolution → Option (Outcome × Resolution)
  | 0, _, _ => none
  | depth + 1, n, p =>
    if n ∈ p.resolved then some (.resolved, p)
    else if n ∈ p.failed ∨ n ∈ s.blocked then some (.unresolved, p)
    else
      match s.declaration? n with
      | none => some (.unresolved, p)
      | some d => (s.resolveEach (s.resolveWithin depth) d.supers.toList p).map (s.conclude d n)

variable {s : Scope} {n : String} {pending : List Declaration}

theorem resolveEach_eq {resolve : String → Resolution → Option (Outcome × Resolution)} {names : List String}
    (h : ∀ m ∈ names, (s.declaration? m).isSome → ∀ p, resolve m p = some (s.resolve s.blocked pending m p))
    (p : Resolution) :
    s.resolveEach resolve names p = some (s.resolveSupers s.blocked pending names p) := by
  induction names generalizing p with
  | nil => rw [resolveEach, resolveSupers]
  | cons name names ih =>
    obtain ⟨hname, hnames⟩ := List.forall_mem_cons.1 h
    rw [resolveEach, resolveSupers]
    split
    · next hd =>
      rw [hname hd p]
      obtain ⟨outcome, q⟩ := s.resolve s.blocked pending name p
      cases outcome with
      | resolved => exact ih hnames q
      | unresolved | reentered => rfl
    · exact ih hnames p

theorem resolve_of_find?_eq_none {p : Resolution} (hr : n ∉ p.resolved)
    (hb : ¬(n ∈ p.failed ∨ n ∈ s.blocked)) (h : (pending.find? fun d => d.name == n) = none)
    (hd : s.declaration? n = none) : s.resolve s.blocked pending n p = (.unresolved, p) := by
  rw [resolve, if_neg hr, if_neg hb]
  split <;> simp_all

theorem resolve_of_find?_eq_some {d : Declaration} {p : Resolution} (hr : n ∉ p.resolved)
    (hb : ¬(n ∈ p.failed ∨ n ∈ s.blocked)) (h : (pending.find? fun d => d.name == n) = some d) :
    s.resolve s.blocked pending n p = s.conclude d n
      (s.resolveSupers s.blocked (pending.filter fun d => d.name != n) d.supers.toList p) := by
  rw [resolve, if_neg hr, if_neg hb]
  split
  · next hnone => cases hnone.symm.trans h
  next d' hsome =>
  obtain rfl : d' = d := Option.some.inj (hsome.symm.trans h)
  obtain ⟨outcome, q⟩ := s.resolveSupers s.blocked _ d'.supers.toList p
  cases outcome <;> rfl

/-- The induction is on the depth, which the pending declarations bound: with each call one of them is entered, and
what it waits for is still pending. -/
theorem resolveWithin_eq (hs : s.Admitted) {depth : Nat} (hc : s.Covers pending n)
    (hd : pending.length < depth) (p : Resolution) :
    s.resolveWithin depth n p = some (s.resolve s.blocked pending n p) := by
  induction depth generalizing n pending p with
  | zero => cases hd
  | succ depth ih =>
    rw [resolveWithin]
    split
    · next hr => rw [resolve, if_pos hr]
    next hr =>
    split
    · next hb => rw [resolve, if_neg hr, if_pos hb]
    next hb =>
    have hdecl := hc n .refl
    split
    · next hnone => rw [resolve_of_find?_eq_none hr hb (hdecl.trans hnone) hnone]
    next d hsome =>
    have heach : s.resolveEach (s.resolveWithin depth) d.supers.toList p =
        some (s.resolveSupers s.blocked (pending.filter fun e => e.name != n) d.supers.toList p) := by
      refine resolveEach_eq (fun m hm hdm q => ih ?_ ?_ q) p
      · have hneeds : s.Needs n m := (hs.needs_of_declaration? hsome).2 ⟨NameSet.mem_toList.1 hm, hdm⟩
        exact hc.filter hs ⟨hneeds, (not_or.1 hb).2⟩
      · have hlt := length_filter_lt_of_find? (hdecl.trans hsome)
        omega
    rw [resolve_of_find?_eq_some hr hb (hdecl.trans hsome), heach, Option.map_some]

theorem conclude_ne_reentered {d : Declaration} {result : Outcome × Resolution} (h : result.1 ≠ .reentered) :
    (s.conclude d n result).1 ≠ .reentered := by
  obtain ⟨outcome, p⟩ := result
  cases outcome with
  | resolved =>
    rw [conclude]
    split <;> simp
  | unresolved | reentered => exact h

theorem resolveEach_ne_reentered {resolve : String → Resolution → Option (Outcome × Resolution)}
    {names : List String} (h : ∀ m p, ∀ result ∈ resolve m p, result.1 ≠ .reentered) (p : Resolution) :
    ∀ result ∈ s.resolveEach resolve names p, result.1 ≠ .reentered := by
  induction names generalizing p with
  | nil => simp [resolveEach]
  | cons name names ih =>
    rw [resolveEach]
    split
    · split
      · exact ih _
      · exact h name p
    · exact ih p

theorem resolveWithin_ne_reentered (depth : Nat) (n : String) (p : Resolution) :
    ∀ result ∈ s.resolveWithin depth n p, result.1 ≠ .reentered := by
  induction depth generalizing n p with
  | zero => simp [resolveWithin]
  | succ depth ih =>
    rw [resolveWithin]
    split
    · simp
    split
    · simp
    split
    · simp
    · intro result hresult
      obtain ⟨supers, hsupers, rfl⟩ := Option.map_eq_some_iff.1 hresult
      exact conclude_ne_reentered (resolveEach_ne_reentered ih p supers hsupers)

/-- A way back to a declaration is not free of blocked ones, whatever the kinds of its supertypes are. -/
theorem Admitted.exists_blocked (hs : s.Admitted) {u : String} {way : List String}
    (h : (u :: way ++ [u]).IsChain s.Needs) : ∃ m ∈ u :: way, m ∈ s.blocked := by
  by_contra hfree
  have hwaits : (u :: way ++ [u]).IsChain s.WaitsFor := by
    rw [List.isChain_iff_forall_rel_of_append_cons_cons] at h ⊢
    intro v w before after heq
    have hv : v ∈ u :: way := by
      have hmem : v ∈ u :: way ++ [u] := by simp [heq]
      rcases List.mem_append.1 hmem with hmem | hmem
      · exact hmem
      · exact List.mem_singleton.1 hmem ▸ List.mem_cons_self
    exact ⟨h heq, fun hb => hfree ⟨v, hv, hb⟩⟩
  exact hs.not_waitsFor_itself (Graph.transGen_of_isChain hwaits)

end Scope

namespace Resolution

variable {s : Scope} {p q : Resolution} {n : String}

structure Settled (s : Scope) (p : Resolution) (n : String) : Prop where
  ended : n ∈ p.resolved ∨ n ∈ p.failed ∨ n ∈ s.blocked
  resolved : n ∈ p.resolved → n ∉ p.failed ∧ n ∉ s.blocked
  failed : n ∈ p.failed → n ∉ s.blocked

theorem Turns.not_blocked {pending : List Declaration} (h : Turns s pending p q)
    (hp : ∀ n ∈ p.failed, n ∉ s.blocked) : ∀ n ∈ q.failed, n ∉ s.blocked := by
  induction h with
  | refl => exact hp
  | tail _ ht ih =>
    obtain ⟨d, ht⟩ := ht
    intro n hn
    rcases ht.failed hn with hn | rfl
    · exact ih n hn
    · exact ht.not_blocked

end Resolution

namespace Scope

open Resolution

variable {s : Scope}

theorem settled_resolveAll (hs : s.Admitted) (hi : s.catalog.Integrity) {d : Declaration}
    (hd : d ∈ s.declarations) : Settled s s.resolveAll d.name := by
  obtain ⟨hturns, hended⟩ := turns_resolveAll hs hi
  have hsound := hturns.sound sound_start hs hi
  have hnew : d.name ∉ s.catalog.types :=
    SortedMap.not_mem_iff.2 (hs.type?_of_declared (hs.declaration?_eq_some_iff.2 ⟨hd, rfl⟩))
  refine ⟨?ended, fun hr => ⟨fun hf => hsound.apart _ hf hr, ?resolved⟩,
    hturns.not_blocked (fun n hn => absurd hn (SortedMap.not_mem_empty n)) _⟩
  case ended => exact (hended d hd).imp_left fun hk => (known_iff.1 hk).resolve_right hnew
  case resolved =>
    obtain ⟨r, hr⟩ := SortedMap.mem_iff.1 hr
    exact (hsound.resolved _ r hr).1

theorem foldlM_resolveWithin (hs : s.Admitted) {depth : Nat} (hd : s.declarations.length < depth) :
    s.declarations.foldlM (fun p d => (s.resolveWithin depth d.name p).map Prod.snd) Resolution.start =
      some s.resolveAll := by
  have hstep (p : Resolution) (d : Declaration) : (s.resolveWithin depth d.name p).map Prod.snd =
      some (s.resolve s.blocked s.declarations d.name p).2 := by
    rw [resolveWithin_eq hs (fun _ _ => rfl) hd, Option.map_some]
  simp only [hstep]
  exact List.foldlM_pure (m := Option)

end Scope

structure Scope.ResolvingEnds (s : Scope) : Prop where
  blocked : ∀ u way, (u :: way ++ [u]).IsChain s.Needs → ∃ n ∈ u :: way, n ∈ s.blocked
  entered : ∀ n p, (s.resolve s.blocked s.declarations n p).1 ≠ .reentered
  returned : ∀ depth > s.declarations.length, ∀ n p,
    s.resolveWithin depth n p = some (s.resolve s.blocked s.declarations n p)
  tried : ∀ depth > s.declarations.length,
    s.declarations.foldlM (fun p d => (s.resolveWithin depth d.name p).map Prod.snd) Resolution.start =
      some s.resolveAll
  settled : ∀ d ∈ s.declarations, Resolution.Settled s s.resolveAll d.name

namespace Registry

theorem resolving_ends (ops : List Operation) (batch : List Definition) :
    ((after ops).catalog.scope batch).ResolvingEnds := by
  have hs := Scope.admitted_scope (after ops).catalog batch
  refine ⟨fun u way => hs.exists_blocked, fun n p => ?entered,
    fun depth hd n p => Scope.resolveWithin_eq hs (fun _ _ => rfl) hd p,
    fun depth hd => Scope.foldlM_resolveWithin hs hd,
    fun d hd => Scope.settled_resolveAll hs (reachable_after ops).integrity hd⟩
  case entered =>
    have hreturned := Scope.resolveWithin_eq hs (n := n) (fun _ _ => rfl) (Nat.lt_succ_self _) p
    exact Scope.resolveWithin_ne_reentered _ n p _ hreturned

/-- With datasets, relations and views on ways back to themselves, four calls inside each other are enough. -/
theorem tangle_resolving_ends :
    (∃ n ∈ ["View", "Relation", "Dataset"], n ∈ (⟨.empty, Catalog.tangledBatch⟩ : Scope).blocked) ∧
      ∃ result, (⟨.empty, Catalog.tangledBatch⟩ : Scope).resolveWithin 4 "View" Resolution.start = some result := by
  have hscope : (after []).catalog.scope Catalog.tangledBatch = ⟨.empty, Catalog.tangledBatch⟩ :=
    Catalog.scope_of_refused_eq_nil (Catalog.admitted_iff.1 Catalog.admitted_tangledBatch)
  have hends := resolving_ends [] Catalog.tangledBatch
  rw [hscope] at hends
  exact ⟨hends.blocked "View" ["Relation", "Dataset"] Catalog.isChain_tangledBatch,
    _, hends.returned 4 (by decide) "View" Resolution.start⟩

end Registry

end TypeCatalog
