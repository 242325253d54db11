import TypeCatalog.Registration.Resolution
import TypeCatalog.Proofs.Scope
set_option autoImplicit false

/-!
Resolving a batch, told without its order. Main statements: it is a row of turns, each of which is one step on
one declaration that is not blocked and has not failed; after any such turns what is resolved is what its
declaration flattens to, and what is not has a supertype that is not or is told of by a defect; and in the end
every declaration that is not blocked comes to one of both.
-/

namespace TypeCatalog.Resolution

open Relation

variable {s : Scope} {p q : Resolution} {c : Catalog} {d : Declaration} {n : String} {r : Resolved}
  {ds : List Defect}

def Stuck (s : Scope) (p : Resolution) (n : String) : Prop := n ∈ p.failed ∨ n ∈ s.blocked

/-- A declaration has all its supertypes, and cannot be flattened all the same. -/
structure Rejects (p : Resolution) (c : Catalog) (d : Declaration) (ds : List Defect) : Prop where
  supers_known : ∀ m ∈ d.supers, ∃ r, p.lookup c m = some r
  error : d.flatten (p.lookup c) = .error ds

structure Sound (s : Scope) (p : Resolution) : Prop where
  resolved : ∀ n r, p.resolved.get? n = some r → n ∉ s.blocked ∧
    ∃ d, s.declaration? n = some d ∧ d.flatten (p.lookup s.catalog) = .ok r
  failed : ∀ n ∈ p.failed, ∃ d, s.declaration? n = some d ∧
    ((∃ m, s.Needs n m ∧ Stuck s p m) ∨ ∃ ds, p.Rejects s.catalog d ds ∧ ∀ e ∈ ds, e ∈ p.defects)
  apart : ∀ n ∈ p.failed, n ∉ p.resolved
  defects : ∀ e ∈ p.defects, ∃ d ∈ s.declarations, ∃ ds, p.Rejects s.catalog d ds ∧ e ∈ ds

structure Grows (c : Catalog) (p q : Resolution) : Prop where
  lookup : Lookup.Keeps (q.lookup c) (p.lookup c)
  failed : ∀ n ∈ p.failed, n ∈ q.failed
  defects : ∀ e ∈ p.defects, e ∈ q.defects

theorem Grows.refl (c : Catalog) (p : Resolution) : Grows c p p :=
  ⟨fun _ _ h => h, fun _ h => h, fun _ h => h⟩

theorem Grows.trans {p₁ p₂ p₃ : Resolution} (h₁ : Grows c p₁ p₂) (h₂ : Grows c p₂ p₃) :
    Grows c p₁ p₃ where
  lookup n r h := h₂.lookup n r (h₁.lookup n r h)
  failed n h := h₂.failed n (h₁.failed n h)
  defects e h := h₂.defects e (h₁.defects e h)

theorem Grows.stuck (h : Grows s.catalog p q) (hn : Stuck s p n) : Stuck s q n :=
  hn.imp_left (h.failed n)

theorem lookup_eq_some_iff :
    p.lookup c n = some r ↔
      p.resolved.get? n = some r ∨ p.resolved.get? n = none ∧ c.type? n = some r := by
  simp [lookup, Option.or_eq_some_iff]

theorem known_iff : (∃ r, p.lookup c n = some r) ↔ n ∈ p.resolved ∨ n ∈ c.types := by
  rw [SortedMap.mem_iff, Catalog.mem_types]
  cases h : p.resolved.get? n <;> simp [lookup, h]

theorem sound_start : Sound s start where
  resolved _ _ h := by simp [start] at h
  failed _ h := by simp [start] at h
  apart _ h := by simp [start] at h
  defects _ h := by simp [start] at h

theorem Sound.closed (hp : Sound s p) (hi : s.catalog.Integrity) :
    Lookup.Closed (p.lookup s.catalog) := by
  intro n r h a ha
  rcases lookup_eq_some_iff.1 h with h | ⟨-, h⟩
  · obtain ⟨-, d, -, hok⟩ := hp.resolved n r h
    have hf := Declaration.flattens_of_flatten hok
    exact hf.ancestors_known a (hf.ancestors ▸ ha)
  · obtain ⟨q, hq, -⟩ := (hi.coherent n r h).inherited a ha
    exact known_iff.2 (.inr (Catalog.mem_types.2 ⟨q, hq⟩))

theorem Sound.keeps_catalog (hp : Sound s p) (hs : s.Admitted) :
    Lookup.Keeps (p.lookup s.catalog) s.catalog.type? := by
  intro n r h
  refine lookup_eq_some_iff.2 (.inr ⟨?_, h⟩)
  cases hr : p.resolved.get? n with
  | none => rfl
  | some r' =>
    obtain ⟨-, d, hd, -⟩ := hp.resolved n r' hr
    simp [hs.type?_of_declared hd] at h

theorem Sound.get?_resolved_iff (hp : Sound s p) (hs : s.Admitted) :
    p.resolved.get? n = some r ↔ p.lookup s.catalog n = some r ∧ n ∉ s.catalog.types := by
  rw [lookup_eq_some_iff, SortedMap.not_mem_iff]
  constructor
  · intro hr
    obtain ⟨-, d, hd, -⟩ := hp.resolved n r hr
    exact ⟨.inl hr, hs.type?_of_declared hd⟩
  · intro hx
    obtain ⟨hr | ⟨-, hr⟩, hnew⟩ := hx
    · exact hr
    · cases hnew.symm.trans hr

theorem Sound.flatten_of_found (hp : Sound s p) (hs : s.Admitted) (hd : s.declaration? n = some d)
    (h : p.lookup s.catalog n = some r) : d.flatten (p.lookup s.catalog) = .ok r := by
  rcases lookup_eq_some_iff.1 h with hr | ⟨-, hr⟩
  · obtain ⟨-, d', hd', hok⟩ := hp.resolved n r hr
    obtain rfl : d = d' := Option.some.inj (hd.symm.trans hd')
    exact hok
  · cases (hs.type?_of_declared hd).symm.trans hr

theorem Sound.unknown_of_stuck (hp : Sound s p) (hs : s.Admitted) (hd : (s.declaration? n).isSome)
    (h : Stuck s p n) : ¬∃ r, p.lookup s.catalog n = some r := by
  obtain ⟨d, hd⟩ := Option.isSome_iff_exists.1 hd
  rw [known_iff, Catalog.mem_types, hs.type?_of_declared hd]
  intro hx
  rcases hx with hr | ⟨r, hr⟩
  · rcases h with h | h
    · exact hp.apart n h hr
    · obtain ⟨r, hr⟩ := SortedMap.mem_iff.1 hr
      exact (hp.resolved n r hr).1 h
  · cases hr

theorem Rejects.mono (h : p.Rejects c d ds) (hg : Grows c p q)
    (hc : Lookup.Closed (p.lookup c)) : q.Rejects c d ds where
  supers_known m hm := by
    obtain ⟨r, hr⟩ := h.supers_known m hm
    exact ⟨r, hg.lookup m r hr⟩
  error := (hc.flatten_eq hg.lookup h.supers_known).trans h.error

theorem Sound.not_failing (hp : Sound s p) (hs : s.Admitted) (hd : s.declaration? n = some d)
    (hok : d.flatten (p.lookup s.catalog) = .ok r) :
    ¬((∃ m, s.Needs n m ∧ Stuck s p m) ∨ ∃ ds, p.Rejects s.catalog d ds) := by
  intro hcause
  rcases hcause with ⟨m, hneeds, hst⟩ | ⟨ds, h⟩
  · obtain ⟨hm, hdecl⟩ := (hs.needs_of_declaration? hd).1 hneeds
    exact hp.unknown_of_stuck hs hdecl hst
      ((Declaration.flattens_of_flatten hok).supers_known m hm)
  · cases hok.symm.trans h.error

section Succeed

variable (hp : Sound s p) (hs : s.Admitted) (hd : s.declaration? n = some d)
  (hok : d.flatten (p.lookup s.catalog) = .ok r)

include hp hs hd hok

theorem Sound.grows_succeed : Grows s.catalog p (p.succeed n r) where
  lookup m r' h := by
    rw [lookup_eq_some_iff, succeed, SortedMap.get?_insert]
    split
    · next hm =>
      subst hm
      -- Resolved twice, it would be flattened from the same declaration again.
      exact .inl (congrArg some (Except.ok.inj (hok.symm.trans (hp.flatten_of_found hs hd h))))
    · exact lookup_eq_some_iff.1 h
  failed _ h := h
  defects _ h := h

theorem Sound.succeed (hi : s.catalog.Integrity) (hb : n ∉ s.blocked) : Sound s (p.succeed n r) := by
  have hc := hp.closed hi
  have hg := hp.grows_succeed hs hd hok
  have hsame : ∀ (d : Declaration) r', d.flatten (p.lookup s.catalog) = .ok r' →
      d.flatten ((p.succeed n r).lookup s.catalog) = .ok r' := fun d r' h =>
    (hc.flatten_eq hg.lookup (Declaration.flattens_of_flatten h).supers_known).trans h
  refine ⟨fun m r' h => ?resolved, fun m hm => ?failed, fun m hm => ?apart, fun e he => ?defects⟩
  case resolved =>
    rw [Resolution.succeed, SortedMap.get?_insert] at h
    split at h
    · next hm =>
      subst hm
      cases h
      exact ⟨hb, d, hd, hsame d r hok⟩
    · obtain ⟨hb', d', hd', hok'⟩ := hp.resolved m r' h
      exact ⟨hb', d', hd', hsame d' r' hok'⟩
  case failed =>
    obtain ⟨d', hd', ⟨k, hk, hst⟩ | ⟨ds, hr, hds⟩⟩ := hp.failed m hm
    · exact ⟨d', hd', .inl ⟨k, hk, hg.stuck hst⟩⟩
    · exact ⟨d', hd', .inr ⟨ds, hr.mono hg hc, hds⟩⟩
  case apart =>
    rw [Resolution.succeed, SortedMap.mem_insert, not_or]
    refine ⟨?_, hp.apart m hm⟩
    intro hx
    subst hx
    obtain ⟨d', hd', hcause⟩ := hp.failed m hm
    obtain rfl : d = d' := Option.some.inj (hd.symm.trans hd')
    exact hp.not_failing hs hd hok (hcause.imp_right fun h => h.imp fun _ hr => hr.1)
  case defects =>
    obtain ⟨d', hd', ds, hr, hm⟩ := hp.defects e he
    exact ⟨d', hd', ds, hr.mono hg hc, hm⟩

end Succeed

theorem grows_fail (c : Catalog) (p : Resolution) (n : String) (ds : List Defect) :
    Grows c p (p.fail n ds) where
  lookup _ _ h := h
  failed _ h := SortedMap.mem_insert.2 (.inr h)
  defects _ h := List.mem_append_left _ h

/-- A declaration may fail in silence when one of its supertypes has failed or is blocked. -/
theorem Sound.fail (hp : Sound s p) (hs : s.Admitted) (hi : s.catalog.Integrity)
    (hd : s.declaration? n = some d)
    (hcause : (∃ m, s.Needs n m ∧ Stuck s p m) ∧ ds = [] ∨ p.Rejects s.catalog d ds) :
    Sound s (p.fail n ds) := by
  have hc := hp.closed hi
  have hg := grows_fail s.catalog p n ds
  refine ⟨hp.resolved, fun m hm => ?failed, fun m hm hr => ?apart, fun e he => ?defects⟩
  case failed =>
    rcases SortedMap.mem_insert.1 hm with rfl | hm
    · refine ⟨d, hd, ?_⟩
      rcases hcause with ⟨⟨k, hk, hst⟩, -⟩ | hr
      · exact .inl ⟨k, hk, hg.stuck hst⟩
      · exact .inr ⟨ds, hr.mono hg hc, fun e he => List.mem_append_right _ he⟩
    · obtain ⟨d', hd', ⟨k, hk, hst⟩ | ⟨ds', hr, hds⟩⟩ := hp.failed m hm
      · exact ⟨d', hd', .inl ⟨k, hk, hg.stuck hst⟩⟩
      · exact ⟨d', hd', .inr ⟨ds', hr.mono hg hc, fun e he => hg.defects e (hds e he)⟩⟩
  case apart =>
    rcases SortedMap.mem_insert.1 hm with rfl | hm
    · obtain ⟨r, hr⟩ := SortedMap.mem_iff.1 hr
      obtain ⟨-, d', hd', hok⟩ := hp.resolved m r hr
      obtain rfl : d = d' := Option.some.inj (hd.symm.trans hd')
      exact hp.not_failing hs hd hok (hcause.imp And.left fun hr => ⟨ds, hr⟩)
    · exact hp.apart m hm hr
  case defects =>
    rcases List.mem_append.1 he with he | he
    · obtain ⟨d', hd', ds', hr, hm⟩ := hp.defects e he
      exact ⟨d', hd', ds', hr.mono hg hc, hm⟩
    · rcases hcause with ⟨-, rfl⟩ | hr
      · cases he
      · exact ⟨d, Scope.mem_of_declaration? hd, ds, hr.mono hg hc, he⟩

inductive Step (s : Scope) (d : Declaration) (p : Resolution) : Resolution → Prop
  | succeed {r : Resolved} (hok : d.flatten (p.lookup s.catalog) = .ok r) : Step s d p (p.succeed d.name r)
  /-- The supertype has been told of already. -/
  | pass {m : String} (hm : s.Needs d.name m) (hst : Stuck s p m) : Step s d p (p.fail d.name [])
  | reject {ds : List Defect} (h : p.Rejects s.catalog d ds) : Step s d p (p.fail d.name ds)

/-- The declaration is one of those that are left, is not blocked and has not failed. -/
structure Open (s : Scope) (pending : List Declaration) (p : Resolution) (d : Declaration) : Prop where
  mem : d ∈ pending
  declared : s.declaration? d.name = some d
  not_blocked : d.name ∉ s.blocked
  not_failed : d.name ∉ p.failed

structure Turn (s : Scope) (pending : List Declaration) (d : Declaration) (p q : Resolution) : Prop
    extends Open s pending p d where
  step : Step s d p q

def Turns (s : Scope) (pending : List Declaration) : Resolution → Resolution → Prop :=
  ReflTransGen fun p q => ∃ d, Turn s pending d p q

section Turns

variable {pending pending' : List Declaration}

theorem Turn.sound (h : Turn s pending d p q) (hp : Sound s p) (hs : s.Admitted)
    (hi : s.catalog.Integrity) : Sound s q := by
  cases h.step with
  | succeed hok => exact hp.succeed hs h.declared hok hi h.not_blocked
  | pass hm hst => exact hp.fail hs hi h.declared (.inl ⟨⟨_, hm, hst⟩, rfl⟩)
  | reject hr => exact hp.fail hs hi h.declared (.inr hr)

theorem Turn.grows (h : Turn s pending d p q) (hp : Sound s p) (hs : s.Admitted) :
    Grows s.catalog p q := by
  cases h.step with
  | succeed hok => exact hp.grows_succeed hs h.declared hok
  | pass | reject => exact grows_fail _ p _ _

theorem Turn.failed (h : Turn s pending d p q) (hn : n ∈ q.failed) : n ∈ p.failed ∨ d.name = n := by
  cases h.step with
  | succeed => exact .inl hn
  | pass | reject => exact (SortedMap.mem_insert.1 hn).symm.imp_right Eq.symm

theorem Turns.sound (h : Turns s pending p q) (hp : Sound s p) (hs : s.Admitted)
    (hi : s.catalog.Integrity) : Sound s q := by
  induction h with
  | refl => exact hp
  | tail _ ht ih => exact ht.elim fun _ ht => ht.sound ih hs hi

theorem Turns.grows (h : Turns s pending p q) (hp : Sound s p) (hs : s.Admitted)
    (hi : s.catalog.Integrity) : Grows s.catalog p q := by
  induction h with
  | refl => exact Grows.refl _ p
  | tail hb ht ih => exact ht.elim fun _ ht => ih.trans (ht.grows (Turns.sound hb hp hs hi) hs)

theorem Turns.failed (h : Turns s pending p q) (hn : n ∈ q.failed) :
    n ∈ p.failed ∨ ∃ d ∈ pending, d.name = n := by
  induction h with
  | refl => exact .inl hn
  | tail _ ht ih =>
    obtain ⟨d, ht⟩ := ht
    rcases ht.failed hn with hn | hn
    · exact ih hn
    · exact .inr ⟨d, ht.mem, hn⟩

theorem Turns.mono (h : Turns s pending p q) (hsub : pending ⊆ pending') : Turns s pending' p q := by
  induction h with
  | refl => exact .refl
  | tail _ ht ih =>
    obtain ⟨d, ht⟩ := ht
    exact ih.tail ⟨d, { ht with mem := hsub ht.mem }⟩

end Turns

/-- What is left behind by the attempt to resolve those among some names that are in the batch: all of
them are resolved, or one is stuck. -/
structure Attempt (s : Scope) (pending : List Declaration) (names : List String) (p : Resolution)
    (result : Outcome × Resolution) : Prop where
  turns : Turns s pending p result.2
  outcome :
    (result.1 = .resolved ∧
      ∀ m ∈ names, (s.declaration? m).isSome → ∃ r, result.2.lookup s.catalog m = some r) ∨
    (result.1 = .unresolved ∧ ∃ m ∈ names, (s.declaration? m).isSome ∧ Stuck s result.2 m)

section Attempt

variable {pending : List Declaration} {p₀ : Resolution} (ht : Turns s pending p₀ p)
  (ho : Open s pending p d)

include ht ho

theorem attempt_flatten (hk : ∀ m ∈ d.supers, ∃ r, p.lookup s.catalog m = some r) :
    Attempt s pending [d.name] p₀ (match d.flatten (p.lookup s.catalog) with
      | .ok r => (.resolved, p.succeed d.name r)
      | .error ds => (.unresolved, p.fail d.name ds)) := by
  split
  · next r hok =>
    refine ⟨ht.tail ⟨d, ho, .succeed hok⟩, .inl ⟨rfl, ?_⟩⟩
    simpa using fun _ => known_iff.2 (.inl (SortedMap.mem_insert.2 (.inl rfl)))
  · next ds herr =>
    refine ⟨ht.tail ⟨d, ho, .reject ⟨hk, herr⟩⟩,
      .inr ⟨rfl, d.name, List.mem_singleton_self _, by simp [ho.declared], ?_⟩⟩
    exact .inl (SortedMap.mem_insert.2 (.inl rfl))

theorem attempt_pass {m : String} (hm : s.Needs d.name m) (hst : Stuck s p m) :
    Attempt s pending [d.name] p₀ (.unresolved, p.fail d.name []) := by
  refine ⟨ht.tail ⟨d, ho, .pass hm hst⟩,
    .inr ⟨rfl, d.name, List.mem_singleton_self _, by simp [ho.declared], ?_⟩⟩
  exact .inl (SortedMap.mem_insert.2 (.inl rfl))

end Attempt

end TypeCatalog.Resolution

namespace TypeCatalog.Scope

open Relation Resolution

variable {s : Scope} {p : Resolution} {n : String} {pending : List Declaration}

theorem attempt_resolveSupers (hs : s.Admitted) (hi : s.catalog.Integrity) {blocked : NameSet}
    {names : List String}
    (h : ∀ m ∈ names, (s.declaration? m).isSome → ∀ p, Sound s p →
      Attempt s pending [m] p (s.resolve blocked pending m p)) (hp : Sound s p) :
    Attempt s pending names p (s.resolveSupers blocked pending names p) := by
  induction names generalizing p with
  | nil =>
    rw [resolveSupers]
    exact ⟨.refl, .inl ⟨rfl, by simp⟩⟩
  | cons name names ih =>
    obtain ⟨hname, hnames⟩ := List.forall_mem_cons.1 h
    rw [resolveSupers]
    split
    · next hd =>
      have hfirst := hname hd p hp
      generalize s.resolve blocked pending name p = first at hfirst
      obtain ⟨o, p₁⟩ := first
      obtain ⟨hturns, hout⟩ := hfirst
      simp only [List.mem_singleton, forall_eq, exists_eq_left] at hturns hout
      rcases hout with ⟨rfl, hk⟩ | ⟨rfl, -, hst⟩
      · have hsound := hturns.sound hp hs hi
        have hrest := ih hnames hsound
        refine ⟨hturns.trans hrest.turns, hrest.outcome.imp ?_ ?_⟩
        · intro hx
          obtain ⟨ho, hall⟩ := hx
          refine ⟨ho, List.forall_mem_cons.2 ⟨fun _ => ?_, hall⟩⟩
          obtain ⟨r, hr⟩ := hk hd
          exact ⟨r, (hrest.turns.grows hsound hs hi).lookup name r hr⟩
        · intro hx
          obtain ⟨ho, m, hm, hst⟩ := hx
          exact ⟨ho, m, List.mem_cons_of_mem _ hm, hst⟩
      · exact ⟨hturns, .inr ⟨rfl, name, List.mem_cons_self, hd, hst⟩⟩
    · next hd =>
      have hrest := ih hnames hp
      refine ⟨hrest.turns, hrest.outcome.imp ?_ ?_⟩
      · intro hx
        obtain ⟨ho, hall⟩ := hx
        exact ⟨ho, List.forall_mem_cons.2 ⟨fun hd' => absurd hd' hd, hall⟩⟩
      · intro hx
        obtain ⟨ho, m, hm, hst⟩ := hx
        exact ⟨ho, m, List.mem_cons_of_mem _ hm, hst⟩

/-- The pending declarations are all that a name can wait for, itself included. -/
def Covers (s : Scope) (pending : List Declaration) (n : String) : Prop :=
  ∀ k, ReflTransGen s.WaitsFor n k → (pending.find? fun d => d.name == k) = s.declaration? k

theorem Covers.filter (hs : s.Admitted) (hc : s.Covers pending n) {m : String}
    (hm : s.WaitsFor n m) : s.Covers (pending.filter fun d => d.name != n) m := by
  intro k hk
  have hne : k ≠ n := by
    intro h
    subst h
    exact hs.not_waitsFor_itself (.head' hm hk)
  rw [← hc k (.head hm hk), List.find?_filter]
  refine congrArg (fun f => List.find? f pending) (funext fun d => ?_)
  by_cases hd : d.name = k <;> simp [hd, hne]

theorem super_known (hs : s.Admitted) {d : Declaration} (hp : Sound s p)
    (hd : s.declaration? n = some d) (hb : n ∉ s.blocked)
    (hk : ∀ m ∈ d.supers, (s.declaration? m).isSome → ∃ r, p.lookup s.catalog m = some r) :
    ∀ m ∈ d.supers, ∃ r, p.lookup s.catalog m = some r := by
  intro m hm
  rcases hs.super_hasKind hd hb m hm with ⟨r, hr, -⟩ | ⟨e, he, hn, -⟩
  · exact ⟨r, hp.keeps_catalog hs m r hr⟩
  · exact hk m hm (by simp [hs.declaration?_eq_some_iff.2 ⟨he, hn⟩])

/-- The induction is along what waits for what. What is pending shrinks on the way down, but never by
something that is still needed; so the name itself has not failed when its supertypes are done. -/
theorem attempt_resolve (hs : s.Admitted) (hi : s.catalog.Integrity) (hp : Sound s p)
    (hc : s.Covers pending n) (hd : (s.declaration? n).isSome) :
    Attempt s pending [n] p (s.resolve s.blocked pending n p) := by
  induction n using hs.wellFounded_waitsFor.induction generalizing p pending with
  | _ n ih =>
  rw [resolve]
  split
  · next hr => exact ⟨.refl, .inl ⟨rfl, by simpa using fun _ => known_iff.2 (.inl hr)⟩⟩
  split
  · next hst => exact ⟨.refl, .inr ⟨rfl, n, List.mem_singleton_self n, hd, hst⟩⟩
  next hst =>
  obtain ⟨hfailed, hb⟩ := not_or.1 hst
  split
  · next hnone =>
    simp [← hc n .refl, hnone] at hd
  next d hfind =>
  have hdecl : s.declaration? n = some d := (hc n .refl).symm.trans hfind
  obtain ⟨-, rfl⟩ := hs.declaration?_eq_some_iff.1 hdecl
  have hneeds : ∀ m ∈ d.supers, (s.declaration? m).isSome → s.Needs d.name m := fun m hm hdm =>
    (hs.needs_of_declaration? hdecl).2 ⟨hm, hdm⟩
  have hsupers : Attempt s (pending.filter fun e => e.name != d.name) d.supers.toList p
      (s.resolveSupers s.blocked (pending.filter fun e => e.name != d.name) d.supers.toList p) := by
    refine attempt_resolveSupers hs hi (fun m hm hdm p hp => ?_) hp
    have hw : s.WaitsFor d.name m := ⟨hneeds m (NameSet.mem_toList.1 hm) hdm, hb⟩
    exact ih m hw hp (hc.filter hs hw) hdm
  generalize s.resolveSupers s.blocked _ d.supers.toList p = supers at hsupers
  obtain ⟨o, p₁⟩ := supers
  obtain ⟨hturns, hout⟩ := hsupers
  simp only [NameSet.mem_toList] at hturns hout
  have hopen : Open s pending p₁ d := by
    refine ⟨List.mem_of_find?_eq_some hfind, hdecl, hb, fun hf => ?_⟩
    rcases hturns.failed hf with hf | ⟨e, he, hne⟩
    · exact hfailed hf
    · simp [hne] at he
  have hall : Turns s pending p p₁ := hturns.mono (List.filter_subset_self _)
  rcases hout with ⟨rfl, hk⟩ | ⟨rfl, m, hm, hdm, hst⟩
  · exact attempt_flatten hall hopen (super_known hs (hall.sound hp hs hi) hdecl hb hk)
  · exact attempt_pass hall hopen (hneeds m hm hdm) hst

theorem turns_resolveAll (hs : s.Admitted) (hi : s.catalog.Integrity) :
    Turns s s.declarations start s.resolveAll ∧ ∀ d ∈ s.declarations,
      (∃ r, s.resolveAll.lookup s.catalog d.name = some r) ∨ Stuck s s.resolveAll d.name := by
  suffices h : ∀ ds : List Declaration, ds ⊆ s.declarations → ∀ p, Sound s p →
      let q := ds.foldl (fun p d => (s.resolve s.blocked s.declarations d.name p).2) p
      Turns s s.declarations p q ∧
        ∀ d ∈ ds, (∃ r, q.lookup s.catalog d.name = some r) ∨ Stuck s q d.name from
    h s.declarations (fun _ h => h) start sound_start
  intro ds
  induction ds with
  | nil => exact fun _ p _ => ⟨.refl, by simp⟩
  | cons d ds ih =>
    intro hds p hp
    obtain ⟨hd, hds⟩ := List.cons_subset.1 hds
    have hdecl : (s.declaration? d.name).isSome := by
      simp [hs.declaration?_eq_some_iff.2 ⟨hd, rfl⟩]
    obtain ⟨hfirst, hout⟩ := attempt_resolve hs hi hp (fun _ _ => rfl) hdecl
    have hsound := hfirst.sound hp hs hi
    obtain ⟨hrest, hall⟩ := ih hds _ hsound
    have hgrows := hrest.grows hsound hs hi
    refine ⟨hfirst.trans hrest, List.forall_mem_cons.2 ⟨?_, hall⟩⟩
    rcases hout with ⟨-, hk⟩ | ⟨-, m, hm, -, hst⟩
    · obtain ⟨r, hr⟩ := hk d.name (List.mem_singleton_self _) hdecl
      exact .inl ⟨r, hgrows.lookup _ r hr⟩
    · exact .inr (hgrows.stuck (List.mem_singleton.1 hm ▸ hst))

theorem sound_resolveAll (hs : s.Admitted) (hi : s.catalog.Integrity) :
    Sound s s.resolveAll ∧ ∀ d ∈ s.declarations,
      (∃ r, s.resolveAll.lookup s.catalog d.name = some r) ∨ Stuck s s.resolveAll d.name :=
  (turns_resolveAll hs hi).imp_left fun h => h.sound sound_start hs hi

end TypeCatalog.Scope
