import Mathlib
import TypeCatalog.Proofs.SortedMap
import TypeCatalog.Service.CommandLine
set_option autoImplicit false

namespace TypeCatalog.Cluster

structure Mention where
  id : String
  address : Option String

def mention (c : Cluster) (m : Mention) : Cluster :=
  match m.address with
  | some address => c.addServer m.id address
  | none => c.nameServer m.id

def ofMentions (ms : List Mention) : Cluster := ms.foldl mention {}

def given (ms : List Mention) (id : String) : List String :=
  (ms.filter fun m => decide (m.id = id)).filterMap Mention.address

structure Follows (c : Cluster) (ms : List Mention) : Prop where
  distinct : c.ids.Nodup
  mentioned : ∀ id, id ∈ c.ids ↔ id ∈ ms.map Mention.id
  ordered : c.ids.Pairwise fun a b => (ms.map Mention.id).idxOf a < (ms.map Mention.id).idxOf b
  address : ∀ id, c.addresses.get? id = (given ms id).getLast?

variable {c : Cluster} {ms : List Mention} {m : Mention}

theorem given_concat (ms : List Mention) (m : Mention) (id : String) :
    given (ms ++ [m]) id = given ms id ++ if m.id = id then m.address.toList else [] := by
  rw [given, List.filter_append, List.filterMap_append, ← given]
  by_cases h : m.id = id
  · cases ha : m.address <;> simp [h, ha]
  · simp [h]

theorem ids_mention : (c.mention m).ids = if m.id ∈ c.ids then c.ids else c.ids ++ [m.id] := by
  have hname : (c.nameServer m.id).ids = if m.id ∈ c.ids then c.ids else c.ids ++ [m.id] := by
    rw [nameServer]
    split <;> rfl
  rw [mention]
  cases m.address <;> exact hname

theorem get?_addresses_mention (id : String) :
    (c.mention m).addresses.get? id =
      if m.id = id then m.address.or (c.addresses.get? id) else c.addresses.get? id := by
  have hname : (c.nameServer m.id).addresses = c.addresses := by
    rw [nameServer]
    split <;> rfl
  rw [mention]
  cases m.address with
  | none => simp [hname]
  | some address =>
    change (c.addresses.insert m.id address).get? id = _
    rw [SortedMap.get?_insert, Option.some_or]

/-- A server that is mentioned again keeps its place, and a new one goes behind all others. -/
theorem Follows.mention (h : c.Follows ms) (m : Mention) : (c.mention m).Follows (ms ++ [m]) := by
  have hnames : (ms ++ [m]).map Mention.id = ms.map Mention.id ++ [m.id] := by simp
  have hold : ∀ a ∈ c.ids, (ms.map Mention.id ++ [m.id]).idxOf a = (ms.map Mention.id).idxOf a :=
    fun a ha => List.idxOf_append_of_mem ((h.mentioned a).1 ha)
  have hordered : c.ids.Pairwise fun a b =>
      (ms.map Mention.id ++ [m.id]).idxOf a < (ms.map Mention.id ++ [m.id]).idxOf b :=
    h.ordered.imp_of_mem fun ha hb hab => by rwa [hold _ ha, hold _ hb]
  refine ⟨?distinct, fun n => ?mentioned, ?ordered, fun n => ?address⟩
  case distinct =>
    rw [ids_mention]
    split
    · exact h.distinct
    · next hm => exact List.nodup_append_comm.1 (List.nodup_cons.2 ⟨hm, h.distinct⟩)
  case mentioned =>
    rw [ids_mention, hnames, List.mem_append, ← h.mentioned, List.mem_singleton]
    split
    · next hm => exact ⟨.inl, fun hx => hx.elim (fun hn => hn) fun hn => hn ▸ hm⟩
    · simp
  case ordered =>
    rw [ids_mention, hnames]
    split
    · exact hordered
    · next hm =>
      refine List.pairwise_append.2 ⟨hordered, List.pairwise_singleton _ _, fun a ha b hb => ?_⟩
      obtain rfl := List.mem_singleton.1 hb
      have hnew : m.id ∉ ms.map Mention.id := fun hx => hm ((h.mentioned _).2 hx)
      rw [hold a ha, List.idxOf_append_of_notMem hnew]
      exact Nat.lt_add_right _ (List.idxOf_lt_length_of_mem ((h.mentioned a).1 ha))
  case address =>
    rw [get?_addresses_mention, given_concat, h.address]
    by_cases hn : m.id = n
    · cases m.address <;> simp [hn]
    · simp [hn]

theorem follows_ofMentions (ms : List Mention) : (ofMentions ms).Follows ms := by
  induction ms using List.reverseRecOn with
  | nil => exact ⟨.nil, by simp [ofMentions], .nil, fun _ => rfl⟩
  | append_singleton ms m ih =>
    rw [ofMentions, List.foldl_append]
    exact ih.mention m

theorem mention_rest : (c.mention m).enabled = c.enabled ∧ (c.mention m).secure = c.secure ∧
    (c.mention m).election = c.election := by
  have hname : (c.nameServer m.id).enabled = c.enabled ∧ (c.nameServer m.id).secure = c.secure ∧
      (c.nameServer m.id).election = c.election := by
    rw [nameServer]
    split <;> exact ⟨rfl, rfl, rfl⟩
  rw [mention]
  cases m.address <;> exact hname

theorem ofMentions_rest (ms : List Mention) : (ofMentions ms).enabled = false ∧
    (ofMentions ms).secure = false ∧ (ofMentions ms).election = {} := by
  induction ms using List.reverseRecOn with
  | nil => exact ⟨rfl, rfl, rfl⟩
  | append_singleton ms m ih =>
    rw [ofMentions, List.foldl_append]
    obtain ⟨henabled, hsecure, helection⟩ := mention_rest (c := ofMentions ms) (m := m)
    exact ⟨henabled.trans ih.1, hsecure.trans ih.2.1, helection.trans ih.2.2⟩

/-- A name may stand for several addresses, of which the first counts. -/
def firstOf (lookup : String → Option (List SocketAddress)) (address : String) : Option SocketAddress :=
  (lookup address).bind List.head?

def FoundHere (ms : List Mention) (lookup : String → Option (List SocketAddress))
    (isLocal : IpAddress → Bool) (port : Nat) (id : String) : Prop :=
  ∃ address a as, (given ms id).getLast? = some address ∧ Text.isBlank address = false ∧
    lookup address = some (a :: as) ∧ isLocal a.ip = true ∧ a.port = port

section Identity

variable {lookup : String → Option (List SocketAddress)} {resolve : String → Option SocketAddress}
  {isLocal : IpAddress → Bool} {port : Nat} {id : String}

theorem isHere_iff : c.isHere resolve isLocal port id = true ↔
    ∃ address a, c.addresses.get? id = some address ∧ Text.isBlank address = false ∧
      resolve address = some a ∧ isLocal a.ip = true ∧ a.port = port := by
  rw [isHere]
  cases c.addresses.get? id with
  | none => simp
  | some address =>
    cases hb : Text.isBlank address with
    | true => simp [hb]
    | false => cases hr : resolve address <;> simp [hb, hr]

theorem firstOf_eq_some_iff {address : String} {a : SocketAddress} :
    firstOf lookup address = some a ↔ ∃ as, lookup address = some (a :: as) := by
  simp only [firstOf, Option.bind_eq_some_iff, List.head?_eq_some_iff]
  grind

theorem Follows.isHere_iff (h : c.Follows ms) :
    c.isHere (firstOf lookup) isLocal port id = true ↔ FoundHere ms lookup isLocal port id := by
  rw [Cluster.isHere_iff, FoundHere, h.address]
  simp only [firstOf_eq_some_iff]
  grind

theorem identity_eq_ok_iff : c.identity resolve isLocal port = .ok id ↔
    c.isHere resolve isLocal port id = true ∧ ∃ before after, c.ids = before ++ id :: after ∧
      ∀ x ∈ before, ¬c.isHere resolve isLocal port x = true := by
  have hfind : c.ids.find? (c.isHere resolve isLocal port) = some id ↔ _ := List.find?_eq_some_iff_append
  simp only [Bool.not_eq_true', ← Bool.not_eq_true] at hfind
  rw [← hfind, identity]
  cases c.ids.find? (c.isHere resolve isLocal port) <;> simp

theorem identity_eq_error_iff {fault : Unidentified} : c.identity resolve isLocal port = .error fault ↔
    fault = ⟨port, c.ids⟩ ∧ ∀ x ∈ c.ids, ¬c.isHere resolve isLocal port x = true := by
  rw [← List.find?_eq_none, identity]
  cases c.ids.find? (c.isHere resolve isLocal port) <;> simp [eq_comm]

end Identity

end TypeCatalog.Cluster

namespace TypeCatalog.CommandLine

open Cluster (Mention ofMentions)

def mentions (servers : List (String × String)) : List Mention :=
  servers.map fun server => ⟨server.1, some server.2⟩

/-- The other arguments have nothing to do with the servers. -/
theorem Arguments.cluster_eq (a : Arguments) :
    a.cluster = { ofMentions (mentions a.servers) with
      enabled := a.clusterEnabled
      secure := a.secure
      election := a.election } := by
  rw [cluster, ofMentions, mentions, List.foldl_map]
  rfl

theorem Arguments.follows_cluster (a : Arguments) : a.cluster.Follows (mentions a.servers) := by
  have h := Cluster.follows_ofMentions (mentions a.servers)
  rw [a.cluster_eq]
  exact ⟨h.distinct, h.mentioned, h.ordered, h.address⟩

def serverOption (value : String) : String := "--server-id=" ++ value

theorem read_serverOption {s : State} (hp : s.pending = none) (hc : s.closed = false) (value : String) :
    s.read (serverOption value) =
      match server? value with
      | some server =>
        .ok { s with
          given := .setting .server :: s.given
          arguments.servers := s.arguments.servers ++ [server] }
      | none => .error .invalidValue := by
  obtain ⟨a, given, pending, closed⟩ := s
  obtain rfl : pending = none := hp
  obtain rfl : closed = false := hc
  have hlist : (serverOption value).toList = '-' :: '-' :: ("server-id".toList ++ '=' :: value.toList) :=
    String.toList_append
  have hlong : State.long ⟨a, given, none, false⟩ ("server-id".toList ++ '=' :: value.toList) =
      State.give ⟨a, given, none, false⟩ .server (some (String.ofList value.toList)) := rfl
  rw [State.read, if_neg Bool.false_ne_true, hlist]
  change State.long ⟨a, given, none, false⟩ _ = _
  rw [hlong, String.ofList_toList, State.give]
  dsimp only
  rw [if_neg fun h => Bool.noConfusion h.2, Arguments.set]
  cases server? value <;> rfl

theorem foldlM_read_serverOption {s : State} (hp : s.pending = none) (hc : s.closed = false)
    (values : List String) :
    (values.map serverOption).foldlM State.read s =
      match values.mapM server? with
      | some servers =>
        .ok { s with
          given := List.replicate servers.length (.setting .server) ++ s.given
          arguments.servers := s.arguments.servers ++ servers }
      | none => .error .invalidValue := by
  induction values generalizing s with
  | nil => simp [pure, Except.pure]
  | cons value values ih =>
    rw [List.map_cons, List.foldlM_cons, read_serverOption hp hc, List.mapM_cons]
    cases server? value with
    | none => rfl
    | some server =>
      have hrest := ih (s := { s with
        given := .setting .server :: s.given
        arguments.servers := s.arguments.servers ++ [server] }) hp hc
      change (values.map serverOption).foldlM State.read _ = _
      rw [hrest]
      cases values.mapM server? with
      | none => rfl
      | some servers => simp [List.replicate_succ']

theorem readArguments_serverOptions (values : List String) :
    readArguments (values.map serverOption) =
      match values.mapM server? with
      | some servers => .ok { servers }
      | none => .error .invalidValue := by
  rw [readArguments, foldlM_read_serverOption rfl rfl]
  cases values.mapM server? <;> rfl

theorem cluster_of_serverOptions (values : List String) :
    (parse (values.map serverOption)).map Config.cluster =
      match values.mapM server? with
      | some servers => .ok (ofMentions (mentions servers))
      | none => .error .invalidValue := by
  rw [parse, readArguments_serverOptions]
  cases values.mapM server? with
  | none => rfl
  | some servers =>
    refine congrArg Except.ok (({ servers } : Arguments).cluster_eq.trans ?_)
    obtain ⟨henabled, hsecure, helection⟩ := Cluster.ofMentions_rest (mentions servers)
    generalize ofMentions (mentions servers) = c at henabled hsecure helection
    cases c
    cases henabled
    cases hsecure
    cases helection
    rfl

end TypeCatalog.CommandLine

namespace TypeCatalog.Cluster

open CommandLine (Arguments)

/-- Of the servers that are mentioned, or given as arguments, this is the first that is found here. -/
theorem identity_follows_priority (ms : List Mention) (options : List String) :
    (ofMentions ms).Follows ms ∧
      (∀ lookup isLocal port id,
        (ofMentions ms).identity (firstOf lookup) isLocal port = .ok id ↔
          FoundHere ms lookup isLocal port id ∧ ∃ before after, (ofMentions ms).ids = before ++ id :: after ∧
            ∀ x ∈ before, ¬FoundHere ms lookup isLocal port x) ∧
      (∀ lookup isLocal port fault,
        (ofMentions ms).identity (firstOf lookup) isLocal port = .error fault ↔
          fault = ⟨port, (ofMentions ms).ids⟩ ∧
            ∀ x ∈ (ofMentions ms).ids, ¬FoundHere ms lookup isLocal port x) ∧
      (∀ a : Arguments, a.config.cluster.Follows (CommandLine.mentions a.servers) ∧
        ∀ resolve isLocal port, a.config.cluster.identity resolve isLocal port =
          (ofMentions (CommandLine.mentions a.servers)).identity resolve isLocal port) ∧
      (CommandLine.parse (options.map CommandLine.serverOption)).map Config.cluster =
        match options.mapM CommandLine.server? with
        | some servers => .ok (ofMentions (CommandLine.mentions servers))
        | none => .error .invalidValue := by
  have h := follows_ofMentions ms
  refine ⟨h, fun lookup isLocal port id => ?_, fun lookup isLocal port fault => ?_,
    fun a => ⟨a.follows_cluster, fun resolve isLocal port => ?_⟩, CommandLine.cluster_of_serverOptions options⟩
  · simp only [identity_eq_ok_iff, h.isHere_iff]
  · simp only [identity_eq_error_iff, h.isHere_iff]
  · have hcluster : a.config.cluster = _ := a.cluster_eq
    rw [hcluster]
    rfl

end TypeCatalog.Cluster
