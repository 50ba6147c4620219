import Mathlib.Data.Finset.Disjoint
import WeGoAll.Peer.SingleGameServer
import WeGoAll.Support.Runs

/-!
# Peer — Lobby

Who owns an endpoint in the lobby.  Peers join under new ids and report endpoints, in any order and
as often as they like; a report of a peer that has not joined is dropped.

* `lobby`: the system.
* `reporters`: the peers that reported an endpoint while they were registered, oldest first.
* `Run.owner`: an endpoint belongs to the first of them and to no other peer.
* `Run.endpoints_first_reporter`: the endpoints of distinct peers are disjoint, and each belongs
  to its first reporter.
* `Run.ready_iff`: a game is ready once enough peers joined and each was the first to report
  something.
-/

namespace Wga

inductive LobbyEvent where
  | addPeer (id : Bytes) (key : PublicKey) (name : Bytes)
  | setPeerEndpoints (id : Bytes) (endpoints : List Bytes)

namespace Lobby

/-- What an event does; a peer is added under a new id. -/
inductive Step : SingleGameServer → LobbyEvent → SingleGameServer → Prop where
  | addPeer {s : SingleGameServer} {id : Bytes} {key : PublicKey} {name : Bytes}
      (hnew : id ∉ s.peerData) : Step s (.addPeer id key name) (s.addPeer id key name)
  | setPeerEndpoints {s : SingleGameServer} {id : Bytes} {endpoints : List Bytes} :
      Step s (.setPeerEndpoints id endpoints) (s.setPeerEndpoints id endpoints)

end Lobby

/-- The lobby of a host. -/
def lobby (hostId : Bytes) (hostKey : PublicKey) (hostName : Bytes) (numPlayers : Nat) :
    System SingleGameServer LobbyEvent where
  init := (· = .new hostId hostKey hostName numPlayers)
  step := Lobby.Step

namespace Lobby

/-- The ids registered after `es`, where those in `known` were before. -/
def registered : List Bytes → List LobbyEvent → List Bytes
  | known, [] => known
  | known, .addPeer id _ _ :: es => registered (id :: known) es
  | known, .setPeerEndpoints _ _ :: es => registered known es

/-- Who reported the endpoint in `es` while registered, oldest first. -/
def reporters (endpoint : Bytes) : List Bytes → List LobbyEvent → List Bytes
  | _, [] => []
  | known, .addPeer id _ _ :: es => reporters endpoint (id :: known) es
  | known, .setPeerEndpoints id endpoints :: es =>
      if known.contains id && endpoints.contains endpoint then
        id :: reporters endpoint known es
      else reporters endpoint known es

/-- The endpoint is one of the peer's. -/
def Owns (s : SingleGameServer) (id endpoint : Bytes) : Prop :=
  ∃ d, s.peerData.lookup id = some d ∧ endpoint ∈ d.endpoints

/-! ### Histories -/

theorem registered_append {known : List Bytes} {es es' : List LobbyEvent} :
    registered known (es ++ es') = registered (registered known es) es' := by
  induction es generalizing known with
  | nil => rfl
  | cons e es ih =>
      cases e with
      | addPeer id key name => simp only [List.cons_append, registered, ih]
      | setPeerEndpoints id endpoints => simp only [List.cons_append, registered, ih]

theorem reporters_append {endpoint : Bytes} {known : List Bytes} {es es' : List LobbyEvent} :
    reporters endpoint known (es ++ es') =
      reporters endpoint known es ++ reporters endpoint (registered known es) es' := by
  induction es generalizing known with
  | nil => rfl
  | cons e es ih =>
      cases e with
      | addPeer id key name => simp only [List.cons_append, reporters, registered, ih]
      | setPeerEndpoints id endpoints =>
          simp only [List.cons_append, reporters, registered, ih]
          split
          · rfl
          · rfl

/-! ### What a step does to the owners -/

section Steps

variable {s : SingleGameServer} {id id' endpoint : Bytes} {key : PublicKey} {name : Bytes}
  {endpoints : List Bytes}

/-- A report is held against the endpoints of the other peers. -/
theorem gotDupe_iff : s.gotDupe id endpoint = true ↔ ∃ id' ≠ id, Owns s id' endpoint := by
  simp only [SingleGameServer.gotDupe, List.any_eq_true, Bool.and_eq_true, decide_eq_true_eq]
  constructor
  · rintro ⟨entry, hentry, hid, hend⟩
    exact ⟨entry.1, hid, entry.2, AList.mem_lookup_iff.mpr hentry, hend⟩
  · rintro ⟨id', hid, d, hd, hend⟩
    exact ⟨⟨id', d⟩, AList.mem_lookup_iff.mp hd, hid, hend⟩

/-- A new peer owns nothing. -/
theorem owns_addPeer (hnew : id ∉ s.peerData) :
    Owns (s.addPeer id key name) id' endpoint ↔ Owns s id' endpoint := by
  by_cases h : id' = id
  · subst h
    simp [Owns, SingleGameServer.addPeer, ServerPeerData.new, AList.lookup_eq_none.mpr hnew]
  · simp [Owns, SingleGameServer.addPeer, AList.lookup_insert_ne h]

private theorem mem_foldl_insert {l : List Bytes} {set : Finset Bytes} :
    endpoint ∈ l.foldl (fun set e => insert e set) set ↔ endpoint ∈ set ∨ endpoint ∈ l := by
  induction l generalizing set with
  | nil => simp
  | cons a l ih =>
      simp only [List.foldl_cons, ih, Finset.mem_insert, List.mem_cons]
      tauto

/-- A registered peer gets what it reports, unless another peer has it. -/
theorem owns_setPeerEndpoints :
    Owns (s.setPeerEndpoints id endpoints) id' endpoint ↔
      Owns s id' endpoint ∨ (id' = id ∧ id ∈ s.peerData ∧ endpoint ∈ endpoints ∧
        ∀ other ≠ id, ¬ Owns s other endpoint) := by
  have hdupe : s.gotDupe id endpoint = false ↔ ∀ other ≠ id, ¬ Owns s other endpoint := by
    rw [← Bool.not_eq_true, gotDupe_iff]
    push Not
    rfl
  rw [← hdupe, SingleGameServer.setPeerEndpoints]
  split
  · rename_i hnone
    simp [AList.lookup_eq_none.mp hnone]
  · rename_i it hit
    have hmem : id ∈ s.peerData := AList.lookup_isSome.mp (by simp [hit])
    by_cases h : id' = id
    · subst h
      simp [Owns, hit, hmem, mem_foldl_insert]
    · simp [Owns, AList.lookup_insert_ne h, h]

theorem mem_setPeerEndpoints :
    id' ∈ (s.setPeerEndpoints id endpoints).peerData ↔ id' ∈ s.peerData := by
  rw [SingleGameServer.setPeerEndpoints]
  split
  · rfl
  · rename_i it hit
    have hmem : id ∈ s.peerData := AList.lookup_isSome.mp (by simp [hit])
    simp only [AList.mem_insert]
    exact or_iff_right_of_imp fun h => h ▸ hmem

end Steps

/-! ### Runs -/

section Runs

variable {hostId : Bytes} {hostKey : PublicKey} {hostName : Bytes} {numPlayers : Nat}
  {es : List LobbyEvent} {s : SingleGameServer}

/-- The peers of the lobby are those registered. -/
theorem Run.mem_peerData (r : (lobby hostId hostKey hostName numPlayers).Run es s) (id : Bytes) :
    id ∈ s.peerData ↔ id ∈ registered [hostId] es := by
  induction r with
  | start h =>
      subst h
      simp only [SingleGameServer.new, SingleGameServer.addPeer, AList.mem_insert, registered,
        List.mem_singleton, or_iff_left_iff_imp]
      exact fun h => absurd h (AList.notMem_empty id)
  | snoc _ h ih =>
      rw [registered_append]
      cases h with
      | addPeer hnew =>
          simp only [SingleGameServer.addPeer, AList.mem_insert, registered, List.mem_cons,
            ih]
      | setPeerEndpoints => simp only [mem_setPeerEndpoints, registered, ih]

/-- **An endpoint belongs to its first reporter**, and to no other peer. -/
theorem Run.owner (r : (lobby hostId hostKey hostName numPlayers).Run es s) (id endpoint : Bytes) :
    Owns s id endpoint ↔ (reporters endpoint [hostId] es).head? = some id := by
  induction r generalizing id with
  | start h =>
      subst h
      simp only [SingleGameServer.new]
      rw [owns_addPeer (by simp)]
      simp [Owns, reporters]
  | snoc r h ih =>
      rw [reporters_append]
      cases h with
      | addPeer hnew =>
          rw [owns_addPeer hnew, ih]
          simp [reporters]
      | @setPeerEndpoints reporter endpoints =>
          simp only [owns_setPeerEndpoints, ih, Run.mem_peerData r, reporters, Bool.and_eq_true,
            List.contains_iff_mem]
          cases hfirst : reporters endpoint [hostId] _ with
          | nil =>
              -- nobody had reported it
              simp only [List.head?_nil, List.nil_append]
              split
              · rename_i hreport
                simp [hreport, eq_comm]
              · rename_i hreport
                simp only [reduceCtorEq, not_false_eq_true, implies_true, and_true, false_or,
                  List.head?_nil, iff_false]
                exact fun h => hreport h.2
          | cons first rest =>
              -- the first reporter keeps it, and nobody else passes the filter
              simp only [List.head?_cons, List.cons_append, Option.some.injEq, or_iff_left_iff_imp]
              rintro ⟨rfl, -, -, hnone⟩
              by_contra hne
              exact hnone first hne rfl

/-- **The lobby never gives one endpoint to two peers.**  The endpoints of distinct peers are
disjoint, and an endpoint reported by a peer that was registered then is, whoever reported it later,
in the set of the first such peer and in no other. -/
theorem Run.endpoints_first_reporter
    (r : (lobby hostId hostKey hostName numPlayers).Run es s) :
    (∀ a b d d', s.peerData.lookup a = some d → s.peerData.lookup b = some d' → a ≠ b →
      Disjoint d.endpoints d'.endpoints) ∧
    ∀ endpoint first rest, reporters endpoint [hostId] es = first :: rest →
      ∀ id, (∃ d, s.peerData.lookup id = some d ∧ endpoint ∈ d.endpoints) ↔ id = first := by
  constructor
  · intro a b d d' ha hb hab
    refine Finset.disjoint_left.mpr fun endpoint hd hd' => hab ?_
    have hfirst := (Run.owner r a endpoint).mp ⟨d, ha, hd⟩
    exact Option.some.inj (hfirst.symm.trans ((Run.owner r b endpoint).mp ⟨d', hb, hd'⟩))
  · intro endpoint first rest hfirst id
    have howner := Run.owner r id endpoint
    rw [hfirst, List.head?_cons, Option.some.injEq] at howner
    exact howner.trans eq_comm

/-- A guest reports an endpoint, then the host reports it too. -/
def sharing : List LobbyEvent :=
  [.addPeer (ascii ['g']) (List.Vector.replicate 32 1) [],
    .setPeerEndpoints (ascii ['g']) [ascii ['x']],
    .setPeerEndpoints (ascii ['h']) [ascii ['x'], ascii ['y']]]

private theorem sharing_run : ∃ s,
    (lobby (ascii ['h']) (List.Vector.replicate 32 0) [] 2).Run sharing s :=
  have hnew : ascii ['g'] ∉
      (SingleGameServer.new (ascii ['h']) (List.Vector.replicate 32 0) [] 2).peerData := by decide
  ⟨_, .snoc (.snoc (.snoc (.start rfl)
    (Step.addPeer hnew)) Step.setPeerEndpoints) Step.setPeerEndpoints⟩

theorem Run.endpoints_first_reporter_shared :
    ∃ s, (lobby (ascii ['h']) (List.Vector.replicate 32 0) [] 2).Run sharing s ∧
      (∃ d, s.peerData.lookup (ascii ['g']) = some d ∧ ascii ['x'] ∈ d.endpoints) ∧
      ¬ ∃ d, s.peerData.lookup (ascii ['h']) = some d ∧ ascii ['x'] ∈ d.endpoints := by
  obtain ⟨s, r⟩ := sharing_run
  have hfirst := (Run.endpoints_first_reporter r).2 (ascii ['x']) (ascii ['g']) [ascii ['h']] rfl
  exact ⟨s, r, (hfirst _).mpr rfl, fun h => absurd ((hfirst _).mp h) (by decide)⟩

/-- A game is ready once enough peers joined and each of them was the first to report something. -/
theorem Run.ready_iff (r : (lobby hostId hostKey hostName numPlayers).Run es s) :
    s.ready = true ↔ s.numPlayers ≤ s.peerData.entries.length ∧
      ∀ id ∈ registered [hostId] es, ∃ endpoint,
        (reporters endpoint [hostId] es).head? = some id := by
  simp only [SingleGameServer.ready, Bool.and_eq_true, decide_eq_true_eq, List.all_eq_true,
    ← Run.owner r, ← Run.mem_peerData r]
  refine and_congr_right fun _ => ⟨fun h id hid => ?_, fun h entry hentry => ?_⟩
  · obtain ⟨d, hd⟩ := Option.isSome_iff_exists.mp (AList.lookup_isSome.mpr hid)
    obtain ⟨endpoint, he⟩ := Finset.nonempty_of_ne_empty (h ⟨id, d⟩ (AList.mem_lookup_iff.mp hd))
    exact ⟨endpoint, d, hd, he⟩
  · have hlookup : s.peerData.lookup entry.1 = some entry.2 := AList.mem_lookup_iff.mpr hentry
    obtain ⟨endpoint, d, hd, he⟩ := h entry.1 (AList.lookup_isSome.mp (by simp [hlookup]))
    cases hlookup.symm.trans hd
    exact Finset.ne_empty_of_mem he

end Runs

end Lobby

end Wga
