import WeGoAll.Endpoints.Prepared
import WeGoAll.Peer.SetUp

/-!
# Peer — Session

A lobby and the processes of a game up to their first update.  Each process has its user id and its
private key; they ask the lobby in any order, and any of them may be late.  The lobby always
answers: a failed HTTP exchange ends a process.  No datagram arrives here between two registrations
of peers, where it could change the `receiveEndpoint` of a handler.

* `session`: the system.
* `Session.Inv`: what the lobby and every process know in every state.
* `positions_agree`: all processes see the same players in the same places.
* `session_handshakes`: the handlers two processes make for each other can shake hands.
* `position_found`: a player that has joined gets its position.
-/

namespace Wga

/-! ### The system -/

/-- The lobby, and the processes by their user ids. -/
structure Session where
  server : GameServer
  peers : Bytes → Option MyPeer

inductive SessionEvent where
  /-- A process starts: it asks for the id of the game and for the game. -/
  | construct (p name : Bytes)
  | host (p gameName : Bytes)
  | join (p : Bytes)
  /-- The application calls `start`, which reports these endpoints. -/
  | start (p : Bytes) (myIps : List Bytes)
  /-- The timer of `checkForEndpoints` runs out. -/
  | checkForEndpoints (p : Bytes) (w : Surroundings)
  | getInitialPosition (p : Bytes)

namespace Session

def process (p : Bytes) (s : Session) : Except Fault MyPeer :=
  match s.peers p with
  | none => .error (.thrown "no such step")
  | some m => .ok m

def set (p : Bytes) (m : MyPeer) (s : Session) : Session :=
  { s with peers := Function.update s.peers p (some m) }

def step (L : Libraries) (privateKey : Bytes → PrivateKey) (s : Session) :
    SessionEvent → Except Fault Session
  | .construct p name =>
      match s.peers p with
      | some _ => .error (.thrown "no such step")
      | none => do
          let gameId := s.server.gameId
          let result ← s.server.getGameInfo L gameId
          .ok (s.set p (.new L p (privateKey p) name gameId result))
  | .host p gameName => do
      let m ← s.process p
      let server ← m.host gameName s.server
      .ok { s with server := server }
  | .join p => do
      let m ← s.process p
      let server ← m.join L s.server
      .ok { s with server := server }
  | .start p myIps => do
      let m ← s.process p
      if m.next = .none then
        let (m, server) := m.start myIps s.server
        .ok ({ s with server := server }.set p m)
      else .error (.thrown "no such step")
  | .checkForEndpoints p w => do
      let m ← s.process p
      if m.next = .checkForEndpoints then
        let result ← s.server.getGameInfo L m.gameId
        let m ← m.checkForEndpoints L w result
        .ok (s.set p m)
      else .error (.thrown "no such step")
  | .getInitialPosition p => do
      let m ← s.process p
      if m.next = .getInitialPosition then
        let result ← s.server.getGameInfo L m.gameId
        let m ← m.getInitialPosition result
        .ok (s.set p m)
      else .error (.thrown "no such step")

end Session

/-- The runs of a lobby for `numPlayers` players and of the processes that use it, in which all of
them survive. -/
def session (L : Libraries) (privateKey : Bytes → PrivateKey) (hostId hostName : Bytes)
    (numPlayers : Nat) : System Session SessionEvent :=
  .ofStep (· = ⟨.new hostId (L.scalarmultBase (privateKey hostId)) hostName numPlayers,
    fun _ => none⟩) (Session.step L privateKey)

/-! ### What a process knows -/

/-- The ids in the order of their positions. -/
def places (hostId : Bytes) (ids : List Bytes) : List Bytes :=
  hostId :: (ids.filter (· ≠ hostId)).insertionSort (· ≤ ·)

/-- The places do not depend on the order the ids are listed in. -/
theorem places_congr {hostId : Bytes} {ids ids' : List Bytes} (h : ids.Perm ids') :
    places hostId ids = places hostId ids' := by
  rw [places, places, sorted_congr (h.filter _)]

theorem mem_places {hostId id : Bytes} {ids : List Bytes} (hhost : hostId ∈ ids) :
    id ∈ places hostId ids ↔ id ∈ ids := by
  rw [places, List.mem_cons, mem_insertionSort, List.mem_filter, decide_eq_true_eq]
  constructor
  · rintro (rfl | ⟨h, -⟩)
    · exact hhost
    · exact h
  · intro h
    by_cases heq : id = hostId
    · exact .inl heq
    · exact .inr ⟨h, heq⟩

/-- No id has two places. -/
theorem places_nodup {hostId : Bytes} {ids : List Bytes} (h : ids.Nodup) :
    (places hostId ids).Nodup := by
  rw [places, List.nodup_cons, mem_insertionSort, (List.perm_insertionSort _ _).nodup_iff]
  exact ⟨fun hm => by simp at hm, h.filter _⟩

namespace MyPeer

variable {L : Libraries} {privateKey : Bytes → PrivateKey} {ids : List Bytes} {m m' : MyPeer}

/-- The peers `ids` are set up. -/
structure Knows (L : Libraries) (privateKey : Bytes → PrivateKey) (ids : List Bytes) (m : MyPeer) :
    Prop where
  server : (rpcServers L).Reachable m.rpcServer
  peerData : ∀ id, id ∈ m.peerData ↔ id ∈ ids
  keys : ∀ id d, m.peerData.lookup id = some d → d.publicKey = L.scalarmultBase (privateKey id)
  endpoints : ∀ id, id ∈ m.rpcServer.endpoints ↔ id ∈ ids ∧ id ≠ m.userId
  handlers : ∀ id h, m.rpcServer.handler id = some h →
    (prepared L m.privateKey (L.scalarmultBase (privateKey id))).Reachable h

/-- A handler made for a peer is one of the handlers the handshake is about. -/
theorem makeHandler_prepared {w : Surroundings} {key : PrivateKey} {id : Bytes}
    {peerKey : PublicKey} {endpoints : List Endpoint} {h : EncryptedHandler}
    (hh : makeHandler L w key id peerKey endpoints = .ok h) :
    (prepared L key peerKey).Reachable h ∧ ∃ c : Construction, c.make L = .ok h := by
  obtain ⟨h₀, h₀', hh⟩ := bind_ok.mp hh
  have hbans : ∀ (eps : List Endpoint) (a b : EncryptedHandler),
      eps.foldlM (fun handler ep => if w.myIps.contains ep.text then
        MultiEndpointHandler.banEndpoint ep handler else .ok handler) a = .ok b →
      ((prepared L key peerKey).Reachable a → (prepared L key peerKey).Reachable b) ∧
        ∃ calls : List OwnerCall, calls.foldlM (OwnerCall.run L) a = .ok b := by
    intro eps
    induction eps with
    | nil =>
        intro a b h
        cases h
        exact ⟨fun ha => ha, [], rfl⟩
    | cons ep eps ih =>
        intro a b h
        rw [List.foldlM_cons] at h
        obtain ⟨a₁, h₁, h⟩ := bind_ok.mp h
        obtain ⟨hprep, calls, hcalls⟩ := ih a₁ b h
        split at h₁
        · refine ⟨fun ha => hprep (ha.step (e := .owner (.banEndpoint ep)) ⟨trivial, h₁⟩),
            .banEndpoint ep :: calls, ?_⟩
          rw [List.foldlM_cons]
          exact bind_ok.mpr ⟨a₁, h₁, hcalls⟩
        · cases h₁
          exact ⟨hprep, calls, hcalls⟩
  obtain ⟨hprep, calls, hcalls⟩ := hbans _ _ _ hh
  refine ⟨hprep ⟨[], .start ⟨endpoints, w.now id, w.flaky, w.env id, h₀'⟩⟩,
    ⟨key, peerKey, endpoints, w.now id, w.flaky, w.env id, calls⟩, bind_ok.mpr ⟨h₀, h₀', hcalls⟩⟩

/-- A handler is added and sends its session key. -/
theorem addHandler_knows {id : Bytes} {d : PlayerData} {h : EncryptedHandler}
    {key : SessionKey} {server₁ server₂ : RpcServer} (hm : m.Knows L privateKey ids)
    (hid : id ∉ ids) (hself : id ≠ m.userId) (hd : d.publicKey = L.scalarmultBase (privateKey id))
    (hkey : key ≠ emptySessionKey) (hc : ∃ c : Construction, c.make L = .ok h)
    (hh : (prepared L m.privateKey d.publicKey).Reachable h)
    (h₁ : m.rpcServer.addEndpoint id h = .ok server₁)
    (h₂ : server₁.call L m.rpcServer.mux.recipients.length (.sendSessionKey key) = .ok server₂) :
    ({ m with peerData := m.peerData.insert id d, rpcServer := server₂ } : MyPeer).Knows L
      privateKey (ids ++ [id]) := by
  obtain ⟨c, hc⟩ := hc
  have hnew : id ∉ m.rpcServer.endpoints := fun hm' => hid ((hm.endpoints id).mp hm').1
  obtain ⟨es, r⟩ := hm.server
  have hsound := RpcServer.Run.sound r
  obtain ⟨hlen, hlast, hends, hold⟩ := RpcServer.addEndpoint_handlers hnew h₁
  obtain ⟨hends₂, -, hsent, hrest⟩ := RpcServer.call_ok h₂
  obtain ⟨h', hsend, hlast'⟩ := hsent h hlast
  have hreach₁ : (rpcServers L).Reachable server₁ :=
    hm.server.step (e := .addEndpoint id c) (bind_ok.mpr ⟨h, hc, h₁⟩)
  have hlookup : server₁.endpoints.lookup id = some m.rpcServer.mux.recipients.length := by
    rw [hends, AList.lookup_insert]
  have hreach₂ : (rpcServers L).Reachable server₂ := by
    refine hreach₁.step (e := .callAt id (.thrown "") (.sendSessionKey key)) ?_
    change server₁.callAt L id _ _ = _
    rw [RpcServer.callAt, hlookup]
    exact h₂
  refine ⟨hreach₂, fun a => ?_, fun a e ha => ?_, fun a => ?_, fun a b hb => ?_⟩
  · rw [AList.mem_insert, hm.peerData, List.mem_append, List.mem_singleton, or_comm]
  · by_cases heq : a = id
    · subst heq
      rw [AList.lookup_insert] at ha
      cases ha
      exact hd
    · rw [AList.lookup_insert_ne heq] at ha
      exact hm.keys a e ha
  · rw [hends₂, hends, AList.mem_insert, hm.endpoints, List.mem_append, List.mem_singleton]
    constructor
    · rintro (rfl | ⟨ha, hne⟩)
      · exact ⟨.inr rfl, hself⟩
      · exact ⟨.inl ha, hne⟩
    · rintro ⟨ha | rfl, hne⟩
      · exact .inr ⟨ha, hne⟩
      · exact .inl rfl
  · obtain ⟨i, hi, hb⟩ := Option.bind_eq_some_iff.mp hb
    rw [hends₂, hends] at hi
    by_cases heq : a = id
    · subst heq
      rw [AList.lookup_insert, Option.some.injEq] at hi
      subst hi
      cases hlast'.symm.trans hb
      exact (hd ▸ hh).step (e := .owner (.sendSessionKey key)) ⟨hkey, hsend⟩
    · rw [AList.lookup_insert_ne heq] at hi
      have hlt := hsound.2.lt a i hi
      obtain ⟨b₁, hb₁, hbans⟩ := hold i _ (List.getElem?_eq_getElem hlt)
      cases ((hrest i hlt.ne).symm.trans hb).symm.trans hb₁
      exact prepared_bans (hm.handlers a _ (Option.bind_eq_some_iff.mpr
        ⟨i, hi, List.getElem?_eq_getElem hlt⟩)) hbans

/-- What the set-up leaves as it is. -/
def identity (m : MyPeer) : Bytes × PrivateKey × PublicKey × Bytes × Bytes × Int × NextExchange :=
  (m.userId, m.privateKey, m.publicKey, m.gameId, m.hostId, m.position, m.next)

/-- Setting up one peer more. -/
theorem setUpPeer_knows {w : Surroundings} {it : Bytes × PeerInfo}
    (hm : m.Knows L privateKey ids) (hid : it.1 ∉ ids)
    (hkey : it.2.key = CryptoHandler.keyToString L (L.scalarmultBase (privateKey it.1)))
    (h : setUpPeer L w m it = .ok m') :
    m'.Knows L privateKey (ids ++ [it.1]) ∧ m'.identity = m.identity := by
  obtain ⟨id, value⟩ := it
  simp only [setUpPeer] at h
  obtain ⟨peerKey, hpeerKey, h⟩ := bind_ok.mp h
  rw [hkey, EncryptedMultiEndpointHandler.stringToKey_keyToString] at hpeerKey
  cases hpeerKey
  split at h
  · rename_i hself
    cases h
    refine ⟨⟨hm.server, fun a => ?_, fun a d ha => ?_, fun a => ?_, hm.handlers⟩, rfl⟩
    · simp only [AList.mem_insert, hm.peerData, List.mem_append, List.mem_singleton, or_comm]
    · by_cases heq : a = id
      · subst heq
        rw [AList.lookup_insert] at ha
        cases ha
        rfl
      · exact hm.keys a d (AList.lookup_insert_ne heq ▸ ha)
    · simp only [hm.endpoints, List.mem_append, List.mem_singleton]
      refine ⟨fun ha => ⟨.inl ha.1, ha.2⟩, ?_⟩
      rintro ⟨ha | rfl, hne⟩
      · exact ⟨ha, hne⟩
      · exact absurd hself hne
  · rename_i hself
    obtain ⟨endpoints, -, h⟩ := bind_ok.mp h
    obtain ⟨handler, hhandler, h⟩ := bind_ok.mp h
    obtain ⟨server₁, h₁, h⟩ := bind_ok.mp h
    obtain ⟨server₂, h₂, h⟩ := bind_ok.mp h
    cases h
    obtain ⟨hprep, hc⟩ := makeHandler_prepared hhandler
    exact ⟨addHandler_knows hm hid hself rfl (w.key id).2 hc hprep h₁ h₂, rfl⟩

/-- Setting up a list of peers. -/
theorem setUpPeers_knows {w : Surroundings} {l : List (Bytes × PeerInfo)}
    (hm : m.Knows L privateKey ids) (hnodup : (ids ++ l.map Prod.fst).Nodup)
    (hkey : ∀ it ∈ l,
      it.2.key = CryptoHandler.keyToString L (L.scalarmultBase (privateKey it.1)))
    (h : l.foldlM (setUpPeer L w) m = .ok m') :
    m'.Knows L privateKey (ids ++ l.map Prod.fst) ∧ m'.identity = m.identity := by
  induction l generalizing m ids with
  | nil =>
      cases h
      exact ⟨by simpa using hm, rfl⟩
  | cons it l ih =>
      rw [List.foldlM_cons] at h
      obtain ⟨m₁, h₁, h⟩ := bind_ok.mp h
      have happ : ids ++ (it :: l).map Prod.fst = (ids ++ [it.1]) ++ l.map Prod.fst := by simp
      rw [happ] at hnodup ⊢
      have hid : it.1 ∉ ids := fun hm => by
        have hdisj := (List.nodup_append.mp (List.nodup_append.mp hnodup).1).2.2
        exact hdisj it.1 hm it.1 (List.mem_singleton.mpr rfl) rfl
      obtain ⟨hknows₁, hidentity₁⟩ := setUpPeer_knows hm hid (hkey it List.mem_cons_self) h₁
      obtain ⟨hknows, hidentity⟩ := ih hknows₁ hnodup
        (fun a ha => hkey a (List.mem_cons_of_mem _ ha)) h
      exact ⟨hknows, hidentity.trans hidentity₁⟩

/-! ### Positions -/

section Positions

variable {peerData : List (Bytes × PeerInfo)} {userId publicKeyB64 : Bytes} {l : List Bytes}
  {a : Nat} {position r : Int}

/-- A second match ends the process. -/
theorem findPosition_found (hfound : position ≠ -1)
    (h : findPosition peerData userId publicKeyB64 l a position = .ok r) : r = position := by
  induction l generalizing a with
  | nil =>
      cases h
      rfl
  | cons peerId l ih =>
      rw [findPosition, if_pos hfound] at h
      split at h
      · cases h
      · exact ih h

/-- **The position found is the place of the id.** -/
theorem findPosition_ok (h : findPosition peerData userId publicKeyB64 l a (-1) = .ok r)
    (hr : r ≠ -1) : ∃ i : Nat, r = (a + i : Nat) ∧ l[i]? = some userId := by
  induction l generalizing a with
  | nil =>
      cases h
      exact absurd rfl hr
  | cons peerId l ih =>
      rw [findPosition] at h
      split at h
      · rename_i hself
        rw [if_neg (by simp)] at h
        split at h
        · cases h
        · exact ⟨0, findPosition_found (by omega) h, by simp [hself]⟩
      · obtain ⟨i, hi, hget⟩ := ih h
        refine ⟨i + 1, by omega, by simpa using hget⟩

/-- An id that stands in the list once is found. -/
theorem findPosition_ends (position : Int) (a : Nat) (hnodup : l.Nodup)
    (hkey : (peerData.lookup userId).map PeerInfo.key = some publicKeyB64)
    (hposition : userId ∈ l → position = -1) :
    ∃ r, findPosition peerData userId publicKeyB64 l a position = .ok r ∧
      (userId ∈ l → r ≠ -1) := by
  induction l generalizing position a with
  | nil => exact ⟨position, rfl, fun h => absurd h List.not_mem_nil⟩
  | cons peerId l ih =>
      rw [List.nodup_cons] at hnodup
      rw [findPosition]
      split
      · rename_i hself
        subst hself
        rw [if_neg (by simp [hposition List.mem_cons_self]), if_neg (by simp [hkey])]
        obtain ⟨r, hr, -⟩ := ih a (a + 1) hnodup.2
          fun hm => absurd hm hnodup.1
        refine ⟨r, hr, fun _ => ?_⟩
        rw [findPosition_found (by omega) hr]
        omega
      · rename_i hother
        obtain ⟨r, hr, hfound⟩ := ih position (a + 1) hnodup.2
          fun hm => hposition (List.mem_cons_of_mem _ hm)
        exact ⟨r, hr, fun hm => hfound ((List.mem_cons.mp hm).resolve_left (Ne.symm hother))⟩

end Positions

end MyPeer

/-! ### What the lobby knows -/

namespace GameServer

variable {L : Libraries} {privateKey : Bytes → PrivateKey} {hostId : Bytes} {n : Nat}
  {server server' : GameServer} {result : GameInfo}

/-- The lobby of this host, where every player has registered with a key of its own. -/
structure Honest (L : Libraries) (privateKey : Bytes → PrivateKey) (hostId : Bytes) (n : Nat)
    (server : GameServer) : Prop where
  hostId_eq : server.hostId = hostId
  numPlayers_eq : server.numPlayers = n
  gameId_eq : server.gameId = MY_GAME_ID
  host : hostId ∈ server.peerData
  keys : ∀ id d, server.peerData.lookup id = some d → d.key = L.scalarmultBase (privateKey id)

theorem honest_new {hostName : Bytes} : Honest L privateKey hostId n
    (.new hostId (L.scalarmultBase (privateKey hostId)) hostName n) := by
  refine ⟨rfl, rfl, rfl, AList.mem_insert _ |>.mpr (.inl rfl), fun id d hd => ?_⟩
  simp only [new, SingleGameServer.new, SingleGameServer.addPeer] at hd
  by_cases heq : id = hostId
  · subst heq
    rw [AList.lookup_insert] at hd
    cases hd
    rfl
  · rw [AList.lookup_insert_ne heq, AList.lookup_empty] at hd
    cases hd

/-- **The document of the game** names the players and their keys. -/
theorem getGameInfo_ok {gameId : Bytes} (hs : server.Honest L privateKey hostId n)
    (h : server.getGameInfo L gameId = .ok result) :
    result.hostId = hostId ∧ (result.peerData.map Prod.fst).Perm server.peerData.keys ∧
      (∀ it ∈ result.peerData,
        it.2.key = CryptoHandler.keyToString L (L.scalarmultBase (privateKey it.1))) ∧
      (result.ready = true → n ≤ server.peerData.keys.length) := by
  rw [getGameInfo] at h
  split at h
  · cases h
  · cases h
    refine ⟨hs.hostId_eq, ?_, fun it hit => ?_, fun hready => ?_⟩
    · rw [List.map_map]
      exact entriesInOrder_keys server.peerData
    · obtain ⟨⟨id, d⟩, hd, rfl⟩ := List.mem_map.mp hit
      exact congrArg (CryptoHandler.keyToString L) (hs.keys id d (mem_entriesInOrder.mp hd))
    · rw [SingleGameServer.ready, Bool.and_eq_true, decide_eq_true_eq, hs.numPlayers_eq] at hready
      simpa [AList.keys, List.keys] using hready.1

theorem Honest.join {p name : Bytes} (hs : server.Honest L privateKey hostId n)
    (h : server.join L p (CryptoHandler.keyToString L (L.scalarmultBase (privateKey p))) name =
      .ok server') :
    server'.Honest L privateKey hostId n ∧ server.peerData.keys ⊆ server'.peerData.keys := by
  obtain ⟨key, hkey, h⟩ := bind_ok.mp h
  rw [EncryptedMultiEndpointHandler.stringToKey_keyToString] at hkey
  cases hkey
  obtain ⟨lobby, hjoin, h⟩ := bind_ok.mp h
  cases h
  rw [SingleGameServer.join] at hjoin
  split at hjoin
  · cases hjoin
  · cases hjoin
    refine ⟨⟨hs.hostId_eq, hs.numPlayers_eq, hs.gameId_eq, (AList.mem_insert _).mpr (.inr hs.host),
      fun id d hd => ?_⟩, fun id hid => (AList.mem_insert _).mpr (.inr hid)⟩
    simp only [SingleGameServer.addPeer] at hd
    by_cases heq : id = p
    · subst heq
      rw [AList.lookup_insert] at hd
      cases hd
      rfl
    · exact hs.keys id d (AList.lookup_insert_ne heq ▸ hd)

theorem Honest.updateEndpoints (hs : server.Honest L privateKey hostId n) (p : Bytes)
    (endpoints : List Bytes) :
    (server.updateEndpoints p endpoints).Honest L privateKey hostId n ∧
      ∀ id, id ∈ (server.updateEndpoints p endpoints).peerData ↔ id ∈ server.peerData := by
  simp only [GameServer.updateEndpoints, SingleGameServer.setPeerEndpoints]
  split
  · exact ⟨hs, fun id => Iff.rfl⟩
  · rename_i it hit
    have hp : p ∈ server.peerData := AList.lookup_isSome.mp (Option.isSome_of_eq_some hit)
    refine ⟨⟨hs.hostId_eq, hs.numPlayers_eq, hs.gameId_eq, (AList.mem_insert _).mpr (.inr hs.host),
      fun id d hd => ?_⟩, fun id => ?_⟩
    · by_cases heq : id = p
      · subst heq
        rw [AList.lookup_insert] at hd
        cases hd
        exact hs.keys id it hit
      · exact hs.keys id d (AList.lookup_insert_ne heq ▸ hd)
    · rw [AList.mem_insert]
      exact or_iff_right_of_imp fun h => h ▸ hp

end GameServer

/-! ### Every state -/

/-- Ids of the lobby, as many as the game has players. -/
structure Enough (n : Nat) (known ids : List Bytes) : Prop where
  nodup : ids.Nodup
  le : n ≤ ids.length
  subset : ids ⊆ known

theorem Enough.mono {n : Nat} {known known' ids : List Bytes} (h : Enough n known ids)
    (hk : known ⊆ known') : Enough n known' ids := ⟨h.nodup, h.le, fun _ hid => hk (h.subset hid)⟩

/-- They are all the ids there are, when there are no more than that. -/
theorem Enough.perm {n : Nat} {known ids : List Bytes} (h : Enough n known ids)
    (hn : known.length ≤ n) : ids.Perm known :=
  (List.subperm_of_subset h.nodup h.subset).perm_of_length_le (hn.trans h.le)

/-- What holds of the process `p`, where the lobby has the ids `known`. -/
structure MyPeer.Stands (L : Libraries) (privateKey : Bytes → PrivateKey) (hostId : Bytes)
    (n : Nat) (known : List Bytes) (p : Bytes) (m : MyPeer) : Prop where
  userId_eq : m.userId = p
  privateKey_eq : m.privateKey = privateKey p
  publicKey_eq : m.publicKey = L.scalarmultBase (privateKey p)
  gameId_eq : m.gameId = GameServer.MY_GAME_ID
  early : m.next = .none ∨ m.next = .checkForEndpoints → m.Knows L privateKey []
  ready : m.next = .getInitialPosition ∨ m.next = .updating →
    ∃ ids, Enough n known ids ∧ m.Knows L privateKey ids
  placed : m.next = .updating → ∃ ids, Enough n known ids ∧
    ∃ i : Nat, m.position = i ∧ (places hostId ids)[i]? = some p

theorem MyPeer.Stands.mono {L : Libraries} {privateKey : Bytes → PrivateKey} {hostId p : Bytes}
    {n : Nat} {known known' : List Bytes} {m : MyPeer}
    (h : m.Stands L privateKey hostId n known p) (hk : known ⊆ known') :
    m.Stands L privateKey hostId n known' p := by
  refine ⟨h.userId_eq, h.privateKey_eq, h.publicKey_eq, h.gameId_eq, h.early, fun hn => ?_,
    fun hn => ?_⟩
  · obtain ⟨ids, hids, hknows⟩ := h.ready hn
    exact ⟨ids, hids.mono hk, hknows⟩
  · obtain ⟨ids, hids, hplace⟩ := h.placed hn
    exact ⟨ids, hids.mono hk, hplace⟩

namespace Session

variable {L : Libraries} {privateKey : Bytes → PrivateKey} {hostId hostName p : Bytes} {n : Nat}
  {s s' : Session} {m m' : MyPeer} {es : List SessionEvent}

/-- What the lobby and every process know. -/
structure Inv (L : Libraries) (privateKey : Bytes → PrivateKey) (hostId : Bytes) (n : Nat)
    (s : Session) : Prop where
  server : s.server.Honest L privateKey hostId n
  peers : ∀ p m, s.peers p = some m →
    m.Stands L privateKey hostId n s.server.peerData.keys p

theorem process_ok (h : s.process p = .ok m) : s.peers p = some m := by
  rw [process] at h
  split at h
  · cases h
  · rename_i heq
    cases h
    exact heq

theorem set_peers (q : Bytes) : (s.set p m).peers q = if q = p then some m else s.peers q :=
  Function.update_apply _ _ _ _

theorem Inv.set (hs : s.Inv L privateKey hostId n)
    (hm : m.Stands L privateKey hostId n s.server.peerData.keys p) :
    (s.set p m).Inv L privateKey hostId n := by
  refine ⟨hs.server, fun q m' hq => ?_⟩
  rw [set_peers] at hq
  split at hq
  · rename_i heq
    cases hq
    exact heq ▸ hm
  · exact hs.peers q m' hq

theorem Inv.withServer (hs : s.Inv L privateKey hostId n) {server : GameServer}
    (hserver : server.Honest L privateKey hostId n)
    (hk : s.server.peerData.keys ⊆ server.peerData.keys) :
    ({ s with server := server } : Session).Inv L privateKey hostId n :=
  ⟨hserver, fun p m hm => (hs.peers p m hm).mono hk⟩

theorem knows_new {gameId name : Bytes} {result : GameInfo} :
    (MyPeer.new L p (privateKey p) name gameId result).Knows L privateKey [] := by
  have hlookup : ∀ (id : Bytes) (d : PlayerData), (∅ : UnorderedMap Bytes PlayerData).lookup id =
      some d → False := fun id d hd => by
    rw [AList.lookup_empty] at hd
    cases hd
  refine ⟨⟨[], .start rfl⟩, fun id => ?_, fun id d hd => (hlookup id d hd).elim, fun id => ?_,
    fun id h hh => ?_⟩
  · exact iff_of_false (AList.notMem_empty id) List.not_mem_nil
  · exact iff_of_false (AList.notMem_empty id) fun h => List.not_mem_nil h.1
  · obtain ⟨i, hi, -⟩ := Option.bind_eq_some_iff.mp hh
    change (∅ : UnorderedMap Bytes Nat).lookup id = some i at hi
    rw [AList.lookup_empty] at hi
    cases hi

theorem checkForEndpoints_stands {w : Surroundings} {gameId : Bytes} {result : GameInfo}
    (hs : s.server.Honest L privateKey hostId n)
    (hm : m.Stands L privateKey hostId n s.server.peerData.keys p)
    (hnext : m.next = .checkForEndpoints)
    (hresult : s.server.getGameInfo L gameId = .ok result)
    (h : m.checkForEndpoints L w result = .ok m') :
    m'.Stands L privateKey hostId n s.server.peerData.keys p := by
  obtain ⟨-, hperm, hkeys, hready⟩ := GameServer.getGameInfo_ok hs hresult
  rw [MyPeer.checkForEndpoints] at h
  split at h
  · cases h
    exact hm
  · rename_i hnot
    have hn := hready (by simpa using hnot)
    obtain ⟨m₁, h₁, h⟩ := bind_ok.mp h
    obtain ⟨m₂, h₂, h⟩ := bind_ok.mp h
    cases h
    have hgame : m₁ = { m with gameName := m₁.gameName } := by
      rw [MyPeer.checkGame] at h₁
      split at h₁
      · split at h₁
        · cases h₁
        · split at h₁ <;> cases h₁
          rfl
      · cases h₁
        rfl
    have hearly := hm.early (.inr hnext)
    have hknows₁ : m₁.Knows L privateKey [] := by
      rw [hgame]
      exact ⟨hearly.server, hearly.peerData, hearly.keys, hearly.endpoints, hearly.handlers⟩
    have hnodup : ([] ++ result.peerData.map Prod.fst).Nodup :=
      hperm.nodup_iff.mpr s.server.peerData.nodupKeys
    obtain ⟨hknows, hidentity⟩ := MyPeer.setUpPeers_knows hknows₁ hnodup hkeys h₂
    have hids : Enough n s.server.peerData.keys (result.peerData.map Prod.fst) :=
      ⟨hnodup, hperm.length_eq ▸ hn, hperm.subset⟩
    have hsame : m₁.identity = m.identity := by
      rw [hgame]
      rfl
    simp only [MyPeer.identity, Prod.mk.injEq] at hidentity hsame
    refine ⟨?_, ?_, ?_, ?_, fun hn => ?_, fun _ => ⟨_, hids, ?_⟩, fun hn => ?_⟩
    · exact hidentity.1.trans (hsame.1.trans hm.userId_eq)
    · exact hidentity.2.1.trans (hsame.2.1.trans hm.privateKey_eq)
    · exact hidentity.2.2.1.trans (hsame.2.2.1.trans hm.publicKey_eq)
    · exact hidentity.2.2.2.1.trans (hsame.2.2.2.1.trans hm.gameId_eq)
    · rcases hn with hn | hn <;> cases hn
    · exact ⟨hknows.server, hknows.peerData, hknows.keys, hknows.endpoints, hknows.handlers⟩
    · cases hn

theorem getInitialPosition_stands {gameId : Bytes} {result : GameInfo}
    (hs : s.server.Honest L privateKey hostId n)
    (hm : m.Stands L privateKey hostId n s.server.peerData.keys p)
    (hnext : m.next = .getInitialPosition)
    (hresult : s.server.getGameInfo L gameId = .ok result)
    (h : m.getInitialPosition result = .ok m') :
    m'.Stands L privateKey hostId n s.server.peerData.keys p := by
  obtain ⟨hhost, hperm, -, -⟩ := GameServer.getGameInfo_ok hs hresult
  obtain ⟨ids, hids, hknows⟩ := hm.ready (.inl hnext)
  obtain ⟨key, -, h⟩ := bind_ok.mp h
  obtain ⟨position, hposition, h⟩ := bind_ok.mp h
  split at h
  · cases h
  · rename_i hne
    cases h
    obtain ⟨i, hi, hget⟩ := MyPeer.findPosition_ok hposition hne
    have hplaces : MyPeer.peerIds result = places hostId (result.peerData.map Prod.fst) := by
      rw [MyPeer.peerIds, places, hhost]
    have hle : n ≤ (result.peerData.map Prod.fst).length :=
      hids.le.trans (hperm.length_eq ▸
        (List.subperm_of_subset hids.nodup hids.subset).length_le)
    refine ⟨hm.userId_eq, hm.privateKey_eq, hm.publicKey_eq, hm.gameId_eq, fun hn => ?_,
      fun _ => ⟨ids, hids, hknows.server, hknows.peerData, hknows.keys, hknows.endpoints,
        hknows.handlers⟩,
      fun _ => ⟨result.peerData.map Prod.fst,
        ⟨hperm.nodup_iff.mpr s.server.peerData.nodupKeys, hle, hperm.subset⟩, i, ?_, ?_⟩⟩
    · rcases hn with hn | hn <;> cases hn
    · simpa using hi
    · rw [← hplaces, hget, hm.userId_eq]

/-- **Every event keeps what is known.** -/
theorem Inv.step (hs : s.Inv L privateKey hostId n) {e : SessionEvent}
    (h : s.step L privateKey e = .ok s') : s'.Inv L privateKey hostId n := by
  cases e with
  | construct p name =>
      simp only [Session.step] at h
      split at h
      · cases h
      · obtain ⟨result, hresult, h⟩ := bind_ok.mp h
        cases h
        exact hs.set ⟨rfl, rfl, rfl, hs.server.gameId_eq, fun _ => knows_new, nofun, nofun⟩
  | host p gameName =>
      obtain ⟨m, hm, h⟩ := bind_ok.mp h
      obtain ⟨server, hserver, h⟩ := bind_ok.mp h
      cases h
      rw [MyPeer.host, GameServer.host] at hserver
      split at hserver
      · cases hserver
      · split at hserver
        · cases hserver
        · cases hserver
          have hhonest := hs.server
          exact hs.withServer ⟨hhonest.hostId_eq, hhonest.numPlayers_eq, hhonest.gameId_eq,
            hhonest.host, hhonest.keys⟩ (List.Subset.refl _)
  | join p =>
      obtain ⟨m, hm, h⟩ := bind_ok.mp h
      obtain ⟨server, hserver, h⟩ := bind_ok.mp h
      cases h
      have hstands := hs.peers p m (process_ok hm)
      rw [MyPeer.join, hstands.userId_eq, hstands.publicKey_eq] at hserver
      obtain ⟨hhonest, hk⟩ := hs.server.join hserver
      exact hs.withServer hhonest hk
  | start p myIps =>
      obtain ⟨m, hm, h⟩ := bind_ok.mp h
      split at h
      · rename_i hnext
        cases h
        have hstands := hs.peers p m (process_ok hm)
        obtain ⟨hhonest, hmem⟩ := hs.server.updateEndpoints m.userId myIps
        have hs' := hs.withServer hhonest fun id hid => (hmem id).mpr hid
        have hknows := hstands.early (.inl hnext)
        refine hs'.set ⟨hstands.userId_eq, hstands.privateKey_eq, hstands.publicKey_eq,
          hstands.gameId_eq, fun _ => ⟨hknows.server, hknows.peerData, hknows.keys, hknows.endpoints,
            hknows.handlers⟩, ?_, ?_⟩
        · rintro (hn | hn) <;> cases hn
        · intro hn
          cases hn
      · cases h
  | checkForEndpoints p w =>
      obtain ⟨m, hm, h⟩ := bind_ok.mp h
      split at h
      · rename_i hnext
        obtain ⟨result, hresult, h⟩ := bind_ok.mp h
        obtain ⟨m', hm', h⟩ := bind_ok.mp h
        cases h
        exact hs.set (checkForEndpoints_stands hs.server (hs.peers p m (process_ok hm)) hnext
          hresult hm')
      · cases h
  | getInitialPosition p =>
      obtain ⟨m, hm, h⟩ := bind_ok.mp h
      split at h
      · rename_i hnext
        obtain ⟨result, hresult, h⟩ := bind_ok.mp h
        obtain ⟨m', hm', h⟩ := bind_ok.mp h
        cases h
        exact hs.set (getInitialPosition_stands hs.server (hs.peers p m (process_ok hm)) hnext
          hresult hm')
      · cases h

/-- The invariant holds at the end of every run. -/
theorem Run.inv (r : (session L privateKey hostId hostName n).Run es s) :
    s.Inv L privateKey hostId n := by
  refine r.invariant ?_ fun s e s' hs h => hs.step h
  rintro s rfl
  exact ⟨GameServer.honest_new, fun p m hm => nomatch hm⟩

end Session

/-! ### A game of two -/

def aHost : Bytes := ascii ['h']

def aGuest : Bytes := ascii ['g']

def aKeyOf (id : Bytes) : PrivateKey := .replicate 32 (id.headD 0)

/-- Numbers are names of machines. -/
def someSurroundings : Surroundings where
  resolve host _ := .ok [⟨UInt32.ofNat (host.getLastD 0).toNat, 1⟩]
  myIps := []
  now := fun _ => 1
  flaky := false
  env := fun _ => default
  key := fun _ => ⟨.replicate 32 1, by decide⟩

/-- The guest comes while the host is waiting, and asks for its position before the host does. -/
def aSession : List SessionEvent :=
  [.construct aHost aHost, .host aHost [], .start aHost [ascii ['1', ':', '1']],
    .construct aGuest aGuest, .checkForEndpoints aHost someSurroundings, .join aGuest,
    .start aGuest [ascii ['2', ':', '1']], .checkForEndpoints aGuest someSurroundings]

def aPositioning : List SessionEvent :=
  [.getInitialPosition aGuest, .checkForEndpoints aHost someSurroundings,
    .getInitialPosition aHost]

def noSession : Session :=
  ⟨.new aHost (Libraries.standIn.scalarmultBase (aKeyOf aHost)) [] 2, fun _ => none⟩

theorem aSession_ends :
    ∃ s, aSession.foldlM (Session.step .standIn aKeyOf) noSession = .ok s ∧
      aGuest ∈ s.server.peerData ∧ (s.peers aGuest).map MyPeer.next = some .getInitialPosition := by
  decide +kernel

theorem aPositioning_ends :
    ∃ s, (aSession ++ aPositioning).foldlM (Session.step .standIn aKeyOf) noSession = .ok s ∧
      s.server.peerData.keys.length ≤ 2 ∧ aHost ∈ s.server.peerData ∧ aGuest ∈ s.server.peerData ∧
      (s.peers aHost).map MyPeer.next = some .updating ∧
      (s.peers aGuest).map MyPeer.next = some .updating := by
  decide +kernel

/-! ### What the players agree on -/

section Results

variable {L : Libraries} {privateKey : Bytes → PrivateKey} {hostId hostName : Bytes}
  {numPlayers : Nat} {es : List SessionEvent} {s : Session}

/-- The private keys of two players. -/
def keysOf (privateKey : Bytes → PrivateKey) (p q : Bytes) : Side → PrivateKey
  | .left => privateKey p
  | .right => privateKey q

/-- The process has seen the game ready. -/
def MyPeer.SeenReady (m : MyPeer) : Prop := m.next = .getInitialPosition ∨ m.next = .updating

/-- **The players agree on their places.**  In every run of a lobby and the processes of a game,
however late any of them asks: where no more players register than the game is for, the ids in one
fixed order, the host first, are what every process that has seen the game ready has set up, each
with the public key of its player, and the position every process has found is its place there. -/
theorem positions_agree (r : (session L privateKey hostId hostName numPlayers).Run es s)
    (hn : s.server.peerData.keys.length ≤ numPlayers) :
    ∃ order : List Bytes, order.head? = some hostId ∧ order.Nodup ∧
      (∀ id, id ∈ order ↔ id ∈ s.server.peerData) ∧
      ∀ p m, s.peers p = some m →
        (m.SeenReady → order.length = numPlayers ∧
          (∀ id, id ∈ order ↔ ∃ d, m.peerData.lookup id = some d) ∧
          (∀ id d, m.peerData.lookup id = some d →
            d.publicKey = L.scalarmultBase (privateKey id)) ∧
          ∀ id, id ∈ m.rpcServer.endpoints ↔ id ∈ order ∧ id ≠ p) ∧
        (m.next = .updating → ∃ i : Nat, m.position = i ∧ order[i]? = some p) := by
  have hs := Session.Run.inv r
  have hmem : ∀ id, id ∈ places hostId s.server.peerData.keys ↔ id ∈ s.server.peerData :=
    fun id => mem_places hs.server.host
  have hnodup : (places hostId s.server.peerData.keys).Nodup :=
    places_nodup s.server.peerData.nodupKeys
  refine ⟨places hostId s.server.peerData.keys, rfl, hnodup, hmem, fun p m hm => ?_⟩
  have hstands := hs.peers p m hm
  refine ⟨fun hready => ?_, fun hnext => ?_⟩
  · obtain ⟨ids, hids, hknows⟩ := hstands.ready hready
    have hperm := hids.perm hn
    have hiff : ∀ id, id ∈ ids ↔ id ∈ places hostId s.server.peerData.keys := fun id =>
      hperm.mem_iff.trans (hmem id).symm
    refine ⟨?_, fun id => ?_, hknows.keys, fun id => ?_⟩
    · have hlength := ((List.perm_ext_iff_of_nodup hids.nodup hnodup).mpr hiff).length_eq
      have hle := hids.le
      have heq := hperm.length_eq
      omega
    · rw [← hiff, ← hknows.peerData, ← AList.lookup_isSome, Option.isSome_iff_exists]
    · rw [hknows.endpoints, hiff, hstands.userId_eq]
  · obtain ⟨ids, hids, i, hi, hget⟩ := hstands.placed hnext
    exact ⟨i, hi, places_congr (hids.perm hn) ▸ hget⟩

/-- Both players have a place, the guest not that of the host. -/
theorem positions_agree_two : ∃ s, (session .standIn aKeyOf aHost [] 2).Run
    (aSession ++ aPositioning) s ∧ ∃ m m', s.peers aHost = some m ∧ s.peers aGuest = some m' ∧
      m.position ≠ m'.position := by
  obtain ⟨s, hs, hn, -, -, hhost, hguest⟩ := aPositioning_ends
  obtain ⟨m, hm, hnext⟩ := Option.map_eq_some_iff.mp hhost
  obtain ⟨m', hm', hnext'⟩ := Option.map_eq_some_iff.mp hguest
  have r : (session .standIn aKeyOf aHost [] 2).Run (aSession ++ aPositioning) s :=
    System.run_from.mpr hs
  obtain ⟨order, -, -, -, hall⟩ := positions_agree r hn
  obtain ⟨i, hi, hget⟩ := (hall _ _ hm).2 hnext
  obtain ⟨j, hj, hget'⟩ := (hall _ _ hm').2 hnext'
  refine ⟨s, r, m, m', hm, hm', fun heq => ?_⟩
  have hij : i = j := by omega
  subst hij
  exact absurd (Option.some.inj (hget.symm.trans hget')) (by decide)

/-- **The handlers two players make for each other can shake hands**: together they are a state that
two handlers reach that hold each other's public keys and hear nobody else. -/
theorem session_handshakes (r : (session L privateKey hostId hostName numPlayers).Run es s)
    (hn : s.server.peerData.keys.length ≤ numPlayers) {p q : Bytes} (hne : p ≠ q) {m m' : MyPeer}
    (hp : s.peers p = some m) (hq : s.peers q = some m') (hm : m.SeenReady) (hm' : m'.SeenReady)
    (hpin : p ∈ s.server.peerData) (hqin : q ∈ s.server.peerData) :
    ∃ a b, m.rpcServer.handler q = some a ∧ m'.rpcServer.handler p = some b ∧
      (handshaking L (keysOf privateKey p q)).Reachable (EncryptedPair.of a b) := by
  have hs := Session.Run.inv r
  have made : ∀ p q m, p ≠ q → s.peers p = some m → m.SeenReady → q ∈ s.server.peerData →
      ∃ a, m.rpcServer.handler q = some a ∧
        (prepared L (privateKey p) (L.scalarmultBase (privateKey q))).Reachable a :=
    fun p q m hne hp hm hqin => by
      have hstands := hs.peers p m hp
      obtain ⟨ids, hids, hknows⟩ := hstands.ready hm
      have hin : q ∈ m.rpcServer.endpoints := (hknows.endpoints q).mpr
        ⟨(hids.perm hn).mem_iff.mpr hqin, hstands.userId_eq ▸ hne.symm⟩
      obtain ⟨i, hi⟩ := Option.isSome_iff_exists.mp (AList.lookup_isSome.mpr hin)
      obtain ⟨es', r'⟩ := hknows.server
      have hlt := (RpcServer.Run.sound r').2.lt q i hi
      have ha : m.rpcServer.handler q = some m.rpcServer.mux.recipients[i] :=
        Option.bind_eq_some_iff.mpr ⟨i, hi, List.getElem?_eq_getElem hlt⟩
      exact ⟨_, ha, hstands.privateKey_eq ▸ hknows.handlers q _ ha⟩
  obtain ⟨a, ha, hra⟩ := made p q m hne hp hm hqin
  obtain ⟨b, hb, hrb⟩ := made q p m' hne.symm hq hm' hpin
  exact ⟨a, b, ha, hb, prepared_handshaking (keysOf privateKey p q) hra hrb⟩

/-- The handlers of the host and of the guest. -/
theorem session_handshakes_two : ∃ a b,
    (handshaking .standIn (keysOf aKeyOf aHost aGuest)).Reachable (EncryptedPair.of a b) := by
  obtain ⟨s, hs, hn, hhost, hguest, hnext, hnext'⟩ := aPositioning_ends
  obtain ⟨m, hm, hnext⟩ := Option.map_eq_some_iff.mp hnext
  obtain ⟨m', hm', hnext'⟩ := Option.map_eq_some_iff.mp hnext'
  have r : (session .standIn aKeyOf aHost [] 2).Run (aSession ++ aPositioning) s :=
    System.run_from.mpr hs
  obtain ⟨a, b, -, -, hab⟩ := session_handshakes r hn (by decide) hm hm' (.inr hnext)
    (.inr hnext') hhost hguest
  exact ⟨a, b, hab⟩

/-- **A player gets its position.**  Where `cppcodec` encodes as it documents, the two base64 of the
program agree on keys, and a process that has joined, and to which the lobby answers, never dies
looking for its position. -/
theorem position_found (hbase64 : ∀ b, L.encode b = Format.base64Encode b)
    (r : (session L privateKey hostId hostName numPlayers).Run es s) {p : Bytes} {m : MyPeer}
    (hp : s.peers p = some m) (hnext : m.next = .getInitialPosition)
    (hjoined : p ∈ s.server.peerData) :
    ∃ s', s.step L privateKey (.getInitialPosition p) = .ok s' := by
  have hs := Session.Run.inv r
  have hstands := hs.peers p m hp
  have hprocess : s.process p = .ok m := by rw [Session.process, hp]
  obtain ⟨result, hresult⟩ : ∃ result, s.server.getGameInfo L m.gameId = .ok result := by
    rw [GameServer.getGameInfo, if_neg (by simp [hs.server.gameId_eq, hstands.gameId_eq])]
    exact ⟨_, rfl⟩
  obtain ⟨hhost, hperm, hkeys, -⟩ := GameServer.getGameInfo_ok hs.server hresult
  have hnodup : (result.peerData.map Prod.fst).Nodup :=
    hperm.nodup_iff.mpr s.server.peerData.nodupKeys
  -- what the lobby has of the player is what the process computes
  have hencode : B64.Encode m.publicKey.toList =
      .ok (CryptoHandler.keyToString L m.publicKey) := by
    rw [B64.Encode_eq (by simp), if_pos (by simp), CryptoHandler.keyToString, hbase64]
  have hkey : (result.peerData.lookup m.userId).map PeerInfo.key =
      some (CryptoHandler.keyToString L m.publicKey) := by
    obtain ⟨it, hit, hid⟩ := List.mem_map.mp (hperm.mem_iff.mpr hjoined)
    have hsome : (result.peerData.lookup m.userId).isSome = true :=
      List.lookup_isSome_iff.mpr ⟨it, hit, by simp [hid, hstands.userId_eq]⟩
    obtain ⟨d, hd⟩ := Option.isSome_iff_exists.mp hsome
    obtain ⟨l₁, l₂, hl, -⟩ := List.lookup_eq_some_iff.mp hd
    have hdkey := hkeys (m.userId, d) (hl ▸ List.mem_append_right _ List.mem_cons_self)
    rw [hd, Option.map_some, hdkey, hstands.publicKey_eq, hstands.userId_eq]
  have hplaces : MyPeer.peerIds result = places hostId (result.peerData.map Prod.fst) := by
    rw [MyPeer.peerIds, places, hhost]
  have hin : m.userId ∈ MyPeer.peerIds result := by
    rw [hplaces, mem_places (hperm.mem_iff.mpr hs.server.host), hstands.userId_eq]
    exact hperm.mem_iff.mpr hjoined
  obtain ⟨position, hposition, hfound⟩ := MyPeer.findPosition_ends (-1) 0
    (hplaces ▸ places_nodup hnodup) hkey fun _ => rfl
  have hm : ∃ m', m.getInitialPosition result = .ok m' := by
    rw [MyPeer.getInitialPosition, hencode, ok_bind, hposition, ok_bind, if_neg (hfound hin)]
    exact ⟨_, rfl⟩
  obtain ⟨m', hm'⟩ := hm
  refine ⟨s.set p m', ?_⟩
  rw [Session.step, hprocess, ok_bind, if_pos hnext, hresult, ok_bind, hm']
  rfl

/-- The guest gets its position before the host has one. -/
theorem position_found_guest : ∃ s s', (session .standIn aKeyOf aHost [] 2).Run aSession s ∧
    s.step .standIn aKeyOf (.getInitialPosition aGuest) = .ok s' := by
  obtain ⟨s, hs, hjoined, hnext⟩ := aSession_ends
  obtain ⟨m, hm, hnext⟩ := Option.map_eq_some_iff.mp hnext
  have r : (session .standIn aKeyOf aHost [] 2).Run aSession s := System.run_from.mpr hs
  obtain ⟨s', hs'⟩ := position_found (fun _ => rfl) r hm hnext hjoined
  exact ⟨s, s', r, hs'⟩

end Results

end Wga
