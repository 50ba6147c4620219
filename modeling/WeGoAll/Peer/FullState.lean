import Mathlib.Order.MinMax
import WeGoAll.Peer.Lockstep

/-!
# Peer — FullState

What `getFullState` returns on the peers of a game.  Its loop looks at the inputs of a peer before
it asks whether the peer is shut down.  Where a peer sends `SHUTDOWN` only once all have its inputs,
a departure makes no difference; `shutdown` does not wait for the answers over a connection it finds
dead, and then it can.

* `states`: a game in which peers call `getFullState` too.
* `Game.inputAt`: the value a peer's inputs have for a key.
* `Looked`: what a call has found so far.
* `full_state_agreement`: all calls for one time stamp return the same state, if a peer sends
  `SHUTDOWN` only once its requests have been answered.
* `full_state_apart`: where a connection was found dead, two calls can return different states.
* `full_state_ready`: below the nearest expiration time a call never waits.
-/

namespace Wga

open ChronoMap MyPeer

variable {L : Libraries} {ids : List Bytes}

/-! ### The call -/

/-- The frame of a call of `getFullState`. -/
structure StateCall where
  timestamp : Int
  /-- The keys of `peerData` the loop has not finished with. -/
  remaining : List Bytes
  state : UnorderedMap Bytes Bytes

namespace InputPeer

/-- The call of `getFullState`. -/
def getFullState (timestamp : Int) (self : InputPeer) : StateCall :=
  ⟨timestamp, self.peerIds, ∅⟩

/-- `state.insert(peerState.begin(), peerState.end())`; a key that is there keeps its value. -/
def insertState (peerState state : UnorderedMap Bytes Bytes) : UnorderedMap Bytes Bytes :=
  peerState.entries.foldl (fun state it => state.emplace it.1 it.2) state

/-- The body of the inner loop, under the mutex, when the call is at `peerId`. -/
def lookAt (self : InputPeer) (peerId : Bytes) (call : StateCall) : Except Fault StateCall :=
  if call.timestamp < (self.playerInputData peerId).expirationTime then do
    let peerState ← (self.playerInputData peerId).getAll call.timestamp
    .ok { call with
      remaining := call.remaining.tail, state := insertState peerState call.state }
  else
    -- the peer may be dead
    .ok (if self.isPeerShutDown peerId then { call with remaining := call.remaining.tail }
      else call)

/-- `getNearestExpirationTime`; `peerData` is not empty. -/
def getNearestExpirationTime (self : InputPeer) : Option Int :=
  match self.peerIds with
  | [] => none
  | first :: rest => some (rest.foldl
      (fun retval it => min retval (self.playerInputData it).expirationTime)
      (self.playerInputData first).expirationTime)

end InputPeer

/-- What a call of `getFullState` does. -/
inductive StateEvent where
  | getFullState (x : Bytes) (timestamp : Int)
  /-- The call `i` goes on. -/
  | resume (i : Nat)

/-- What it does in a state of the game. -/
inductive StateCall.Step (ids : List Bytes) (s : Game) :
    List (Bytes × StateCall) → StateEvent → List (Bytes × StateCall) → Prop where
  | getFullState {calls : List (Bytes × StateCall)} {x : Bytes} {timestamp : Int} (hx : x ∈ ids) :
      Step ids s calls (.getFullState x timestamp)
        (calls ++ [(x, (s.peers x).getFullState timestamp)])
  | resume {calls : List (Bytes × StateCall)} {i : Nat} {x p : Bytes} {call call' : StateCall}
      (hi : calls[i]? = some (x, call)) (hp : call.remaining.head? = some p)
      (h : (s.peers x).lookAt p call = .ok call') :
      Step ids s calls (.resume i) (calls.set i (x, call'))

/-- The runs of a game whose peers call `getFullState` at any moments. -/
def states (L : Libraries) (ids : List Bytes) :
    System (Game × List (Bytes × StateCall)) (GameEvent ⊕ StateEvent) :=
  (game L ids).watched (· = []) (StateCall.Step ids)

/-! ### What a state says -/

namespace InputPeer

/-- What the state says of a key: what it said before, or else what the peer says. -/
theorem lookup_insertState (peerState state : UnorderedMap Bytes Bytes) (k : Bytes) :
    (insertState peerState state).lookup k = (state.lookup k).or (peerState.lookup k) := by
  have hloop : ∀ (l : List (Σ _ : Bytes, Bytes)) (state : UnorderedMap Bytes Bytes),
      (l.foldl (fun state it => state.emplace it.1 it.2) state).lookup k =
        (state.lookup k).or (l.dlookup k) := by
    intro l
    induction l with
    | nil => exact fun state => (Option.or_none).symm
    | cons e l ih =>
        obtain ⟨k₀, v⟩ := e
        intro state
        rw [List.foldl_cons, ih, lookup_emplace]
        by_cases hk : k = k₀
        · subst hk
          rw [if_pos rfl, List.dlookup_cons_eq, Option.or_assoc, Option.some_or]
        · rw [if_neg hk, List.dlookup_cons_ne l ⟨k₀, v⟩ hk]
  exact hloop peerState.entries state

end InputPeer

namespace Game

variable {s s' : Game} {e : GameEvent} {es : List GameEvent}

/-- The value the inputs of `p` have for a key at a time they reach. -/
def inputAt (s : Game) (t : Int) (k p : Bytes) : Option Bytes :=
  if t < (s.store p p).expirationTime then ((s.store p p).get t k).toOption.join else none

/-- The inputs of `p` at the time `t` are final: they reach it, or never will. -/
def Final (s : Game) (t : Int) (p : Bytes) : Prop :=
  t < (s.store p p).expirationTime ∨ (s.peers p).sentShutdown = true

theorem Final.step {t : Int} {p : Bytes} (r : (game L ids).Run es s) (h : Step L ids s e s')
    (hf : s.Final t p) : s'.Final t p ∧ ∀ k, s'.inputAt t k p = s.inputAt t k p := by
  have hg := h.effect.grows (run_wired r) p p
  rcases hf with ht | hsent
  · have ht' := ht.trans_le hg.expirationTime
    refine ⟨.inl ht', fun k => ?_⟩
    rw [inputAt, if_pos ht', inputAt, if_pos ht, hg.get t ht]
  · refine ⟨.inr ((h.effect.later p).sentShutdown hsent).1, fun k => ?_⟩
    rw [inputAt, inputAt, leads_shutDown r (.single ⟨e, h⟩) hsent]

/-- What a look at the inputs of `p` finds. -/
theorem inputAt_of_look {x p k : Bytes} {t : Int} {all : UnorderedMap Bytes Bytes}
    (r : (game L ids).Run es s) (ht : t < (s.store x p).expirationTime)
    (hall : (s.store x p).getAll t = .ok all) :
    t < (s.store p p).expirationTime ∧ all.lookup k = s.inputAt t k p := by
  have hg := run_shared r x p
  have ht' := ht.trans_le hg.expirationTime
  refine ⟨ht', ?_⟩
  rw [inputAt, if_pos ht', hg.get t ht k]
  have hvalue := getAll_value hall k
  cases hl : all.lookup k with
  | some v => rw [(hvalue v).mp hl]; rfl
  | none =>
      cases hget : (s.store x p).get t k with
      | error f => rfl
      | ok v =>
          cases v with
          | none => rfl
          | some v => cases hl.symm.trans ((hvalue v).mpr hget)

/-- A peer that `x` knows to be shut down has no inputs `x` does not have. -/
theorem inputAt_of_shutDown {x p k : Bytes} {t : Int} (r : (game L ids).Run es s)
    (hans : Answers L ids es) (hx : x ∈ ids) (hd : (s.peers x).isPeerShutDown p = true)
    (ht : ¬ t < (s.store x p).expirationTime) :
    (s.peers p).sentShutdown = true ∧ s.inputAt t k p = none := by
  obtain ⟨hpx, hsent⟩ := (run_wired r).shutDown hd
  have hexp := run_complete r hpx.symm (run_replied r hans p hsent x hx hpx.symm)
  exact ⟨hsent, if_neg (hexp ▸ ht)⟩

/-- **What a call has found so far**: of the peers it has finished with, in their order, the first
that has a value for a key decides. -/
def Looked (ids : List Bytes) (s : Game) (x : Bytes) (call : StateCall) : Prop :=
  x ∈ ids ∧ ∃ seen, seen ++ call.remaining = ids ∧ (∀ p ∈ seen, s.Final call.timestamp p) ∧
    ∀ k, call.state.lookup k = seen.findSome? (s.inputAt call.timestamp k)

theorem Looked.step {x : Bytes} {call : StateCall} (r : (game L ids).Run es s)
    (h : Step L ids s e s') (hl : s.Looked ids x call) : s'.Looked ids x call := by
  obtain ⟨hx, seen, hids, hfinal, hstate⟩ := hl
  refine ⟨hx, seen, hids, fun p hp => ((hfinal p hp).step r h).1, fun k => ?_⟩
  rw [hstate k, ← List.head?_filterMap, ← List.head?_filterMap,
    List.filterMap_congr fun p hp => ((hfinal p hp).step r h).2 k]

/-- **One look.** -/
theorem Looked.look {x p : Bytes} {call call' : StateCall} (r : (game L ids).Run es s)
    (hans : Answers L ids es) (hp : call.remaining.head? = some p)
    (h : (s.peers x).lookAt p call = .ok call') (hl : s.Looked ids x call) :
    s.Looked ids x call' := by
  obtain ⟨hx, seen, hids, hfinal, hstate⟩ := hl
  obtain ⟨rest, hrest⟩ := List.head?_eq_some_iff.mp hp
  -- the loop goes on to the next peer
  have passed : ∀ {state : UnorderedMap Bytes Bytes}, s.Final call.timestamp p →
      (∀ k, state.lookup k = (call.state.lookup k).or (s.inputAt call.timestamp k p)) →
      s.Looked ids x { call with remaining := call.remaining.tail, state := state } :=
    fun hf hlook => by
      refine ⟨hx, seen ++ [p], ?_, fun q hq => ?_, fun k => ?_⟩
      · rw [hrest, List.tail_cons, List.append_assoc, List.singleton_append, ← hrest, hids]
      · rcases List.mem_append.mp hq with hq | hq
        · exact hfinal q hq
        · exact List.mem_singleton.mp hq ▸ hf
      · rw [hlook k, hstate k, List.findSome?_append, List.findSome?_singleton]
  rw [InputPeer.lookAt] at h
  split at h
  · rename_i ht
    obtain ⟨all, hall, h⟩ := bind_ok.mp h
    cases h
    exact passed (.inl (inputAt_of_look (k := []) r ht hall).1) fun k => by
      rw [InputPeer.lookup_insertState, (inputAt_of_look r ht hall).2]
  · rename_i ht
    split at h
    · rename_i hd
      cases h
      exact passed (.inr (inputAt_of_shutDown (k := []) r hans hx hd ht).1) fun k => by
        rw [(inputAt_of_shutDown r hans hx hd ht).2, Option.or_none]
    · cases h
      exact ⟨hx, seen, hids, hfinal, hstate⟩

/-- **What every call has found.** -/
theorem run_looked {es : List (GameEvent ⊕ StateEvent)} {s : Game × List (Bytes × StateCall)}
    (r : (states L ids).Run es s) (hans : Answers L ids (es.filterMap Sum.getLeft?)) :
    ∀ c ∈ s.2, s.1.Looked ids c.1 c.2 := by
  revert hans
  refine r.notes (P := fun es s calls => Answers L ids es → ∀ c ∈ calls, s.Looked ids c.1 c.2)
    ?_ ?_ ?_
  · rintro s calls - rfl - c hc
    cases hc
  · exact fun es s e s' calls r h hcalls hans c hc =>
      (hcalls (hans.of_isPrefix (List.prefix_append _ _)) c hc).step r h
  · intro es s d calls calls' r h hcalls hans
    cases h with
    | @getFullState x timestamp hx =>
        intro c hc
        rcases List.mem_append.mp hc with hc | hc
        · exact hcalls hans c hc
        · cases List.mem_singleton.mp hc
          refine ⟨hx, [], (run_wired r).peerIds x, by simp, fun k => ?_⟩
          exact AList.lookup_empty k
    | @resume i x p call call' hi hp h =>
        intro c hc
        rcases List.mem_or_eq_of_mem_set hc with hc | rfl
        · exact hcalls hans c hc
        · exact (hcalls hans _ (List.mem_of_getElem? hi)).look r hans hp h

end Game

/-- **All calls for one time stamp return the same state.**  In every run of a game in which a peer
sends `SHUTDOWN` only once all its requests have been answered, those over connections it finds dead
too, and makes no updates after it, whatever is delayed, repeated or lost: two calls of
`getFullState` that have returned, at whatever moments and on whatever peers, have the same value
for every key, that of the first peer that has one. -/
theorem full_state_agreement {es : List (GameEvent ⊕ StateEvent)}
    {s : Game × List (Bytes × StateCall)} (r : (states L ids).Run es s)
    (hans : Game.Answers L ids (es.filterMap Sum.getLeft?)) {x y : Bytes} {c d : StateCall}
    (hc : (x, c) ∈ s.2) (hd : (y, d) ∈ s.2) (hcr : c.remaining = []) (hdr : d.remaining = [])
    (ht : c.timestamp = d.timestamp) (k : Bytes) :
    c.state.lookup k = d.state.lookup k ∧
      c.state.lookup k = ids.findSome? (s.1.inputAt c.timestamp k) := by
  have found : ∀ {z e}, (z, e) ∈ s.2 → e.remaining = [] →
      e.state.lookup k = ids.findSome? (s.1.inputAt e.timestamp k) := fun hmem hrem => by
    obtain ⟨-, seen, hids, -, hstate⟩ := Game.run_looked r hans _ hmem
    rw [hrem, List.append_nil] at hids
    exact hids ▸ hstate k
  exact ⟨(found hc hcr).trans (ht ▸ (found hd hdr).symm), found hc hcr⟩

/-- What it does, computed. -/
def StateCall.exec (ids : List Bytes) (s : Game) (calls : List (Bytes × StateCall)) :
    StateEvent → Except Fault (List (Bytes × StateCall))
  | .getFullState x timestamp =>
      if ids.contains x then .ok (calls ++ [(x, (s.peers x).getFullState timestamp)])
      else .error (.thrown "no such step")
  | .resume i =>
      match calls[i]? with
      | none => .error (.thrown "no such step")
      | some (x, call) =>
          match call.remaining.head? with
          | none => .error (.thrown "no such step")
          | some p => do
              let call' ← (s.peers x).lookAt p call
              .ok (calls.set i (x, call'))

/-- The step of an event, computed. -/
def statesExec (L : Libraries) (ids : List Bytes) (s : Game × List (Bytes × StateCall)) :
    GameEvent ⊕ StateEvent → Except Fault (Game × List (Bytes × StateCall))
  | .inl e => do
      let g ← Game.exec L ids s.1 e
      .ok (g, s.2)
  | .inr e => do
      let calls ← StateCall.exec ids s.1 s.2 e
      .ok (s.1, calls)

theorem statesExec_step {s s' : Game × List (Bytes × StateCall)} {e : GameEvent ⊕ StateEvent}
    (h : statesExec L ids s e = .ok s') : (states L ids).step s e s' := by
  cases e with
  | inl e =>
      obtain ⟨g, hg, h⟩ := bind_ok.mp h
      cases h
      exact ⟨Game.exec_step hg, rfl⟩
  | inr e =>
      obtain ⟨calls, hc, h⟩ := bind_ok.mp h
      cases h
      refine ⟨rfl, ?_⟩
      cases e with
      | getFullState x timestamp =>
          rw [StateCall.exec] at hc
          split at hc
          · rename_i hx
            cases hc
            exact .getFullState (List.contains_iff_mem.mp hx)
          · cases hc
      | resume i =>
          rw [StateCall.exec] at hc
          split at hc
          · cases hc
          · rename_i x call hi
            split at hc
            · cases hc
            · rename_i p hp
              obtain ⟨call', hlook, hc⟩ := bind_ok.mp hc
              cases hc
              exact .resume hi hp hlook

/-- `[1]` asks for the state at 5 before `[3]` leaves, and `[2]` after it has left. -/
def statesAround : List (GameEvent ⊕ StateEvent) :=
  (Game.departure.take 11).map .inl ++
    .inr (.getFullState [1] 5) :: List.replicate 3 (.inr (.resume 0)) ++
  (Game.departure.drop 11).map .inl ++
    .inr (.getFullState [2] 5) :: List.replicate 3 (.inr (.resume 1))

theorem statesAround_events : statesAround.filterMap Sum.getLeft? = Game.departure := rfl

theorem statesAround_ends : ∃ s,
    statesAround.foldlM (statesExec .standIn Game.trio) (.start Game.trio, []) = .ok s ∧
    ((s.1.peers [2]).endpoints [3]).shuttingDown = true ∧
    s.2.map (fun c => (c.1, c.2.timestamp, c.2.remaining)) = [([1], 5, []), ([2], 5, [])] := by
  decide +kernel

/-- Around that departure both get the same state. -/
theorem full_state_agreement_around : ∃ s c d, (states .standIn Game.trio).Run statesAround s ∧
    ((s.1.peers [2]).endpoints [3]).shuttingDown = true ∧ ([1], c) ∈ s.2 ∧ ([2], d) ∈ s.2 ∧
    c.state.lookup (ascii ['k']) = d.state.lookup (ascii ['k']) := by
  obtain ⟨s, hs, hdown, hcalls⟩ := statesAround_ends
  obtain ⟨⟨x, c⟩, ⟨y, d⟩, hcd, hcs, hds⟩ := Game.eq_pair_of_map hcalls
  simp only [Prod.mk.injEq] at hcs hds
  obtain ⟨rfl, hct, hcr⟩ := hcs
  obtain ⟨rfl, hdt, hdr⟩ := hds
  have hstart : (states .standIn Game.trio).init (.start Game.trio, []) := ⟨rfl, rfl⟩
  have r := System.Run.of_foldlM (fun _ _ _ => statesExec_step) hstart hs
  have hcm : ([1], c) ∈ s.2 := hcd ▸ List.mem_cons_self
  have hdm : ([2], d) ∈ s.2 := hcd ▸ List.mem_cons_of_mem _ List.mem_cons_self
  have hans : Game.Answers .standIn Game.trio (statesAround.filterMap Sum.getLeft?) :=
    .of_live r.unwatched (statesAround_events ▸ Game.departure_live)
  exact ⟨s, c, d, r, hdown, hcm, hdm,
    (full_state_agreement r hans hcm hdm hcr hdr (hct.trans hdt.symm) (ascii ['k'])).1⟩

/-- `[1]` has found the connection to `[2]` dead and does not wait for its answer; `[2]` gets the
`SHUTDOWN` before the inputs. -/
def deadDeparture : List GameEvent :=
  Game.trio.map (fun p => .updateState p 10 (Game.firstInput p)) ++
  [.deliver (Game.firstRequest [1] [3]), .deliver (Game.firstRequest [2] [3]),
    .deliver (Game.firstRequest [3] [2]), .deliver (.reply [3] [1] 0),
    .sendShutdown [1] fun id => id = [2], .deliver (.shutdown [1] [2])]

/-- After that `[2]` and `[3]` ask for the state at 5. -/
def statesApart : List (GameEvent ⊕ StateEvent) :=
  deadDeparture.map .inl ++
    .inr (.getFullState [2] 5) :: List.replicate 3 (.inr (.resume 0)) ++
    .inr (.getFullState [3] 5) :: List.replicate 3 (.inr (.resume 1))

/-- A call's caller and time stamp, whether it has returned, and the value of `k`. -/
def stateOf (call : Bytes × StateCall) : Bytes × Int × Bool × Option Bytes :=
  (call.1, call.2.timestamp, call.2.remaining.isEmpty, call.2.state.lookup (ascii ['k']))

theorem statesApart_ends : ∃ s,
    statesApart.foldlM (statesExec .standIn Game.trio) (.start Game.trio, []) = .ok s ∧
    s.2.map stateOf = [([2], 5, true, some [2]), ([3], 5, true, some [1])] := by
  decide +kernel

/-- **A connection found dead can part the states**: `[2]` goes on without the input of `[1]`, which
`[3]` has. -/
theorem full_state_apart : ∃ s c d, (states .standIn Game.trio).Run statesApart s ∧
    ([2], c) ∈ s.2 ∧ ([3], d) ∈ s.2 ∧ c.remaining = [] ∧ d.remaining = [] ∧
    c.timestamp = d.timestamp ∧ c.state.lookup (ascii ['k']) ≠ d.state.lookup (ascii ['k']) := by
  obtain ⟨s, hs, hcalls⟩ := statesApart_ends
  obtain ⟨⟨x, c⟩, ⟨y, d⟩, hcd, hcs, hds⟩ := Game.eq_pair_of_map hcalls
  simp only [stateOf, Prod.mk.injEq] at hcs hds
  obtain ⟨rfl, hct, hcr, hck⟩ := hcs
  obtain ⟨rfl, hdt, hdr, hdk⟩ := hds
  have hstart : (states .standIn Game.trio).init (.start Game.trio, []) := ⟨rfl, rfl⟩
  have r := System.Run.of_foldlM (fun _ _ _ => statesExec_step) hstart hs
  refine ⟨s, c, d, r, hcd ▸ List.mem_cons_self,
    hcd ▸ List.mem_cons_of_mem _ List.mem_cons_self, List.isEmpty_iff.mp hcr,
    List.isEmpty_iff.mp hdr, hct.trans hdt.symm, ?_⟩
  rw [hck, hdk]
  decide

/-! ### Calls that do not wait -/

namespace InputPeer

/-- `getNearestExpirationTime` is the least expiration time. -/
theorem nearest_iff {self : InputPeer} {n : Int} (h : self.getNearestExpirationTime = some n) :
    (∀ p ∈ self.peerIds, n ≤ (self.playerInputData p).expirationTime) ∧
      ∃ p ∈ self.peerIds, n = (self.playerInputData p).expirationTime := by
  have hloop : ∀ (l : List Bytes) (m : Int),
      let n := l.foldl (fun retval it => min retval (self.playerInputData it).expirationTime) m
      n ≤ m ∧ (∀ p ∈ l, n ≤ (self.playerInputData p).expirationTime) ∧
        (n = m ∨ ∃ p ∈ l, n = (self.playerInputData p).expirationTime) := by
    intro l
    induction l with
    | nil => exact fun m => ⟨le_rfl, fun p hp => absurd hp List.not_mem_nil, .inl rfl⟩
    | cons p l ih =>
        intro m
        obtain ⟨hle, hall, hsome⟩ := ih (min m (self.playerInputData p).expirationTime)
        refine ⟨hle.trans (min_le_left _ _), fun q hq => ?_, ?_⟩
        · rcases List.mem_cons.mp hq with rfl | hq
          · exact hle.trans (min_le_right _ _)
          · exact hall q hq
        · rcases hsome with heq | ⟨q, hq, heq⟩
          · rcases min_choice m (self.playerInputData p).expirationTime with hmin | hmin
            · exact .inl (heq.trans hmin)
            · exact .inr ⟨p, List.mem_cons_self, heq.trans hmin⟩
          · exact .inr ⟨q, List.mem_cons_of_mem _ hq, heq⟩
  rw [getNearestExpirationTime] at h
  split at h
  · cases h
  · rename_i first rest hids
    cases h
    obtain ⟨hle, hall, hsome⟩ := hloop rest (self.playerInputData first).expirationTime
    rw [hids]
    refine ⟨fun p hp => ?_, ?_⟩
    · rcases List.mem_cons.mp hp with rfl | hp
      · exact hle
      · exact hall p hp
    · rcases hsome with heq | ⟨p, hp, heq⟩
      · exact ⟨first, List.mem_cons_self, heq⟩
      · exact ⟨p, List.mem_cons_of_mem _ hp, heq⟩

end InputPeer

/-- The stores only grow. -/
theorem states_leads_grows {s s' : Game × List (Bytes × StateCall)}
    (hr : (states L ids).Reachable s) (h : (states L ids).Leads s s') (x p : Bytes) :
    (s.1.store x p).Grows (s'.1.store x p) := by
  refine h.invariant (I := fun s' => (s.1.store x p).Grows (s'.1.store x p))
    (fun s₁ e s₂ hr₁ hg hstep => ?_) hr ?_
  · obtain ⟨es, r⟩ := hr₁
    cases e with
    | inl e => exact hg.trans ((Game.Step.effect hstep.1).grows (Game.run_wired r.unwatched) x p)
    | inr d => exact hstep.1 ▸ hg
  · obtain ⟨es, r⟩ := hr
    exact ((Game.run_wired r.unwatched).timed x p).grows

/-- A look leaves the peers that remain, or all but the first of them. -/
theorem InputPeer.lookAt_remaining {self : InputPeer} {p : Bytes} {call call' : StateCall}
    (h : self.lookAt p call = .ok call') :
    call'.remaining = call.remaining ∨ call'.remaining = call.remaining.tail := by
  rw [InputPeer.lookAt] at h
  split at h
  · obtain ⟨all, -, h⟩ := bind_ok.mp h
    cases h
    exact .inr rfl
  · split at h
    · cases h
      exact .inr rfl
    · cases h
      exact .inl rfl

/-- The peers a call has not finished with are the last ones of its peers. -/
theorem run_remaining {es : List (GameEvent ⊕ StateEvent)} {s : Game × List (Bytes × StateCall)}
    (r : (states L ids).Run es s) : ∀ c ∈ s.2, c.2.remaining <:+ ids := by
  refine r.notes (P := fun _ _ calls => ∀ c ∈ calls, c.2.remaining <:+ ids) ?_ ?_ ?_
  · rintro s calls - rfl c hc
    cases hc
  · exact fun _ _ _ _ _ _ _ hcalls => hcalls
  · intro es s d calls calls' r h hcalls
    cases h with
    | @getFullState x timestamp hx =>
        intro c hc
        rcases List.mem_append.mp hc with hc | hc
        · exact hcalls c hc
        · cases List.mem_singleton.mp hc
          exact (Game.run_wired r).peerIds x ▸ List.suffix_refl _
    | @resume i x p call call' hi hp h =>
        intro c hc
        rcases List.mem_or_eq_of_mem_set hc with hc | rfl
        · exact hcalls c hc
        · have hsuffix := hcalls _ (List.mem_of_getElem? hi)
          rcases InputPeer.lookAt_remaining h with hrem | hrem
          · exact hrem ▸ hsuffix
          · exact hrem ▸ (List.tail_suffix _).trans hsuffix

/-- **Below the nearest expiration time a call never waits.**  Once `getNearestExpirationTime` has
returned `n` on a peer, it never returns less there, and every look a call of `getFullState` for a
valid time stamp below `n` takes at a peer lets it go on to the next. -/
theorem full_state_ready {es : List (GameEvent ⊕ StateEvent)}
    {s s' : Game × List (Bytes × StateCall)} (r : (states L ids).Run es s)
    (h : (states L ids).Leads s s') {x : Bytes} {n : Int}
    (hn : (s.1.peers x).getNearestExpirationTime = some n) :
    (∀ n', (s'.1.peers x).getNearestExpirationTime = some n' → n ≤ n') ∧
    ∀ c p, (x, c) ∈ s'.2 → c.remaining.head? = some p → 0 ≤ c.timestamp → c.timestamp < n →
      ∃ c', (s'.1.peers x).lookAt p c = .ok c' ∧ c'.remaining = c.remaining.tail := by
  obtain ⟨es', r'⟩ := System.Reachable.leads ⟨es, r⟩ h
  have hw := Game.run_wired r.unwatched
  have hw' := Game.run_wired r'.unwatched
  have hleast : ∀ p ∈ ids, n ≤ (s'.1.store x p).expirationTime := fun p hp =>
    ((InputPeer.nearest_iff hn).1 p (hw.peerIds x ▸ hp)).trans
      (states_leads_grows ⟨es, r⟩ h x p).expirationTime
  refine ⟨fun n' hn' => ?_, fun c p hc hp h₀ ht => ?_⟩
  · obtain ⟨p, hp, rfl⟩ := (InputPeer.nearest_iff hn').2
    exact hleast p (hw'.peerIds x ▸ hp)
  · have hmem : p ∈ ids := (run_remaining r' _ hc).subset (List.mem_of_mem_head? hp)
    obtain ⟨all, hall, -⟩ := getAll_lookup h₀ (s'.1.store x p)
    refine ⟨{ c with
      remaining := c.remaining.tail, state := InputPeer.insertState all c.state }, ?_, rfl⟩
    have hlt : c.timestamp < ((s'.1.peers x).playerInputData p).expirationTime :=
      ht.trans_le (hleast p hmem)
    rw [InputPeer.lookAt, if_pos hlt]
    exact bind_ok.mpr ⟨all, hall, rfl⟩

/-- The start of that run: `[1]` has asked, and has looked at nobody. -/
def firstAsked : List (GameEvent ⊕ StateEvent) :=
  (Game.departure.take 11).map .inl ++ [.inr (.getFullState [1] 5)]

theorem firstAsked_ends : ∃ s,
    firstAsked.foldlM (statesExec .standIn Game.trio) (.start Game.trio, []) = .ok s ∧
    (s.1.peers [1]).getNearestExpirationTime = some 10 ∧
    s.2.map (fun c => (c.1, c.2.timestamp, c.2.remaining)) = [([1], 5, Game.trio)] := by
  decide +kernel

/-- The call of `[1]` goes on at once. -/
theorem full_state_ready_asked : ∃ s c c', (states .standIn Game.trio).Reachable s ∧
    ([1], c) ∈ s.2 ∧ (s.1.peers [1]).lookAt [1] c = .ok c' ∧ c'.remaining = [[2], [3]] := by
  obtain ⟨s, hs, hn, hcalls⟩ := firstAsked_ends
  obtain ⟨⟨x, c⟩, cs, hc, hcs, -⟩ := List.map_eq_cons_iff.mp hcalls
  simp only [Prod.mk.injEq] at hcs
  obtain ⟨rfl, hct, hcr⟩ := hcs
  have hstart : (states .standIn Game.trio).init (.start Game.trio, []) := ⟨rfl, rfl⟩
  have r := System.Run.of_foldlM (fun _ _ _ => statesExec_step) hstart hs
  have hcm : ([1], c) ∈ s.2 := hc ▸ List.mem_cons_self
  obtain ⟨c', hlook, hrem⟩ := (full_state_ready r .refl hn).2 c [1] hcm (by rw [hcr]; rfl)
    (by rw [hct]; decide) (by rw [hct]; decide)
  exact ⟨s, c, c', ⟨_, r⟩, hcm, hlook, hrem.trans (by rw [hcr]; rfl)⟩

end Wga
