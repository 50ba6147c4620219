import WeGoAll.Chrono.Aborts
import WeGoAll.Peer.Game

/-!
# Peer — Stores

What the peers of a game know of each other's inputs.

* `ChronoMap.Grows`: a store that later reaches further and answers as before.
* `Wired`: who has posted, answered and marked what.
* `Replied`: a peer that has sent `SHUTDOWN` has been answered by all others.
* `Effect`: what a step does, and what it leaves.
-/

namespace Wga

open ChronoMap MyPeer

variable {L : Libraries}

/-! ### Stores that grow -/

namespace ChronoMap

variable {κ ν : Type} [DecidableEq κ] [DecidableEq ν]

/-- `m'` reaches as far as `m` and answers as `m` does up to there. -/
structure Grows (m m' : ChronoMap κ ν) : Prop where
  timed : m'.Timed
  expirationTime : m.expirationTime ≤ m'.expirationTime
  get : ∀ t < m.expirationTime, ∀ k, m'.get t k = m.get t k

omit [DecidableEq ν] in
theorem Timed.grows {m : ChronoMap κ ν} (h : m.Timed) : m.Grows m := ⟨h, le_rfl, fun _ _ _ => rfl⟩

omit [DecidableEq ν] in
theorem Grows.trans {m₁ m₂ m₃ : ChronoMap κ ν} (h : m₁.Grows m₂) (h' : m₂.Grows m₃) :
    m₁.Grows m₃ :=
  ⟨h'.timed, h.expirationTime.trans h'.expirationTime, fun t ht k =>
    (h'.get t (ht.trans_le h.expirationTime) k).trans (h.get t ht k)⟩

theorem put_grows {s e : Int} {d : UnorderedMap κ ν} {m m' : ChronoMap κ ν} (hm : m.Timed)
    (h : m.put s e d = .ok m') : m.Grows m' := by
  obtain ⟨ht, hexp, hget⟩ := put_timed hm h
  exact ⟨ht, hexp, hget⟩

end ChronoMap

theorem readBlocks_grows {n : Nat} {reader : MessageReader} {m m' : ChronoMap Bytes Bytes}
    (hm : m.Timed) (h : readBlocks n reader m = .ok m') : m.Grows m' := by
  induction n generalizing reader m with
  | zero =>
      cases h
      exact hm.grows
  | succ n ih =>
      obtain ⟨⟨startTime, r₁⟩, -, h⟩ := bind_ok.mp h
      obtain ⟨⟨endTime, r₂⟩, -, h⟩ := bind_ok.mp h
      obtain ⟨⟨entries, r₃⟩, -, h⟩ := bind_ok.mp h
      obtain ⟨m₁, hput, h⟩ := bind_ok.mp h
      have hg := put_grows hm hput
      exact hg.trans (ih hg.timed h)

theorem updateState_grows {t : Int} {data : UnorderedMap Bytes Bytes} {self self' : MyInputs}
    {payload : Bytes} (hm : self.playerInputData.Timed)
    (h : MyPeer.updateState L t data self = .ok (payload, self')) :
    self.playerInputData.Grows self'.playerInputData :=
  put_grows hm (updateState_put h)

/-! ### What a step does -/

namespace Game

variable {ids : List Bytes} {s s' : Game} {e : GameEvent}

/-- What a step does to the peers and to what is posted. -/
inductive Effect (L : Libraries) (ids : List Bytes) (s : Game) : GameEvent → Game → Prop where
  | recorded {p : Bytes} {t : Int} {data : UnorderedMap Bytes Bytes} {payload : Bytes}
      {inputs : MyInputs} (hp : p ∈ ids) (hlive : (s.peers p).sentShutdown = false)
      (ht : t < 2 ^ 63) (h : MyPeer.updateState L t data (s.peers p).inputs = .ok (payload, inputs)) :
      Effect L ids s (.updateState p t data)
        (s.set p (InputPeer.broadcast payload { s.peers p with inputs := inputs }))
  | handled {p x : Bytes} {i : Nat} {payload : Bytes} {m : ChronoMap Bytes Bytes}
      (hm : .request p x i payload ∈ s.posted)
      (h : readInputs L payload ((s.peers x).peerData p) = .ok m) :
      Effect L ids s (.deliver (.request p x i payload)) (s.set x ({ s.peers x with
        peerData := Function.update (s.peers x).peerData p m }, [.reply x p i]))
  | answered {x p : Bytes} {i : Nat} (hm : .reply x p i ∈ s.posted) :
      Effect L ids s (.deliver (.reply x p i)) (s.set p ({ s.peers p with
        endpoints := Function.update (s.peers p).endpoints x { (s.peers p).endpoints x with
          outgoingRequests := ((s.peers p).endpoints x).outgoingRequests.filter (· ≠ i) } }, []))
  | marked {p x : Bytes} (hm : .shutdown p x ∈ s.posted) :
      Effect L ids s (.deliver (.shutdown p x)) (s.set x ({ s.peers x with
        endpoints := Function.update (s.peers x).endpoints p { (s.peers x).endpoints p with
          shuttingDown := true } }, []))
  | ended {p : Bytes} {isConnectionDead : Bytes → Bool} (hp : p ∈ ids)
      (hlive : (s.peers p).sentShutdown = false) :
      Effect L ids s (.sendShutdown p isConnectionDead) (s.set p (s.peers p).sendShutdown)
  | asked {e : GameEvent} (he : (∃ x t, e = .getAllInputValues x t) ∨ ∃ i, e = .resume i)
      (calls : List (Bytes × InputCall)) : Effect L ids s e { s with calls := calls }

theorem Step.effect (h : Step L ids s e s') : Effect L ids s e s' := by
  cases h with
  | updateState hp hlive ht h =>
      obtain ⟨⟨payload, inputs⟩, hup, h⟩ := bind_ok.mp h
      cases h
      exact .recorded hp hlive ht hup
  | @deliver m r hm h =>
      cases m with
      | request p x i payload =>
          obtain ⟨m, hread, h⟩ := bind_ok.mp h
          cases h
          exact .handled hm hread
      | reply x p i =>
          cases h
          exact .answered hm
      | shutdown p x =>
          cases h
          exact .marked hm
  | sendShutdown hp hlive hwork => exact .ended hp hlive
  | getAllInputValues hx hlive => exact .asked (.inl ⟨_, _, rfl⟩) _
  | resume hat hlive h => exact .asked (.inr ⟨_, rfl⟩) _

/-- The store `x` has of the inputs of `p`. -/
def store (s : Game) (x p : Bytes) : ChronoMap Bytes Bytes := (s.peers x).playerInputData p

/-! ### Posts and answers -/

/-- Who is who, and what was posted, answered and marked. -/
structure Wired (ids : List Bytes) (s : Game) : Prop where
  userId : ∀ x, (s.peers x).userId = x
  peerIds : ∀ x, (s.peers x).peerIds = ids
  timed : ∀ x p, (s.store x p).Timed
  request : ∀ p x i payload, .request p x i payload ∈ s.posted →
    x ≠ p ∧ i < (s.peers p).broadcasts
  reply : ∀ x p i, .reply x p i ∈ s.posted → i < (s.peers p).broadcasts
  shutdown : ∀ p x, .shutdown p x ∈ s.posted → (s.peers p).sentShutdown = true
  marked : ∀ x p, ((s.peers x).endpoints p).shuttingDown = true →
    (s.peers p).sentShutdown = true
  outstanding : ∀ p, ∀ x ∈ ids, x ≠ p → ∀ i < (s.peers p).broadcasts,
    i ∈ ((s.peers p).endpoints x).outgoingRequests ∨ .reply x p i ∈ s.posted

/-- The others have replied to all broadcasts of a peer that has sent `SHUTDOWN`. -/
def Replied (ids : List Bytes) (s : Game) : Prop :=
  ∀ p, (s.peers p).sentShutdown = true → ∀ x ∈ ids, x ≠ p → ∀ i < (s.peers p).broadcasts,
    .reply x p i ∈ s.posted

theorem wired_start (ids : List Bytes) : (start ids).Wired ids where
  userId _ := rfl
  peerIds _ := rfl
  timed x p := by
    rw [store, InputPeer.playerInputData]
    split <;> exact Timed.new
  request _ _ _ _ h := by cases h
  reply _ _ _ h := by cases h
  shutdown _ _ h := by cases h
  marked _ _ h := by cases h
  outstanding _ _ _ _ _ h := absurd h (Nat.not_lt_zero _)

/-- A peer that is left as it is in what its stores depend on keeps them. -/
theorem store_set_of_inputs {id : Bytes} {r : InputPeer × List InputMessage}
    (hu : r.1.userId = (s.peers id).userId) (hi : r.1.inputs = (s.peers id).inputs)
    (hd : r.1.peerData = (s.peers id).peerData) (x p : Bytes) :
    (s.set id r).store x p = s.store x p := by
  rw [store, set_peers]
  split
  · rename_i h
    rw [store, h, InputPeer.playerInputData, InputPeer.playerInputData, hu, hi, hd]
  · rfl

/-- A broadcast that is taken in. -/
theorem Effect.taken (hw : s.Wired ids) {p x : Bytes} {i : Nat} {payload : Bytes}
    (h : Effect L ids s (.deliver (.request p x i payload)) s') : x ≠ p ∧
      readInputs L payload (s.store x p) = .ok (s'.store x p) ∧
      s'.posted = s.posted ++ [.reply x p i] := by
  cases h with
  | handled hm hread =>
      have hne := (hw.request _ _ _ _ hm).1
      have hu : p ≠ (s.peers x).userId := fun h => hne ((hw.userId x).symm.trans h.symm)
      have hstore : s.store x p = (s.peers x).peerData p := if_neg hu
      refine ⟨hne, ?_, rfl⟩
      rw [hstore, hread, Game.store, set_peers, if_pos rfl]
      refine congrArg Except.ok (Eq.symm ((if_neg hu).trans ?_))
      exact Function.update_self _ _ _
  | asked he calls => simp at he

/-- **What a step does to a store**: nothing, or it records a call of its owner, or it takes in a
broadcast. -/
theorem Effect.store (hw : s.Wired ids) (h : Effect L ids s e s') (x p : Bytes) :
    s'.store x p = s.store x p ∨
    (x = p ∧ ∃ t data payload inputs, e = .updateState p t data ∧
      MyPeer.updateState L t data (s.peers p).inputs = .ok (payload, inputs) ∧
      s'.store x p = inputs.playerInputData) ∨
    (x ≠ p ∧ ∃ i payload, e = .deliver (.request p x i payload) ∧
      .request p x i payload ∈ s.posted ∧
      readInputs L payload (s.store x p) = .ok (s'.store x p)) := by
  cases h with
  | @recorded q t data payload inputs hq hlive ht h =>
      by_cases hx : x = q
      · subst hx
        by_cases hp : p = x
        · subst hp
          refine .inr (.inl ⟨rfl, t, data, payload, inputs, rfl, h, ?_⟩)
          rw [Game.store, set_peers, if_pos rfl]
          exact if_pos (hw.userId p).symm
        · refine .inl ?_
          rw [Game.store, Game.store, set_peers, if_pos rfl]
          have hne : p ≠ (s.peers x).userId := fun h => hp (h.trans (hw.userId x))
          exact (if_neg hne).trans (if_neg hne).symm
      · refine .inl ?_
        rw [Game.store, Game.store, set_peers, if_neg hx]
  | @handled q y i payload m hm hread =>
      by_cases hx : x = y
      · subst hx
        by_cases hp : p = q
        · subst hp
          obtain ⟨hne, hread, -⟩ := Effect.taken hw (.handled hm hread)
          exact .inr (.inr ⟨hne, i, payload, rfl, hm, hread⟩)
        · refine .inl ?_
          rw [Game.store, Game.store, set_peers, if_pos rfl, InputPeer.playerInputData,
            InputPeer.playerInputData]
          dsimp only
          rw [Function.update_of_ne hp]
      · refine .inl ?_
        rw [Game.store, Game.store, set_peers, if_neg hx]
  | answered hm => exact .inl (store_set_of_inputs rfl rfl rfl x p)
  | marked hm => exact .inl (store_set_of_inputs rfl rfl rfl x p)
  | ended hp hlive => exact .inl (store_set_of_inputs rfl rfl rfl x p)
  | asked he calls => exact .inl rfl

/-- **Stores grow.** -/
theorem Effect.grows (hw : s.Wired ids) (h : Effect L ids s e s') (x p : Bytes) :
    (s.store x p).Grows (s'.store x p) := by
  have ht := hw.timed x p
  rcases h.store hw x p with heq | ⟨rfl, t, data, payload, inputs, -, hup, heq⟩ |
    ⟨-, i, payload, -, -, hread⟩
  · rw [heq]
    exact ht.grows
  · have hown : s.store x x = (s.peers x).inputs.playerInputData := if_pos (hw.userId x).symm
    rw [heq, hown]
    exact updateState_grows (hown ▸ ht) hup
  · exact readBlocks_grows ht hread

/-- What a step leaves of the counts and marks of a peer. -/
structure Later (a b : InputPeer) : Prop where
  userId : b.userId = a.userId
  peerIds : b.peerIds = a.peerIds
  broadcasts : a.broadcasts ≤ b.broadcasts
  sentShutdown : a.sentShutdown = true → b.sentShutdown = true ∧ b.broadcasts = a.broadcasts

theorem Later.refl (a : InputPeer) : Later a a := ⟨rfl, rfl, le_rfl, fun h => ⟨h, rfl⟩⟩

theorem later_set {id : Bytes} {r : InputPeer × List InputMessage}
    (h : Later (s.peers id) r.1) (x : Bytes) : Later (s.peers x) ((s.set id r).peers x) := by
  rw [set_peers]
  split
  · rename_i hx
    exact hx ▸ h
  · exact Later.refl _

theorem Effect.later (h : Effect L ids s e s') (x : Bytes) : Later (s.peers x) (s'.peers x) := by
  cases h with
  | @recorded p t data payload inputs hp hlive ht h =>
      refine later_set ⟨rfl, rfl, Nat.le_succ _, fun hsent => ?_⟩ x
      rw [hlive] at hsent
      cases hsent
  | handled hm h => exact later_set ⟨rfl, rfl, le_rfl, fun h => ⟨h, rfl⟩⟩ x
  | answered hm => exact later_set ⟨rfl, rfl, le_rfl, fun h => ⟨h, rfl⟩⟩ x
  | marked hm => exact later_set ⟨rfl, rfl, le_rfl, fun h => ⟨h, rfl⟩⟩ x
  | ended hp hlive => exact later_set ⟨rfl, rfl, le_rfl, fun _ => ⟨rfl, rfl⟩⟩ x
  | asked he calls => exact Later.refl _

theorem Effect.posted (h : Effect L ids s e s') {m : InputMessage} (hm : m ∈ s.posted) :
    m ∈ s'.posted := by
  cases h with
  | asked he calls => exact hm
  | _ => exact List.mem_append_left _ hm

/-- A request that is posted carries what its sender broadcast. -/
theorem Effect.request (hw : s.Wired ids) (h : Effect L ids s e s') {p x : Bytes} {i : Nat}
    {payload : Bytes} (hm : .request p x i payload ∈ s'.posted) :
    .request p x i payload ∈ s.posted ∨
      x ≠ p ∧ i = (s.peers p).broadcasts ∧ ∃ t data inputs, e = .updateState p t data ∧
        MyPeer.updateState L t data (s.peers p).inputs = .ok (payload, inputs) := by
  cases h with
  | @recorded q t data payload' inputs hq hlive ht h =>
      refine (List.mem_append.mp hm).imp_right fun hm => ?_
      obtain ⟨y, hy, heq⟩ := List.mem_map.mp hm
      injection heq with hsender hreceiver hid hpayload
      obtain rfl : q = p := (hw.userId q).symm.trans hsender
      subst hreceiver hid hpayload
      have hne := of_decide_eq_true (List.mem_filter.mp hy).2
      exact ⟨fun h => hne (h.trans (hw.userId q).symm), rfl, t, data, inputs, rfl, h⟩
  | handled hm' h =>
      refine (List.mem_append.mp hm).imp_right fun hm => ?_
      cases List.mem_singleton.mp hm
  | answered hm' => exact (List.mem_append.mp hm).imp_right fun hm => by cases hm
  | marked hm' => exact (List.mem_append.mp hm).imp_right fun hm => by cases hm
  | ended hp hlive =>
      refine (List.mem_append.mp hm).imp_right fun hm => ?_
      obtain ⟨y, -, heq⟩ := List.mem_map.mp hm
      cases heq
  | asked he calls => exact .inl hm

/-- A reply follows the request that was handled. -/
theorem Effect.reply (h : Effect L ids s e s') {x p : Bytes} {i : Nat}
    (hm : .reply x p i ∈ s'.posted) : .reply x p i ∈ s.posted ∨
      ∃ payload, e = .deliver (.request p x i payload) ∧ .request p x i payload ∈ s.posted := by
  cases h with
  | recorded hq hlive ht h =>
      refine (List.mem_append.mp hm).imp_right fun hm => ?_
      obtain ⟨y, -, heq⟩ := List.mem_map.mp hm
      cases heq
  | handled hm' h =>
      refine (List.mem_append.mp hm).imp_right fun hm => ?_
      cases List.mem_singleton.mp hm
      exact ⟨_, rfl, hm'⟩
  | answered hm' => exact (List.mem_append.mp hm).imp_right fun hm => by cases hm
  | marked hm' => exact (List.mem_append.mp hm).imp_right fun hm => by cases hm
  | ended hp hlive =>
      refine (List.mem_append.mp hm).imp_right fun hm => ?_
      obtain ⟨y, -, heq⟩ := List.mem_map.mp hm
      cases heq
  | asked he calls => exact .inl hm

theorem Effect.shutdown (hw : s.Wired ids) (h : Effect L ids s e s') {p x : Bytes}
    (hm : .shutdown p x ∈ s'.posted) :
    .shutdown p x ∈ s.posted ∨ (s'.peers p).sentShutdown = true := by
  cases h with
  | recorded hq hlive ht h =>
      refine (List.mem_append.mp hm).imp_right fun hm => ?_
      obtain ⟨y, -, heq⟩ := List.mem_map.mp hm
      cases heq
  | handled hm' h =>
      refine (List.mem_append.mp hm).imp_right fun hm => ?_
      cases List.mem_singleton.mp hm
  | answered hm' => exact (List.mem_append.mp hm).imp_right fun hm => by cases hm
  | marked hm' => exact (List.mem_append.mp hm).imp_right fun hm => by cases hm
  | @ended q _ hq hlive =>
      refine (List.mem_append.mp hm).imp_right fun hm => ?_
      obtain ⟨y, -, heq⟩ := List.mem_map.mp hm
      injection heq with hsender
      obtain rfl : q = p := (hw.userId q).symm.trans hsender
      rw [set_peers, if_pos rfl]
      rfl
  | asked he calls => exact .inl hm

/-- What a step does to the endpoint the peer `p` has for `x`: from `a` to `b`, while its broadcasts
go from `n` to `n'`. -/
inductive EndpointStep (s : Game) (p x : Bytes) (a : InputEndpoint) (n : Nat) :
    InputEndpoint → Nat → Prop where
  | same : EndpointStep s p x a n a n
  | request : EndpointStep s p x a n { a with outgoingRequests := a.outgoingRequests ++ [n] } (n + 1)
  | reply {i : Nat} (hm : .reply x p i ∈ s.posted) : EndpointStep s p x a n
      { a with outgoingRequests := a.outgoingRequests.filter (· ≠ i) } n
  | shutdown (hm : .shutdown x p ∈ s.posted) :
      EndpointStep s p x a n { a with shuttingDown := true } n

/-- An endpoint of a peer that replaces one of them. -/
theorem endpointStep_update {y : Bytes} {v : InputEndpoint} {p x : Bytes}
    (h : y = x → EndpointStep s p x ((s.peers p).endpoints x) (s.peers p).broadcasts v
      (s.peers p).broadcasts) :
    EndpointStep s p x ((s.peers p).endpoints x) (s.peers p).broadcasts
      (Function.update (s.peers p).endpoints y v x) (s.peers p).broadcasts := by
  rw [Function.update_apply]
  split
  · rename_i hx
    exact h hx.symm
  · exact .same

/-- An endpoint after a step of the peer `q`. -/
theorem endpointStep_set {q : Bytes} {r : InputPeer × List InputMessage} {p x : Bytes}
    (h : q = p → EndpointStep s p x ((s.peers p).endpoints x) (s.peers p).broadcasts
      (r.1.endpoints x) r.1.broadcasts) :
    EndpointStep s p x ((s.peers p).endpoints x) (s.peers p).broadcasts
      (((s.set q r).peers p).endpoints x) ((s.set q r).peers p).broadcasts := by
  rw [set_peers]
  split
  · rename_i hp
    exact h hp.symm
  · exact .same

theorem Effect.endpoint (h : Effect L ids s e s') (p x : Bytes) :
    EndpointStep s p x ((s.peers p).endpoints x) (s.peers p).broadcasts
      ((s'.peers p).endpoints x) (s'.peers p).broadcasts := by
  cases h with
  | recorded hq hlive ht h =>
      refine endpointStep_set fun hp => ?_
      subst hp
      exact .request
  | handled hm h =>
      refine endpointStep_set fun hp => ?_
      subst hp
      exact .same
  | answered hm =>
      refine endpointStep_set fun hp => ?_
      subst hp
      refine endpointStep_update fun hx => ?_
      subst hx
      exact .reply hm
  | marked hm =>
      refine endpointStep_set fun hp => ?_
      subst hp
      refine endpointStep_update fun hx => ?_
      subst hx
      exact .shutdown hm
  | ended hq hlive =>
      refine endpointStep_set fun hp => ?_
      subst hp
      exact .same
  | asked he calls => exact .same

/-- A peer that newly has sent `SHUTDOWN` has been answered. -/
theorem Effect.sentShutdown (hw : s.Wired ids) (h : Effect L ids s e s') (he : e.Answered s)
    {p : Bytes} (hsent : (s'.peers p).sentShutdown = true) : (s.peers p).sentShutdown = true ∨
      (s'.peers p).broadcasts = (s.peers p).broadcasts ∧
        ∀ x ∈ ids, x ≠ p → ((s.peers p).endpoints x).outgoingRequests = [] := by
  cases h with
  | @ended q _ hq hlive =>
      rw [set_peers] at hsent
      split at hsent
      · rename_i hp
        subst hp
        refine .inr ⟨by rw [set_peers, if_pos rfl]; rfl, fun x hx hne => ?_⟩
        have hmem : x ∈ (s.peers p).endpointIds := by
          rw [InputPeer.endpointIds, List.mem_filter, hw.peerIds, hw.userId]
          exact ⟨hx, decide_eq_true hne⟩
        exact he x hmem
      · exact .inl hsent
  | asked he calls => exact .inl hsent
  | _ =>
      rw [set_peers] at hsent
      split at hsent
      · rename_i hp
        exact .inl (hp ▸ hsent)
      · exact .inl hsent

theorem Wired.step (hw : s.Wired ids) (h : Effect L ids s e s') : s'.Wired ids where
  userId x := (h.later x).userId.trans (hw.userId x)
  peerIds x := (h.later x).peerIds.trans (hw.peerIds x)
  timed x p := (h.grows hw x p).timed
  request p x i payload hm := by
    rcases h.request hw hm with hm | ⟨hne, rfl, t, data, inputs, rfl, hup⟩
    · obtain ⟨hne, hi⟩ := hw.request p x i payload hm
      exact ⟨hne, hi.trans_le (h.later p).broadcasts⟩
    · refine ⟨hne, ?_⟩
      cases h with
      | recorded hq hlive ht h =>
          rw [set_peers, if_pos rfl]
          exact Nat.lt_succ_self _
      | asked he calls => simp at he
  reply x p i hm := by
    rcases h.reply hm with hm | ⟨payload, -, hm⟩
    · exact (hw.reply x p i hm).trans_le (h.later p).broadcasts
    · exact (hw.request p x i payload hm).2.trans_le (h.later p).broadcasts
  shutdown p x hm := by
    rcases h.shutdown hw hm with hm | hsent
    · exact ((h.later p).sentShutdown (hw.shutdown p x hm)).1
    · exact hsent
  marked x p hm := by
    have hold : ((s.peers x).endpoints p).shuttingDown = true ∨ .shutdown p x ∈ s.posted := by
      have hstep := h.endpoint x p
      revert hm
      generalize (s'.peers x).endpoints p = b at hstep
      generalize (s'.peers x).broadcasts = n at hstep
      intro hm
      cases hstep with
      | shutdown hm' => exact .inr hm'
      | _ => exact .inl hm
    exact ((h.later p).sentShutdown (hold.elim (hw.marked x p) (hw.shutdown p x))).1
  outstanding p x hx hne i hi := by
    have hstep := h.endpoint p x
    have hold := hw.outstanding p x hx hne i
    revert hi
    generalize (s'.peers p).endpoints x = b at hstep ⊢
    generalize (s'.peers p).broadcasts = n at hstep ⊢
    intro hi
    cases hstep with
    | same => exact (hold hi).imp_right h.posted
    | request =>
        rcases Nat.lt_succ_iff_lt_or_eq.mp hi with hi | rfl
        · exact (hold hi).imp (List.mem_append_left _) h.posted
        · exact .inl (List.mem_append_right _ (List.mem_singleton_self _))
    | @reply j hm =>
        rcases hold hi with hmem | hmem
        · by_cases hij : i = j
          · exact .inr (h.posted (hij ▸ hm))
          · exact .inl (List.mem_filter.mpr ⟨hmem, decide_eq_true hij⟩)
        · exact .inr (h.posted hmem)
    | shutdown hm => exact (hold hi).imp_right h.posted

/-- **`SHUTDOWN` comes after the answers.** -/
theorem Replied.step (hr : s.Replied ids) (hw : s.Wired ids) (h : Effect L ids s e s')
    (he : e.Answered s) : s'.Replied ids := by
  intro p hsent x hx hne i hi
  rcases h.sentShutdown hw he hsent with hold | ⟨heq, hnone⟩
  · rw [((h.later p).sentShutdown hold).2] at hi
    exact h.posted (hr p hold x hx hne i hi)
  · rw [heq] at hi
    rcases hw.outstanding p x hx hne i hi with hmem | hmem
    · rw [hnone x hx hne] at hmem
      cases hmem
    · exact h.posted hmem

end Game

end Wga
