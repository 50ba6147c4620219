import Mathlib.Logic.Function.Basic
import WeGoAll.Peer.InputValues
import WeGoAll.Support.Runs

/-!
# Peer — Game

The peers of a game, what they have posted to each other, and the calls of `getAllInputValues` made
so far.  A message that was posted may arrive late, more than once or never.

* `game`: the system.  A peer updates its state and asks for inputs until it sends `SHUTDOWN`, and
  it sends that once its requests over the connections that are not found dead have been answered.
* `Answers`: the runs in which a peer sends `SHUTDOWN` only once all its requests have been
  answered.
* `Run.unique`: the events determine the state.
-/

namespace Wga

/-- The state of a game; each call stands with its caller. -/
structure Game where
  peers : Bytes → InputPeer
  posted : List InputMessage
  calls : List (Bytes × InputCall)

namespace Game

/-- A game of the peers `ids` before its first event. -/
def start (ids : List Bytes) : Game := ⟨InputPeer.new ids, [], []⟩

/-- What a step of the peer `id` leaves. -/
def set (id : Bytes) (r : InputPeer × List InputMessage) (s : Game) : Game :=
  { s with peers := Function.update s.peers id r.1, posted := s.posted ++ r.2 }

/-- The call `i` is at the peer `p`. -/
def At (s : Game) (i : Nat) (x : Bytes) (call : InputCall) (p : Bytes) : Prop :=
  s.calls[i]? = some (x, call) ∧ call.remaining.head? = some p

end Game

/-- What happens in a game. -/
inductive GameEvent where
  | updateState (p : Bytes) (timestamp : Int) (data : UnorderedMap Bytes Bytes)
  | deliver (m : InputMessage)
  /-- The end of the first loop of `shutdown`. -/
  | sendShutdown (p : Bytes) (isConnectionDead : Bytes → Bool)
  /-- `x` calls `getAllInputValues`. -/
  | getAllInputValues (x : Bytes) (timestamp : Int)
  /-- The call `i` goes on. -/
  | resume (i : Nat)

/-- What an event does. -/
inductive Game.Step (L : Libraries) (ids : List Bytes) : Game → GameEvent → Game → Prop where
  | updateState {s : Game} {p : Bytes} {timestamp : Int} {data : UnorderedMap Bytes Bytes}
      {r : InputPeer × List InputMessage} (hp : p ∈ ids)
      (hlive : (s.peers p).sentShutdown = false) (ht : timestamp < 2 ^ 63)
      (h : (s.peers p).updateState L timestamp data = .ok r) :
      Step L ids s (.updateState p timestamp data) (s.set p r)
  | deliver {s : Game} {m : InputMessage} {r : InputPeer × List InputMessage}
      (hm : m ∈ s.posted) (h : (s.peers m.receiver).receive L m = .ok r) :
      Step L ids s (.deliver m) (s.set m.receiver r)
  | sendShutdown {s : Game} {p : Bytes} {isConnectionDead : Bytes → Bool} (hp : p ∈ ids)
      (hlive : (s.peers p).sentShutdown = false)
      (hwork : (s.peers p).hasWork isConnectionDead = false) :
      Step L ids s (.sendShutdown p isConnectionDead) (s.set p (s.peers p).sendShutdown)
  | getAllInputValues {s : Game} {x : Bytes} {timestamp : Int} (hx : x ∈ ids)
      (hlive : (s.peers x).sentShutdown = false) :
      Step L ids s (.getAllInputValues x timestamp)
        { s with calls := s.calls ++ [(x, (s.peers x).getAllInputValues timestamp)] }
  | resume {s : Game} {i : Nat} {x p : Bytes} {call call' : InputCall}
      (hat : s.At i x call p) (hlive : (s.peers x).sentShutdown = false)
      (h : (s.peers x).resumeAt p call = .ok call') :
      Step L ids s (.resume i) { s with calls := s.calls.set i (x, call') }

/-- The runs of a game. -/
def game (L : Libraries) (ids : List Bytes) : System Game GameEvent where
  init := (· = .start ids)
  step := Game.Step L ids

namespace Game

variable {L : Libraries} {ids : List Bytes}

/-- An event has one outcome. -/
theorem Step.unique {s s' s'' : Game} {e : GameEvent} (h : Step L ids s e s')
    (h' : Step L ids s e s'') : s' = s'' := by
  cases h with
  | updateState hp hlive ht h =>
      cases h' with
      | updateState _ _ _ h' => rw [Except.ok.inj (h.symm.trans h')]
  | deliver hm h =>
      cases h' with
      | deliver _ h' => rw [Except.ok.inj (h.symm.trans h')]
  | sendShutdown hp hlive hwork =>
      cases h'
      rfl
  | getAllInputValues hx hlive =>
      cases h'
      rfl
  | resume hat hlive h =>
      cases h' with
      | resume hat' _ h' =>
          cases hat.1.symm.trans hat'.1
          cases hat.2.symm.trans hat'.2
          rw [Except.ok.inj (h.symm.trans h')]

/-- **The events determine the state.** -/
theorem Run.unique {es : List GameEvent} {s s' : Game} (r : (game L ids).Run es s)
    (r' : (game L ids).Run es s') : s = s' := by
  induction r generalizing s' with
  | start h => exact h.trans r'.nil_inv.symm
  | snoc _ h ih =>
      obtain ⟨s₁, r₁, h'⟩ := r'.snoc_inv
      obtain rfl := ih r₁
      exact h.unique h'

/-! ### Requests that have been answered -/

end Game

/-- `shutdown` finds no connection dead. -/
def GameEvent.Live : GameEvent → Prop
  | .sendShutdown _ isConnectionDead => ∀ id, isConnectionDead id = false
  | _ => True

/-- If the event is `SHUTDOWN`, all requests of the peer have been answered. -/
def GameEvent.Answered (s : Game) : GameEvent → Prop
  | .sendShutdown p _ => ∀ id ∈ (s.peers p).endpointIds,
      ((s.peers p).endpoints id).outgoingRequests = []
  | _ => True

namespace Game

/-- All along the events `es`, a peer sends `SHUTDOWN` only once its requests have been answered. -/
def Answers (L : Libraries) (ids : List Bytes) (es : List GameEvent) : Prop :=
  ∀ p s e, p ++ [e] <+: es → (game L ids).Run p s → e.Answered s

theorem Answers.of_isPrefix {es es' : List GameEvent} (h : Answers L ids es') (hpre : es <+: es') :
    Answers L ids es := fun p s e hp => h p s e (hp.trans hpre)

/-- Without dead connections, it does. -/
theorem Step.answered {s s' : Game} {e : GameEvent} (h : Step L ids s e s') (he : e.Live) :
    e.Answered s := by
  cases h with
  | @sendShutdown p isConnectionDead hp hlive hwork =>
      intro id hid
      have hnone := List.any_eq_false.mp hwork id hid
      rw [he id, if_neg Bool.false_ne_true] at hnone
      simpa using hnone
  | _ => trivial

theorem Answers.of_live {es : List GameEvent} {s : Game} (r : (game L ids).Run es s)
    (h : ∀ e ∈ es, e.Live) : Answers L ids es := by
  intro p s₁ e hp r₁
  obtain ⟨s₂, r₂⟩ := r.of_isPrefix hp
  obtain ⟨s₁', r₁', hstep⟩ := r₂.snoc_inv
  obtain rfl := Run.unique r₁ r₁'
  exact hstep.answered (h e (hp.subset (List.mem_append_right _ List.mem_cons_self)))

/-! ### What a step leaves alone -/

theorem set_peers (s : Game) (id : Bytes) (r : InputPeer × List InputMessage) (q : Bytes) :
    (s.set id r).peers q = if q = id then r.1 else s.peers q := Function.update_apply _ _ _ _

@[simp] theorem set_posted (s : Game) (id : Bytes) (r : InputPeer × List InputMessage) :
    (s.set id r).posted = s.posted ++ r.2 := rfl

@[simp] theorem set_calls (s : Game) (id : Bytes) (r : InputPeer × List InputMessage) :
    (s.set id r).calls = s.calls := rfl

/-! ### Computing a run -/

/-- The step of an event, computed. -/
def exec (L : Libraries) (ids : List Bytes) (s : Game) : GameEvent → Except Fault Game
  | .updateState p timestamp data =>
      if ids.contains p = true ∧ (s.peers p).sentShutdown = false ∧ timestamp < 2 ^ 63 then do
        let r ← (s.peers p).updateState L timestamp data
        .ok (s.set p r)
      else .error (.thrown "no such step")
  | .deliver m =>
      if m ∈ s.posted then do
        let r ← (s.peers m.receiver).receive L m
        .ok (s.set m.receiver r)
      else .error (.thrown "no such step")
  | .sendShutdown p isConnectionDead =>
      if ids.contains p = true ∧ (s.peers p).sentShutdown = false ∧
          (s.peers p).hasWork isConnectionDead = false then
        .ok (s.set p (s.peers p).sendShutdown)
      else .error (.thrown "no such step")
  | .getAllInputValues x timestamp =>
      if ids.contains x = true ∧ (s.peers x).sentShutdown = false then
        .ok { s with calls := s.calls ++ [(x, (s.peers x).getAllInputValues timestamp)] }
      else .error (.thrown "no such step")
  | .resume i =>
      match s.calls[i]? with
      | none => .error (.thrown "no such step")
      | some (x, call) =>
          match call.remaining.head? with
          | none => .error (.thrown "no such step")
          | some p =>
              if (s.peers x).sentShutdown = false then do
                let call' ← (s.peers x).resumeAt p call
                .ok { s with calls := s.calls.set i (x, call') }
              else .error (.thrown "no such step")

theorem exec_step {s s' : Game} {e : GameEvent} (h : exec L ids s e = .ok s') :
    Step L ids s e s' := by
  cases e with
  | updateState p timestamp data =>
      rw [exec] at h
      split at h
      · rename_i hc
        obtain ⟨r, hr, h⟩ := bind_ok.mp h
        cases h
        exact .updateState (List.contains_iff_mem.mp hc.1) hc.2.1 hc.2.2 hr
      · cases h
  | deliver m =>
      rw [exec] at h
      split at h
      · rename_i hm
        obtain ⟨r, hr, h⟩ := bind_ok.mp h
        cases h
        exact .deliver hm hr
      · cases h
  | sendShutdown p isConnectionDead =>
      rw [exec] at h
      split at h
      · rename_i hc
        cases h
        exact .sendShutdown (List.contains_iff_mem.mp hc.1) hc.2.1 hc.2.2
      · cases h
  | getAllInputValues x timestamp =>
      rw [exec] at h
      split at h
      · rename_i hc
        cases h
        exact .getAllInputValues (List.contains_iff_mem.mp hc.1) hc.2
      · cases h
  | resume i =>
      rw [exec] at h
      split at h
      · cases h
      · rename_i x call hcall
        split at h
        · cases h
        · rename_i p hp
          split at h
          · rename_i hlive
            obtain ⟨call', hr, h⟩ := bind_ok.mp h
            cases h
            exact .resume ⟨hcall, hp⟩ hlive hr
          · cases h

end Game

end Wga
