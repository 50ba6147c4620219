import Mathlib.Logic.Relation
import WeGoAll.Rpc.Packets

/-!
# Rpc — Moves

An endpoint as a transition system.  A method of `BiDirectionalRpc` is a sequence of moves, each of
which changes the tables in one place; what the tables and the history have in common is stated once
and shown for each move.

A request takes two moves to be issued and a reply up to three to be taken, and other moves and
messages come in between.  `Phase` says how far the one in progress is.

`Rights` says what an operation may do that not every operation may: which events it records, and
the liberties a derived class takes.

* `Move`: the moves.
* `Sends`: the packets an endpoint may send, given its tables.
* `Path`: a sequence of moves and of changes of the members a derived class adds.
-/

namespace Wga

open BiDirectionalRpc

/-- What the operation in progress has begun and not finished. -/
inductive Phase where
  | idle
  /-- A request is issued and is in no table yet. -/
  | issuing (id : RpcId) (payload : Bytes)
  /-- A reply took its request out of `outgoingRequests` and is not disposed of yet. -/
  | completing (id : RpcId)
  /-- That reply is disposed of; the clock has not seen it yet. -/
  | settled (id : RpcId)
  deriving DecidableEq

/-- What an operation may do. -/
structure Rights where
  /-- The events it may record, given the members at that moment. -/
  may : Rpc → Event → Prop
  /-- The replies it may discard. -/
  discards : RpcId → Prop
  /-- What may be stored for a payload. -/
  rewrites : Bytes → Bytes → Prop
  /-- Whether it may drop a reply it took. -/
  drops : Prop
  /-- Whether it may issue a request that `request` and `requestOneWay` do not know of. -/
  greets : Prop

/-- The endpoint behind the first of the outstanding requests, where there is one, is current. -/
def Rpc.FirstIsCurrent (r : Rpc) : Prop :=
  ∀ e ∈ r.outgoingRequests.entries.head?, e.1.barrier = r.onBarrier

/-- **Barrier order**: the requests in flight have one barrier, the delayed ones later ones, and
there are delayed ones only while there are requests in flight. -/
structure BarrierOrder (outgoing delayed : UnorderedMap RpcId Bytes) (onBarrier : Int64) :
    Prop where
  same : ∀ a ∈ outgoing, ∀ b ∈ outgoing, a.barrier = b.barrier
  lt_delayed : ∀ a ∈ outgoing, ∀ d ∈ delayed, a.barrier < d.barrier
  outgoing_le : ∀ a ∈ outgoing, a.barrier ≤ onBarrier
  delayed_le : ∀ d ∈ delayed, d.barrier ≤ onBarrier
  empty : outgoing.entries = [] → delayed.entries = []

abbrev Rpc.BarrierOrdered (r : Rpc) : Prop :=
  BarrierOrder r.outgoingRequests r.delayedRequests r.onBarrier

/-- The tables with other iteration orders. -/
structure Rpc.Rehashed (r r' : Rpc) : Prop where
  delayedRequests : r.delayedRequests.entries.Perm r'.delayedRequests.entries
  outgoingRequests : r.outgoingRequests.entries.Perm r'.outgoingRequests.entries
  incomingRequests : r.incomingRequests.entries.Perm r'.incomingRequests.entries
  outgoingReplies : r.outgoingReplies.entries.Perm r'.outgoingReplies.entries
  incomingReplies : r.incomingReplies.entries.Perm r'.incomingReplies.entries
  rest : r' = { r with
    delayedRequests := r'.delayedRequests
    outgoingRequests := r'.outgoingRequests
    incomingRequests := r'.incomingRequests
    outgoingReplies := r'.outgoingReplies
    incomingReplies := r'.incomingReplies }

/-- The members after an event is recorded. -/
def Rpc.record (r : Rpc) (e : Event) : Rpc := { r with history := r.history ++ [e] }

/-- The moves of an endpoint. -/
inductive Move (L : Libraries) (R : Rights) : Phase → Rpc → Phase → Rpc → Prop where
  /-- `request` -/
  | request {r : Rpc} {id : RpcId} {p : Bytes} (hmay : R.may r (.requested id p))
      (hid : id.barrier = r.onBarrier) :
      Move L R .idle r (.issuing id p) (r.record (.requested id p))
  /-- `requestOneWay` -/
  | requestOneWay {r : Rpc} {id : RpcId} {p : Bytes} (hmay : R.may r (.requestedOneWay id p))
      (hid : id.barrier = r.onBarrier) :
      Move L R .idle r (.issuing id p)
        { r.record (.requestedOneWay id p) with oneWayRequests := insert id r.oneWayRequests }
  /-- `sendSessionKey` -/
  | greet {r : Rpc} {id : RpcId} {p : Bytes} (hmay : R.greets)
      (hnone : r.outgoingRequests.entries = []) (hid : id.barrier ≤ r.onBarrier) :
      Move L R .idle r (.issuing id p) { r with oneWayRequests := insert id r.oneWayRequests }
  /-- `requestWithId`: the request goes out at once. -/
  | start {r : Rpc} {id : RpcId} {p p' : Bytes} {now : Int} {clock : ClockSynchronizer}
      (hp : R.rewrites p p') (hfirst : r.FirstIsCurrent)
      (hclock : r.clock.createRequest id now = .ok clock) :
      Move L R (.issuing id p) r .idle
        { r with outgoingRequests := r.outgoingRequests.insert id p', clock := clock }
  /-- `requestWithId`: the request has to wait. -/
  | delay {r : Rpc} {id : RpcId} {p p' : Bytes} (hp : R.rewrites p p')
      (hfirst : ∃ e ∈ r.outgoingRequests.entries.head?, e.1.barrier ≠ r.onBarrier) :
      Move L R (.issuing id p) r .idle
        { r with delayedRequests := r.delayedRequests.insert id p' }
  /-- `tryToSendBarrier`: a delayed request goes out. -/
  | release {r : Rpc} {c id : RpcId} {p : Bytes} {now : Int} {clock : ClockSynchronizer}
      (hid : r.delayedRequests.lookup id = some p)
      (hout : ∀ a ∈ r.outgoingRequests, a.barrier = id.barrier)
      (hmin : ∀ d ∈ r.delayedRequests, id.barrier ≤ d.barrier)
      (hclock : r.clock.createRequest id now = .ok clock) :
      Move L R (.completing c) r (.completing c)
        { r with outgoingRequests := r.outgoingRequests.insert id p, clock := clock }
  /-- `tryToSendBarrier`: a request that went out is no longer delayed. -/
  | unqueue {r : Rpc} {c id : RpcId} (hid : id ∈ r.outgoingRequests) :
      Move L R (.completing c) r (.completing c)
        { r with delayedRequests := r.delayedRequests.erase id }
  /-- `addIncomingRequest` -/
  | accept {r : Rpc} {id : RpcId} {p : Bytes} {now : Int} {clock : ClockSynchronizer}
      (hmay : R.may r (.accepted id p)) (hin : id ∉ r.incomingRequests)
      (hproc : id ∉ r.processedRequests.keys) (hout : id ∉ r.outgoingReplies)
      (hclock : r.clock.receiveRequest id now = .ok clock) :
      Move L R .idle r .idle
        { r.record (.accepted id p) with
          clock := clock, incomingRequests := r.incomingRequests.insert id p }
  /-- `reply` -/
  | answer {r : Rpc} {id : RpcId} {p : Bytes} (hmay : R.may r (.replied id p))
      (hin : id ∈ r.incomingRequests) :
      Move L R .idle r .idle
        { r.record (.replied id p) with
          incomingRequests := r.incomingRequests.erase id
          processedRequests := r.processedRequests.put L.toLruPolicy processedCapacity id
          outgoingReplies := r.outgoingReplies.insert id p }
  /-- `handleReply`: the request is answered. -/
  | complete {r : Rpc} {id : RpcId} (hmay : R.may r (.completed id))
      (hout : id ∈ r.outgoingRequests) (hin : id ∉ r.incomingReplies)
      (hproc : id ∉ r.processedReplies.keys) :
      Move L R .idle r (.completing id)
        { r.record (.completed id) with outgoingRequests := r.outgoingRequests.erase id }
  /-- `handleReply`: the reply is kept for the application. -/
  | queue {r : Rpc} {id : RpcId} {p : Bytes} (hmay : R.may r (.queued id p))
      (hord : r.BarrierOrdered) (hone : id ∉ r.oneWayRequests) :
      Move L R (.completing id) r (.settled id)
        { r.record (.queued id p) with
          incomingReplies := UnorderedMap.emplace id p r.incomingReplies }
  /-- `handleReply`: nobody waits for the reply. -/
  | forget {r : Rpc} {id : RpcId} (hord : r.BarrierOrdered) (hone : id ∈ r.oneWayRequests) :
      Move L R (.completing id) r (.settled id)
        { r with oneWayRequests := r.oneWayRequests.erase id }
  /-- `addIncomingReply` of a derived class that refuses the reply. -/
  | drop {r : Rpc} {id : RpcId} (hmay : R.drops) (hord : r.BarrierOrdered) :
      Move L R (.completing id) r (.settled id) r
  /-- `handleReply`: the clock sees the reply. -/
  | stopClock {r : Rpc} {id : RpcId} {t₁ t₂ now : Int} {clock : ClockSynchronizer}
      (hclock : r.clock.handleReply id t₁ t₂ now = .ok clock) :
      Move L R (.settled id) r .idle { r with clock := clock }
  /-- `getFirstIncomingReply`, `consumeIncomingReplyWithId` -/
  | take {r : Rpc} {id : RpcId} {p : Bytes} (hmay : R.may r (.handed id p))
      (hin : r.incomingReplies.lookup id = some p) :
      Move L R .idle r .idle
        { r.record (.handed id p) with
          processedReplies := r.processedReplies.put L.toLruPolicy processedCapacity id
          incomingReplies := r.incomingReplies.erase id }
  /-- `receive` of an acknowledgement -/
  | discard {r : Rpc} {id : RpcId} {clock : ClockSynchronizer} (hmay : R.discards id)
      (hout : id ∈ r.outgoingReplies)
      (hclock : r.clock.eraseRequestRecieveTime id = .ok clock) :
      Move L R .idle r .idle
        { r with clock := clock, outgoingReplies := r.outgoingReplies.erase id }
  /-- `barrier` -/
  | advance {r : Rpc} (hmax : r.onBarrier ≠ Int64.maxValue) :
      Move L R .idle r .idle { r with onBarrier := r.onBarrier + 1 }
  /-- `shutdown` -/
  | close {r : Rpc} : Move L R .idle r .idle { r with shuttingDown := true }
  /-- An unordered map changes its order. -/
  | rehash {r r' : Rpc} (h : r.Rehashed r') : Move L R .idle r .idle r'

/-- What an endpoint may send: requests in flight, stored replies, and the acknowledgement of a
reply it has disposed of. -/
def Sends (R : Rights) (ph : Phase) (r : Rpc) : Packet → Prop
  | .request entries => ∀ e ∈ entries, r.outgoingRequests.lookup e.id = some e.payload
  | .reply entries => ∀ e ∈ entries, r.outgoingReplies.lookup e.id = some e.payload
  | .acknowledge uid _ =>
      ph = .settled uid ∨
      ph = .idle ∧ R.may r (.completed uid) ∧
        (uid ∈ r.incomingReplies ∨ uid ∈ r.processedReplies.keys ∨ uid ∉ r.outgoingRequests)

/-- An endpoint inside an operation. -/
structure Point (τ : Type) where
  phase : Phase
  rpc : Rpc
  sub : τ

/-- An object in a phase. -/
def Self.at {τ : Type} (s : Self τ) (ph : Phase) : Point τ := ⟨ph, s.rpc, s.sub⟩

section Paths

variable {τ : Type} (L : Libraries) (R : Rights) (Q : Phase → Rpc → τ → τ → Prop)

/-- One move, or a change of the members a derived class adds that `Q` allows. -/
inductive Act : Point τ → Point τ → Prop where
  | move {ph ph' : Phase} {r r' : Rpc} {t : τ} (h : Move L R ph r ph' r') :
      Act ⟨ph, r, t⟩ ⟨ph', r', t⟩
  | quiet {ph : Phase} {r : Rpc} {t t' : τ} (h : Q ph r t t') : Act ⟨ph, r, t⟩ ⟨ph, r, t'⟩

/-- A sequence of these. -/
def Path : Point τ → Point τ → Prop := Relation.ReflTransGen (Act L R Q)

/-- `send` changes nothing but the members a derived class adds, as `Q` allows, when the message is
a packet that may be sent. -/
def SendsWithin (send : Bytes → Self τ → Except Fault (Self τ)) : Prop :=
  ∀ ph p s s', Sends R ph s.rpc p → send (p.message L) s = .ok s' →
    s'.rpc = s.rpc ∧ Q ph s.rpc s.sub s'.sub

variable {L R Q}

theorem Path.refl (a : Point τ) : Path L R Q a a := Relation.ReflTransGen.refl

theorem Path.trans {a b c : Point τ} (h₁ : Path L R Q a b) (h₂ : Path L R Q b c) :
    Path L R Q a c := Relation.ReflTransGen.trans h₁ h₂

theorem Path.move {ph ph' : Phase} {r r' : Rpc} {t : τ} (h : Move L R ph r ph' r') :
    Path L R Q ⟨ph, r, t⟩ ⟨ph', r', t⟩ := .single (.move h)

theorem Path.quiet {ph : Phase} {r : Rpc} {t t' : τ} (h : Q ph r t t') :
    Path L R Q ⟨ph, r, t⟩ ⟨ph, r, t'⟩ := .single (.quiet h)

/-- **The path rule.**  What every move and every change `Q` allows keep, a path keeps. -/
theorem Path.invariant {I : Point τ → Prop} (hstep : ∀ a b, I a → Act L R Q a b → I b)
    {a b : Point τ} (h : Path L R Q a b) (ha : I a) : I b := by
  induction h with
  | refl => exact ha
  | tail _ hab ih => exact hstep _ _ ih hab

/-- What every move keeps of the members of `BiDirectionalRpc`, a path keeps. -/
theorem Path.invariant_rpc {I : Phase → Rpc → Prop}
    (hstep : ∀ ph r ph' r', I ph r → Move L R ph r ph' r' → I ph' r') {a b : Point τ}
    (h : Path L R Q a b) (ha : I a.phase a.rpc) : I b.phase b.rpc := by
  refine h.invariant (I := fun a => I a.phase a.rpc) (fun a b ha hab => ?_) ha
  cases hab with
  | move hm => exact hstep _ _ _ _ ha hm
  | quiet hq => exact ha

end Paths

/-! ### The history only grows -/

theorem Move.history {L : Libraries} {R : Rights} {ph ph' : Phase} {r r' : Rpc}
    (h : Move L R ph r ph' r') : r.history <+: r'.history := by
  cases h with
  | request | requestOneWay | accept | answer | complete | queue | take =>
      exact List.prefix_append _ _
  | greet | start | delay | release | unqueue | forget | drop | stopClock | discard | advance
  | close => exact List.prefix_rfl
  | rehash h => rw [h.rest]

theorem Path.history {τ : Type} {L : Libraries} {R : Rights} {Q : Phase → Rpc → τ → τ → Prop}
    {a b : Point τ} (h : Path L R Q a b) : a.rpc.history <+: b.rpc.history :=
  h.invariant_rpc (I := fun _ r => a.rpc.history <+: r.history)
    (fun _ _ _ _ hr hm => hr.trans hm.history) List.prefix_rfl

end Wga
