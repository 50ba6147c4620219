import Mathlib.Logic.Function.Basic
import WeGoAll.Rpc.Endpoint

/-!
# Rpc — Exchange

Two endpoints joined by a network that may drop, duplicate, delay and reorder what they send: any
message one of them sent may arrive at the other at any time, any number of times.

* `exchange`: the system.
* `Link`: the invariant between the requests of one side and the replies of the other.
* `run_linked`: it holds in every run, in both directions.
* `barrier_order`: the order of barriers, for one endpoint and between two.
-/

namespace Wga

/-- The two ends of the network. -/
inductive Side where
  | left
  | right
  deriving DecidableEq

def Side.other : Side → Side
  | .left => .right
  | .right => .left

@[simp] theorem Side.other_other (x : Side) : x.other.other = x := by cases x <;> rfl

theorem Side.eq_or_other (x y : Side) : x = y ∨ x = y.other := by cases x <;> cases y <;> decide

theorem Side.other_ne (x : Side) : x.other ≠ x := by cases x <;> decide

/-- Both endpoints. -/
abbrev Pair := Side → PlainRpc

/-- An event of two endpoints. -/
inductive PairEvent where
  | call (x : Side) (c : Call)
  /-- The network delivers a message to `x`. -/
  | deliver (x : Side) (message : Bytes)
  | rehash (x : Side)
  deriving DecidableEq

/-- What an event does.  The network delivers only what the other side sent. -/
inductive Pair.Step (L : Libraries) : Pair → PairEvent → Pair → Prop where
  | call {s : Pair} {x : Side} {c : Call} {v : PlainRpc}
      (h : c.run L (PlainRpc.virtuals L) (s x) = .ok v) :
      Step L s (.call x c) (Function.update s x v)
  | deliver {s : Pair} {x : Side} {message : Bytes} {b : Bool} {v : PlainRpc}
      (hm : ∃ m ∈ (s x.other).sub, m.message = message)
      (h : BiDirectionalRpc.receive L (PlainRpc.virtuals L) message (s x) = .ok (b, v)) :
      Step L s (.deliver x message) (Function.update s x v)
  | rehash {s : Pair} {x : Side} {r : Rpc} (h : (s x).rpc.Rehashed r) :
      Step L s (.rehash x) (Function.update s x { s x with rpc := r })

/-- The runs of two endpoints in which both processes survive. -/
def exchange (L : Libraries) : System Pair PairEvent where
  init s := ∀ x, ∃ flaky env, s x = .new flaky env
  step := Pair.Step L

variable {L : Libraries} {R : Rights}

/-- What an operation of one side may do has its reason in the history of the other side. -/
structure Rights.Justified (R : Rights) (y : Rpc) : Prop where
  accepted : ∀ r id p, R.may r (.accepted id p) → Issued y.history id p ∧ InOrder y.history id ∧
    (id ∈ y.outgoingRequests ∨ .completed id ∈ y.history)
  completed : ∀ r id, R.may r (.completed id) → ∃ q, .replied id q ∈ y.history
  queued : ∀ r id q, R.may r (.queued id q) → .replied id q ∈ y.history

/-- The requests of `x` and the replies of `y`. -/
structure Link (x y : Rpc) : Prop where
  accepted : ∀ id p, .accepted id p ∈ y.history → Issued x.history id p ∧
    (id ∈ x.outgoingRequests ∨ .completed id ∈ x.history)
  order : ∀ h id p, h ++ [.accepted id p] <+: y.history → ∀ a q, Issued x.history a q →
    a.barrier < id.barrier → ∃ q', .replied a q' ∈ h
  completed : ∀ id, .completed id ∈ x.history → ∃ q, .replied id q ∈ y.history
  queued : ∀ id q, .queued id q ∈ x.history → .replied id q ∈ y.history

theorem Link.new (f f' : Bool) : Link (BiDirectionalRpc.new f) (BiDirectionalRpc.new f') where
  accepted := by simp [BiDirectionalRpc.new]
  order := by simp [BiDirectionalRpc.new]
  completed := by simp [BiDirectionalRpc.new]
  queued := by simp [BiDirectionalRpc.new]

/-- The event a move records, if any, is one it may record. -/
theorem Move.recorded {ph ph' : Phase} {r r' : Rpc} (hm : Move L R ph r ph' r') :
    r'.history = r.history ∨ ∃ e, R.may r e ∧ r'.history = r.history ++ [e] := by
  cases hm with
  | request hmay | requestOneWay hmay | accept hmay | answer hmay | complete hmay | queue hmay
  | take hmay => exact .inr ⟨_, hmay, rfl⟩
  | greet | start | delay | release | unqueue | forget | drop | stopClock | discard | advance
  | close => exact .inl rfl
  | rehash hr =>
      rw [hr.rest]
      exact .inl rfl

/-- A new event of a move is one it may record. -/
theorem Move.new_event {ph ph' : Phase} {r r' : Rpc} (hm : Move L R ph r ph' r') {e : Event}
    (he : e ∈ r'.history) : e ∈ r.history ∨ R.may r e := by
  rcases hm.recorded with heq | ⟨e', hmay, heq⟩
  · exact .inl (heq ▸ he)
  · rw [heq] at he
    rcases List.mem_append.mp he with he | he
    · exact .inl he
    · cases List.mem_singleton.mp he
      exact .inr hmay

/-- **A move of the requester keeps the link.** -/
theorem Link.requester_move {ph ph' : Phase} {x x' y : Rpc} (h : Link x y)
    (hm : Move L R ph x ph' x') (hR : R.Justified y) (hx : x.Requesting ph) : Link x' y where
  accepted := fun id p hacc =>
    let ⟨hi, hf⟩ := h.accepted id p hacc
    ⟨hi.mono hm.history, hm.inFlight hf⟩
  order := by
    intro l id p hl a q ha hlt
    rcases hm.issued ha with ha | hbar
    · exact h.order l id p hl a q ha hlt
    · -- a new request has the latest barrier
      have hacc : .accepted id p ∈ y.history :=
        hl.subset (List.mem_append_right _ (List.mem_singleton.mpr rfl))
      have hle := hx.barrier id p (h.accepted id p hacc).1
      rw [hbar] at hlt
      exact absurd (Int64.lt_of_lt_of_le hlt hle) Int64.lt_irrefl
  completed := fun id hc => (hm.new_event hc).elim (h.completed id) (hR.completed x id)
  queued := fun id q hq => (hm.new_event hq).elim (h.queued id q) (hR.queued x id q)

/-- **A move of the responder keeps the link.** -/
theorem Link.responder_move {ph ph' : Phase} {x y y' : Rpc} (h : Link x y)
    (hm : Move L R ph y ph' y') (hR : R.Justified x) : Link x y' where
  accepted := fun id p hacc =>
    (hm.new_event hacc).elim (h.accepted id p) fun hmay =>
      let ⟨hi, _, hf⟩ := hR.accepted y id p hmay
      ⟨hi, hf⟩
  order := by
    intro l id p hl a q ha hlt
    rcases hm.recorded with heq | ⟨e, hmay, heq⟩
    · exact h.order l id p (heq ▸ hl) a q ha hlt
    · rw [heq] at hl
      rcases List.prefix_concat_iff.mp hl with hl | hl
      · -- the request just accepted was sent in order
        obtain ⟨rfl, he⟩ := List.append_inj' hl rfl
        cases he
        exact h.completed a ((hR.accepted y id p hmay).2.1 a q ha hlt)
      · exact h.order l id p hl a q ha hlt
  completed := fun id hc =>
    let ⟨q, hq⟩ := h.completed id hc
    ⟨q, hm.history.subset hq⟩
  queued := fun id q hq => hm.history.subset (h.queued id q hq)

/-! ### One operation -/

/-- The rights of the packets of an endpoint are justified by it. -/
theorem Packet.rights_justified {p : Packet} {y : Rpc} {h : List Event} (hh : h <+: y.history)
    (hp : p.Backed y h) : p.rights.Justified y := by
  constructor
  · intro r id q hmay
    cases p with
    | request es =>
        obtain ⟨hi, -, ho, hf⟩ := hp ⟨id, q⟩ hmay
        exact ⟨hi.mono hh, ho, hf⟩
    | reply es => exact hmay.elim
    | acknowledge uid q' => exact hmay.elim
  · intro r id hmay
    cases p with
    | request es => exact hmay.elim
    | reply es =>
        obtain ⟨e, he, rfl⟩ := hmay
        exact ⟨_, hh.subset (hp e he)⟩
    | acknowledge uid q' => exact hmay.elim
  · intro r id q hmay
    cases p with
    | request es => exact hmay.elim
    | reply es =>
        obtain ⟨e, he, rfl, rfl⟩ := hmay
        exact hh.subset (hp e he)
    | acknowledge uid q' => exact hmay.elim

/-- A call takes nothing from the other side. -/
theorem Call.rights_justified (c : Call) (y : Rpc) : c.rights.Justified y := by
  constructor
  · intro r id p hmay
    cases c <;> simp [Call.rights, Rights.plain, Call.may] at hmay
  · intro r id hmay
    cases c <;> simp [Call.rights, Rights.plain, Call.may] at hmay
  · intro r id q hmay
    cases c <;> simp [Call.rights, Rights.plain, Call.may] at hmay

/-- No rights at all. -/
def Rights.none : Rights := .plain (fun _ _ => False) fun _ => False

theorem Rights.none_justified (y : Rpc) : Rights.none.Justified y :=
  ⟨fun _ _ _ h => h.elim, fun _ _ h => h.elim, fun _ _ _ h => h.elim⟩

/-- The side an event happens at. -/
def PairEvent.side : PairEvent → Side
  | .call x _ => x
  | .deliver x _ => x
  | .rehash x => x

/-- The rights an event gives, when the other side is `y`. -/
inductive PairEvent.Gives (L : Libraries) (y : PlainRpc) : PairEvent → Rights → Prop where
  | call (x : Side) (c : Call) : Gives L y (.call x c) c.rights
  | deliver (x : Side) {m : Sent} {p : Packet} (hm : m ∈ y.sub) (hp : m.message = p.message L)
      (hb : p.Backed y.rpc m.history) : Gives L y (.deliver x m.message) p.rights
  | rehash (x : Side) : Gives L y (.rehash x) .none

theorem PairEvent.Gives.faithful {y : PlainRpc} {e : PairEvent} (h : e.Gives L y R) :
    R.Faithful := by
  cases h <;> exact Rights.plain_faithful _ _

theorem PairEvent.Gives.justified {e : PairEvent} {y : PlainRpc} (h : e.Gives L y R)
    (hy : PlainRpc.Inv L (y.at .idle)) : R.Justified y.rpc := by
  cases h with
  | call x c => exact c.rights_justified _
  | deliver x hm hp hb => exact Packet.rights_justified (hy.sent _ hm).1 hb
  | rehash x => exact Rights.none_justified _

/-- **What an event of two endpoints does**: one side takes a path with the rights of the event, the
other stays as it is. -/
theorem Pair.Step.path {s s' : Pair} {e : PairEvent} (h : Pair.Step L s e s')
    (hs : ∀ x, PlainRpc.Inv L ((s x).at .idle)) :
    ∃ R, e.Gives L (s e.side.other) R ∧ s' e.side.other = s e.side.other ∧
      Path L R (Posts L R) ((s e.side).at .idle) ((s' e.side).at .idle) := by
  cases h with
  | @call x c v h =>
      refine ⟨c.rights, .call x c, Function.update_of_ne x.other_ne _ _, ?_⟩
      simp only [PairEvent.side, Function.update_self]
      exact PlainRpc.call_path h
  | @deliver x message b v hm h =>
      obtain ⟨m, hm, rfl⟩ := hm
      obtain ⟨-, p, hp, hb⟩ := (hs x.other).sent m hm
      refine ⟨p.rights, .deliver x hm hp hb, Function.update_of_ne x.other_ne _ _, ?_⟩
      simp only [PairEvent.side, Function.update_self]
      refine PlainRpc.receive_path (hs x).consistent ?_ h
      rw [hp]
      exact L.unpack_pack _
  | @rehash x r h =>
      refine ⟨.none, .rehash x, Function.update_of_ne x.other_ne _ _, ?_⟩
      simp only [PairEvent.side, Function.update_self]
      exact PlainRpc.rehash_path h

/-! ### Every run -/

/-- Both endpoints are in order, and so are the requests of each with the replies of the other. -/
structure Pair.Linked (L : Libraries) (s : Pair) : Prop where
  inv : ∀ x, PlainRpc.Inv L ((s x).at .idle)
  link : ∀ x : Side, Link (s x).rpc (s x.other).rpc

/-- A move of one side keeps both links. -/
theorem Link.move {ph ph' : Phase} {x x' y : Rpc} (h : Link x y ∧ Link y x)
    (hm : Move L R ph x ph' x') (hR : R.Justified y) (hx : x.Requesting ph) :
    Link x' y ∧ Link y x' :=
  ⟨h.1.requester_move hm hR hx, h.2.responder_move hm hR⟩

/-- A path of one side keeps both links. -/
theorem Link.path {a b : Point (List Sent)} {y : Rpc} (hp : Path L R (Posts L R) a b)
    (hR : R.Justified y) (hf : R.Faithful) (ha : PlainRpc.Inv L a)
    (h : Link a.rpc y ∧ Link y a.rpc) : Link b.rpc y ∧ Link y b.rpc := by
  refine (hp.invariant (I := fun c => PlainRpc.Inv L c ∧ Link c.rpc y ∧ Link y c.rpc)
    (fun c d hc hcd => ⟨hcd.inv hf hc.1, ?_⟩) ⟨ha, h⟩).2
  cases hcd with
  | move hm => exact Link.move hc.2 hm hR hc.1.requesting
  | quiet hq => exact hc.2

/-- The two sides, one of them named. -/
theorem Side.forall_iff {P : Side → Prop} (x : Side) : (∀ z, P z) ↔ P x ∧ P x.other := by
  refine ⟨fun h => ⟨h x, h x.other⟩, fun h z => ?_⟩
  cases x <;> cases z
  · exact h.1
  · exact h.2
  · exact h.2
  · exact h.1

/-- **Every run keeps both endpoints and both links in order.** -/
theorem Pair.run_linked {es : List PairEvent} {s : Pair} (r : (exchange L).Run es s) :
    s.Linked L := by
  refine r.invariant (I := Pair.Linked L) ?_ ?_
  · intro s hs
    refine ⟨fun x => ?_, fun x => ?_⟩
    · obtain ⟨f, env, hx⟩ := hs x
      rw [hx]
      exact PlainRpc.inv_new f env
    · obtain ⟨f, env, hx⟩ := hs x
      obtain ⟨f', env', hx'⟩ := hs x.other
      rw [hx, hx']
      exact Link.new f f'
  · intro s e s' hs h
    obtain ⟨R, hg, hother, hpath⟩ := h.path hs.inv
    have hR := hg.justified (hs.inv e.side.other)
    have hback := hs.link e.side.other
    rw [Side.other_other] at hback
    obtain ⟨h₁, h₂⟩ := Link.path hpath hR hg.faithful (hs.inv e.side) ⟨hs.link e.side, hback⟩
    refine ⟨(Side.forall_iff e.side).mpr ⟨?_, ?_⟩, (Side.forall_iff e.side).mpr ⟨?_, ?_⟩⟩
    · exact hpath.inv hg.faithful (hs.inv e.side)
    · rw [hother]
      exact hs.inv e.side.other
    · rw [hother]
      exact h₁
    · rw [hother, Side.other_other]
      exact h₂

/-! ### The order of barriers -/

/-- **Barrier order.**  In every state of an endpoint, whatever it receives, the requests in flight
have one barrier, the delayed ones later ones up to the current one, and nothing is delayed when
nothing is in flight; every `REQUEST` packet it sent was sent when all requests it had issued under
smaller barriers had been answered.  Between two endpoints, a request is accepted only after the
peer has replied to every request its sender ever issues under a smaller barrier. -/
theorem barrier_order (L : Libraries) :
    (∀ es s, (endpoints L).Run es s →
      (∃ b, (∀ a ∈ s.rpc.outgoingRequests, a.barrier = b) ∧
        ∀ d ∈ s.rpc.delayedRequests, b < d.barrier ∧ d.barrier ≤ s.rpc.onBarrier) ∧
      (s.rpc.outgoingRequests.entries = [] → s.rpc.delayedRequests.entries = []) ∧
      ∀ m ∈ s.sub, ∀ entries, m.message = (Packet.request entries).message L →
        ∀ e ∈ entries, ∀ a p, Issued m.history a p → a.barrier < e.id.barrier →
          .completed a ∈ m.history) ∧
    (∀ es s, (exchange L).Run es s → ∀ (x : Side) h id p,
      h ++ [.accepted id p] <+: (s x.other).rpc.history →
      ∀ a q, Issued (s x).rpc.history a q → a.barrier < id.barrier → ∃ q', .replied a q' ∈ h) := by
  refine ⟨fun es s r => ?_, fun es s r x => ((Pair.run_linked r).link x).order⟩
  have hs := PlainRpc.run_inv r
  have hord := hs.consistent.ordered (by simp [Self.at])
  refine ⟨?_, hord.empty, fun m hm entries hmsg e he => ?_⟩
  · cases hnil : s.rpc.outgoingRequests.entries with
    | nil =>
        have hout := UnorderedMap.entries_eq_nil.mp hnil
        have hdel := UnorderedMap.entries_eq_nil.mp (hord.empty hnil)
        exact ⟨0, fun a ha => absurd ha (hout a), fun d hd => absurd hd (hdel d)⟩
    | cons e l =>
        have hmem : e.1 ∈ s.rpc.outgoingRequests := UnorderedMap.mem_of_head (by rw [hnil]; rfl)
        exact ⟨e.1.barrier, fun a ha => hord.same a ha _ hmem,
          fun d hd => ⟨hord.lt_delayed _ hmem d hd, hord.delayed_le d hd⟩⟩
  · obtain ⟨-, p, hp, hb⟩ := hs.sent m hm
    have hobj : p.objects = (Packet.request entries).objects := by
      have h := congrArg L.unpack (hp.symm.trans hmsg)
      simp only [Packet.message, L.unpack_pack, Unpacked.mk.injEq, and_true] at h
      exact h
    cases Packet.eq_request hobj
    exact (hb e he).2.1

end Wga
