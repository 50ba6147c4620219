import Mathlib.Data.List.Induction
import WeGoAll.Endpoints.Roles
import WeGoAll.Formats.Msgpack
import WeGoAll.Rpc.Endpoint

/-!
# Endpoints — Work

When a handler says that it has no work left.  The handler is a class derived from
`MultiEndpointHandler` that adds nothing but a record of what its connection has seen: the messages
sent, each with the time it was sent at, and the replies handled.

* `multiEndpoints`: the system; any calls, messages of any bytes, and hash tables in any order.
* `Run.stamped`: the stamp is the time of the first message sent since a reply.
* `hasWork_sound_iff`: when the answer that there is no work means that there is none, or that the
  connection has been silent.
-/

namespace Wga

/-- What a connection has seen. -/
inductive Traffic where
  /-- A call of `send`, whether or not the byte limit drops the message. -/
  | sent (time : Int)
  | replied
  deriving DecidableEq

/-- The times of the messages sent since the last reply. -/
def unreplied (traffic : List Traffic) : List Int :=
  traffic.foldl (fun times x => match x with
    | .sent time => times ++ [time]
    | .replied => []) []

/-- A `MultiEndpointHandler` and what its connection has seen. -/
abbrev MultiEndpoint := Self (Handler (List Traffic))

namespace MultiEndpoint

variable (L : Libraries)

/-- The constructor. -/
def new (endpoints : List Endpoint) (now : Int) (flaky : Bool) (env : Env) :
    Except Fault MultiEndpoint := do
  let handler ← MultiEndpointHandler.new endpoints now []
  .ok ⟨BiDirectionalRpc.new flaky, handler, env⟩

def note (x : Traffic) (self : MultiEndpoint) : MultiEndpoint :=
  { self with sub.derived := self.sub.derived ++ [x] }

def send (message : Bytes) (self : MultiEndpoint) : Except Fault MultiEndpoint :=
  MultiEndpointHandler.send message (note (.sent (self.env.time 0)) self)

def handleReply (rpcId : RpcId) (payload : Bytes) (requestReceiveTime replySendTime : Int)
    (self : MultiEndpoint) : Except Fault MultiEndpoint :=
  MultiEndpointHandler.handleReply
    (BiDirectionalRpc.handleReply L send (BiDirectionalRpc.sendAcknowledge L send)
      BiDirectionalRpc.addIncomingReply)
    rpcId payload requestReceiveTime replySendTime (note .replied self)

/-- The methods an object of this class dispatches to. -/
def virtuals : Virtuals (Handler (List Traffic)) where
  send := send
  sendAcknowledge := BiDirectionalRpc.sendAcknowledge L send
  requestWithId := BiDirectionalRpc.requestWithId L send
  reply := BiDirectionalRpc.reply L send
  addIncomingRequest := BiDirectionalRpc.addIncomingRequest
  addIncomingReply := BiDirectionalRpc.addIncomingReply
  handleReply := handleReply L
  readyToSend := fun _ => true

end MultiEndpoint

/-- An event at a `MultiEndpointHandler`. -/
inductive MultiEndpointEvent where
  | call (c : Call)
  | receive (message : Bytes)
  | hasEndpointAndResurrectIfFound (e : Endpoint)
  | addEndpoints (es : List Endpoint)
  | banEndpoint (e : Endpoint)
  | rehash

/-- What an event does. -/
inductive MultiEndpoint.Step (L : Libraries) :
    MultiEndpoint → MultiEndpointEvent → MultiEndpoint → Prop where
  | call {s s' : MultiEndpoint} {c : Call} (h : c.run L (virtuals L) s = .ok s') :
      Step L s (.call c) s'
  | receive {s s' : MultiEndpoint} {message : Bytes} {b : Bool}
      (h : BiDirectionalRpc.receive L (virtuals L) message s = .ok (b, s')) :
      Step L s (.receive message) s'
  | hasEndpointAndResurrectIfFound {s : MultiEndpoint} {e : Endpoint} :
      Step L s (.hasEndpointAndResurrectIfFound e)
        { s with sub := (MultiEndpointHandler.hasEndpointAndResurrectIfFound e s.sub).2 }
  | addEndpoints {s : MultiEndpoint} {es : List Endpoint} :
      Step L s (.addEndpoints es) { s with sub := MultiEndpointHandler.addEndpoints es s.sub }
  | banEndpoint {s s' : MultiEndpoint} {e : Endpoint}
      (h : MultiEndpointHandler.banEndpoint e s = .ok s') : Step L s (.banEndpoint e) s'
  | rehash {s : MultiEndpoint} {r : Rpc} (h : s.rpc.Rehashed r) :
      Step L s .rehash { s with rpc := r }

/-- The runs of a `MultiEndpointHandler` in which the process survives. -/
def multiEndpoints (L : Libraries) : System MultiEndpoint MultiEndpointEvent where
  init s := ∃ endpoints now flaky env, MultiEndpoint.new endpoints now flaky env = .ok s
  step := MultiEndpoint.Step L

/-! ### The record -/

@[simp] theorem unreplied_sent (traffic : List Traffic) (time : Int) :
    unreplied (traffic ++ [.sent time]) = unreplied traffic ++ [time] := by
  simp [unreplied]

@[simp] theorem unreplied_replied (traffic : List Traffic) :
    unreplied (traffic ++ [.replied]) = [] := by
  simp [unreplied]

/-- Some message was sent before that time, and no reply has been handled since. -/
def SentBefore (time : Int) (traffic : List Traffic) : Prop :=
  ∃ p q t, traffic = p ++ .sent t :: q ∧ .replied ∉ q ∧ t < time

/-- Where a list is split decides what its last element belongs to. -/
private theorem snoc_eq_split {traffic p q : List Traffic} {x y : Traffic}
    (h : traffic ++ [x] = p ++ y :: q) :
    q = [] ∧ y = x ∨ ∃ q', q = q' ++ [x] ∧ traffic = p ++ y :: q' := by
  rcases List.eq_nil_or_concat' q with rfl | ⟨q', z, rfl⟩
  · obtain ⟨-, hx⟩ := List.append_inj' h rfl
    cases hx
    exact .inl ⟨rfl, rfl⟩
  · rw [← List.cons_append, ← List.append_assoc] at h
    obtain ⟨rfl, hx⟩ := List.append_inj' h rfl
    cases hx
    exact .inr ⟨q', rfl, rfl⟩

theorem mem_unreplied {traffic : List Traffic} {t : Int} :
    t ∈ unreplied traffic ↔ ∃ p q, traffic = p ++ .sent t :: q ∧ .replied ∉ q := by
  induction traffic using List.reverseRecOn with
  | nil => simp [unreplied]
  | append_singleton traffic x ih =>
      cases x with
      | sent time =>
          rw [unreplied_sent, List.mem_append, List.mem_singleton, ih]
          constructor
          · rintro (⟨p, q, rfl, hq⟩ | rfl)
            · exact ⟨p, q ++ [.sent time], by simp, by simpa using hq⟩
            · exact ⟨traffic, [], rfl, List.not_mem_nil⟩
          · rintro ⟨p, q, h, hq⟩
            rcases snoc_eq_split h with ⟨rfl, hx⟩ | ⟨q', rfl, h'⟩
            · cases hx
              exact .inr rfl
            · exact .inl ⟨p, q', h', fun hq' => hq (List.mem_append_left _ hq')⟩
      | replied =>
          rw [unreplied_replied]
          refine iff_of_false List.not_mem_nil ?_
          rintro ⟨p, q, h, hq⟩
          rcases snoc_eq_split h with ⟨rfl, hx⟩ | ⟨q', rfl, -⟩
          · cases hx
          · exact hq (by simp)

theorem sentBefore_iff {time : Int} {traffic : List Traffic} :
    SentBefore time traffic ↔ ∃ t ∈ unreplied traffic, t < time := by
  simp only [SentBefore, mem_unreplied]
  constructor
  · rintro ⟨p, q, t, h, hq, ht⟩
    exact ⟨t, ⟨p, q, h, hq⟩, ht⟩
  · rintro ⟨t, ⟨p, q, h, hq⟩, ht⟩
    exact ⟨p, q, t, h, hq, ht⟩

/-! ### The stamp -/

/-- The stamp is the time of the first message sent since a reply, 0 where there is none, if no
message was sent at the time 0. -/
def Stamped (h : Handler (List Traffic)) : Prop :=
  .sent 0 ∉ h.derived → h.lastUnrepliedSendTime = (unreplied h.derived).headD 0

/-- What becomes of the stamp and the record. -/
def stamped : Frame (Handler (List Traffic)) where
  rel h h' := h.derived <+: h'.derived ∧ (Stamped h → Stamped h')
  refl _ := ⟨List.prefix_rfl, id⟩
  trans h₁ h₂ := ⟨h₁.1.trans h₂.1, fun h => h₂.2 (h₁.2 h)⟩

namespace MultiEndpointHandler

variable {κ : Type} {s s' : Self (Handler κ)}

/-- The stamp and the members of the derived class are kept. -/
def sameStamp : Frame (Handler κ) where
  rel h h' := h'.lastUnrepliedSendTime = h.lastUnrepliedSendTime ∧ h'.derived = h.derived
  refl _ := ⟨rfl, rfl⟩
  trans h₁ h₂ := ⟨h₂.1.trans h₁.1, h₂.2.trans h₁.2⟩

theorem killEndpoint_sameStamp : sameStamp.Keeps (killEndpoint (κ := κ)) := by
  intro s s' h
  obtain ⟨x, _, _, -, rfl⟩ := killEndpoint_cases h
  exact ⟨rfl, rfl⟩

theorem banEndpoint_sameStamp (e : Endpoint) : sameStamp.Keeps (banEndpoint (κ := κ) e) := by
  intro s s' h
  obtain ⟨s₁, hkill, rfl⟩ := banEndpoint_cases h
  rcases hkill with ⟨-, hkill⟩ | ⟨-, rfl⟩
  · exact (killEndpoint_sameStamp _ _ hkill :)
  · exact ⟨rfl, rfl⟩

theorem addEndpoints_sameStamp (es : List Endpoint) (h : Handler κ) :
    sameStamp.rel h (addEndpoints es h) := by
  induction es generalizing h with
  | nil => exact ⟨rfl, rfl⟩
  | cons e es ih =>
      refine sameStamp.trans ?_ (ih (addEndpoint e h))
      unfold addEndpoint
      split_ifs <;> exact ⟨rfl, rfl⟩

theorem udpSend_sameStamp (m : Bytes) (s : Self (Handler κ)) :
    sameStamp.rel s.sub (UdpBiDirectionalRpc.send m s).sub := by
  unfold UdpBiDirectionalRpc.send
  dsimp only
  split_ifs <;> exact ⟨rfl, rfl⟩

/-- A message is noted as sent, where none is unreplied, at the time the clock reads. -/
theorem noteUnrepliedSend_stamp (s : Self (Handler κ)) :
    (noteUnrepliedSend s).sub.lastUnrepliedSendTime =
      (if s.sub.lastUnrepliedSendTime = 0 then s.env.time 0 else s.sub.lastUnrepliedSendTime) ∧
    (noteUnrepliedSend s).sub.derived = s.sub.derived := by
  unfold noteUnrepliedSend
  split_ifs <;> exact ⟨rfl, rfl⟩

/-- A message is noted as sent at both ends of `send`, and nothing in between changes the stamp. -/
theorem send_cases {m : Bytes} (h : send m s = .ok s') :
    ∃ s₁, sameStamp.rel (noteUnrepliedSend s).sub s₁.sub ∧ s' = noteUnrepliedSend s₁ := by
  unfold send at h
  dsimp only at h
  split_ifs at h
  · obtain ⟨s₁, h₁, h⟩ := bind_ok.mp h
    cases h
    have hupdate := update_keeps killEndpoint_sameStamp _ _ h₁
    exact ⟨_, sameStamp.trans hupdate (udpSend_sameStamp m s₁), rfl⟩
  · cases h
    exact ⟨_, udpSend_sameStamp m (noteUnrepliedSend s).time.2, rfl⟩

theorem send_derived {m : Bytes} (h : send m s = .ok s') : s'.sub.derived = s.sub.derived := by
  obtain ⟨s₁, hs₁, rfl⟩ := send_cases h
  rw [(noteUnrepliedSend_stamp s₁).2, hs₁.2, (noteUnrepliedSend_stamp s).2]

/-- **What sending does to the stamp**: where it is 0, it is set to the time the clock reads first,
unless that is 0. -/
theorem send_stamp {m : Bytes} (h : send m s = .ok s') (ht : s.env.time 0 ≠ 0) :
    s'.sub.lastUnrepliedSendTime =
      if s.sub.lastUnrepliedSendTime = 0 then s.env.time 0 else s.sub.lastUnrepliedSendTime := by
  obtain ⟨s₁, hs₁, rfl⟩ := send_cases h
  have hne : s₁.sub.lastUnrepliedSendTime ≠ 0 := by
    rw [hs₁.1, (noteUnrepliedSend_stamp s).1]
    split_ifs with hz
    · exact ht
    · exact hz
  rw [(noteUnrepliedSend_stamp s₁).1, if_neg hne, hs₁.1, (noteUnrepliedSend_stamp s).1]

end MultiEndpointHandler

namespace MultiEndpoint

open MultiEndpointHandler

variable {L : Libraries}

theorem stamped_of_sameStamp {h h' : Handler (List Traffic)} (hs : sameStamp.rel h h') :
    stamped.rel h h' := by
  obtain ⟨hstamp, hrecord⟩ := hs
  refine ⟨hrecord ▸ List.prefix_rfl, fun h₁ hz => ?_⟩
  rw [hrecord] at hz ⊢
  rw [hstamp, h₁ hz]

/-- **A message sent** is recorded and stamped. -/
theorem send_stamped (m : Bytes) : stamped.Keeps (send m) := by
  intro s s' h
  have hrecord : s'.sub.derived = s.sub.derived ++ [.sent (s.env.time 0)] := send_derived h
  refine ⟨hrecord ▸ List.prefix_append _ _, fun hs hz => ?_⟩
  rw [hrecord, List.mem_append, List.mem_singleton, not_or] at hz
  have ht : s.env.time 0 ≠ 0 := fun h => hz.2 (by rw [h])
  have hstamp : s'.sub.lastUnrepliedSendTime =
      if s.sub.lastUnrepliedSendTime = 0 then s.env.time 0 else s.sub.lastUnrepliedSendTime :=
    send_stamp (s := note (.sent (s.env.time 0)) s) h ht
  rw [hstamp, hs hz.1, hrecord, unreplied_sent]
  cases hu : unreplied s.sub.derived with
  | nil => simp
  | cons t ts =>
      have hne : t ≠ 0 := by
        rintro rfl
        obtain ⟨p, q, hp, -⟩ := mem_unreplied.mp (hu ▸ List.mem_cons_self)
        exact hz.1 (by simp [hp])
      simp [hne]

theorem handleReply_stamped (id : RpcId) (p : Bytes) (t₁ t₂ : Int) :
    stamped.Keeps (handleReply L id p t₁ t₂) := by
  intro s s' h
  have hzero : stamped.rel s.sub { s.sub with
      lastUnrepliedSendTime := 0
      lastUnrepliedSendOrKillTime := 0
      derived := s.sub.derived ++ [.replied] } := by
    refine ⟨List.prefix_append _ _, fun _ _ => ?_⟩
    rw [unreplied_replied]
    rfl
  refine stamped.trans hzero ?_
  refine (BiDirectionalRpc.handleReply_keeps send_stamped
    (fun id s s' h => (send_stamped _ _ _ h :)) (fun _ _ s s' h => ?_) _ _ _ _ _ _ h :)
  cases h
  exact stamped.refl _

theorem virtuals_stamped : stamped.Respected (virtuals L) where
  send := send_stamped
  sendAcknowledge _ s s' h := (send_stamped _ _ _ h :)
  requestWithId := BiDirectionalRpc.requestWithId_keeps send_stamped
  reply := BiDirectionalRpc.reply_keeps send_stamped
  addIncomingRequest _ s s' h := by
    rw [BiDirectionalRpc.addIncomingRequest_sub h]
    exact stamped.refl _
  addIncomingReply _ _ s s' h := by
    cases h
    exact stamped.refl _
  handleReply := handleReply_stamped

/-- Whatever happens, the stamp follows the record. -/
theorem Step.frame {s s' : MultiEndpoint} {e : MultiEndpointEvent} (h : Step L s e s') :
    stamped.rel s.sub s'.sub := by
  cases h with
  | call h => exact virtuals_stamped.call _ _ _ h
  | receive h => exact virtuals_stamped.receive h
  | hasEndpointAndResurrectIfFound =>
      refine stamped_of_sameStamp ?_
      unfold MultiEndpointHandler.hasEndpointAndResurrectIfFound
      split_ifs <;> exact ⟨rfl, rfl⟩
  | addEndpoints => exact stamped_of_sameStamp (addEndpoints_sameStamp _ _)
  | banEndpoint h => exact stamped_of_sameStamp (banEndpoint_sameStamp _ _ _ h)
  | rehash h => exact stamped.refl s.sub

/-- **The stamp** is the time of the first message sent since a reply, and 0 where there is
none. -/
theorem Run.stamped {es : List MultiEndpointEvent} {s : MultiEndpoint}
    (r : (multiEndpoints L).Run es s) : Stamped s.sub := by
  refine r.invariant (I := fun s => Stamped s.sub) ?_ ?_
  · rintro s ⟨endpoints, now, flaky, env, h⟩
    obtain ⟨handler, hnew, h⟩ := bind_ok.mp h
    cases h
    unfold MultiEndpointHandler.new at hnew
    split at hnew
    · cases hnew
    · cases hnew
      exact fun _ => rfl
  · exact fun s e s' hs h => h.frame.2 hs

end MultiEndpoint

/-! ### No work -/

/-- Nothing is queued. -/
structure Rpc.Idle (r : Rpc) : Prop where
  delayedRequests : r.delayedRequests.entries = []
  outgoingRequests : r.outgoingRequests.entries = []
  incomingRequests : r.incomingRequests.entries = []
  incomingReplies : r.incomingReplies.entries = []

/-- The payloads queued. -/
def Rpc.queued (r : Rpc) : List Bytes :=
  (r.delayedRequests.entries ++ r.outgoingRequests.entries ++ r.incomingRequests.entries ++
    r.incomingReplies.entries).map Sigma.snd

theorem Rpc.idle_iff {r : Rpc} : r.Idle ↔ r.queued = [] := by
  simp only [queued, List.map_eq_nil_iff, List.append_eq_nil_iff]
  exact ⟨fun h => ⟨⟨⟨h.1, h.2⟩, h.3⟩, h.4⟩, fun h => ⟨h.1.1.1, h.1.1.2, h.1.2, h.2⟩⟩

theorem BiDirectionalRpc.hasWork_iff {r : Rpc} :
    BiDirectionalRpc.hasWork r = true ↔ ∃ payload ∈ r.queued, payload ≠ [] := by
  have h : BiDirectionalRpc.hasWork r = r.queued.any fun payload => !payload.isEmpty := by
    simp [hasWork, Rpc.queued, Bool.or_assoc, Function.comp_def]
  simp [h]

/-- What a connection has read from its clock: no message was sent at the time 0 or before, and
those unreplied were sent in order. -/
structure Clocked (traffic : List Traffic) : Prop where
  positive : ∀ t, .sent t ∈ traffic → 0 < t
  ordered : (unreplied traffic).Pairwise (· ≤ ·)

namespace MultiEndpoint

variable {L : Libraries} {es : List MultiEndpointEvent} {s : MultiEndpoint}

/-- Where the clock does not go back, the stamp tells whether the connection has been silent. -/
theorem Run.sentBefore_iff (r : (multiEndpoints L).Run es s) (hclock : Clocked s.sub.derived)
    {time : Int} : SentBefore time s.sub.derived ↔
      s.sub.lastUnrepliedSendTime ≠ 0 ∧ s.sub.lastUnrepliedSendTime < time := by
  have hstamp := Run.stamped r fun h => absurd (hclock.positive 0 h) (by decide)
  have hordered := hclock.ordered
  rw [Wga.sentBefore_iff, hstamp]
  cases hu : unreplied s.sub.derived with
  | nil => simp
  | cons t ts =>
      obtain ⟨p, q, hp, -⟩ := mem_unreplied.mp (hu ▸ List.mem_cons_self)
      have ht : 0 < t := hclock.positive t (by simp [hp])
      rw [hu, List.pairwise_cons] at hordered
      rw [List.headD_cons]
      constructor
      · rintro ⟨a, ha, hlt⟩
        refine ⟨by omega, ?_⟩
        rcases List.mem_cons.mp ha with rfl | ha
        · exact hlt
        · exact Int.lt_of_le_of_lt (hordered.1 a ha) hlt
      · exact fun h => ⟨t, List.mem_cons_self, h.2⟩

/-- **When the answer that there is no work can be relied on.**  It means that nothing is queued, or
that a message was sent more than five seconds ago and no reply has been handled since, exactly in
these states: nothing is queued; or a message is unreplied, and some queued payload is not empty or
the message was sent more than five seconds ago; or none is unreplied, some queued payload is not
empty and the clock reads five or less.  A message is sent where `send` is called, also one that the
byte limit drops. -/
theorem hasWork_sound_iff (r : (multiEndpoints L).Run es s) (hclock : Clocked s.sub.derived)
    (now : Int) :
    (MultiEndpointHandler.hasWork now s = false →
      s.rpc.Idle ∨ SentBefore (now - 5) s.sub.derived) ↔
    s.rpc.queued = [] ∨
    (s.sub.lastUnrepliedSendTime ≠ 0 ∧
      ((∃ payload ∈ s.rpc.queued, payload ≠ []) ∨ s.sub.lastUnrepliedSendTime + 5 < now)) ∨
    (s.sub.lastUnrepliedSendTime = 0 ∧ (∃ payload ∈ s.rpc.queued, payload ≠ []) ∧ now ≤ 5) := by
  have hfalse : MultiEndpointHandler.hasWork now s = false ↔
      s.sub.lastUnrepliedSendTime + 5 < now ∨ ¬ ∃ payload ∈ s.rpc.queued, payload ≠ [] := by
    rw [← BiDirectionalRpc.hasWork_iff, MultiEndpointHandler.hasWork,
      MultiEndpointHandler.isConnectionDead, Bool.not_eq_true]
    split
    · rename_i hdead
      exact iff_of_true rfl (.inl (of_decide_eq_true hdead))
    · rename_i halive
      exact (or_iff_right fun h => halive (decide_eq_true h)).symm
  rw [hfalse, Rpc.idle_iff, Run.sentBefore_iff r hclock]
  by_cases hqueued : s.rpc.queued = []
  · simp [hqueued]
  by_cases hpayload : ∃ payload ∈ s.rpc.queued, payload ≠ []
  · simp only [hqueued, hpayload, not_true, or_false, false_or, true_or, and_true, true_and]
    omega
  · simp only [hqueued, hpayload, not_false_eq_true, or_true, false_or, false_and, and_false,
      or_false, true_implies]
    omega

/-! ### Runs that are computed -/

/-- An event as a computation; `rehash` changes nothing here. -/
def exec (L : Libraries) (s : MultiEndpoint) : MultiEndpointEvent → Except Fault MultiEndpoint
  | .call c => c.run L (virtuals L) s
  | .receive message => do
      let (_, s) ← BiDirectionalRpc.receive L (virtuals L) message s
      .ok s
  | .hasEndpointAndResurrectIfFound e =>
      .ok { s with sub := (MultiEndpointHandler.hasEndpointAndResurrectIfFound e s.sub).2 }
  | .addEndpoints es => .ok { s with sub := MultiEndpointHandler.addEndpoints es s.sub }
  | .banEndpoint e => MultiEndpointHandler.banEndpoint e s
  | .rehash => .ok s

theorem exec_step {s s' : MultiEndpoint} {e : MultiEndpointEvent} (h : exec L s e = .ok s') :
    Step L s e s' := by
  cases e with
  | call c => exact .call h
  | receive message =>
      obtain ⟨⟨b, s₁⟩, h₁, h⟩ := bind_ok.mp h
      cases h
      exact .receive h₁
  | hasEndpointAndResurrectIfFound e =>
      cases h
      exact .hasEndpointAndResurrectIfFound
  | addEndpoints es =>
      cases h
      exact .addEndpoints
  | banEndpoint e => exact .banEndpoint h
  | rehash =>
      cases h
      exact .rehash ⟨.refl _, .refl _, .refl _, .refl _, .refl _, rfl⟩

/-- A handler made when the clock reads 1, as it always does, and what happens to it. -/
def from1 (L : Libraries) (es : List MultiEndpointEvent) : Except Fault MultiEndpoint := do
  let s ← new [⟨1, 1⟩] 1 false default
  es.foldlM (exec L) s

theorem run_from1 {es : List MultiEndpointEvent} {s : MultiEndpoint} (h : from1 L es = .ok s) :
    (multiEndpoints L).Run es s := by
  obtain ⟨s₀, h₀, h⟩ := bind_ok.mp h
  have hinit : (multiEndpoints L).init s₀ := ⟨_, _, _, _, h₀⟩
  exact .of_foldlM (fun _ _ _ => exec_step) hinit h

/-- A request was sent six seconds ago. -/
theorem hasWork_sound_iff_silent : ∃ s,
    (multiEndpoints .standIn).Run [.call (.request 7 (ascii ['H', 'I']))] s ∧
    MultiEndpointHandler.hasWork 7 s = false ∧
    (s.rpc.Idle ∨ SentBefore (7 - 5) s.sub.derived) := by
  have h : ∃ s, from1 .standIn [.call (.request 7 (ascii ['H', 'I']))] = .ok s ∧
      s.sub.derived = [.sent 1] ∧ s.sub.lastUnrepliedSendTime = 1 ∧
      MultiEndpointHandler.hasWork 7 s = false := by
    decide +kernel
  obtain ⟨s, h, hrecord, hstamp, hwork⟩ := h
  have hclock : Clocked s.sub.derived := by
    rw [hrecord]
    exact ⟨by simp, by simp [unreplied]⟩
  have hsound := (hasWork_sound_iff (run_from1 h) hclock 7).mpr
    (.inr (.inl ⟨by rw [hstamp]; decide, .inr (by rw [hstamp]; decide)⟩))
  exact ⟨s, run_from1 h, hwork, hsound hwork⟩

/-- Nothing was sent, and a request has arrived. -/
theorem unsent_abandoned : ∃ s,
    (multiEndpoints .standIn).Run
      [.receive ((Packet.request [⟨⟨0, 7⟩, ascii ['H', 'I']⟩]).message .standIn)] s ∧
    s.rpc.incomingRequests.lookup ⟨0, 7⟩ = some (ascii ['H', 'I']) ∧
    MultiEndpointHandler.hasWork 7 s = false ∧
    ¬ (s.rpc.Idle ∨ SentBefore (7 - 5) s.sub.derived) := by
  have h : ∃ s, from1 .standIn
        [.receive ((Packet.request [⟨⟨0, 7⟩, ascii ['H', 'I']⟩]).message .standIn)] = .ok s ∧
      s.rpc.incomingRequests.lookup ⟨0, 7⟩ = some (ascii ['H', 'I']) ∧
      MultiEndpointHandler.hasWork 7 s = false ∧ s.rpc.queued ≠ [] ∧
      s.sub.derived = [] := by
    decide +kernel
  obtain ⟨s, h, hrequest, hwork, hqueued, hrecord⟩ := h
  refine ⟨s, run_from1 h, hrequest, hwork, ?_⟩
  rintro (hidle | ⟨p, q, t, hp, -⟩)
  · exact hqueued (Rpc.idle_iff.mp hidle)
  · rw [hrecord] at hp
    simp at hp

end MultiEndpoint

end Wga
