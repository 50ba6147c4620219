import WeGoAll.Rpc.Packets

/-!
# Rpc — Frame

The methods of `BiDirectionalRpc` change the members of a subclass only through the virtual methods
they call.  So what the virtual methods keep of them, every method keeps.

A `Frame` is a reflexive and transitive relation between those members before and after a call.

* `Respected.receive`: a message, whatever its bytes.
* `Respected.call`: a call of a public method.
-/

namespace Wga

/-- What may become of the members of a subclass. -/
structure Frame (τ : Type) where
  rel : τ → τ → Prop
  refl : ∀ a, rel a a
  trans : ∀ {a b c}, rel a b → rel b c → rel a c

namespace Frame

variable {τ : Type} (F : Frame τ)

/-- `f` keeps within `F`. -/
def Keeps (f : Self τ → Except Fault (Self τ)) : Prop :=
  ∀ s s', f s = .ok s' → F.rel s.sub s'.sub

/-- Every virtual method keeps within `F`. -/
structure Respected (V : Virtuals τ) : Prop where
  send : ∀ m, F.Keeps (V.send m)
  sendAcknowledge : ∀ id, F.Keeps (V.sendAcknowledge id)
  requestWithId : ∀ e, F.Keeps (V.requestWithId e)
  reply : ∀ id p, F.Keeps (V.reply id p)
  addIncomingRequest : ∀ e, F.Keeps (V.addIncomingRequest e)
  addIncomingReply : ∀ id p, F.Keeps (V.addIncomingReply id p)
  handleReply : ∀ id p t₁ t₂, F.Keeps (V.handleReply id p t₁ t₂)

end Frame

namespace BiDirectionalRpc

variable {τ : Type} {F : Frame τ} {L : Libraries} {send : Bytes → Self τ → Except Fault (Self τ)}

section Sending

variable (hsend : ∀ m, F.Keeps (send m))

include hsend

/-- Sending a request calls `send` once. -/
theorem sendRequest_keeps (id : RpcId) (payload : Bytes) (batch : Bool) :
    F.Keeps (sendRequest L send id payload batch) := by
  intro s s' h
  obtain ⟨es, env, -, he⟩ := sendRequest_eq L send id payload batch s
  rw [he] at h
  exact (hsend _ _ _ h :)

/-- Sending a reply calls `send` once. -/
theorem sendReply_keeps (id : RpcId) (payload : Bytes) (batch : Bool) :
    F.Keeps (sendReply L send id payload batch) := by
  intro s s' h
  obtain ⟨e, es, env, -, -, -, h⟩ := sendReply_ok h
  exact (hsend _ _ _ h :)

/-- A message sent again is a request or a reply. -/
theorem resend_keeps : F.Keeps (resendRandomOutgoingMessage L send) := by
  intro s s' h
  simp only [resendRandomOutgoingMessage, draw, Self.rand] at h
  split at h
  · split at h
    · rename_i heq
      obtain ⟨-, rfl⟩ := Prod.mk.inj heq
      exact (sendReply_keeps hsend _ _ _ _ _ h :)
    · rename_i heq
      obtain ⟨-, rfl⟩ := Prod.mk.inj heq
      cases h
      exact F.refl _
  · split at h
    · split at h
      · rename_i heq
        obtain ⟨-, rfl⟩ := Prod.mk.inj heq
        exact (sendRequest_keeps hsend _ _ _ _ _ h :)
      · rename_i heq
        obtain ⟨-, rfl⟩ := Prod.mk.inj heq
        cases h
        exact F.refl _
    · cases h
      exact F.refl _

theorem sendNow_keeps (id : RpcId) (payload : Bytes) : F.Keeps (sendNow L send id payload) := by
  intro s s' h
  simp only [sendNow, Self.now, bind_ok] at h
  obtain ⟨clock, -, h⟩ := h
  exact (sendRequest_keeps hsend _ _ _ _ _ h :)

/-- A request is sent or delayed. -/
theorem requestWithId_keeps (e : IdPayload) : F.Keeps (requestWithId L send e) := by
  intro s s' h
  simp only [requestWithId] at h
  split at h
  · exact (sendNow_keeps hsend _ _ _ _ h :)
  · split at h
    · exact (sendNow_keeps hsend _ _ _ _ h :)
    · cases h
      exact F.refl _

/-- The requests of a barrier are sent one by one. -/
theorem releaseBarrier_keeps (b : Int64) (l : List (Σ _ : RpcId, Bytes)) :
    F.Keeps (releaseBarrier L send b l) := by
  induction l with
  | nil =>
      intro s s' h
      cases h
      exact F.refl _
  | cons a l ih =>
      intro s s' h
      rw [releaseBarrier] at h
      split at h
      · rw [bind_ok] at h
        obtain ⟨s₁, h₁, h⟩ := h
        exact F.trans (sendNow_keeps hsend _ _ _ _ h₁) (ih _ _ h :)
      · exact ih _ _ h

/-- The next barrier is looked for, and its requests are sent. -/
theorem tryToSendBarrier_keeps : F.Keeps (tryToSendBarrier L send) := by
  intro s s' h
  simp only [tryToSendBarrier] at h
  split at h
  · cases h
    exact F.refl _
  · split at h
    · exact (releaseBarrier_keeps hsend _ _ _ _ h :)
    · cases h
      exact F.refl _

theorem reply_keeps (id : RpcId) (payload : Bytes) : F.Keeps (reply L send id payload) := by
  intro s s' h
  simp only [reply] at h
  split at h
  · exact (sendReply_keeps hsend _ _ _ _ _ h :)
  · cases h

/-- A request is handled with `send` and the virtual methods that add it and reply to it. -/
theorem handleRequest_keeps {add : IdPayload → Self τ → Except Fault (Self τ)}
    {rep : RpcId → Bytes → Self τ → Except Fault (Self τ)} (hadd : ∀ e, F.Keeps (add e))
    (hrep : ∀ id p, F.Keeps (rep id p)) (id : RpcId) (payload : Bytes) :
    F.Keeps (handleRequest L send add rep id payload) := by
  intro s s' h
  simp only [handleRequest] at h
  split at h
  · cases h
    exact F.refl _
  · split at h
    · exact (sendReply_keeps hsend _ _ _ _ _ h :)
    · rw [bind_ok] at h
      obtain ⟨s₁, h₁, h⟩ := h
      refine F.trans (hadd _ _ _ h₁) ?_
      split at h
      · split at h
        · exact (hrep _ _ _ _ h :)
        · split at h
          · exact (hrep _ _ (shutdown s₁) _ h :)
          · cases h
            exact F.refl _
      · cases h
        exact F.refl _

/-- A reply is handled with `send` and the virtual methods that acknowledge and add it. -/
theorem handleReply_keeps {ack : RpcId → Self τ → Except Fault (Self τ)}
    {add : RpcId → Bytes → Self τ → Except Fault (Self τ)} (hack : ∀ id, F.Keeps (ack id))
    (hadd : ∀ id p, F.Keeps (add id p)) (id : RpcId) (payload : Bytes) (t₁ t₂ : Int) :
    F.Keeps (handleReply L send ack add id payload t₁ t₂) := by
  intro s s' h
  simp only [handleReply] at h
  split at h
  · exact (hack _ _ _ h :)
  · split at h
    · rw [bind_ok] at h
      obtain ⟨s₁, h₁, h⟩ := h
      have step₁ : F.rel s.sub s₁.sub := (tryToSendBarrier_keeps hsend _ _ h₁ :)
      have rest : ∀ s₂ : Self τ, (ack id s₂ >>= fun self => do
            let clock ← self.now.2.rpc.clock.handleReply id t₁ t₂ self.now.1
            Except.ok { self.now.2 with rpc.clock := clock }) = .ok s' →
          F.rel s₂.sub s'.sub := by
        intro s₂ h₂
        simp only [bind_ok, Self.now] at h₂
        obtain ⟨s₃, h₃, clock, -, h₄⟩ := h₂
        cases h₄
        exact (hack _ _ _ h₃ :)
      refine F.trans step₁ ?_
      split at h
      · rw [ok_bind] at h
        exact (rest _ h :)
      · rw [bind_ok] at h
        obtain ⟨s₂, h₂, h⟩ := h
        exact F.trans (hadd _ _ _ _ h₂) (rest _ h)
    · exact (hack _ _ _ h :)

end Sending

/-- Adding a request calls nothing. -/
theorem addIncomingRequest_sub {e : IdPayload} {s s' : Self τ}
    (h : addIncomingRequest e s = .ok s') : s'.sub = s.sub := by
  simp only [addIncomingRequest, Self.now, bind_ok] at h
  obtain ⟨clock, -, h⟩ := h
  cases h
  rfl

/-- An acknowledgement calls nothing. -/
theorem handleAcknowledge_sub {uid : RpcId} {s s' : Self τ}
    (h : handleAcknowledge uid s = .ok s') : s'.sub = s.sub := by
  simp only [handleAcknowledge] at h
  split at h
  · rw [bind_ok] at h
    obtain ⟨clock, -, h⟩ := h
    cases h
    rfl
  · cases h
    rfl

end BiDirectionalRpc

/-! ### Messages and calls -/

namespace Frame.Respected

open BiDirectionalRpc

variable {τ : Type} {F : Frame τ} {L : Libraries} {V : Virtuals τ}

/-- The loop over the requests of a packet. -/
theorem receiveRequests (R : F.Respected V) (fuel : Nat) (reader : MessageReader)
    {s s' : Self τ} {b : Bool} (h : receiveRequests L V fuel reader s = .ok (b, s')) :
    F.rel s.sub s'.sub := by
  induction fuel generalizing reader s with
  | zero =>
      cases h
      exact F.refl _
  | succ fuel ih =>
      rw [BiDirectionalRpc.receiveRequests] at h
      split at h
      · obtain ⟨⟨id, reader₁⟩, -, h⟩ := bind_ok.mp h
        obtain ⟨⟨payload, reader₂⟩, -, h⟩ := bind_ok.mp h
        simp only [validatePacket, Bool.not_true, Bool.false_eq_true, if_false, bind_ok] at h
        obtain ⟨s₁, h₁, h⟩ := h
        exact F.trans (handleRequest_keeps R.send R.addIncomingRequest R.reply _ _ _ _ h₁)
          (ih _ h)
      · cases h
        exact F.refl _

/-- The loop over the replies of a packet. -/
theorem receiveReplies (R : F.Respected V) (fuel : Nat) (reader : MessageReader)
    {s s' : Self τ} {b : Bool} (h : receiveReplies V fuel reader s = .ok (b, s')) :
    F.rel s.sub s'.sub := by
  induction fuel generalizing reader s with
  | zero =>
      cases h
      exact F.refl _
  | succ fuel ih =>
      rw [BiDirectionalRpc.receiveReplies] at h
      split at h
      · obtain ⟨⟨uid, reader₁⟩, -, h⟩ := bind_ok.mp h
        obtain ⟨⟨t₁, reader₂⟩, -, h⟩ := bind_ok.mp h
        obtain ⟨⟨t₂, reader₃⟩, -, h⟩ := bind_ok.mp h
        obtain ⟨⟨payload, reader₄⟩, -, h⟩ := bind_ok.mp h
        simp only [validatePacket, Bool.not_true, Bool.false_eq_true, if_false, bind_ok] at h
        obtain ⟨s₁, h₁, h⟩ := h
        exact F.trans (R.handleReply _ _ _ _ _ _ h₁) (ih _ h)
      · cases h
        exact F.refl _

/-- **A received message keeps what the virtual methods keep**, whatever its bytes. -/
theorem receive (R : F.Respected V) {m : Bytes} {s s' : Self τ} {b : Bool}
    (h : receive L V m s = .ok (b, s')) : F.rel s.sub s'.sub := by
  simp only [BiDirectionalRpc.receive, bind_ok] at h
  obtain ⟨⟨header, reader⟩, -, h⟩ := h
  rw [← flake_sub s]
  split at h
  · cases h
    exact F.refl _
  · split at h
    · exact R.receiveRequests _ _ h
    · split at h
      · exact R.receiveReplies _ _ h
      · split at h
        · simp only [receiveAcknowledge] at h
          obtain ⟨⟨uid, reader₁⟩, -, h⟩ := bind_ok.mp h
          obtain ⟨⟨payload, reader₂⟩, -, h⟩ := bind_ok.mp h
          simp only [validatePacket, Bool.not_true, Bool.false_eq_true, if_false, bind_ok] at h
          obtain ⟨s₁, h₁, h⟩ := h
          cases h
          rw [handleAcknowledge_sub h₁]
          exact F.refl _
        · cases h

/-- `request` is `requestWithId` under an identifier that is drawn. -/
theorem request (R : F.Respected V) (uuid : UInt64) (payload : Bytes) :
    F.Keeps (request V uuid payload) := fun _ _ h => (R.requestWithId _ _ _ h :)

theorem requestOneWay (R : F.Respected V) (uuid : UInt64) (payload : Bytes) :
    F.Keeps (requestOneWay V uuid payload) := fun _ _ h => (R.requestWithId _ _ _ h :)

/-- A heartbeat sends a message again, or makes a request. -/
theorem heartbeat (R : F.Respected V) (uuid : UInt64) : F.Keeps (heartbeat L V uuid) := by
  intro s s' h
  simp only [BiDirectionalRpc.heartbeat] at h
  split at h
  · exact resend_keeps R.send _ _ h
  · split at h
    · exact (R.requestOneWay _ _ _ _ h :)
    · cases h
      exact F.refl _

/-- **A call keeps what the virtual methods keep.** -/
theorem call (R : F.Respected V) (c : Call) : F.Keeps fun s => c.run L V s := by
  intro s s' h
  cases c with
  | request uuid payload => exact R.request _ _ _ _ h
  | requestOneWay uuid payload => exact (R.requestOneWay _ _ _ _ h :)
  | reply id payload => exact R.reply _ _ _ _ h
  | getFirstIncomingReply =>
      simp only [Call.run, getFirstIncomingReply] at h
      split at h
      · cases h
      · cases h
        exact F.refl _
  | consumeIncomingReplyWithId id =>
      simp only [Call.run, consumeIncomingReplyWithId] at h
      split at h
      · cases h
      · cases h
        exact F.refl _
  | barrier =>
      simp only [Call.run, barrier] at h
      split at h
      · cases h
      · cases h
        exact F.refl _
  | heartbeat uuid => exact R.heartbeat _ _ _ h
  | resendRandomOutgoingMessage => exact resend_keeps R.send _ _ h
  | sendShutdown uuid =>
      simp only [Call.run, sendShutdown] at h
      split at h
      · cases h
        exact F.refl _
      · exact (R.requestOneWay _ _ _ _ h :)
  | shutdown =>
      cases h
      exact F.refl _

end Frame.Respected

end Wga
