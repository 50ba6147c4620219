import WeGoAll.Endpoints.Roles
import WeGoAll.Rpc.Batches
import WeGoAll.Rpc.Progress

/-!
# Endpoints — Encrypted

The methods of `EncryptedMultiEndpointHandler` are paths too, and they end where a key is there and
a handshake can be read.

* `Carries`: what sending does to the members below `BiDirectionalRpc`.
* `requestWithId_path`, `reply_path`, `handleReply_path`: the methods that keep the keys.
* `addSessionKey_eq`: what a session key that arrives does.
* `openHandshake_handshake`: the payload one side sends opens at the other.
* `virtuals_steady`: no method makes the object pretend to lose messages, or stop it.
-/

namespace Wga

/-! ### Sending -/

section Sending

variable {κ : Type}

/-- Messages were posted, all of them `m`, and endpoints were moved. -/
structure Posting (m : Bytes) (s s' : Self (Handler κ)) : Prop where
  rpc : s'.rpc = s.rpc
  derived : s'.sub.derived = s.sub.derived
  posted : ∀ x ∈ s'.sub.posted, x ∈ s.sub.posted ∨ x = m

namespace Posting

variable {m : Bytes} {s s' s'' : Self (Handler κ)}

theorem refl (s : Self (Handler κ)) : Posting m s s := ⟨rfl, rfl, fun _ => .inl⟩

theorem trans (h₁ : Posting m s s') (h₂ : Posting m s' s'') : Posting m s s'' :=
  ⟨h₂.rpc.trans h₁.rpc, h₂.derived.trans h₁.derived, fun x hx =>
    (h₂.posted x hx).elim (h₁.posted x) .inr⟩

end Posting

namespace MultiEndpointHandler

variable {m : Bytes} {s s' : Self (Handler κ)}

/-- Leaving an endpoint posts nothing. -/
theorem killEndpoint_posting (h : killEndpoint s = .ok s') : Posting m s s' := by
  simp only [killEndpoint, Self.rand, Self.time] at h
  split at h
  · cases h
    exact ⟨rfl, rfl, fun _ => .inl⟩
  · split at h
    · cases h
      exact ⟨rfl, rfl, fun _ => .inl⟩
    · cases h

/-- Stamping an unreplied message posts nothing. -/
theorem noteUnrepliedSend_posting (s : Self (Handler κ)) : Posting m s (noteUnrepliedSend s) := by
  rw [noteUnrepliedSend]
  split
  · exact ⟨rfl, rfl, fun _ => .inl⟩
  · exact .refl s

/-- An update ends: it leaves the active endpoint, or does nothing. -/
theorem update_ends (s : Self (Handler κ)) : ∃ s', update s = .ok s' := by
  simp only [update]
  split
  · exact ⟨s, rfl⟩
  · split
    · exact killEndpoint_ends _
    · exact ⟨_, rfl⟩

/-- An update posts nothing. -/
theorem update_posting (h : update s = .ok s') : Posting m s s' := by
  simp only [update] at h
  split at h
  · cases h
    exact .refl s
  · split at h
    · have hk := killEndpoint_posting (m := m) h
      exact ⟨hk.rpc, hk.derived, hk.posted⟩
    · cases h
      exact ⟨rfl, rfl, fun _ => .inl⟩

/-- The send of the class below posts the message, unless the byte limit drops it. -/
theorem udpSend_posting (s : Self (Handler κ)) : Posting m s (UdpBiDirectionalRpc.send m s) := by
  simp only [UdpBiDirectionalRpc.send]
  have new : ∀ (n : Nat) (l : List Bytes), ∀ x ∈ l ++ List.replicate n m, x ∈ l ∨ x = m :=
    fun n l x hx => (List.mem_append.mp hx).imp_right List.eq_of_mem_replicate
  split <;> split
  · exact ⟨rfl, rfl, fun _ => .inl⟩
  · exact ⟨rfl, rfl, new _ _⟩
  · exact ⟨rfl, rfl, fun _ => .inl⟩
  · exact ⟨rfl, rfl, new _ _⟩

theorem send_ends (m : Bytes) (s : Self (Handler κ)) : ∃ s', send m s = .ok s' := by
  simp only [send]
  split
  · exact bind_ends (update_ends _) fun _ _ => ⟨_, rfl⟩
  · exact ⟨_, rfl⟩

/-- A message that is sent is the only one that is posted. -/
theorem send_posting (h : send m s = .ok s') : Posting m s s' := by
  have hnote := noteUnrepliedSend_posting (m := m) s
  have rest : ∀ s₁ : Self (Handler κ), Posting m s₁
      (noteUnrepliedSend (UdpBiDirectionalRpc.send m s₁)) := fun s₁ =>
    (udpSend_posting s₁).trans (noteUnrepliedSend_posting _)
  simp only [send] at h
  split at h
  · obtain ⟨s₁, h₁, h⟩ := bind_ok.mp h
    cases h
    have hu := update_posting (m := m) h₁
    exact (hnote.trans ⟨hu.rpc, hu.derived, hu.posted⟩).trans (rest s₁)
  · cases h
    have hr := rest (noteUnrepliedSend s).time.2
    exact hnote.trans ⟨hr.rpc, hr.derived, hr.posted⟩

end MultiEndpointHandler

end Sending

/-- The packets an encrypted handler sends are posted behind the magic, and its keys stay. -/
def Carries (L : Libraries) (R : Rights) (ph : Phase) (r : Rpc) (t t' : Handler CryptoHandler) :
    Prop :=
  t'.derived = t.derived ∧
    ∀ m ∈ t'.posted, m ∈ t.posted ∨ ∃ p, Sends R ph r p ∧ m = WGA_MAGIC ++ p.message L

namespace EncryptedMultiEndpointHandler

open BiDirectionalRpc

variable {L : Libraries} {R : Rights} {s s' : EncryptedHandler} {id : RpcId} {p : Bytes}

theorem send_ends (m : Bytes) (s : EncryptedHandler) : ∃ s', send m s = .ok s' :=
  MultiEndpointHandler.send_ends _ s

/-- Sending leaves the tables. -/
theorem send_rpc (m : Bytes) (s s' : EncryptedHandler) (h : send m s = .ok s') :
    s'.rpc = s.rpc := (MultiEndpointHandler.send_posting h).rpc

/-- What is posted is the message that was sent. -/
theorem send_within : SendsWithin L R (Carries L R) send := by
  intro ph p s s' hp h
  have hpost := MultiEndpointHandler.send_posting h
  refine ⟨hpost.rpc, hpost.derived, fun m hm => ?_⟩
  exact (hpost.posted m hm).imp_right fun heq => ⟨p, hp, heq⟩

/-! ### Sealing and opening -/

/-- What `encrypt` makes of a buffer under the outgoing key. -/
def sealed (L : Libraries) (c : CryptoHandler) (buffer : Bytes) (nonce : Nonce) : Bytes :=
  nonce.toList ++ L.secretbox buffer nonce c.outgoingSessionKey

/-- What one side seals the other opens. -/
theorem openSecret_sealed (c : CryptoHandler) (buffer : Bytes) (nonce : Nonce) :
    CryptoHandler.openSecret L c.outgoingSessionKey (sealed L c buffer nonce) = some buffer := by
  have hn : nonce.toList.length = 24 := nonce.toList_length
  have hlen : ¬ (sealed L c buffer nonce).length < 24 + 16 := by
    rw [sealed, List.length_append, hn, L.secretbox_length]
    omega
  have hnonce : ByteArr.copy 24 (sealed L c buffer nonce) = nonce := by
    refine List.Vector.eq _ _ ?_
    show List.take 24 (nonce.toList ++ _ ++ _) = _
    rw [List.append_assoc, List.take_left' hn]
  rw [CryptoHandler.openSecret, if_neg hlen, hnonce, sealed, List.drop_left' hn]
  exact L.secretboxOpen_secretbox _ _ _

/-- What is encrypted is sealed under the outgoing session key, with a nonce drawn for it. -/
theorem encrypt_ok {buffer : Bytes} {r : Bytes × EncryptedHandler} (h : encrypt L buffer s = .ok r) :
    s.sub.derived.outgoingSessionKey ≠ emptySessionKey ∧
      ∃ nonce env, r = (sealed L s.sub.derived buffer nonce, { s with env := env }) := by
  obtain ⟨b, hb, h⟩ := bind_ok.mp h
  cases h
  by_cases hkey : s.sub.derived.outgoingSessionKey = emptySessionKey
  · rw [CryptoHandler.encrypt, if_pos (by exact hkey)] at hb
    cases hb
  · rw [CryptoHandler.encrypt, if_neg (by exact hkey)] at hb
    cases hb
    exact ⟨hkey, s.env.nonce 0, _, rfl⟩

theorem encrypt_ends (buffer : Bytes) (h : s.sub.derived.outgoingSessionKey ≠ emptySessionKey) :
    ∃ r, encrypt L buffer s = .ok r :=
  bind_ends ⟨_, if_neg h⟩ fun _ _ => ⟨_, rfl⟩

/-- A handler is ready to receive once it has both session keys. -/
theorem readyToReceive_iff : readyToReceive s = true ↔
    s.sub.derived.incomingSessionKey ≠ emptySessionKey ∧
      s.sub.derived.outgoingSessionKey ≠ emptySessionKey := by
  simp [readyToReceive, CryptoHandler.canDecrypt, CryptoHandler.canEncrypt]

/-- It is ready to send once its own handshake is answered and acknowledged, too. -/
theorem readyToSend_iff : readyToSend s = true ↔
    SESSION_KEY_RPCID ∉ s.rpc.outgoingRequests ∧ SESSION_KEY_RPCID ∉ s.rpc.outgoingReplies ∧
      readyToReceive s = true := by
  rw [readyToSend]
  split
  · simp_all
  · split
    · simp_all
    · simp_all

/-! ### The methods that keep the keys -/

/-- A path keeps the keys. -/
theorem path_derived {a b : Point (Handler CryptoHandler)} (h : Path L R (Carries L R) a b) :
    b.sub.derived = a.sub.derived := by
  refine h.invariant (I := fun c => c.sub.derived = a.sub.derived) (fun c d hc hcd => ?_) rfl
  cases hcd with
  | move hm => exact hc
  | quiet hq => exact hq.1.trans hc

/-- A request that is made is made with its payload sealed. -/
theorem requestWithId_path (hp : ∀ nonce, R.rewrites p (sealed L s.sub.derived p nonce))
    (h : requestWithId L ⟨id, p⟩ s = .ok s') : readyToSend s = true ∧
      Path L R (Carries L R) (s.at (.issuing id p)) (s'.at .idle) := by
  simp only [requestWithId] at h
  split at h
  · cases h
  · rename_i hready
    obtain ⟨r, hr, h⟩ := bind_ok.mp h
    obtain ⟨-, nonce, env, rfl⟩ := encrypt_ok hr
    have hpath := BiDirectionalRpc.requestWithId_path send_within (hp nonce) h
    exact ⟨by simpa using hready, hpath⟩

/-- A reply is given with its payload sealed. -/
theorem reply_path (hmay : ∀ nonce, R.may s.rpc (.replied id (sealed L s.sub.derived p nonce)))
    (h : reply L id p s = .ok s') : readyToReceive s = true ∧
      Path L R (Carries L R) (s.at .idle) (s'.at .idle) := by
  simp only [reply] at h
  split at h
  · cases h
  · rename_i hready
    obtain ⟨r, hr, h⟩ := bind_ok.mp h
    obtain ⟨-, nonce, env, rfl⟩ := encrypt_ok hr
    have hpath := BiDirectionalRpc.reply_path send_within (by exact hmay nonce) h
    exact ⟨by simpa using hready, hpath⟩

/-- An acknowledgement is sent, and the tables stay. -/
theorem sendAcknowledge_path {ph : Phase} (hid : Sends R ph s.rpc (.acknowledge id ACK_OK))
    (h : sendAcknowledge L id s = .ok s') :
    s'.rpc = s.rpc ∧ Path L R (Carries L R) (s.at ph) (s'.at ph) := by
  obtain ⟨r, hr, h⟩ := bind_ok.mp h
  obtain ⟨-, nonce, env, rfl⟩ := encrypt_ok hr
  have hsends : Sends R ph s.rpc (.acknowledge id (sealed L s.sub.derived ACK_OK nonce)) := hid
  exact send_path send_within { s with env := env } hsends h

/-- A reply is queued if the handler is ready and it opens, and dropped if not. -/
theorem addIncomingReply_path
    (hmay : ∀ q, CryptoHandler.openSecret L s.sub.derived.incomingSessionKey p = some q →
      R.may s.rpc (.queued id q))
    (hdrop : readyToSend s = false ∨
      CryptoHandler.openSecret L s.sub.derived.incomingSessionKey p = none → R.drops)
    (hord : s.rpc.BarrierOrdered) (hone : id ∉ s.rpc.oneWayRequests)
    (h : addIncomingReply L id p s = .ok s') :
    Path L R (Carries L R) (s.at (.completing id)) (s'.at (.settled id)) := by
  simp only [addIncomingReply] at h
  split at h
  · rename_i hready
    cases h
    exact .move (.drop (hdrop (.inl (by simpa using hready))) hord)
  · obtain ⟨o, ho, h⟩ := bind_ok.mp h
    simp only [CryptoHandler.decrypt] at ho
    split at ho
    · cases ho
    · cases ho
      split at h
      · rename_i hopen
        cases h
        exact .move (.drop (hdrop (.inr hopen)) hord)
      · rename_i q hopen
        exact BiDirectionalRpc.addIncomingReply_path (hmay q hopen) hord hone h

/-- A request is accepted with what it opens to; without a key, or where it does not open, it is
dropped. -/
theorem addIncomingRequest_path (hne : id ≠ SESSION_KEY_RPCID)
    (hmay : readyToReceive s = true → ∀ q, R.may s.rpc (.accepted id q))
    (hin : id ∉ s.rpc.incomingRequests) (hproc : id ∉ s.rpc.processedRequests.keys)
    (hout : id ∉ s.rpc.outgoingReplies) (h : addIncomingRequest L ⟨id, p⟩ s = .ok s') :
    Path L R (Carries L R) (s.at .idle) (s'.at .idle) := by
  simp only [addIncomingRequest, if_neg hne] at h
  split at h
  · cases h
    exact .refl _
  · rename_i hready
    obtain ⟨o, ho, h⟩ := bind_ok.mp h
    split at h
    · cases h
      exact .refl _
    · rename_i q
      exact BiDirectionalRpc.addIncomingRequest_path (hmay (by simpa using hready) q) hin hproc
        hout h

/-- **An entry of a `REQUEST` packet** that is not of the handshake. -/
theorem handleRequest_path (hne : id ≠ SESSION_KEY_RPCID)
    (hacc : readyToReceive s = true → ∀ q, R.may s.rpc (.accepted id q))
    (hrep : ∀ r q nonce, R.may r (.replied id (sealed L s.sub.derived q nonce)))
    (h : handleRequest L send (addIncomingRequest L) (reply L) id p s = .ok s') :
    Path L R (Carries L R) (s.at .idle) (s'.at .idle) := by
  refine BiDirectionalRpc.handleRequest_path send_within (fun s₁ hin hproc hout h₁ => ?_)
    (fun s₁ s₂ text q hpath _ _ h₁ => ?_) h
  · exact addIncomingRequest_path hne hacc hin hproc hout h₁
  · refine (reply_path (fun nonce => ?_) h₁).2
    rw [show s₁.sub.derived = s.sub.derived from path_derived hpath]
    exact hrep _ _ _

/-- **An entry of a `REPLY` packet.** -/
theorem handleReply_path {t₁ t₂ : Int} (hcomp : R.may s.rpc (.completed id))
    (hc : s.rpc.Consistent .idle)
    (hmay : ∀ r q, CryptoHandler.openSecret L s.sub.derived.incomingSessionKey p = some q →
      R.may r (.queued id q))
    (hdrop : ∀ s₁ : EncryptedHandler,
      Path L R (Carries L R) (s.at .idle) (s₁.at (.completing id)) →
      id ∉ s₁.rpc.oneWayRequests → readyToSend s₁ = false ∨
        CryptoHandler.openSecret L s.sub.derived.incomingSessionKey p = none → R.drops)
    (h : handleReply L id p t₁ t₂ s = .ok s') :
    Path L R (Carries L R) (s.at .idle) (s'.at .idle) := by
  have hquiet : Path L R (Carries L R) (s.at .idle) (Self.at { s with
      sub.lastUnrepliedSendTime := 0, sub.lastUnrepliedSendOrKillTime := 0 } .idle) :=
    .quiet ⟨rfl, fun _ => .inl⟩
  refine hquiet.trans (BiDirectionalRpc.handleReply_path send_within (by exact hcomp)
    (by exact hc) (fun ph s₁ s₂ hs h₁ => sendAcknowledge_path hs h₁)
    (fun s₁ s₂ hpath hord hone h₁ => ?_) h)
  have hkeys : s₁.sub.derived = s.sub.derived := path_derived hpath
  refine addIncomingReply_path (fun q hq => ?_) (fun hd => ?_) hord hone h₁
  · rw [hkeys] at hq
    exact hmay _ q hq
  · rw [hkeys] at hd
    exact hdrop s₁ (hquiet.trans hpath) hone hd

/-! ### Where they end -/

/-- A handler that is ready to send sends or delays a request that is new to its clock. -/
theorem requestWithId_ends (hready : readyToSend s = true)
    (hnew : id ∉ s.rpc.clock.requestSendTimeMap) : ∃ s', requestWithId L ⟨id, p⟩ s = .ok s' := by
  have hkey := (readyToReceive_iff.mp (readyToSend_iff.mp hready).2.2).2
  simp only [requestWithId, hready, Bool.not_true, Bool.false_eq_true, if_false]
  refine bind_ends (encrypt_ends _ hkey) fun r hr => ?_
  obtain ⟨-, nonce, env, rfl⟩ := encrypt_ok hr
  exact BiDirectionalRpc.requestWithId_ends send_ends hnew

/-- A handler that is ready to receive replies to a request that waits. -/
theorem reply_ends (hready : readyToReceive s = true) (hc : s.rpc.Consistent .idle)
    (hin : id ∈ s.rpc.incomingRequests) : ∃ s', reply L id p s = .ok s' := by
  have hkey := (readyToReceive_iff.mp hready).2
  simp only [reply, hready, Bool.not_true, Bool.false_eq_true, if_false]
  refine bind_ends (encrypt_ends _ hkey) fun r hr => ?_
  obtain ⟨-, nonce, env, rfl⟩ := encrypt_ok hr
  exact BiDirectionalRpc.reply_ends send_ends hc hin

theorem sendAcknowledge_ends (hkey : s.sub.derived.outgoingSessionKey ≠ emptySessionKey) :
    ∃ s', sendAcknowledge L id s = .ok s' :=
  bind_ends (encrypt_ends _ hkey) fun _ _ => send_ends _ _

/-- With a session key, `decrypt` opens what it can. -/
theorem decrypt_ends {c : CryptoHandler} (h : c.incomingSessionKey ≠ emptySessionKey) :
    c.decrypt L p = .ok (CryptoHandler.openSecret L c.incomingSessionKey p) := if_neg h

/-- A reply is refused or opened; in no state does that fail. -/
theorem addIncomingReply_ends (id : RpcId) (p : Bytes) (s : EncryptedHandler) :
    ∃ s', addIncomingReply L id p s = .ok s' := by
  simp only [addIncomingReply]
  split
  · exact ⟨s, rfl⟩
  · rename_i hready
    have hready : readyToSend s = true := by simpa using hready
    have hkey := (readyToReceive_iff.mp (readyToSend_iff.mp hready).2.2).1
    refine bind_ends ⟨_, decrypt_ends hkey⟩ fun o _ => ?_
    cases o with
    | none => exact ⟨s, rfl⟩
    | some q => exact ⟨_, rfl⟩

/-- A request that is not of the handshake enters the tables only when both keys are there. -/
theorem addIncomingRequest_cases (hne : id ≠ SESSION_KEY_RPCID)
    (h : addIncomingRequest L ⟨id, p⟩ s = .ok s') : s' = s ∨ readyToReceive s = true ∧
      ∃ q, BiDirectionalRpc.addIncomingRequest ⟨id, q⟩ s = .ok s' := by
  simp only [addIncomingRequest, if_neg hne] at h
  split at h
  · cases h
    exact .inl rfl
  · rename_i hready
    obtain ⟨o, ho, h⟩ := bind_ok.mp h
    cases o with
    | none =>
        cases h
        exact .inl rfl
    | some q => exact .inr ⟨by simpa using hready, q, h⟩

/-- A request other than the handshake is added, or dropped. -/
theorem addIncomingRequest_ends (hne : id ≠ SESSION_KEY_RPCID) (hc : s.rpc.Consistent .idle)
    (hin : id ∉ s.rpc.incomingRequests) (hout : id ∉ s.rpc.outgoingReplies) :
    ∃ s', addIncomingRequest L ⟨id, p⟩ s = .ok s' := by
  simp only [addIncomingRequest, if_neg hne]
  split
  · exact ⟨s, rfl⟩
  · rename_i hready
    have hready : readyToReceive s = true := by simpa using hready
    refine bind_ends ⟨_, decrypt_ends (readyToReceive_iff.mp hready).1⟩ fun o _ => ?_
    cases o with
    | none => exact ⟨s, rfl⟩
    | some q => exact BiDirectionalRpc.addIncomingRequest_ends hc hin hout

/-- The rights of a handler of which nothing is asked. -/
def anything : Rights where
  may := fun _ _ => True
  discards := fun _ => True
  rewrites := fun _ _ => True
  drops := True
  greets := True

/-- A request other than the handshake is handled. -/
theorem handleRequest_ends (hne : id ≠ SESSION_KEY_RPCID) (hc : s.rpc.Consistent .idle) :
    ∃ s', handleRequest L send (addIncomingRequest L) (reply L) id p s = .ok s' := by
  refine BiDirectionalRpc.handleRequest_ends send_ends hc
    (fun hin hout => addIncomingRequest_ends hne hc hin hout)
    fun hin hproc hout s₁ s₂ q h₁ hs₂ hin₁ => ?_
  rcases addIncomingRequest_cases hne h₁ with rfl | ⟨hready, q', hadd⟩
  · exact absurd hin₁ hin
  · have hpath : Path L anything (Carries L anything) (s.at .idle) (s₁.at .idle) :=
      BiDirectionalRpc.addIncomingRequest_path trivial hin hproc hout hadd
    have hc₁ : s₁.rpc.Consistent .idle := hpath.consistent hc
    have hready₁ : readyToReceive s₁ = true := by
      rw [readyToReceive, show s₁.sub.derived = _ from path_derived hpath]
      exact hready
    rcases hs₂ with rfl | rfl
    · exact reply_ends hready₁ hc₁ hin₁
    · exact reply_ends hready₁
        ((shutdown_path (L := L) (R := anything) (Q := Carries L anything) s₁).consistent hc₁) hin₁

/-- A reply is handled once there is a key to acknowledge it with. -/
theorem handleReply_ends (id : RpcId) (p : Bytes) (t₁ t₂ : Int) (hc : s.rpc.Consistent .idle)
    (hkey : s.sub.derived.outgoingSessionKey ≠ emptySessionKey) :
    ∃ s', handleReply L id p t₁ t₂ s = .ok s' := by
  have acknowledged : ∀ (ph : Phase) (s₁ s₂ : EncryptedHandler),
      Sends anything ph s₁.rpc (.acknowledge id ACK_OK) → sendAcknowledge L id s₁ = .ok s₂ →
      s₂.rpc = s₁.rpc ∧ Path L anything (Carries L anything) (s₁.at ph) (s₂.at ph) :=
    fun _ _ _ hs h₁ => sendAcknowledge_path hs h₁
  refine BiDirectionalRpc.handleReply_ends (R := anything) (Q := Carries L anything) send_ends
    send_rpc send_within trivial (by exact hc) acknowledged
    (fun s₁ s₂ _ hord hone h₁ => addIncomingReply_path (fun _ _ => trivial) (fun _ => trivial)
      hord hone h₁)
    (fun ph s₁ hpath => sendAcknowledge_ends ?_) fun s₁ _ _ => addIncomingReply_ends id p s₁
  rw [show s₁.sub.derived = _ from path_derived hpath]
  exact hkey

/-! ### The handshake -/

/-- A session key as it travels. -/
def encryptedKey (L : Libraries) (c : CryptoHandler) (nonce : Nonce) : EncryptedSessionKey :=
  ⟨nonce.toList ++ (L.box c.outgoingSessionKey nonce c.otherPublicKey c.myPrivateKey).toList,
    by simp⟩

/-- The payload `sendSessionKey` sends. -/
def handshake (L : Libraries) (c : CryptoHandler) (nonce : Nonce) : Bytes :=
  L.pack [.str (CryptoHandler.keyToString L c.myPublicKey),
    .str (CryptoHandler.keyToString L (encryptedKey L c nonce))]

/-- What a handler that has no key yet makes of the payload of a handshake: a fault where it cannot
be read, nothing where it is not for this handler, and the key otherwise. -/
def openHandshake (L : Libraries) (payload : Bytes) (c : CryptoHandler) :
    Except Fault (Option SessionKey) := do
  let reader := MessageReader.load L.toMsgpack payload
  let (s, reader) ← reader.readString
  let publicKey ← CryptoHandler.stringToKey L 32 s
  if publicKey ≠ c.otherPublicKey then .ok none
  else
    let (s, _) ← reader.readString
    let encryptedSessionKey ← CryptoHandler.stringToKey L 72 s
    .ok (L.boxOpen (ByteArr.copy 48 (encryptedSessionKey.toList.drop 24))
      (ByteArr.copy 24 encryptedSessionKey.toList) c.otherPublicKey c.myPrivateKey)

/-- The handler that has learned a key. -/
def learn (key : SessionKey) (s : EncryptedHandler) : EncryptedHandler :=
  { s with sub.derived.incomingSessionKey := key }

/-- The first session key that is received is taken if its box opens. -/
theorem receiveIncomingSessionKey_eq {c : CryptoHandler} {k : EncryptedSessionKey}
    (hkey : c.incomingSessionKey = emptySessionKey) : c.receiveIncomingSessionKey L k =
      match L.boxOpen (ByteArr.copy 48 (k.toList.drop 24)) (ByteArr.copy 24 k.toList)
        c.otherPublicKey c.myPrivateKey with
      | none => .ok (false, c)
      | some key => .ok (true, { c with incomingSessionKey := key }) :=
  if_neg (not_not_intro hkey)

/-- **What a session key that arrives does** when there is none yet: nothing, or it is learned, and
the request is accepted and answered. -/
theorem addSessionKey_eq (hkey : s.sub.derived.incomingSessionKey = emptySessionKey)
    (e : IdPayload) : addSessionKey L e s = openHandshake L e.payload s.sub.derived >>= fun
      | none => .ok s
      | some key => BiDirectionalRpc.addIncomingRequest e (learn key s) >>= reply L e.id OK := by
  have hno : s.sub.derived.canDecrypt = false := by simp [CryptoHandler.canDecrypt, hkey]
  simp only [addSessionKey, hno, Bool.false_eq_true, if_false, openHandshake,
    receiveIncomingSessionKey_eq hkey]
  cases (MessageReader.load L.toMsgpack e.payload).readString with
  | error f => rfl
  | ok r =>
      obtain ⟨text, reader⟩ := r
      simp only [ok_bind]
      cases CryptoHandler.stringToKey L 32 text with
      | error f => rfl
      | ok publicKey =>
          simp only [ok_bind]
          split
          · rfl
          · cases reader.readString with
            | error f => rfl
            | ok r =>
                obtain ⟨text', reader'⟩ := r
                simp only [ok_bind]
                cases CryptoHandler.stringToKey L 72 text' with
                | error f => rfl
                | ok k =>
                    simp only [ok_bind]
                    cases L.boxOpen (ByteArr.copy 48 (k.toList.drop 24))
                        (ByteArr.copy 24 k.toList) s.sub.derived.otherPublicKey
                        s.sub.derived.myPrivateKey with
                    | none => rfl
                    | some key => rfl

/-- Once there is an incoming session key, a further one is skipped. -/
theorem addSessionKey_of_key (hkey : s.sub.derived.incomingSessionKey ≠ emptySessionKey)
    (e : IdPayload) : addSessionKey L e s = .ok s :=
  if_pos (by simpa [CryptoHandler.canDecrypt] using hkey)

/-- A key that is copied is the key. -/
theorem copy_toList {n : Nat} (a : ByteArr n) : ByteArr.copy n a.toList = a := by
  refine List.Vector.eq _ _ ?_
  show List.take n (a.toList ++ List.replicate n 0) = a.toList
  exact List.take_left' a.toList_length

/-- A key survives the way through its text. -/
theorem stringToKey_keyToString {n : Nat} (key : ByteArr n) :
    CryptoHandler.stringToKey L n (CryptoHandler.keyToString L key) = .ok key := by
  have hlen : ¬ key.toList.length ≠ n := fun h => h key.toList_length
  simp only [CryptoHandler.stringToKey, CryptoHandler.keyToString, L.decode_encode, if_neg hlen,
    copy_toList]

/-- The payload one side sends opens at the other. -/
theorem openHandshake_handshake {c c' : CryptoHandler} (nonce : Nonce)
    (hpublic : c.myPublicKey = L.scalarmultBase c.myPrivateKey)
    (hother : c.otherPublicKey = L.scalarmultBase c'.myPrivateKey)
    (hother' : c'.otherPublicKey = L.scalarmultBase c.myPrivateKey) :
    openHandshake L (handshake L c nonce) c' = .ok (some c.outgoingSessionKey) := by
  have hn : nonce.toList.length = 24 := nonce.toList_length
  have hkey : (encryptedKey L c nonce).toList = nonce.toList ++
      (L.box c.outgoingSessionKey nonce c.otherPublicKey c.myPrivateKey).toList := rfl
  have hnonce : ByteArr.copy 24 (encryptedKey L c nonce).toList = nonce := by
    refine List.Vector.eq _ _ ?_
    show List.take 24 ((encryptedKey L c nonce).toList ++ _) = _
    rw [hkey, List.append_assoc, List.take_left' hn]
  have hme : ¬ c.myPublicKey ≠ c'.otherPublicKey := fun h => h (hpublic.trans hother'.symm)
  simp only [openHandshake, handshake, MessageReader.load_pack, MessageReader.readString_str,
    ok_bind, stringToKey_keyToString, if_neg hme, hnonce]
  rw [hkey, List.drop_left' hn, copy_toList, hother, hother', L.boxOpen_box]

/-- The handler that has drawn a session key. -/
def arm (key : SessionKey) (s : EncryptedHandler) : EncryptedHandler :=
  { s with sub.derived.outgoingSessionKey := key }

/-- The handshake is a one-way request with the session key in a box. -/
theorem sendSessionKey_eq (key : SessionKey)
    (hkey : s.sub.derived.outgoingSessionKey = emptySessionKey) :
    ∃ nonce env, sendSessionKey L key s = BiDirectionalRpc.requestWithId L send
      ⟨SESSION_KEY_RPCID, handshake L (arm key s).sub.derived nonce⟩
      { arm key s with
        rpc.oneWayRequests := insert SESSION_KEY_RPCID s.rpc.oneWayRequests, env := env } := by
  refine ⟨s.env.nonce 0, s.nonce.2.env, ?_⟩
  have hgen : s.nonce.2.sub.derived.generateOutgoingSessionKey L key s.nonce.1 =
      .ok (encryptedKey L (arm key s).sub.derived s.nonce.1, (arm key s).sub.derived) :=
    if_neg (not_not_intro hkey)
  simp only [sendSessionKey, hgen, ok_bind]
  rfl

/-- A handshake is sent only by a handler that has no outgoing session key. -/
theorem sendSessionKey_of_key {key : SessionKey}
    (h : sendSessionKey L key s = .ok s') :
    s.sub.derived.outgoingSessionKey = emptySessionKey := by
  by_contra hkey
  obtain ⟨_, hgen, -⟩ := bind_ok.mp h
  rw [CryptoHandler.generateOutgoingSessionKey, if_pos (by exact hkey)] at hgen
  cases hgen

/-- **The handshake request**: it goes out at once, among no others. -/
theorem sendSessionKey_path {key : SessionKey} (hgreets : R.greets)
    (hp : ∀ nonce, ∃ p, R.rewrites p (handshake L (arm key s).sub.derived nonce))
    (hc : s.rpc.Consistent .idle) (hnone : s.rpc.outgoingRequests.entries = [])
    (h : sendSessionKey L key s = .ok s') :
    Path L R (Carries L R) ((arm key s).at .idle) (s'.at .idle) := by
  obtain ⟨nonce, env, heq⟩ := sendSessionKey_eq key (sendSessionKey_of_key h)
  obtain ⟨p, hp⟩ := hp nonce
  rw [heq] at h
  have hm : Move L R .idle (arm key s).rpc (.issuing SESSION_KEY_RPCID p) { s.rpc with
      oneWayRequests := insert SESSION_KEY_RPCID s.rpc.oneWayRequests } :=
    .greet hgreets hnone hc.nonneg
  exact .trans (.move hm) (BiDirectionalRpc.requestWithId_path send_within hp h)

/-- A first handshake is sent. -/
theorem sendSessionKey_ends {key : SessionKey}
    (hkey : s.sub.derived.outgoingSessionKey = emptySessionKey) (hc : s.rpc.Consistent .idle)
    (hnone : s.rpc.outgoingRequests.entries = []) : ∃ s', sendSessionKey L key s = .ok s' := by
  obtain ⟨nonce, env, heq⟩ := sendSessionKey_eq (L := L) key hkey
  rw [heq]
  refine BiDirectionalRpc.requestWithId_ends send_ends fun hm => ?_
  rcases (hc.sendTime _).mp hm with hm | hm | hm
  · exact UnorderedMap.entries_eq_nil.mp hnone _ hm
  · cases hm
  · cases hm

/-! ### Methods that leave `flaky` alone -/

/-- Sending does not read or write `flaky`. -/
theorem send_keepsFlaky (m : Bytes) : KeepsFlaky (send m) := fun s s' h => by
  rw [send_rpc m s s' h]

/-- Encrypting leaves it. -/
theorem encrypt_keepsFlaky {buffer : Bytes} {r : Bytes × EncryptedHandler}
    (h : encrypt L buffer s = .ok r) : r.2.rpc.flaky = s.rpc.flaky := by
  obtain ⟨_, -, hr⟩ := bind_ok.mp h
  cases hr
  rfl

theorem sendAcknowledge_keepsFlaky (id : RpcId) : KeepsFlaky (sendAcknowledge L id) := by
  intro s s' h
  obtain ⟨r, hr, h⟩ := bind_ok.mp h
  exact (send_keepsFlaky _ _ _ h).trans (encrypt_keepsFlaky hr)

theorem reply_keepsFlaky (id : RpcId) (payload : Bytes) :
    KeepsFlaky (reply L id payload) := by
  intro s s' h
  rw [reply] at h
  split at h
  · cases h
  · obtain ⟨r, hr, h⟩ := bind_ok.mp h
    exact (BiDirectionalRpc.reply_keepsFlaky send_keepsFlaky _ _ _ _ h).trans
      (encrypt_keepsFlaky hr)

/-- Taking a session key leaves it. -/
theorem addSessionKey_keepsFlaky (e : IdPayload) : KeepsFlaky (addSessionKey L e) := by
  intro s s' h
  by_cases hkey : s.sub.derived.incomingSessionKey = emptySessionKey
  · rw [addSessionKey_eq hkey] at h
    obtain ⟨_ | key, -, h⟩ := bind_ok.mp h
    · cases h
      rfl
    · obtain ⟨s₁, h₁, h⟩ := bind_ok.mp h
      exact (reply_keepsFlaky _ _ _ _ h).trans
        (BiDirectionalRpc.addIncomingRequest_keepsFlaky _ _ _ h₁ :)
  · rw [addSessionKey_of_key hkey] at h
    cases h
    rfl

theorem addIncomingRequest_keepsFlaky (e : IdPayload) :
    KeepsFlaky (addIncomingRequest L e) := by
  intro s s' h
  simp only [addIncomingRequest] at h
  split at h
  · exact addSessionKey_keepsFlaky _ _ _ h
  · split at h
    · cases h
      rfl
    · obtain ⟨_ | payload, -, h⟩ := bind_ok.mp h
      · cases h
        rfl
      · exact BiDirectionalRpc.addIncomingRequest_keepsFlaky _ _ _ h

theorem addIncomingReply_keepsFlaky (id : RpcId) (payload : Bytes) :
    KeepsFlaky (addIncomingReply L id payload) := by
  intro s s' h
  simp only [addIncomingReply] at h
  split at h
  · cases h
    rfl
  · obtain ⟨_ | payload, -, h⟩ := bind_ok.mp h
    · cases h
      rfl
    · exact BiDirectionalRpc.addIncomingReply_keepsFlaky _ _ _ _ h

/-- This class is steady too. -/
theorem virtuals_steady (L : Libraries) : Steady L (virtuals L) := by
  refine ⟨handleRequest_keepsFlaky send_keepsFlaky addIncomingRequest_keepsFlaky reply_keepsFlaky,
    fun id payload t₁ t₂ s s' h => ?_⟩
  exact (handleReply_keepsFlaky send_keepsFlaky sendAcknowledge_keepsFlaky
    addIncomingReply_keepsFlaky id payload t₁ t₂ _ _ h :)

end EncryptedMultiEndpointHandler

end Wga
