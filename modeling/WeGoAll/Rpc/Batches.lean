import Mathlib.Data.List.Nodup
import WeGoAll.Formats.Msgpack
import WeGoAll.Rpc.Endpoint

/-!
# Rpc — Batches

A packet of several entries means what its entries mean one after the other.

* `Attaching`: the loop that attaches entries to a packet, without a bound on its iterations.
* `attaching_ends`: the loop ends, and attaches each identifier once.
* `ReceivedSingly`: receiving one packet is receiving others in order.
* `batches_as_singles`: what `sendRequest` and `sendReply` send with batching on.
-/

namespace Wga

namespace BiDirectionalRpc

variable {τ : Type} {L : Libraries}

/-! ### The loop -/

/-- The loop of `sendRequest` and of `sendReply`, from its test on, and what it leaves. -/
inductive Attaching (L : Libraries) (table : List (Σ _ : RpcId, Bytes))
    (write : RpcId → Bytes → Self τ → Except Fault (List MsgObject × Self τ)) :
    List RpcId → List MsgObject → Self τ → List MsgObject × Self τ → Prop where
  | full {rpcsSent : List RpcId} {writer : List MsgObject} {self : Self τ}
      (h : ¬ rpcsSent.length < table.length) :
      Attaching L table write rpcsSent writer self (writer, self)
  /-- Drew an rpc that is already in the packet. -/
  | drawn {rpcsSent : List RpcId} {writer : List MsgObject} {self : Self τ} {id : RpcId}
      {payload : Bytes} (h : rpcsSent.length < table.length)
      (hdraw : table[self.rand.1 % table.length]? = some ⟨id, payload⟩) (hsent : id ∈ rpcsSent) :
      Attaching L table write rpcsSent writer self (writer, self.rand.2)
  | tooBig {rpcsSent : List RpcId} {writer : List MsgObject} {self : Self τ} {id : RpcId}
      {payload : Bytes} (h : rpcsSent.length < table.length)
      (hdraw : table[self.rand.1 % table.length]? = some ⟨id, payload⟩) (hsent : id ∉ rpcsSent)
      (hbig : 16 + payload.length + (L.pack writer).length > 400) :
      Attaching L table write rpcsSent writer self (writer, self.rand.2)
  | more {rpcsSent : List RpcId} {writer objects : List MsgObject} {self self₁ : Self τ}
      {id : RpcId} {payload : Bytes} {r : List MsgObject × Self τ}
      (h : rpcsSent.length < table.length)
      (hdraw : table[self.rand.1 % table.length]? = some ⟨id, payload⟩) (hsent : id ∉ rpcsSent)
      (hbig : ¬ 16 + payload.length + (L.pack writer).length > 400)
      (hwrite : write id payload self.rand.2 = .ok (objects, self₁))
      (rest : Attaching L table write (id :: rpcsSent) (writer ++ objects) self₁ r) :
      Attaching L table write rpcsSent writer self r

/-- **The loop is the bounded one** where the bound leaves an iteration for every entry not yet in
the packet. -/
theorem Attaching.attach {table : List (Σ _ : RpcId, Bytes)}
    {write : RpcId → Bytes → Self τ → Except Fault (List MsgObject × Self τ)}
    {rpcsSent : List RpcId} {writer : List MsgObject} {self : Self τ}
    {r : List MsgObject × Self τ} (h : Attaching L table write rpcsSent writer self r)
    {fuel : Nat} (hfuel : table.length ≤ fuel + rpcsSent.length) :
    attach L table write fuel rpcsSent writer self = .ok r := by
  induction h generalizing fuel with
  | full h =>
      cases fuel with
      | zero => rfl
      | succ fuel => rw [BiDirectionalRpc.attach, if_neg h]
  | drawn h hdraw hsent =>
      obtain ⟨fuel, rfl⟩ : ∃ n, fuel = n + 1 := ⟨fuel - 1, by omega⟩
      simp only [BiDirectionalRpc.attach, if_pos h, hdraw, if_pos hsent]
  | tooBig h hdraw hsent hbig =>
      obtain ⟨fuel, rfl⟩ : ∃ n, fuel = n + 1 := ⟨fuel - 1, by omega⟩
      simp only [BiDirectionalRpc.attach, if_pos h, hdraw, if_neg hsent, if_pos hbig]
  | more h hdraw hsent hbig hwrite rest ih =>
      obtain ⟨fuel, rfl⟩ : ∃ n, fuel = n + 1 := ⟨fuel - 1, by omega⟩
      simp only [BiDirectionalRpc.attach, if_pos h, hdraw, if_neg hsent, if_neg hbig, hwrite,
        ok_bind]
      exact ih (by simp only [List.length_cons]; omega)

/-- One more entry, with an identifier of its own. -/
theorem nodup_map_cons {α : Type} {idOf : α → RpcId} {a : α} {es : List α}
    (h : (es.map idOf).Nodup) (ha : ∀ e ∈ es, idOf e ≠ idOf a) : ((a :: es).map idOf).Nodup := by
  rw [List.map_cons, List.nodup_cons]
  refine ⟨fun hmem => ?_, h⟩
  obtain ⟨e, he, heq⟩ := List.mem_map.mp hmem
  exact ha e he heq

/-- **The loop ends**, and it attaches entries of the table, each identifier once.  `write` packs an
entry `e` as `objects e`. -/
theorem attaching_ends {α : Type} (objects : α → List MsgObject) (idOf : α → RpcId)
    (Good : α → Prop) (table : List (Σ _ : RpcId, Bytes)) (self : Self τ)
    (write : RpcId → Bytes → Self τ → Except Fault (List MsgObject × Self τ))
    (hwrite : ∀ id payload (env : Env), ⟨id, payload⟩ ∈ table → ∃ (e : α) (env' : Env),
      write id payload { self with env := env } = .ok (objects e, { self with env := env' }) ∧
        idOf e = id ∧ Good e)
    (rpcsSent : List RpcId) (writer : List MsgObject) (env : Env) :
    ∃ (es : List α) (env' : Env),
      Attaching L table write rpcsSent writer { self with env := env }
        (writer ++ es.flatMap objects, { self with env := env' }) ∧
      (es.map idOf).Nodup ∧ ∀ e ∈ es, idOf e ∉ rpcsSent ∧ Good e := by
  -- each iteration puts one more identifier into the packet
  induction hn : table.length - rpcsSent.length generalizing rpcsSent writer env with
  | zero =>
      refine ⟨[], env, ?_, List.nodup_nil, nofun⟩
      rw [List.flatMap_nil, List.append_nil]
      exact .full (by omega)
  | succ n ih =>
      have hlt : rpcsSent.length < table.length := by omega
      have hindex : env.rand 0 % table.length < table.length := Nat.mod_lt _ (by omega)
      obtain ⟨⟨id, payload⟩, hentry⟩ : ∃ x, table[env.rand 0 % table.length]? = some x :=
        ⟨_, List.getElem?_eq_getElem hindex⟩
      have stop : ∀ env' : Env, Attaching L table write rpcsSent writer { self with env := env }
          (writer, { self with env := env' }) → ∃ (es : List α) (env' : Env),
          Attaching L table write rpcsSent writer { self with env := env }
            (writer ++ es.flatMap objects, { self with env := env' }) ∧
          (es.map idOf).Nodup ∧ ∀ e ∈ es, idOf e ∉ rpcsSent ∧ Good e := fun env' h =>
        ⟨[], env', by rwa [List.flatMap_nil, List.append_nil], List.nodup_nil, nofun⟩
      by_cases hsent : id ∈ rpcsSent
      · exact stop _ (.drawn hlt hentry hsent)
      by_cases hbig : 16 + payload.length + (L.pack writer).length > 400
      · exact stop _ (.tooBig hlt hentry hsent hbig)
      · obtain ⟨e, env₁, hw, rfl, hgood⟩ := hwrite id payload
          { env with rand := fun n => env.rand (n + 1) } (List.mem_of_getElem? hentry)
        obtain ⟨es, env', hrest, hnodup, hes⟩ := ih (idOf e :: rpcsSent) (writer ++ objects e) env₁
          (by simp only [List.length_cons]; omega)
        refine ⟨e :: es, env', ?_, nodup_map_cons hnodup fun a ha heq => ?_, ?_⟩
        · rw [List.flatMap_cons, ← List.append_assoc]
          exact .more hlt hentry hsent hbig hw hrest
        · exact (hes a ha).1 (heq ▸ List.mem_cons_self)
        · intro a ha
          rcases List.mem_cons.mp ha with rfl | ha
          · exact ⟨hsent, hgood⟩
          · exact ⟨fun hmem => (hes a ha).1 (List.mem_cons_of_mem _ hmem), (hes a ha).2⟩

/-! ### Receiving -/

/-- The method does not make the object pretend to lose messages, or stop it. -/
def KeepsFlaky (f : Self τ → Except Fault (Self τ)) : Prop :=
  ∀ s s', f s = .ok s' → s'.rpc.flaky = s.rpc.flaky

/-- Handling an entry does not. -/
structure Steady (L : Libraries) (V : Virtuals τ) : Prop where
  handleRequest : ∀ id payload,
    KeepsFlaky (handleRequest L V.send V.addIncomingRequest V.reply id payload)
  handleReply : ∀ id payload t₁ t₂, KeepsFlaky (V.handleReply id payload t₁ t₂)

/-- The packet with this entry alone. -/
def singleRequest (e : IdPayload) : Packet := .request [e]
def singleReply (e : ReplyEntry) : Packet := .reply [e]

/-- **Receiving a packet is receiving others in order**, for objects of any class in any state. -/
structure ReceivedSingly (L : Libraries) (p : Packet) (ps : List Packet) : Prop where
  /-- An object that never pretends to lose messages is left in the same state. -/
  reliable : ∀ {τ : Type} (V : Virtuals τ), Steady L V → ∀ s : Self τ, s.rpc.flaky = false →
    receive L V (p.message L) s =
      (ps.foldlM (fun s q => (receive L V (q.message L) s).map Prod.snd) s).map fun s => (true, s)
  /-- An object that may pretend so loses the packet, or handles the others in order. -/
  lossy : ∀ {τ : Type} (V : Virtuals τ) (s : Self τ), receive L V (p.message L) s =
    if (flake s).1 then .ok (true, (flake s).2)
    else (ps.foldlM (fun s q => handlePacket L V q s) (flake s).2).map fun s => (true, s)
  /-- And each of the others is lost or handled. -/
  single : ∀ {τ : Type} (V : Virtuals τ) (s : Self τ), ∀ q ∈ ps, receive L V (q.message L) s =
    if (flake s).1 then .ok (true, (flake s).2)
    else (handlePacket L V q (flake s).2).map fun s => (true, s)

theorem receive_message (V : Virtuals τ) (p : Packet) (s : Self τ) :
    receive L V (p.message L) s = if (flake s).1 then .ok (true, (flake s).2)
      else (handlePacket L V p (flake s).2).map fun s => (true, s) :=
  receive_eq (L.unpack_pack _) s

theorem flake_of_reliable {s : Self τ} (h : s.rpc.flaky = false) : flake s = (false, s) := by
  rw [flake, h]
  rfl

/-- A packet that is its parts. -/
theorem receivedSingly {p : Packet} {ps : List Packet}
    (hparts : ∀ {τ : Type} (V : Virtuals τ) (s : Self τ),
      handlePacket L V p s = ps.foldlM (fun s q => handlePacket L V q s) s)
    (hsteady : ∀ {τ : Type} (V : Virtuals τ), Steady L V → ∀ q ∈ ps,
      KeepsFlaky (handlePacket L V q)) : ReceivedSingly L p ps := by
  refine ⟨fun V hV s hs => ?_, fun V s => ?_, fun V s q _ => receive_message V q s⟩
  · rw [receive_message, flake_of_reliable hs, if_neg Bool.false_ne_true, hparts]
    refine congrArg _ (foldlM_congr (I := fun s => s.rpc.flaky = false) (fun s q _ hs => ?_)
      (fun s q s' hq hs h => ?_) hs)
    · rw [receive_message, flake_of_reliable hs, if_neg Bool.false_ne_true]
      cases handlePacket L V q s with
      | error e => rfl
      | ok s' => rfl
    · exact (hsteady V hV q hq s s' h).trans hs
  · rw [receive_message, hparts]

theorem handlePacket_single_request (V : Virtuals τ) (e : IdPayload) (s : Self τ) :
    handlePacket L V (singleRequest e) s =
      handleRequest L V.send V.addIncomingRequest V.reply e.id e.payload s := by
  simp only [handlePacket, singleRequest, handleRequests, List.foldlM_cons, List.foldlM_nil,
    bind_pure]

theorem handlePacket_single_reply (V : Virtuals τ) (e : ReplyEntry) (s : Self τ) :
    handlePacket L V (singleReply e) s =
      V.handleReply e.id e.payload (int64Of e.requestReceiveTime) (int64Of e.replySendTime) s := by
  simp only [handlePacket, singleReply, handleReplies, List.foldlM_cons, List.foldlM_nil,
    bind_pure]

/-- **Requests in one packet** are received like requests in one packet each. -/
theorem receivedSingly_request (L : Libraries) (es : List IdPayload) :
    ReceivedSingly L (.request es) (es.map singleRequest) := by
  refine receivedSingly (fun V s => ?_) fun V hV q hq => ?_
  · simp only [List.foldlM_map, handlePacket_single_request]
    rfl
  · obtain ⟨e, -, rfl⟩ := List.mem_map.mp hq
    intro s s' h
    rw [handlePacket_single_request] at h
    exact hV.handleRequest _ _ _ _ h

/-- **Replies in one packet** are received like replies in one packet each. -/
theorem receivedSingly_reply (L : Libraries) (es : List ReplyEntry) :
    ReceivedSingly L (.reply es) (es.map singleReply) := by
  refine receivedSingly (fun V s => ?_) fun V hV q hq => ?_
  · simp only [List.foldlM_map, handlePacket_single_reply]
    rfl
  · obtain ⟨e, -, rfl⟩ := List.mem_map.mp hq
    intro s s' h
    rw [handlePacket_single_reply] at h
    exact hV.handleReply _ _ _ _ _ _ h

/-! ### Methods that leave `flaky` alone -/

section Flaky

variable {send : Bytes → Self τ → Except Fault (Self τ)} (hsend : ∀ m, KeepsFlaky (send m))

include hsend

theorem sendReply_keepsFlaky (id : RpcId) (payload : Bytes) (batch : Bool) :
    KeepsFlaky (sendReply L send id payload batch) := by
  intro s s' h
  obtain ⟨e, es, env, -, -, -, h⟩ := sendReply_ok h
  exact (hsend _ _ _ h :)

theorem sendNow_keepsFlaky (id : RpcId) (payload : Bytes) :
    KeepsFlaky (sendNow L send id payload) := by
  intro s s' h
  simp only [sendNow, Self.now, bind_ok] at h
  obtain ⟨clock, -, h⟩ := h
  obtain ⟨es, env, -, he⟩ := sendRequest_eq L send id payload false _
  rw [he] at h
  exact (hsend _ _ _ h :)

theorem releaseBarrier_keepsFlaky (b : Int64) (l : List (Σ _ : RpcId, Bytes)) :
    KeepsFlaky (releaseBarrier L send b l) := by
  induction l with
  | nil =>
      intro s s' h
      cases h
      rfl
  | cons a l ih =>
      intro s s' h
      rw [releaseBarrier] at h
      split at h
      · obtain ⟨s₁, h₁, h⟩ := bind_ok.mp h
        have hsent : s₁.rpc.flaky = s.rpc.flaky := sendNow_keepsFlaky hsend _ _ _ _ h₁
        exact (ih _ _ h :).trans hsent
      · exact ih _ _ h

theorem tryToSendBarrier_keepsFlaky : KeepsFlaky (tryToSendBarrier L send) := by
  intro s s' h
  simp only [tryToSendBarrier] at h
  split at h
  · cases h
    rfl
  · split at h
    · exact releaseBarrier_keepsFlaky hsend _ _ _ _ h
    · cases h
      rfl

theorem reply_keepsFlaky (id : RpcId) (payload : Bytes) :
    KeepsFlaky (reply L send id payload) := by
  intro s s' h
  rw [reply] at h
  split at h
  · exact (sendReply_keepsFlaky hsend _ _ _ _ _ h :)
  · cases h

theorem handleRequest_keepsFlaky {add : IdPayload → Self τ → Except Fault (Self τ)}
    {rep : RpcId → Bytes → Self τ → Except Fault (Self τ)} (hadd : ∀ e, KeepsFlaky (add e))
    (hrep : ∀ id p, KeepsFlaky (rep id p)) (id : RpcId) (payload : Bytes) :
    KeepsFlaky (handleRequest L send add rep id payload) := by
  intro s s' h
  simp only [handleRequest] at h
  split at h
  · cases h
    rfl
  · split at h
    · exact sendReply_keepsFlaky hsend _ _ _ _ _ h
    · obtain ⟨s₁, h₁, h⟩ := bind_ok.mp h
      refine Eq.trans ?_ (hadd _ _ _ h₁)
      split at h
      · split at h
        · exact hrep _ _ _ _ h
        · split at h
          · exact hrep _ _ (shutdown s₁) _ h
          · cases h
            rfl
      · cases h
        rfl

theorem handleReply_keepsFlaky {ack : RpcId → Self τ → Except Fault (Self τ)}
    {add : RpcId → Bytes → Self τ → Except Fault (Self τ)} (hack : ∀ id, KeepsFlaky (ack id))
    (hadd : ∀ id p, KeepsFlaky (add id p)) (id : RpcId) (payload : Bytes) (t₁ t₂ : Int) :
    KeepsFlaky (handleReply L send ack add id payload t₁ t₂) := by
  intro s s' h
  simp only [handleReply] at h
  split at h
  · exact hack _ _ _ h
  · split at h
    · obtain ⟨s₁, h₁, h⟩ := bind_ok.mp h
      have rest : ∀ s₂ : Self τ, (ack id s₂ >>= fun self => do
            let clock ← self.now.2.rpc.clock.handleReply id t₁ t₂ self.now.1
            Except.ok { self.now.2 with rpc.clock := clock }) = .ok s' →
          s'.rpc.flaky = s₂.rpc.flaky := by
        intro s₂ h₂
        simp only [bind_ok, Self.now] at h₂
        obtain ⟨s₃, h₃, clock, -, h₄⟩ := h₂
        cases h₄
        exact (hack _ _ _ h₃ :)
      have hbarrier : s₁.rpc.flaky = s.rpc.flaky :=
        (tryToSendBarrier_keepsFlaky hsend _ _ h₁ :)
      rw [← hbarrier]
      split at h
      · rw [ok_bind] at h
        exact (rest _ h :)
      · obtain ⟨s₂, h₂, h⟩ := bind_ok.mp h
        exact (rest _ h).trans (hadd _ _ _ _ h₂)
    · exact hack _ _ _ h

end Flaky

theorem addIncomingRequest_keepsFlaky (e : IdPayload) :
    KeepsFlaky (addIncomingRequest (τ := τ) e) := by
  intro s s' h
  simp only [addIncomingRequest, Self.now, bind_ok] at h
  obtain ⟨clock, -, h⟩ := h
  cases h
  rfl

theorem addIncomingReply_keepsFlaky (id : RpcId) (payload : Bytes) :
    KeepsFlaky (addIncomingReply (τ := τ) id payload) := by
  intro s s' h
  cases h
  rfl

/-- `BiDirectionalRpc` itself is steady. -/
theorem virtuals_steady (L : Libraries) : Steady L (PlainRpc.virtuals L) := by
  have hsend : ∀ m, KeepsFlaky (PlainRpc.send m) := fun m s s' h => by
    cases h
    rfl
  exact ⟨handleRequest_keepsFlaky hsend addIncomingRequest_keepsFlaky (reply_keepsFlaky hsend),
    handleReply_keepsFlaky hsend (fun _ s s' h => hsend _ s s' h) addIncomingReply_keepsFlaky⟩

/-! ### What is sent -/

/-- The requests `es` start with the chosen one, and they are current entries of
`outgoingRequests`, each once. -/
structure RequestBatch (self : Self τ) (id : RpcId) (payload : Bytes) (es : List IdPayload) :
    Prop where
  first : es.head? = some ⟨id, payload⟩
  nodup : (es.map IdPayload.id).Nodup
  current : ∀ e ∈ es, self.rpc.outgoingRequests.lookup e.id = some e.payload

/-- The replies `es` start with the chosen one, and they are current entries of `outgoingReplies`,
each once and with the time its request was received. -/
structure ReplyBatch (self : Self τ) (id : RpcId) (payload : Bytes) (es : List ReplyEntry) :
    Prop where
  first : es.head?.map (fun e => (e.id, e.payload)) = some (id, payload)
  nodup : (es.map ReplyEntry.id).Nodup
  current : ∀ e ∈ es, self.rpc.outgoingReplies.lookup e.id = some e.payload ∧
    self.rpc.clock.requestReceiveTimeMap.lookup e.id = some e.requestReceiveTime

variable {self : Self τ} {id : RpcId} {payload : Bytes}
  {send : Bytes → Self τ → Except Fault (Self τ)}

/-- **A batch of requests.** -/
theorem sendRequest_batch (L : Libraries) (send : Bytes → Self τ → Except Fault (Self τ))
    (h : self.rpc.outgoingRequests.lookup id = some payload) :
    ∃ (es : List IdPayload) (env : Env), RequestBatch self id payload es ∧
      Attaching L self.rpc.outgoingRequests.entries
        (fun id payload self => .ok (requestObjects id payload, self)) [id]
        (.byte REQUEST :: requestObjects id payload) self
        ((Packet.request es).objects, { self with env := env }) ∧
      sendRequest L send id payload true self =
        send ((Packet.request es).message L) { self with env := env } := by
  obtain ⟨es, env, hloop, hnodup, hes⟩ := attaching_ends Packet.entryObjects IdPayload.id
    (fun e => self.rpc.outgoingRequests.lookup e.id = some e.payload)
    self.rpc.outgoingRequests.entries self
    (fun id payload self => .ok (requestObjects id payload, self))
    (fun id payload env hmem => ⟨⟨id, payload⟩, env, rfl, rfl, AList.mem_lookup_iff.mpr hmem⟩)
    [id] (.byte REQUEST :: requestObjects id payload) self.env
  refine ⟨⟨id, payload⟩ :: es, env, ⟨rfl, ?_, ?_⟩, hloop, ?_⟩
  · exact nodup_map_cons hnodup fun e he heq => (hes e he).1 (heq ▸ List.mem_singleton_self _)
  · intro e he
    rcases List.mem_cons.mp he with rfl | he
    · exact h
    · exact (hes e he).2
  · have hattach := hloop.attach (Nat.le_add_right _ _)
    rw [sendRequest, if_pos rfl, hattach]
    rfl

/-- A reply is packed with the time its request was received. -/
theorem writeReply_recorded {t : Int}
    (h : self.rpc.clock.requestReceiveTimeMap.lookup id = some t) :
    writeReply id payload self =
      .ok (Packet.replyEntryObjects ⟨id, t, self.now.1, payload⟩, self.now.2) := by
  simp only [writeReply, Self.now, ClockSynchronizer.getReplyDuration, h, ok_bind]
  rfl

/-- **A batch of replies**, where every reply has the time its request was received. -/
theorem sendReply_batch (L : Libraries) (send : Bytes → Self τ → Except Fault (Self τ))
    (hrecorded : ∀ id ∈ self.rpc.outgoingReplies, id ∈ self.rpc.clock.requestReceiveTimeMap)
    (h : self.rpc.outgoingReplies.lookup id = some payload) :
    ∃ (e : ReplyEntry) (es : List ReplyEntry) (env : Env), ReplyBatch self id payload (e :: es) ∧
      Attaching L self.rpc.outgoingReplies.entries writeReply [id]
        (.byte REPLY :: Packet.replyEntryObjects e) self.now.2
        ((Packet.reply (e :: es)).objects, { self with env := env }) ∧
      sendReply L send id payload true self =
        send ((Packet.reply (e :: es)).message L) { self with env := env } := by
  have recorded : ∀ id payload, self.rpc.outgoingReplies.lookup id = some payload →
      ∃ t, self.rpc.clock.requestReceiveTimeMap.lookup id = some t := fun id payload h =>
    Option.isSome_iff_exists.mp (AList.lookup_isSome.mpr
      (hrecorded id (AList.lookup_isSome.mp (by simp [h]))))
  obtain ⟨t, ht⟩ := recorded id payload h
  obtain ⟨es, env, hloop, hnodup, hes⟩ := attaching_ends Packet.replyEntryObjects ReplyEntry.id
    (fun e => self.rpc.outgoingReplies.lookup e.id = some e.payload ∧
      self.rpc.clock.requestReceiveTimeMap.lookup e.id = some e.requestReceiveTime)
    self.rpc.outgoingReplies.entries self writeReply
    (fun id payload env hmem => by
      have hlookup := AList.mem_lookup_iff.mpr hmem
      obtain ⟨t, ht⟩ := recorded id payload hlookup
      exact ⟨⟨id, t, env.clock 0, payload⟩, _, writeReply_recorded ht, rfl, hlookup, ht⟩)
    [id] (.byte REPLY :: Packet.replyEntryObjects ⟨id, t, self.now.1, payload⟩) self.now.2.env
  refine ⟨⟨id, t, self.now.1, payload⟩, es, env, ⟨rfl, ?_, ?_⟩, hloop, ?_⟩
  · exact nodup_map_cons hnodup fun e he heq => (hes e he).1 (heq ▸ List.mem_singleton_self _)
  · intro e he
    rcases List.mem_cons.mp he with rfl | he
    · exact ⟨h, ht⟩
    · exact (hes e he).2
  · have hattach := hloop.attach (Nat.le_add_right _ _)
    simp only [sendReply, writeReply_recorded ht, ok_bind, if_true]
    refine (congrArg (· >>= _) hattach).trans ?_
    rfl

/-- **Batched packets mean the same as single ones.**  From every state, for every chosen first
entry and whatever is drawn, the loop ends; the packet sent holds current entries, each once, the
chosen one first; and an object that receives it is left as by its entries, one per packet. -/
theorem batches_as_singles (L : Libraries) (send : Bytes → Self τ → Except Fault (Self τ))
    (self : Self τ) :
    (∀ id payload, self.rpc.outgoingRequests.lookup id = some payload →
      ∃ (es : List IdPayload) (env : Env), RequestBatch self id payload es ∧
        Attaching L self.rpc.outgoingRequests.entries
          (fun id payload self => .ok (requestObjects id payload, self)) [id]
          (.byte REQUEST :: requestObjects id payload) self
          ((Packet.request es).objects, { self with env := env }) ∧
        sendRequest L send id payload true self =
          send ((Packet.request es).message L) { self with env := env } ∧
        ReceivedSingly L (.request es) (es.map singleRequest)) ∧
    ((∀ id ∈ self.rpc.outgoingReplies, id ∈ self.rpc.clock.requestReceiveTimeMap) →
      ∀ id payload, self.rpc.outgoingReplies.lookup id = some payload →
      ∃ (e : ReplyEntry) (es : List ReplyEntry) (env : Env),
        ReplyBatch self id payload (e :: es) ∧
        Attaching L self.rpc.outgoingReplies.entries writeReply [id]
          (.byte REPLY :: Packet.replyEntryObjects e) self.now.2
          ((Packet.reply (e :: es)).objects, { self with env := env }) ∧
        sendReply L send id payload true self =
          send ((Packet.reply (e :: es)).message L) { self with env := env } ∧
        ReceivedSingly L (.reply (e :: es)) ((e :: es).map singleReply)) := by
  refine ⟨fun id payload h => ?_, fun hrecorded id payload h => ?_⟩
  · obtain ⟨es, env, hbatch, hloop, hsent⟩ := sendRequest_batch L send h
    exact ⟨es, env, hbatch, hloop, hsent, receivedSingly_request L es⟩
  · obtain ⟨e, es, env, hbatch, hloop, hsent⟩ := sendReply_batch L send hrecorded h
    exact ⟨e, es, env, hbatch, hloop, hsent, receivedSingly_reply L (e :: es)⟩

/-- Two requests wait for their replies, and two replies for their acknowledgements. -/
def batching : List EndpointEvent :=
  [.call (.request 7 (ascii ['H', 'I'])), .call (.request 8 (ascii ['H', 'O'])),
    .receive ((Packet.request [⟨⟨0, 9⟩, ascii ['A']⟩, ⟨⟨0, 10⟩, PING⟩]).message .standIn),
    .call (.reply ⟨0, 9⟩ (ascii ['B']))]

theorem batches_as_singles_batching : ∃ (self : PlainRpc) (es : List IdPayload) (e : ReplyEntry)
    (es' : List ReplyEntry), (endpoints .standIn).Run batching self ∧
    RequestBatch self ⟨0, 7⟩ (ascii ['H', 'I']) es ∧
    ReceivedSingly .standIn (.request es) (es.map singleRequest) ∧
    ReplyBatch self ⟨0, 10⟩ PONG (e :: es') ∧
    ReceivedSingly .standIn (.reply (e :: es')) ((e :: es').map singleReply) := by
  have h : ∃ self, batching.foldlM (PlainRpc.exec .standIn) (.new false default) = .ok self ∧
      self.rpc.outgoingRequests.lookup ⟨0, 7⟩ = some (ascii ['H', 'I']) ∧
      self.rpc.outgoingReplies.lookup ⟨0, 10⟩ = some PONG ∧
      ∀ id ∈ self.rpc.outgoingReplies.keys, id ∈ self.rpc.clock.requestReceiveTimeMap := by
    decide +kernel
  obtain ⟨self, h, hrequest, hreply, hrecorded⟩ := h
  obtain ⟨hrequests, hreplies⟩ := batches_as_singles .standIn PlainRpc.send self
  obtain ⟨es, -, hbatch, -, -, hsingly⟩ := hrequests _ _ hrequest
  obtain ⟨e, es', -, hbatch', -, -, hsingly'⟩ := hreplies hrecorded _ _ hreply
  exact ⟨self, es, e, es', PlainRpc.exec_run h, hbatch, hsingly, hbatch', hsingly'⟩

end BiDirectionalRpc

end Wga
