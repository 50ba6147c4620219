import WeGoAll.Peer.Network

/-!
# Peer — Broadcasts

The broadcasts of a peer in the history of an endpoint.

* `broadcastsOf`: what is neither `PING` nor `SHUTDOWN`.
* `Msgpack.Ascii`: what msgpack makes of ASCII.
* `updateState_plain`: a broadcast is neither of these words, and not empty.
* `Path.filterMap_history`: what a path does not record.
-/

namespace Wga

variable {L : Libraries} {R : Rights}

/-! ### In a history -/

/-- The broadcast that an event makes. -/
def Event.broadcast : Event → Option (RpcId × Bytes)
  | .requestedOneWay id payload =>
      if payload = PING ∨ payload = SHUTDOWN then none else some (id, payload)
  | _ => none

/-- The broadcasts made at an endpoint, oldest first. -/
def broadcastsOf (h : List Event) : List (RpcId × Bytes) := h.filterMap Event.broadcast

theorem mem_broadcastsOf {h : List Event} {id : RpcId} {p : Bytes} :
    (id, p) ∈ broadcastsOf h ↔ .requestedOneWay id p ∈ h ∧ p ≠ PING ∧ p ≠ SHUTDOWN := by
  rw [broadcastsOf, List.mem_filterMap]
  constructor
  · rintro ⟨e, he, heq⟩
    cases e with
    | requestedOneWay a q =>
        rw [Event.broadcast] at heq
        split at heq
        · cases heq
        · rename_i hplain
          cases heq
          exact ⟨he, not_or.mp hplain⟩
    | _ => cases heq
  · rintro ⟨he, hping, hshut⟩
    exact ⟨_, he, if_neg (not_or.mpr ⟨hping, hshut⟩)⟩

/-- Their identifiers are among those issued. -/
theorem broadcastsOf_ids (h : List Event) :
    ((broadcastsOf h).map Prod.fst).Sublist (issuedIds h) := by
  induction h with
  | nil => exact .slnil
  | cons e h ih =>
      cases e with
      | requestedOneWay id p =>
          by_cases hp : p = PING ∨ p = SHUTDOWN
          · have hnone : (Event.requestedOneWay id p).broadcast = none := if_pos hp
            rw [broadcastsOf, List.filterMap_cons_none hnone]
            exact ih.cons id
          · have hsome : (Event.requestedOneWay id p).broadcast = some (id, p) := if_neg hp
            rw [broadcastsOf, List.filterMap_cons_some hsome]
            exact ih.cons_cons id
      | requested id p => exact ih.cons id
      | _ => exact ih

/-- A fresh identifier stands in one place. -/
theorem FreshIds.broadcast_unique {h : List Event} (hf : FreshIds h) {n m : Nat} {id : RpcId}
    {p q : Bytes} (hn : (broadcastsOf h)[n]? = some (id, p))
    (hm : (broadcastsOf h)[m]? = some (id, q)) : n = m := by
  have hnd : ((broadcastsOf h).map Prod.fst).Nodup := hf.sublist (broadcastsOf_ids h)
  have at_map : ∀ {k r}, (broadcastsOf h)[k]? = some (id, r) →
      ((broadcastsOf h).map Prod.fst)[k]? = some id := fun hk => by
    rw [List.getElem?_map, hk]
    rfl
  obtain ⟨hlt, -⟩ := List.getElem?_eq_some_iff.mp (at_map hn)
  exact (List.getElem?_inj hlt hnd).mp ((at_map hn).trans (at_map hm).symm)

/-! ### What msgpack makes of ASCII -/

/-- A byte below 128 is an integer by itself. -/
def Msgpack.Ascii (M : Msgpack) : Prop :=
  ∀ s : Bytes, (∀ b ∈ s, b < 0x80) → ∀ o ∈ (M.unpack s).objects, ∃ v, o = .integer v

/-- What carries a map is not ASCII. -/
theorem Msgpack.Ascii.map {M : Msgpack} (hM : M.Ascii) {objects : List MsgObject}
    {entries : List (Bytes × Bytes)} (h : .map entries ∈ objects) :
    ¬ ∀ b ∈ M.pack objects, b < 0x80 := fun hall => by
  obtain ⟨v, hv⟩ := hM _ hall (.map entries) (by rw [M.unpack_pack]; exact h)
  cases hv

/-- A payload that an endpoint leaves to the application, and that counts as work. -/
structure Plain (payload : Bytes) : Prop where
  ping : payload ≠ PING
  shutdown : payload ≠ SHUTDOWN
  nonempty : payload ≠ []

/-- A word is ASCII if each of its bytes is found to be. -/
theorem lt_of_all {s : Bytes} (h : s.all (fun b => b.toNat.blt 0x80) = true) :
    ∀ b ∈ s, b < 0x80 := fun b hb =>
  UInt8.lt_iff_toNat_lt.mpr (Nat.blt_eq.mp (List.all_eq_true.mp h b hb))

theorem Plain.of_not_ascii {payload : Bytes} (h : ¬ ∀ b ∈ payload, b < 0x80) : Plain payload where
  ping := by
    rintro rfl
    exact h (lt_of_all rfl)
  shutdown := by
    rintro rfl
    exact h (lt_of_all rfl)
  nonempty := by
    rintro rfl
    exact h (lt_of_all rfl)

/-- A broadcast made now is the last one. -/
theorem broadcastsOf_snoc (h : List Event) (id : RpcId) {payload : Bytes} (hp : Plain payload) :
    broadcastsOf (h ++ [.requestedOneWay id payload]) = broadcastsOf h ++ [(id, payload)] := by
  have hsome : (Event.requestedOneWay id payload).broadcast = some (id, payload) :=
    if_neg (not_or.mpr ⟨hp.ping, hp.shutdown⟩)
  rw [broadcastsOf, List.filterMap_append, List.filterMap_cons_some hsome]
  rfl

/-- A broadcast is an earlier one or the one made now. -/
theorem getElem?_broadcastsOf_snoc {h : List Event} {id a : RpcId} {payload b : Bytes}
    (hp : Plain payload) {n : Nat}
    (hn : (broadcastsOf (h ++ [.requestedOneWay id payload]))[n]? = some (a, b)) :
    (broadcastsOf h)[n]? = some (a, b) ∨
      n = (broadcastsOf h).length ∧ a = id ∧ b = payload := by
  rw [broadcastsOf_snoc h id hp] at hn
  rcases Nat.lt_or_ge n (broadcastsOf h).length with hlt | hge
  · exact .inl ((List.getElem?_append_left hlt).symm.trans hn)
  · obtain ⟨hlt, -⟩ := List.getElem?_eq_some_iff.mp hn
    rw [List.length_append, List.length_singleton] at hlt
    obtain rfl := Nat.le_antisymm (Nat.le_of_lt_succ hlt) hge
    rw [List.getElem?_concat_length] at hn
    cases hn
    exact .inr ⟨rfl, rfl, rfl⟩

/-- The last block pushed is in the window. -/
theorem MyPeer.mem_window (buffer : List (Block Bytes Bytes)) (b : Block Bytes Bytes) :
    b ∈ window ((buffer ++ [b]).drop ((buffer ++ [b]).length - INPUT_SEND_WINDOW_SIZE)) := by
  have hle : (buffer ++ [b]).length - INPUT_SEND_WINDOW_SIZE ≤ buffer.length := by
    simp [INPUT_SEND_WINDOW_SIZE]
  rw [List.drop_append_of_le_length hle, window, List.getLast?_concat]
  exact List.mem_append_left _ (List.mem_append_right _ (List.mem_singleton.mpr rfl))

/-- **A broadcast is no control word.** -/
theorem MyPeer.updateState_plain (hL : L.toMsgpack.Ascii) {timestamp : Int}
    {data : UnorderedMap Bytes Bytes} {self self' : MyInputs} {s : Bytes}
    (h : MyPeer.updateState L timestamp data self = .ok (s, self')) : Plain s := by
  obtain ⟨m, -, h⟩ := bind_ok.mp h
  cases h
  have hmap : ∀ b : Block Bytes Bytes, .map (b.data.entries.map fun e => (e.1, e.2)) ∈
      blockObjects b := fun b => by simp [blockObjects]
  exact .of_not_ascii (hL.map (List.mem_flatMap.mpr ⟨_, mem_window _ _, hmap _⟩))

/-! ### What paths record -/

section Paths

variable {τ : Type} {Q : Phase → Rpc → τ → τ → Prop} {a b : Point τ}

/-- **What a path may not record**, its history has no more of. -/
theorem Path.filterMap_history {α : Type} {f : Event → Option α}
    (hR : ∀ r e, R.may r e → f e = none) (h : Path L R Q a b) :
    b.rpc.history.filterMap f = a.rpc.history.filterMap f := by
  refine h.invariant_rpc (I := fun _ r => r.history.filterMap f = a.rpc.history.filterMap f)
    (fun ph r ph' r' hr hm => ?_) rfl
  rcases hm.recorded with heq | ⟨e, hmay, heq⟩
  · rw [heq]
    exact hr
  · rw [heq, List.filterMap_append, hr, List.filterMap_cons_none (hR r e hmay),
      List.filterMap_nil, List.append_nil]

/-- An event it may not record is not new. -/
theorem Path.mem_history {e : Event} (hR : ∀ r, ¬ R.may r e) (h : Path L R Q a b)
    (he : e ∈ b.rpc.history) : e ∈ a.rpc.history :=
  h.invariant_rpc (I := fun _ r => e ∈ r.history → e ∈ a.rpc.history)
    (fun _ r _ _ hr hm he => hr ((hm.new_event he).resolve_right (hR r))) id he

end Paths

namespace PlainRpc

variable {s s' : PlainRpc}

/-- Under an identifier that was drawn before, `requestWithId` records nothing more. -/
theorem requestWithId_history {e : IdPayload} (h : (virtuals L).requestWithId e s = .ok s') :
    s'.rpc.history = s.rpc.history := by
  have hpath : Path L .none (Posts L .none) (s.at (.issuing e.id e.payload)) (s'.at .idle) :=
    BiDirectionalRpc.requestWithId_path send_within rfl h
  have hsame := hpath.filterMap_history (f := some) fun r e (hmay : Rights.none.may r e) => hmay.elim
  rwa [List.filterMap_some, List.filterMap_some] at hsame

/-- **A broadcast is recorded**, under an identifier drawn for it. -/
theorem requestOneWay_history {uuid : UInt64} {p : Bytes}
    (h : (Call.requestOneWay uuid p).run L (virtuals L) s = .ok s') :
    s'.rpc.history = s.rpc.history ++ [.requestedOneWay ⟨s.rpc.onBarrier, uuid⟩ p] :=
  requestWithId_history h

end PlainRpc

/-- The calls a peer makes besides its broadcasts. -/
def Call.Quiet : Call → Prop
  | .request _ p => p = PING
  | .reply .. | .heartbeat _ | .getFirstIncomingReply | .sendShutdown _ => True
  | _ => False

/-- The events of such a call. -/
theorem Call.Quiet.may {c : Call} (hc : c.Quiet) {e : Event} (h : c.may e) :
    (∃ id, e = .requested id PING ∨ e = .requestedOneWay id PING) ∨
      (∃ uuid id, c = .sendShutdown uuid ∧ e = .requestedOneWay id SHUTDOWN) ∨
      (∃ id a, c = .reply id a ∧ e = .replied id a) ∨ ∃ id p, e = .handed id p := by
  cases c with
  | request uuid p =>
      cases hc
      obtain ⟨id, rfl⟩ := h
      exact .inl ⟨id, .inl rfl⟩
  | heartbeat uuid =>
      obtain ⟨id, rfl⟩ := h
      exact .inl ⟨id, .inr rfl⟩
  | sendShutdown uuid =>
      obtain ⟨id, rfl⟩ := h
      exact .inr (.inl ⟨uuid, id, rfl, rfl⟩)
  | reply id a =>
      cases h
      exact .inr (.inr (.inl ⟨id, a, rfl, rfl⟩))
  | getFirstIncomingReply => exact .inr (.inr (.inr h))
  | _ => exact hc.elim

/-- **What such a call leaves of a history.** -/
structure Quiets (h h' : List Event) : Prop where
  history : h <+: h'
  broadcasts : broadcastsOf h' = broadcastsOf h
  requested : ∀ id p, .requested id p ∈ h' → .requested id p ∈ h ∨ p = PING
  completed : ∀ id, .completed id ∈ h' → .completed id ∈ h

theorem Quiets.refl (h : List Event) : Quiets h h :=
  ⟨List.prefix_rfl, rfl, fun _ _ => .inl, fun _ hc => hc⟩

namespace Call.Quiet

variable {c : Call} {s s' : PlainRpc}

theorem quiets (hc : c.Quiet) (h : c.run L (PlainRpc.virtuals L) s = .ok s') :
    Quiets s.rpc.history s'.rpc.history := by
  have hpath := PlainRpc.call_path h
  refine ⟨hpath.history, hpath.filterMap_history fun r e h => ?_, fun id p hp => ?_,
    fun id => hpath.mem_history fun r h => ?_⟩
  · rcases hc.may h with ⟨id, rfl | rfl⟩ | ⟨-, id, -, rfl⟩ | ⟨id, a, -, rfl⟩ | ⟨id, p, rfl⟩ <;>
      simp [Event.broadcast]
  · by_cases hping : p = PING
    · exact .inr hping
    · refine .inl (hpath.mem_history (fun r h => hping ?_) hp)
      rcases hc.may h with ⟨id, ha | ha⟩ | ⟨-, id, -, ha⟩ | ⟨id, a, -, ha⟩ | ⟨id, p, ha⟩ <;> cases ha
      rfl
  · rcases hc.may h with ⟨id, ha | ha⟩ | ⟨-, id, -, ha⟩ | ⟨id, a, -, ha⟩ | ⟨id, p, ha⟩ <;> cases ha

/-- It answers only as `reply`. -/
theorem replied (hc : c.Quiet) (h : c.run L (PlainRpc.virtuals L) s = .ok s') {id : RpcId}
    {a : Bytes} (ha : .replied id a ∈ s'.rpc.history) :
    .replied id a ∈ s.rpc.history ∨ c = .reply id a := by
  by_cases hrep : c = .reply id a
  · exact .inr hrep
  · refine .inl ((PlainRpc.call_path h).mem_history (fun r h => hrep ?_) ha)
    rcases hc.may h with ⟨id, ha | ha⟩ | ⟨-, id, -, ha⟩ | ⟨id, a, rfl, ha⟩ | ⟨id, p, ha⟩ <;> cases ha
    rfl

/-- It sends `SHUTDOWN` only as `sendShutdown`, and only where the endpoint is not shut down. -/
theorem issued (hc : c.Quiet) (h : c.run L (PlainRpc.virtuals L) s = .ok s') {id : RpcId}
    (hid : Issued s'.rpc.history id SHUTDOWN) : Issued s.rpc.history id SHUTDOWN ∨
      (∃ uuid, c = .sendShutdown uuid) ∧ s.rpc.shuttingDown = false := by
  by_cases hsend : ∃ uuid, c = .sendShutdown uuid
  · obtain ⟨uuid, rfl⟩ := hsend
    cases hshut : s.rpc.shuttingDown with
    | false => exact .inr ⟨⟨uuid, rfl⟩, rfl⟩
    | true =>
        simp only [Call.run, BiDirectionalRpc.sendShutdown, hshut, if_true] at h
        cases h
        exact .inl hid
  · refine .inl (hid.imp (fun hid => ?_) fun hid => ?_) <;>
      refine (PlainRpc.call_path h).mem_history (fun r h => ?_) hid <;>
      rcases hc.may h with ⟨a, ha | ha⟩ | ⟨uuid, a, rfl, ha⟩ | ⟨a, b, -, ha⟩ | ⟨a, b, ha⟩ <;> cases ha
    exact hsend ⟨uuid, rfl⟩

end Call.Quiet

end Wga
