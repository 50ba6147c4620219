import WeGoAll.Stun.Attributes
import WeGoAll.Support.Runs

/-!
# Stun — Requests

The counter of a client, its requests and the receive it keeps pending.

* `stunClients`: the system; any calls of `reflect`, any datagrams, any errors.
* `onRecv_cases`: what a datagram does.
* `Run.sent`: the transaction id of a pending request is the one that was sent.
* `Run.armed`: whatever happens, at most one receive is pending, and only while the counter is not
  0.
* `accounting_iff`: when the three agree all along a run.
-/

namespace Wga

/-- What happens to a client. -/
inductive StunEvent where
  | reflect (server : IpEndpoint) (handler : Nat) (id : RequestId)
  /-- A receive completes. -/
  | received (error : StunClient.ErrorCode) (server : IpEndpoint) (size : Nat) (m : Memory)
  | destroyed

namespace StunClient

/-- What an event does.  A receive completes only if one is pending, and nothing is asked of a
client that was destroyed. -/
inductive Step : StunClient → StunEvent → StunClient → Prop where
  | reflect {s s' : StunClient} {server : IpEndpoint} {handler : Nat} {id : RequestId}
      (hlive : s.wasDestroyed = false) (h : reflect server handler id s = .ok s') :
      Step s (.reflect server handler id) s'
  | received {s s' : StunClient} {error : ErrorCode} {server : IpEndpoint} {size n : Nat}
      {m : Memory} (hpending : s.receives = n + 1)
      (h : onRecv error server size m { s with receives := n } = .ok s') :
      Step s (.received error server size m) s'
  | destroyed {s : StunClient} (hlive : s.wasDestroyed = false) : Step s .destroyed (destroy s)

end StunClient

/-- The runs of a client in which the process survives. -/
def stunClients : System StunClient StunEvent := ⟨(· = .new), StunClient.Step⟩

namespace StunClient

/-! ### What the methods do -/

section

variable {s s' : StunClient}

theorem mem_of_lookup {server : IpEndpoint} {request : StunRequest}
    (h : s.requests.lookup server = some request) : server ∈ s.requests :=
  AList.lookup_isSome.mp (h ▸ rfl)

/-- Counting down changes the counter and the receives only. -/
theorem countDown_frame (s : StunClient) :
    ∃ n k, countDown s = { s with requestCount := n, receives := k } := by
  simp only [countDown]
  generalize (if s.requestCount = 0 then 2 ^ 64 - 1 else s.requestCount - 1) = n
  split
  · exact ⟨n, s.receives + 1, rfl⟩
  · exact ⟨n, s.receives, rfl⟩

theorem countDown_posted (s : StunClient) : (countDown s).posted = s.posted := by
  obtain ⟨n, k, heq⟩ := countDown_frame s
  rw [heq]

theorem countDown_eq (h : 0 < s.requestCount) : countDown s = { s with
    requestCount := s.requestCount - 1
    receives := if s.requestCount = 1 then s.receives else s.receives + 1 } := by
  rw [countDown, if_neg h.ne']
  by_cases h1 : s.requestCount = 1
  · rw [h1]
    rfl
  · have hmore : s.requestCount - 1 ≠ 0 := by omega
    rw [if_neg h1]
    exact if_pos hmore

theorem destroyRequests_eq (error : ErrorCode) (s : StunClient) : destroyRequests error s = { s with
    requests := ∅
    posted := s.posted ++
      s.requests.entries.map fun x => ⟨x.2.handler, error, .unspecified⟩ } := by
  have hfold : ∀ (l : List (Σ _ : IpEndpoint, StunRequest)) (s : StunClient),
      l.foldl (fun self x => exec x.2 error .unspecified self) s = { s with
        posted := s.posted ++ l.map fun x => ⟨x.2.handler, error, .unspecified⟩ } := by
    intro l
    induction l with
    | nil =>
        intro s
        simp
    | cons x l ih =>
        intro s
        rw [List.foldl_cons, ih, exec, List.map_cons, List.append_assoc]
        rfl
  rw [destroyRequests, hfold]

/-- The client that has answered a request. -/
def answered (server : IpEndpoint) (request : StunRequest) (error : ErrorCode)
    (reflected : IpEndpoint) (s : StunClient) : StunClient :=
  exec request error reflected { s with requests := s.requests.erase server }

theorem execute_success {server : IpEndpoint} {request : StunRequest} {reflected : IpEndpoint} :
    execute server request .success reflected s =
      .ok (answered server request .success reflected s) :=
  if_neg fun h => h.1 rfl

theorem execute_unspecified {server : IpEndpoint} {request : StunRequest} {error : ErrorCode} :
    execute server request error .unspecified s =
      .ok (answered server request error .unspecified s) :=
  if_neg fun h => h.2 rfl

theorem countDown_answered (server : IpEndpoint) (request : StunRequest) (error : ErrorCode)
    (reflected : IpEndpoint) (s : StunClient) :
    countDown (answered server request error reflected s) =
      answered server request error reflected (countDown s) := by
  obtain h0 | hpos := Nat.eq_zero_or_pos s.requestCount
  · simp [countDown, answered, exec, startReceiving, h0]
  · rw [countDown_eq hpos]
    exact countDown_eq (s := answered server request error reflected s) hpos

/-- What `reflect` does: a request that is pending is given up, or one more is sent. -/
theorem reflect_cases {server : IpEndpoint} {handler : Nat} {id : RequestId}
    (h : reflect server handler id s = .ok s') :
    (∃ pending, s.requests.lookup server = some pending ∧
      s' = answered server pending .operationAborted .unspecified s) ∨
    server ∉ s.requests ∧ s' = { s with
      requests := s.requests.insert server ⟨id, handler, server⟩
      requestCount := s.requestCount + 1
      receives := if s.requestCount = 0 then s.receives + 1 else s.receives
      sent := s.sent ++ [(server, bindingRequest id)] } := by
  rw [reflect] at h
  split at h
  next pending hlookup =>
    cases execute_unspecified.symm.trans h
    exact .inl ⟨pending, hlookup, rfl⟩
  next hlookup =>
    refine .inr ⟨AList.lookup_eq_none.mp hlookup, ?_⟩
    by_cases h0 : s.requestCount = 0
    · simp only [startSending, startReceiving, h0, if_true] at h
      cases h
      simp only [h0, if_true]
    · simp only [startSending, h0, if_false] at h
      cases h
      simp only [h0, if_false]

/-- Some address is found in the datagram. -/
def Addressed (m : Memory) : Prop :=
  ∃ k, FirstAddress m k ∧ HasEndpoint m (HEADER_SIZE + 4 * k)

theorem addressed_iff {m : Memory} : (∃ ep, (scan m).found = .ok (some ep)) ↔ Addressed m := by
  by_cases hfirst : ∃ k, FirstAddress m k
  · obtain ⟨k, hk⟩ := hfirst
    obtain ⟨s, hs, heq⟩ := scan_first hk
    rw [heq, hs.endpoint]
    constructor
    · exact fun h => ⟨k, hk, h⟩
    · rintro ⟨j, hj, h⟩
      rwa [← hj.unique hk]
  · rw [scan_none (not_exists.mp hfirst)]
    refine iff_of_false ?_ fun ⟨k, hk, _⟩ => hfirst ⟨k, hk⟩
    rintro ⟨ep, h⟩
    cases h

/-- A receive completes: of a client that was destroyed, or with an error, the requests are given
up; otherwise a datagram has come. -/
theorem received_cases {error : ErrorCode} {server : IpEndpoint} {size : Nat} {m : Memory}
    (h : onRecv error server size m s = .ok s') :
    (s.wasDestroyed = true ∨ error ≠ .success) ∧
      (∃ posted, s' = { s with requests := ∅, posted := posted }) ∨
    s.wasDestroyed = false ∧ error = .success ∧ onRecv .success server size m s = .ok s' := by
  by_cases hdestroyed : s.wasDestroyed = true
  · rw [onRecv, if_pos hdestroyed, destroyRequests_eq] at h
    cases h
    exact .inl ⟨.inl hdestroyed, _, rfl⟩
  · by_cases herror : error = .success
    · exact .inr ⟨Bool.eq_false_of_not_eq_true hdestroyed, herror, herror ▸ h⟩
    · rw [onRecv, if_neg hdestroyed, if_pos herror, destroyRequests_eq] at h
      cases h
      exact .inl ⟨.inr herror, _, rfl⟩

/-- A datagram from an endpoint that is not pending is passed over. -/
theorem onRecv_unknown {server : IpEndpoint} {size : Nat} {m : Memory}
    (hlive : s.wasDestroyed = false) (h : server ∉ s.requests) :
    onRecv .success server size m s = .ok (startReceiving s) := by
  rw [onRecv, hlive, if_neg Bool.false_ne_true, if_neg (not_not_intro rfl),
    AList.lookup_eq_none.mpr h]

/-- One with an accepted header lowers the counter, whether it answers the request or not. -/
theorem onRecv_accepted {server : IpEndpoint} {request : StunRequest} {size : Nat} {m : Memory}
    (hlive : s.wasDestroyed = false) (hlookup : s.requests.lookup server = some request)
    (h : Accepted m size) : onRecv .success server size m s = (scan m).found >>= fun found =>
      .ok (countDown (found.elim s fun ep => answered server request .success ep s)) := by
  rw [onRecv, hlive, if_neg Bool.false_ne_true, if_neg (not_not_intro rfl), hlookup]
  simp only [decodeResponse_accepted h]
  cases (scan m).found with
  | error f => rfl
  | ok found =>
      cases found with
      | none =>
          simp only [ok_bind, hlive, Bool.false_eq_true, if_false]
          rfl
      | some ep =>
          have hlive₁ : (answered server request .success ep s).wasDestroyed = false := hlive
          simp only [ok_bind, execute_success, hlive₁, Bool.false_eq_true, if_false]
          rfl

/-- One with another header answers the request with an error, or is passed over. -/
theorem onRecv_rejected {server : IpEndpoint} {request : StunRequest} {size : Nat} {m : Memory}
    (hlive : s.wasDestroyed = false) (hlookup : s.requests.lookup server = some request)
    (h : ¬ Accepted m size) :
    (∃ error, error ≠ .success ∧ onRecv .success server size m s =
      .ok (countDown (answered server request error .unspecified s))) ∨
      onRecv .success server size m s = .ok (startReceiving s) := by
  rw [onRecv, hlive, if_neg Bool.false_ne_true, if_neg (not_not_intro rfl), hlookup]
  obtain ⟨⟨error, hverdict, herror⟩ | hverdict, -⟩ := decodeResponse_rejected h
  · rw [hverdict]
    exact .inl ⟨error, herror, by rw [countDown_answered]; exact execute_unspecified⟩
  · rw [hverdict]
    exact .inr rfl

/-- What a datagram does to a client that lives: it is passed over, it answers a request and the
counter goes down, or the counter goes down though the request stays. -/
theorem onRecv_cases {server : IpEndpoint} {size : Nat} {m : Memory}
    (hlive : s.wasDestroyed = false) (h : onRecv .success server size m s = .ok s') :
    (server ∈ s.requests → ¬ Accepted m size) ∧ s' = startReceiving s ∨
    (Accepted m size → Addressed m) ∧ (∃ request error reflected,
      s.requests.lookup server = some request ∧
      s' = countDown (answered server request error reflected s)) ∨
    server ∈ s.requests ∧ Accepted m size ∧ ¬ Addressed m ∧ s' = countDown s := by
  by_cases hmem : server ∈ s.requests
  · obtain ⟨request, hlookup⟩ := Option.isSome_iff_exists.mp (AList.lookup_isSome.mpr hmem)
    by_cases haccepted : Accepted m size
    · rw [onRecv_accepted hlive hlookup haccepted] at h
      obtain ⟨found, hfound, h⟩ := bind_ok.mp h
      cases h
      cases found with
      | none =>
          refine .inr (.inr ⟨hmem, haccepted, ?_, rfl⟩)
          rw [← addressed_iff, hfound]
          rintro ⟨ep, hep⟩
          cases hep
      | some ep =>
          exact .inr (.inl ⟨fun _ => addressed_iff.mp ⟨ep, hfound⟩, request, _, ep, hlookup, rfl⟩)
    · rcases onRecv_rejected hlive hlookup haccepted with ⟨error, -, heq⟩ | heq
      · cases heq.symm.trans h
        exact .inr (.inl ⟨fun h => absurd h haccepted, request, _, _, hlookup, rfl⟩)
      · cases heq.symm.trans h
        exact .inl ⟨fun _ => haccepted, rfl⟩
  · cases (onRecv_unknown hlive hmem).symm.trans h
    exact .inl ⟨fun h => absurd h hmem, rfl⟩

/-! ### Whatever happens -/

/-- At most one receive is pending, and only while the counter is not 0. -/
structure Armed (s : StunClient) : Prop where
  receives : s.receives ≤ 1
  count : 0 < s.receives → 0 < s.requestCount

/-- A datagram that lowers the counter. -/
theorem armed_countDown (hcount : 0 < s.requestCount) (hreceives : s.receives = 0) :
    Armed (countDown s) := by
  rw [countDown_eq hcount, hreceives]
  by_cases h1 : s.requestCount = 1
  · rw [if_pos h1]
    exact ⟨Nat.zero_le _, nofun⟩
  · rw [if_neg h1]
    exact ⟨le_rfl, fun _ => by show 0 < s.requestCount - 1; omega⟩

/-- Every event keeps that. -/
theorem Step.armed {e : StunEvent} (hs : Armed s) (h : Step s e s') : Armed s' := by
  cases h with
  | reflect hlive h =>
      rcases reflect_cases h with ⟨pending, -, rfl⟩ | ⟨-, rfl⟩
      · exact ⟨hs.receives, hs.count⟩
      · by_cases h0 : s.requestCount = 0
        · have hnone : s.receives = 0 := by
            by_contra hsome
            exact absurd (hs.count (Nat.pos_of_ne_zero hsome)) (by omega)
          refine ⟨?_, fun _ => Nat.succ_pos _⟩
          show (if s.requestCount = 0 then s.receives + 1 else s.receives) ≤ 1
          rw [if_pos h0, hnone]
        · refine ⟨?_, fun _ => Nat.succ_pos _⟩
          show (if s.requestCount = 0 then s.receives + 1 else s.receives) ≤ 1
          rw [if_neg h0]
          exact hs.receives
  | @received _ error server size n m hpending h =>
      have hn : n = 0 := by
        have hle := hs.receives
        omega
      have hcount : 0 < s.requestCount := hs.count (by omega)
      subst hn
      by_cases hlive : s.wasDestroyed = true
      · rw [onRecv, if_pos hlive, destroyRequests_eq] at h
        cases h
        exact ⟨Nat.zero_le _, nofun⟩
      by_cases herror : error = .success
      · subst herror
        rcases onRecv_cases (s := { s with receives := 0 }) (by simpa using hlive) h with
          ⟨-, rfl⟩ | ⟨-, _, _, _, -, rfl⟩ |
          ⟨-, -, -, rfl⟩
        · exact ⟨le_rfl, fun _ => hcount⟩
        · exact armed_countDown hcount rfl
        · exact armed_countDown hcount rfl
      · rw [onRecv, if_neg hlive, if_pos herror, destroyRequests_eq] at h
        cases h
        exact ⟨Nat.zero_le _, nofun⟩
  | destroyed hlive => exact ⟨hs.receives, hs.count⟩

theorem Run.armed {es : List StunEvent} (r : stunClients.Run es s) : Armed s :=
  System.Run.invariant (I := Armed) (fun s (hs : s = .new) => hs ▸ ⟨Nat.zero_le _, nofun⟩)
    (fun _ _ _ hs h => Step.armed hs h) r

/-- Every pending request was sent, with its transaction id. -/
def Sent (s : StunClient) : Prop := ∀ server request, s.requests.lookup server = some request →
  (server, bindingRequest request.id) ∈ s.sent

theorem Sent.answered {server : IpEndpoint} {request : StunRequest} {error : ErrorCode}
    {reflected : IpEndpoint} (h : Sent s) : Sent (answered server request error reflected s) := by
  intro server' request' hlookup
  have hne : server' ≠ server := by
    rintro rfl
    cases (AList.lookup_erase server' s.requests).symm.trans hlookup
  exact h server' request' ((AList.lookup_erase_ne hne).symm.trans hlookup)

theorem Sent.countDown (h : Sent s) : Sent (countDown s) := by
  obtain ⟨n, k, heq⟩ := countDown_frame s
  rw [heq]
  exact h

theorem Step.sent {e : StunEvent} (hs : Sent s) (h : Step s e s') : Sent s' := by
  cases h with
  | @reflect _ server handler id hlive h =>
      rcases reflect_cases h with ⟨pending, -, rfl⟩ | ⟨-, rfl⟩
      · exact hs.answered
      · intro server' request hlookup
        by_cases hserver : server' = server
        · subst hserver
          cases (AList.lookup_insert _).symm.trans hlookup
          exact List.mem_append_right _ (List.mem_singleton_self _)
        · exact List.mem_append_left _
            (hs _ _ ((AList.lookup_insert_ne hserver).symm.trans hlookup))
  | @received _ error server size n m hpending h =>
      have hs : Sent { s with receives := n } := hs
      rcases received_cases h with ⟨-, posted, rfl⟩ | ⟨hlive, -, h⟩
      · exact nofun
      · rcases onRecv_cases hlive h with ⟨-, rfl⟩ | ⟨-, _, _, _, -, rfl⟩ | ⟨-, -, -, rfl⟩
        · exact hs
        · exact hs.answered.countDown
        · exact hs.countDown
  | destroyed hlive => exact hs

theorem Run.sent {es : List StunEvent} (r : stunClients.Run es s) : Sent s :=
  System.Run.invariant (I := Sent) (fun s (hs : s = .new) => hs ▸ nofun)
    (fun _ _ _ hs h => Step.sent hs h) r

/-- The events determine where a run leads. -/
theorem Run.unique {es : List StunEvent} (r : stunClients.Run es s) (r' : stunClients.Run es s') :
    s = s' := by
  refine System.Run.unique (fun s s' (h : s = .new) (h' : s' = .new) => h.trans h'.symm)
    (fun s e s₁ s₂ (h₁ : Step s e s₁) (h₂ : Step s e s₂) => ?_) r r'
  cases h₁ with
  | reflect _ h₁ =>
      cases h₂ with
      | reflect _ h₂ => exact Except.ok.inj (h₁.symm.trans h₂)
  | received hpending h₁ =>
      cases h₂ with
      | received hpending' h₂ =>
          cases Nat.succ.inj (hpending.symm.trans hpending')
          exact Except.ok.inj (h₁.symm.trans h₂)
  | destroyed => cases h₂ with
      | destroyed => rfl

/-! ### The counter, the requests and the receive -/

/-- The handlers passed to `reflect`. -/
def passed (es : List StunEvent) : List Nat :=
  es.filterMap fun e => match e with
    | .reflect _ handler _ => some handler
    | _ => none

/-- The handler was posted. -/
def Called (s : StunClient) (handler : Nat) : Prop := ∃ x ∈ s.posted, x.handler = handler

/-- Its request is pending. -/
def Waits (s : StunClient) (handler : Nat) : Prop :=
  ∃ server request, s.requests.lookup server = some request ∧ request.handler = handler

/-- The counter is the number of requests, and a receive is pending exactly if there is one; so no
handler waits with nobody listening. -/
structure Accounts (es : List StunEvent) (s : StunClient) : Prop where
  count : s.requestCount = s.requests.entries.length
  receive : 0 < s.receives ↔ s.requests.entries ≠ []
  served : ∀ handler ∈ passed es, Called s handler ∨ Waits s handler ∧ 0 < s.receives

/-- While the client lives. -/
def Accounted (es : List StunEvent) (s : StunClient) : Prop :=
  s.wasDestroyed = false → Accounts es s

/-- The endpoint is not pending when it is asked for again; and a receive completes without an
error, with a datagram in which an address is found if it comes from a pending endpoint and its
header is accepted. -/
def Keeps (s : StunClient) : StunEvent → Prop
  | .reflect server _ _ => server ∉ s.requests
  | .received error server size m => s.wasDestroyed = true ∨
      error = .success ∧ (server ∈ s.requests → Accepted m size → Addressed m)
  | .destroyed => True

theorem entries_ne_nil {server : IpEndpoint} (h : server ∈ s.requests) :
    s.requests.entries ≠ [] := fun hnil => UnorderedMap.entries_eq_nil.mp hnil server h

/-- Whose handler waited, waits or was called. -/
theorem waits_answered {server : IpEndpoint} {request : StunRequest} {error : ErrorCode}
    {reflected : IpEndpoint} (hlookup : s.requests.lookup server = some request) {handler : Nat}
    (h : Called s handler ∨ Waits s handler) :
    Called (answered server request error reflected s) handler ∨
      Waits (answered server request error reflected s) handler := by
  rcases h with ⟨x, hx, heq⟩ | ⟨server', request', hlookup', heq⟩
  · exact .inl ⟨x, List.mem_append_left _ hx, heq⟩
  · by_cases hserver : server' = server
    · subst hserver
      cases hlookup.symm.trans hlookup'
      exact .inl ⟨_, List.mem_append_right _ (List.mem_singleton_self _), heq⟩
    · exact .inr ⟨server', request', (AList.lookup_erase_ne hserver).trans hlookup', heq⟩

/-- Where the counter and the receive agree with the requests, no handler waits for nothing. -/
theorem accounts_of {es : List StunEvent} (hcount : s.requestCount = s.requests.entries.length)
    (hreceive : 0 < s.receives ↔ s.requests.entries ≠ [])
    (hserved : ∀ handler ∈ passed es, Called s handler ∨ Waits s handler) : Accounts es s := by
  refine ⟨hcount, hreceive, fun handler hmem => (hserved handler hmem).imp_right fun hwaits => ?_⟩
  obtain ⟨server, request, hlookup, -⟩ := id hwaits
  exact ⟨hwaits, hreceive.mpr (entries_ne_nil (mem_of_lookup hlookup))⟩

theorem Accounts.known {es : List StunEvent} (h : Accounts es s) (handler : Nat)
    (hmem : handler ∈ passed es) : Called s handler ∨ Waits s handler :=
  (h.served handler hmem).imp_right And.left

theorem passed_reflect (es : List StunEvent) (server : IpEndpoint) (handler : Nat)
    (id : RequestId) : passed (es ++ [.reflect server handler id]) = passed es ++ [handler] := by
  simp [passed]

theorem passed_received (es : List StunEvent) (error : ErrorCode) (server : IpEndpoint)
    (size : Nat) (m : Memory) : passed (es ++ [.received error server size m]) = passed es := by
  simp [passed]

theorem Accounts.received {es : List StunEvent} {error : ErrorCode} {server : IpEndpoint}
    {size : Nat} {m : Memory} (h : Accounts es s) :
    Accounts (es ++ [.received error server size m]) s := by
  refine ⟨h.count, h.receive, ?_⟩
  rw [passed_received]
  exact h.served

/-- A new request. -/
theorem accounts_sent {es : List StunEvent} {server : IpEndpoint} {handler : Nat} {id : RequestId}
    (hs : Accounts es s) (hnew : server ∉ s.requests) :
    Accounts (es ++ [.reflect server handler id]) { s with
      requests := s.requests.insert server ⟨id, handler, server⟩
      requestCount := s.requestCount + 1
      receives := if s.requestCount = 0 then s.receives + 1 else s.receives
      sent := s.sent ++ [(server, bindingRequest id)] } := by
  have hentries := AList.entries_insert_of_notMem (b := StunRequest.mk id handler server) hnew
  refine accounts_of ?_ ?_ ?_
  · show s.requestCount + 1 = (s.requests.insert server _).entries.length
    rw [hentries, List.length_cons, hs.count]
  · refine iff_of_true ?_ ?_
    · show 0 < if s.requestCount = 0 then s.receives + 1 else s.receives
      split
      · exact Nat.succ_pos _
      · next h0 =>
          rw [hs.receive]
          intro hnil
          rw [hs.count, hnil] at h0
          exact h0 rfl
    · show (s.requests.insert server _).entries ≠ []
      rw [hentries]
      exact List.cons_ne_nil _ _
  · rw [passed_reflect]
    intro other hmem
    rcases List.mem_append.mp hmem with hmem | hmem
    · rcases hs.known other hmem with hcalled | ⟨server', request, hlookup, heq⟩
      · exact .inl hcalled
      · have hne : server' ≠ server := by
          rintro rfl
          exact hnew (mem_of_lookup hlookup)
        exact .inr ⟨server', request, (AList.lookup_insert_ne hne).trans hlookup, heq⟩
    · cases List.mem_singleton.mp hmem
      exact .inr ⟨server, _, AList.lookup_insert _, rfl⟩

/-- A request answered: one request fewer, and the receive stays pending for the others. -/
theorem accounts_answered {es : List StunEvent} {server : IpEndpoint} {request : StunRequest}
    {error : ErrorCode} {reflected : IpEndpoint} (hs : Accounts es s)
    (hlookup : s.requests.lookup server = some request) :
    Accounts es (countDown (answered server request error reflected { s with receives := 0 })) := by
  have hmem : server ∈ s.requests := mem_of_lookup hlookup
  have hlength := UnorderedMap.length_erase hmem
  have hcount := hs.count
  have hpos : 0 < s.requestCount := by omega
  rw [countDown_eq (show 0 < (answered server request error reflected
    { s with receives := 0 }).requestCount from hpos)]
  refine accounts_of ?_ ?_ ?_
  · show s.requestCount - 1 = (s.requests.erase server).entries.length
    omega
  · show 0 < (if s.requestCount = 1 then 0 else 0 + 1) ↔ (s.requests.erase server).entries ≠ []
    rw [← List.length_pos_iff]
    split <;> omega
  · exact fun handler hmem =>
      waits_answered (s := { s with receives := 0 }) hlookup (hs.known handler hmem)

/-- A datagram keeps the accounts of a client that lives, unless the counter goes down and the entry
stays. -/
theorem received_accounted_iff {es : List StunEvent} {server : IpEndpoint} {size : Nat} {m : Memory}
    (hlive : s.wasDestroyed = false) (hs : Accounts es s) (hpending : 0 < s.receives)
    (h : onRecv .success server size m { s with receives := 0 } = .ok s') :
    Accounted (es ++ [.received .success server size m]) s' ↔
      (server ∈ s.requests → Accepted m size → Addressed m) := by
  have hne : s.requests.entries ≠ [] := hs.receive.mp hpending
  have hpos : 0 < s.requestCount := by
    rw [hs.count]
    exact List.length_pos_iff.mpr hne
  rcases onRecv_cases (s := { s with receives := 0 }) hlive h with ⟨hpassed, rfl⟩ |
    ⟨haddressed, request, error, reflected, hlookup, rfl⟩ | ⟨hmem, haccepted, hnone, rfl⟩
  · refine iff_of_true (fun _ => .received ?_) fun hmem h => absurd h (hpassed hmem)
    exact accounts_of hs.count (iff_of_true Nat.one_pos hne) hs.known
  · exact iff_of_true (fun _ => (accounts_answered hs hlookup).received) fun _ => haddressed
  · refine iff_of_false (fun h' => ?_) fun haddressed => hnone (haddressed hmem haccepted)
    rw [countDown_eq (s := { s with receives := 0 }) hpos] at h'
    have hcount : s.requestCount - 1 = s.requests.entries.length := (h' hlive).count
    have hbefore := hs.count
    omega

/-- **One step** of a client whose accounts are right. -/
theorem step_accounted_iff {es : List StunEvent} {e : StunEvent} (harmed : Armed s)
    (hs : Accounted es s) (h : Step s e s') : Accounted (es ++ [e]) s' ↔ s.Keeps e := by
  cases h with
  | @reflect _ server handler id hlive h =>
      have hs := hs hlive
      rcases reflect_cases h with ⟨pending, hlookup, rfl⟩ | ⟨hnew, rfl⟩
      · -- the entry goes, and the counter stays
        have hmem : server ∈ s.requests := mem_of_lookup hlookup
        refine iff_of_false (fun h' => ?_) (not_not_intro hmem)
        have hcount : s.requestCount = (s.requests.erase server).entries.length :=
          (h' hlive).count
        have hlength := UnorderedMap.length_erase hmem
        have hbefore := hs.count
        omega
      · exact iff_of_true (fun _ => accounts_sent hs hnew) hnew
  | @received _ error server size n m hpending h =>
      have hn : n = 0 := by
        have hle := harmed.receives
        omega
      subst hn
      rcases received_cases h with ⟨hgone, posted, rfl⟩ | ⟨hlive, rfl, h⟩
      · by_cases hdestroyed : s.wasDestroyed = true
        · refine iff_of_true (fun hlive => ?_) (.inl hdestroyed)
          cases hdestroyed.symm.trans hlive
        · -- the entries go, and the counter stays
          refine iff_of_false (fun h' => ?_) ?_
          · have hcount : s.requestCount = 0 := (h' (by simpa using hdestroyed)).count
            have hpos := harmed.count (by omega)
            omega
          · rintro (hdestroyed' | ⟨hsuccess, -⟩)
            · exact hdestroyed hdestroyed'
            · exact hgone.elim hdestroyed fun herror => herror hsuccess
      · refine (received_accounted_iff (s := s) hlive (hs hlive) (by omega) h).trans
          ⟨fun h => .inr ⟨rfl, h⟩, ?_⟩
        rintro (hdestroyed | ⟨-, h⟩)
        · cases hdestroyed.symm.trans hlive
        · exact h
  | destroyed hlive => exact iff_of_true (fun h => by cases h) trivial

/-- **The accounting of a client**: all along a run the counter is the number of requests and a
receive is pending exactly if there is one, in every state of the living client, exactly if no step
asks again for a pending endpoint, no receive fails, and no pending endpoint sends a datagram with
an accepted header in which no address is found. -/
theorem accounting_iff {es : List StunEvent} {s : StunClient} (r : stunClients.Run es s) :
    (∀ p s, p <+: es → stunClients.Run p s → Accounted p s) ↔
      ∀ p s e, p ++ [e] <+: es → stunClients.Run p s → Keeps s e := by
  refine System.Run.always_iff (P := Accounted) (C := fun _ s e => Keeps s e)
    (fun _ _ _ => Run.unique) (fun s (hs : s = .new) _ => ?_)
    (fun p s e s' r hs h => step_accounted_iff (Run.armed r) hs h) r
  subst hs
  exact ⟨rfl, iff_of_false (Nat.lt_irrefl 0) (not_not_intro rfl), nofun⟩

/-- A server. -/
def server : IpEndpoint := .v4 ⟨0x0A000001, 3478⟩

/-- A response with the attribute `XOR-MAPPED-ADDRESS`. -/
def mapped : Memory := fun i =>
  ([0x01, 0x01, 0x00, 0x0C, 0x21, 0x12, 0xA4, 0x42, 0, 0, 0, 0, 0, 0, 0, 0, 0, 0, 0, 0,
    0x00, 0x20, 0x00, 0x08, 0x00, 0x01, 0x21, 0x13, 0x2B, 0x12, 0xA4, 0x40] : Bytes).getD i 0

/-- The client that has asked the server. -/
def asked : StunClient where
  requests := AList.singleton server ⟨.replicate 12 0, 1, server⟩
  wasDestroyed := false
  requestCount := 1
  receives := 1
  sent := [(server, bindingRequest (.replicate 12 0))]
  posted := []

theorem asked_run : stunClients.Run [.reflect server 1 (.replicate 12 0)] asked :=
  .snoc (.start rfl) (Step.reflect rfl rfl)

/-- A request and its response. -/
def exchange : List StunEvent :=
  [.reflect server 1 (.replicate 12 0), .received .success server 32 mapped]

theorem accounting_iff_exchange : ∃ s, stunClients.Run exchange s ∧ Accounted exchange s ∧
    s.posted = [⟨1, .success, .v4 ⟨0x0A000002, 1⟩⟩] := by
  have h : ∃ s, onRecv .success server 32 mapped { asked with receives := 0 } = .ok s ∧
      s.posted = [⟨1, .success, .v4 ⟨0x0A000002, 1⟩⟩] := by
    decide +kernel
  obtain ⟨s, h, hposted⟩ := h
  have r : stunClients.Run exchange s := asked_run.snoc (Step.received rfl h)
  refine ⟨s, r, (accounting_iff r).mpr (fun p s₁ e hp r₁ => ?_) exchange s (List.prefix_refl _) r,
    hposted⟩
  obtain ⟨k, rfl, he⟩ := prefix_snoc hp
  match k, he with
  | 0, he =>
    cases he
    obtain rfl := Run.unique r₁ (.start rfl)
    exact AList.notMem_empty _
  | 1, he =>
    cases he
    exact .inr ⟨rfl, fun _ _ => ⟨0, ⟨by decide +kernel, by decide +kernel, nofun⟩,
      .inl (by decide +kernel)⟩⟩

/-- Asking twice for one endpoint leaves the counter at 1 without a request, and the second handler
is never called. -/
theorem reflect_twice_unaccounted : ∃ es s, stunClients.Run es s ∧ ¬ Accounted es s := by
  have h : ∃ s, reflect server 2 (.replicate 12 0) asked = .ok s ∧ s.wasDestroyed = false ∧
      s.requestCount ≠ s.requests.entries.length := by
    decide +kernel
  obtain ⟨s, h, hlive, hcount⟩ := h
  exact ⟨_, s, asked_run.snoc (Step.reflect rfl h), fun hs => hcount (hs hlive).count⟩

end

end StunClient

end Wga
