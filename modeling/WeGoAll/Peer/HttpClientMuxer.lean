import WeGoAll.Base.Libraries
import WeGoAll.Support.Runs

/-!
# Peer — HttpClientMuxer

The client a peer talks to the lobby with.  It tries HTTPS first and falls back to HTTP where that
fails, until one of the two has worked.

* `httpClient`: the system.  Calls of `request` are made one after another, and the network answers
  each exchange as it likes.
* `Run.faithful`: what the exchanges so far say about the members.
* `no_downgrade`: HTTP is never used once HTTPS has worked.
-/

namespace Wga

/-- What `request` of either client is called with. -/
structure HttpRequest where
  method : Bytes
  path : Bytes
  content : Bytes
  header : List (Bytes × Bytes)
  deriving DecidableEq

/-- What a response is read for; `location` is its header `Location`. -/
structure HttpResponse where
  status_code : Bytes
  location : Option Bytes
  content : Bytes
  deriving DecidableEq

/-- `200 OK`. -/
def STATUS_OK : Bytes := ascii ['2', '0', '0', ' ', 'O', 'K']

/-- `308 Permanent Redirect`. -/
def STATUS_REDIRECT : Bytes := ascii
  ['3', '0', '8', ' ', 'P', 'e', 'r', 'm', 'a', 'n', 'e', 'n', 't', ' ',
   'R', 'e', 'd', 'i', 'r', 'e', 'c', 't']

/-- The members of `HttpClientMuxer`: whether it still has its `secureClient`, and `sslWorks`. -/
structure HttpClientMuxer where
  secureClient : Bool
  sslWorks : Bool
  deriving DecidableEq

/-- The exchange a call of `request` waits for. -/
inductive HttpAttempt where
  /-- Of `secureClient`. -/
  | secure (r : HttpRequest)
  /-- Of `client`, after `secureClient` failed. -/
  | fallback (r : HttpRequest)
  /-- Of `client`, which is all there is. -/
  | plain (r : HttpRequest)
  deriving DecidableEq

namespace HttpAttempt

def request : HttpAttempt → HttpRequest
  | .secure r | .fallback r | .plain r => r

/-- The exchange is over HTTPS. -/
def isSecure : HttpAttempt → Bool
  | .secure _ => true
  | .fallback _ | .plain _ => false

end HttpAttempt

namespace HttpClientMuxer

variable {J : Type} (parse : Bytes → Option J)

/-- The constructor. -/
def new : HttpClientMuxer := ⟨true, false⟩

/-- `request`, up to its first exchange. -/
def request (r : HttpRequest) (self : HttpClientMuxer) : HttpAttempt :=
  if self.secureClient then .secure r else .plain r

/-- How an exchange ends that does not end the process: the client or the parser throws, the
response asks to go on elsewhere, or there is a document. -/
inductive Ended (J : Type) where
  | thrown
  | redirected (newUrl : Bytes)
  | parsed (result : J)

/-- What the body of a `try` makes of the response, if there is one. -/
def ended : Option HttpResponse → Except Fault (Ended J)
  | none => .ok .thrown
  | some response =>
      -- `FATAL_FAIL_HTTP`
      if response.status_code ≠ STATUS_OK ∧ response.status_code ≠ STATUS_REDIRECT then
        .error (.fatal "Error making http request: ")
      else if response.status_code = STATUS_REDIRECT then
        match response.location with
        | none => .error (.thrown "no header Location")
        | some newUrl => .ok (.redirected newUrl)
      else
        match parse response.content with
        | none => .ok .thrown
        | some result => .ok (.parsed result)

/-- `request` after an exchange: its result, or the next exchange. -/
def resume (self : HttpClientMuxer) (attempt : HttpAttempt) (response : Option HttpResponse) :
    Except Fault (HttpClientMuxer × (J ⊕ HttpAttempt)) := do
  let again (newUrl : Bytes) : HttpAttempt :=
    self.request { attempt.request with path := newUrl }
  match attempt, ← ended parse response with
  | .secure _, .parsed result => .ok ({ self with sslWorks := true }, .inl result)
  | .fallback _, .parsed result => .ok ({ self with secureClient := false }, .inl result)
  | .plain _, .parsed result => .ok (self, .inl result)
  | _, .redirected newUrl => .ok (self, .inr (again newUrl))
  | .secure r, .thrown =>
      if self.sslWorks then .error (.fatal "Http Request failed: ")
      -- maybe the server isn't ssl, let's check
      else .ok (self, .inr (.fallback r))
  | _, .thrown => .error (.fatal "Http request error: ")

end HttpClientMuxer

/-! ### Every use of a client -/

/-- An exchange: what was asked, and the response if there was one. -/
structure HttpExchange where
  attempt : HttpAttempt
  response : Option HttpResponse
  deriving DecidableEq

/-- A client, the exchange its caller waits for, and the exchanges so far, oldest first. -/
structure HttpUse where
  muxer : HttpClientMuxer
  waiting : Option HttpAttempt
  exchanges : List HttpExchange
  deriving DecidableEq

inductive HttpEvent where
  | request (r : HttpRequest)
  | answer (response : Option HttpResponse)

section Uses

variable {J : Type} (parse : Bytes → Option J)

/-- The exchange brought a document. -/
def HttpExchange.Worked (x : HttpExchange) : Prop :=
  ∃ response, x.response = some response ∧ response.status_code = STATUS_OK ∧
    (parse response.content).isSome

namespace HttpUse

def step (s : HttpUse) : HttpEvent → Except Fault HttpUse
  | .request r =>
      match s.waiting with
      | some _ => .error (.thrown "no such step")
      | none => .ok { s with waiting := some (s.muxer.request r) }
  | .answer response =>
      match s.waiting with
      | none => .error (.thrown "no such step")
      | some attempt => do
          let (muxer, outcome) ← s.muxer.resume parse attempt response
          .ok ⟨muxer, outcome.getRight?, s.exchanges ++ [⟨attempt, response⟩]⟩

end HttpUse

/-- The runs of a client in which the process survives. -/
def httpClient : System HttpUse HttpEvent :=
  .ofStep (· = ⟨.new, none, []⟩) (HttpUse.step parse)

end Uses

/-! ### What an exchange does -/

section

variable {J : Type} {parse : Bytes → Option J} {m m' : HttpClientMuxer} {attempt : HttpAttempt}
  {response : Option HttpResponse} {outcome : J ⊕ HttpAttempt}

theorem HttpClientMuxer.ended_parsed {result : J}
    (h : HttpClientMuxer.ended parse response = .ok (.parsed result)) :
    (⟨attempt, response⟩ : HttpExchange).Worked parse := by
  cases response with
  | none => cases h
  | some response =>
      simp only [HttpClientMuxer.ended] at h
      split at h
      · cases h
      · rename_i hcode
        split at h
        · split at h <;> cases h
        · rename_i hredirect
          split at h
          · cases h
          · rename_i result' hparse
            exact ⟨response, rfl, not_not.mp fun hne => hcode ⟨hne, hredirect⟩,
              Option.isSome_of_eq_some hparse⟩

theorem HttpClientMuxer.ended_not_parsed {e : HttpClientMuxer.Ended J}
    (h : HttpClientMuxer.ended parse response = .ok e) (he : ∀ result, e ≠ .parsed result) :
    ¬ (⟨attempt, response⟩ : HttpExchange).Worked parse := by
  rintro ⟨response', rfl, hcode, hparse⟩
  have hne : STATUS_OK ≠ STATUS_REDIRECT := by decide
  obtain ⟨result, hresult⟩ := Option.isSome_iff_exists.mp hparse
  simp only [HttpClientMuxer.ended, hcode, ne_eq, not_true, false_and, if_false, if_neg hne,
    hresult] at h
  cases h
  exact he result rfl

/-- **What an exchange does**: it worked and is the last of its call, it goes on elsewhere, or HTTPS
failed and had not worked before. -/
theorem HttpClientMuxer.resume_cases
    (h : HttpClientMuxer.resume parse m attempt response = .ok (m', outcome)) :
    ((⟨attempt, response⟩ : HttpExchange).Worked parse ∧ outcome.getRight? = none ∧
      m'.sslWorks = (m.sslWorks || attempt.isSecure) ∧
      ((∃ r, attempt = .fallback r) ∧ m'.secureClient = false ∨
        (∀ r, attempt ≠ .fallback r) ∧ m'.secureClient = m.secureClient)) ∨
    (¬ (⟨attempt, response⟩ : HttpExchange).Worked parse ∧ m' = m ∧
      ∃ r, outcome = .inr (m.request r)) ∨
    (¬ (⟨attempt, response⟩ : HttpExchange).Worked parse ∧ m' = m ∧ m.sslWorks = false ∧
      ∃ r, attempt = .secure r ∧ outcome = .inr (.fallback r)) := by
  obtain ⟨e, he, h⟩ := bind_ok.mp h
  cases e with
  | parsed result =>
      refine .inl ⟨ended_parsed he, ?_⟩
      cases attempt <;> cases h <;> simp [HttpAttempt.isSecure]
  | redirected newUrl =>
      refine .inr (.inl ⟨ended_not_parsed he nofun, ?_⟩)
      cases attempt <;> cases h <;> exact ⟨rfl, _, rfl⟩
  | thrown =>
      have hfailed : ¬ (⟨attempt, response⟩ : HttpExchange).Worked parse :=
        ended_not_parsed he nofun
      cases attempt with
      | secure r =>
          simp only at h
          split at h
          · cases h
          · rename_i hssl
            cases h
            exact .inr (.inr ⟨hfailed, rfl, Bool.not_eq_true _ ▸ hssl, r, rfl, rfl⟩)
      | fallback r => cases h
      | plain r => cases h

end

/-! ### What the exchanges so far say -/

section Runs

variable {J : Type} {parse : Bytes → Option J} {es : List HttpEvent} {s : HttpUse}

namespace HttpUse

/-- An exchange over HTTPS, or one over HTTP, has worked. -/
def HasWorked (parse : Bytes → Option J) (secure : Bool) (xs : List HttpExchange) : Prop :=
  ∃ x ∈ xs, x.attempt.isSecure = secure ∧ x.Worked parse

/-- The last exchange was the same request over HTTPS, and it did not work. -/
def JustFailed (parse : Bytes → Option J) (r : HttpRequest) (xs : List HttpExchange) : Prop :=
  ∃ before x, xs = before ++ [x] ∧ x.attempt = .secure r ∧ ¬ x.Worked parse

/-- What an exchange may be, given the exchanges before it. -/
def Allowed (parse : Bytes → Option J) (before : List HttpExchange) : HttpAttempt → Prop
  | .secure _ => ¬ HasWorked parse false before
  | .fallback r => ¬ HasWorked parse true before ∧ ¬ HasWorked parse false before ∧
      JustFailed parse r before
  | .plain _ => ¬ HasWorked parse true before ∧ HasWorked parse false before

/-- The members say what has worked, and every exchange was allowed. -/
structure Faithful (parse : Bytes → Option J) (s : HttpUse) : Prop where
  sslWorks : s.muxer.sslWorks = true ↔ HasWorked parse true s.exchanges
  secureClient : s.muxer.secureClient = false ↔ HasWorked parse false s.exchanges
  one : ¬ (HasWorked parse true s.exchanges ∧ HasWorked parse false s.exchanges)
  waiting : ∀ attempt ∈ s.waiting, Allowed parse s.exchanges attempt
  exchanges : ∀ before x after, s.exchanges = before ++ x :: after →
    Allowed parse before x.attempt

theorem hasWorked_append {secure : Bool} {xs : List HttpExchange} {x : HttpExchange} :
    HasWorked parse secure (xs ++ [x]) ↔
      HasWorked parse secure xs ∨ (x.attempt.isSecure = secure ∧ x.Worked parse) := by
  simp [HasWorked, or_and_right, exists_or]

/-- The exchange a call starts with, or goes on with, is allowed. -/
theorem allowed_request {m : HttpClientMuxer} {xs : List HttpExchange} (r : HttpRequest)
    (h : m.secureClient = false ↔ HasWorked parse false xs)
    (hone : ¬ (HasWorked parse true xs ∧ HasWorked parse false xs)) :
    Allowed parse xs (m.request r) := by
  rw [HttpClientMuxer.request]
  split
  · rename_i hsecure
    exact fun hworked => Bool.noConfusion (hsecure.symm.trans (h.mpr hworked))
  · rename_i hsecure
    have hworked := h.mp (Bool.not_eq_true _ ▸ hsecure)
    exact ⟨fun hx => hone ⟨hx, hworked⟩, hworked⟩

/-- What is allowed is of the kind that has worked. -/
theorem Allowed.isSecure {before : List HttpExchange} {a : HttpAttempt} {secure : Bool}
    (h : Allowed parse before a) (hworked : HasWorked parse secure before) :
    a.isSecure = secure := by
  cases a with
  | secure q =>
      cases secure with
      | true => rfl
      | false => exact absurd hworked h
  | fallback q =>
      cases secure with
      | true => exact absurd hworked h.1
      | false => rfl
  | plain q =>
      cases secure with
      | true => exact absurd hworked h.1
      | false => rfl

end HttpUse

open HttpUse

/-- **The members say what has worked**, in every run. -/
theorem Run.faithful (r : (httpClient parse).Run es s) : s.Faithful parse := by
  refine r.invariant ?_ ?_
  · rintro s rfl
    refine ⟨by simp [HttpClientMuxer.new, HasWorked], by simp [HttpClientMuxer.new, HasWorked],
      by simp [HasWorked], nofun, fun before x after h => ?_⟩
    simp at h
  · intro s e s' hs h
    cases e with
    | request q =>
        change HttpUse.step parse s (.request q) = .ok s' at h
        rw [HttpUse.step] at h
        split at h
        · cases h
        · cases h
          refine ⟨hs.sslWorks, hs.secureClient, hs.one, fun attempt ha => ?_, hs.exchanges⟩
          cases ha
          exact allowed_request q hs.secureClient hs.one
    | answer response =>
        change HttpUse.step parse s (.answer response) = .ok s' at h
        rw [HttpUse.step] at h
        split at h
        · cases h
        · rename_i attempt hwaiting
          obtain ⟨⟨m, outcome⟩, hresume, h⟩ := bind_ok.mp h
          cases h
          have hallowed := hs.waiting attempt hwaiting
          have hexchanges : ∀ before x after, s.exchanges ++ [⟨attempt, response⟩] =
              before ++ x :: after → Allowed parse before x.attempt := fun before x after heq => by
            rcases List.eq_nil_or_concat after with rfl | ⟨after, y, rfl⟩
            · obtain ⟨rfl, hx⟩ := List.append_inj' heq rfl
              cases hx
              exact hallowed
            · have hsnoc : s.exchanges ++ [⟨attempt, response⟩] =
                  (before ++ x :: after) ++ [y] := by simpa using heq
              exact hs.exchanges before x after (List.append_inj' hsnoc rfl).1
          rcases HttpClientMuxer.resume_cases hresume with ⟨hworked, hdone, hssl, hclient⟩ |
            ⟨hfailed, rfl, q, rfl⟩ | ⟨hfailed, rfl, hssl, q, rfl, rfl⟩
          · refine ⟨?_, ?_, ?_, fun a ha => ?_, hexchanges⟩
            · rw [hasWorked_append, ← hs.sslWorks, hssl, Bool.or_eq_true]
              simp [hworked]
            · rw [hasWorked_append, ← hs.secureClient]
              rcases hclient with ⟨⟨q, rfl⟩, hclient⟩ | ⟨hne, hclient⟩
              · simp [hclient, hworked, HttpAttempt.isSecure]
              · rw [hclient]
                refine (or_iff_left_of_imp fun hx => ?_).symm
                cases attempt with
                | secure q => exact Bool.noConfusion hx.1
                | fallback q => exact absurd rfl (hne q)
                | plain q => exact hs.secureClient.mpr hallowed.2
            · rw [hasWorked_append, hasWorked_append]
              rintro ⟨htrue | ⟨htrue, -⟩, hfalse | ⟨hfalse, -⟩⟩
              · exact hs.one ⟨htrue, hfalse⟩
              · exact Bool.noConfusion (hfalse.symm.trans (hallowed.isSecure htrue))
              · exact Bool.noConfusion (htrue.symm.trans (hallowed.isSecure hfalse))
              · exact Bool.noConfusion (htrue.symm.trans hfalse)
            · rw [hdone] at ha
              cases ha
          · have hworked : ∀ b, HasWorked parse b (s.exchanges ++ [⟨attempt, response⟩]) ↔
                HasWorked parse b s.exchanges := fun b =>
              hasWorked_append.trans (or_iff_left fun hx => hfailed hx.2)
            have hclient := hs.secureClient.trans (hworked false).symm
            have hone : ¬ (HasWorked parse true (s.exchanges ++ [⟨attempt, response⟩]) ∧
                HasWorked parse false (s.exchanges ++ [⟨attempt, response⟩])) := by
              rw [hworked, hworked]
              exact hs.one
            refine ⟨hs.sslWorks.trans (hworked true).symm, hclient, hone, fun a ha => ?_,
              hexchanges⟩
            cases ha
            exact allowed_request q hclient hone
          · have hworked : ∀ b, HasWorked parse b (s.exchanges ++ [⟨.secure q, response⟩]) ↔
                HasWorked parse b s.exchanges := fun b =>
              hasWorked_append.trans (or_iff_left fun hx => hfailed hx.2)
            refine ⟨hs.sslWorks.trans (hworked true).symm, hs.secureClient.trans
              (hworked false).symm, ?_, fun a ha => ?_, hexchanges⟩
            · rw [hworked, hworked]
              exact hs.one
            cases ha
            refine ⟨fun hx => ?_, fun hx => hallowed ((hworked false).mp hx), s.exchanges, _, rfl,
              rfl, hfailed⟩
            exact Bool.noConfusion (hssl.symm.trans (hs.sslWorks.mpr ((hworked true).mp hx)))

/-- **No downgrade.**  In every run of calls of `request`, whatever the network answers: once an
exchange over HTTPS has worked all later ones are over HTTPS, and once one over HTTP has worked all
later ones are over HTTP.  An exchange over HTTP before any has worked is that of a request that
has just failed over HTTPS. -/
theorem no_downgrade (r : (httpClient parse).Run es s) {before after : List HttpExchange}
    {x : HttpExchange} (hx : s.exchanges = before ++ x :: after) :
    (x.Worked parse → ∀ y ∈ after, y.attempt.isSecure = x.attempt.isSecure) ∧
    (x.attempt.isSecure = false → (∀ y ∈ before, ¬ y.Worked parse) →
      ∃ front y, before = front ++ [y] ∧ y.attempt = .secure x.attempt.request) := by
  have hs := Run.faithful r
  refine ⟨fun hworked y hy => ?_, fun hplain hnone => ?_⟩
  · obtain ⟨mid, rest, rfl⟩ := List.append_of_mem hy
    have hallowed := hs.exchanges (before ++ x :: mid) y rest (by rw [hx]; simp)
    exact hallowed.isSecure ⟨x, by simp, rfl, hworked⟩
  · have hallowed := hs.exchanges before x after hx
    have hnot : ¬ HasWorked parse false before := fun ⟨y, hy, _, hworked⟩ => hnone y hy hworked
    revert hplain hallowed
    cases x.attempt with
    | secure q => exact nofun
    | fallback q =>
        rintro - ⟨-, -, front, y, hfront, hy, -⟩
        exact ⟨front, y, hfront, hy⟩
    | plain q => exact fun _ h => absurd h.2 hnot

/-- Two calls to a lobby that does not speak HTTPS. -/
def plainLobby : List HttpEvent :=
  [.request ⟨[], [], [], []⟩, .answer none, .answer (some ⟨STATUS_OK, none, []⟩),
    .request ⟨[], [], [], []⟩, .answer (some ⟨STATUS_OK, none, []⟩)]

theorem plainLobby_ends :
    ∃ s, plainLobby.foldlM (HttpUse.step some) ⟨.new, none, []⟩ = .ok s ∧
      s.exchanges = [⟨.secure ⟨[], [], [], []⟩, none⟩] ++
        ⟨.fallback ⟨[], [], [], []⟩, some ⟨STATUS_OK, none, []⟩⟩ ::
          [⟨.plain ⟨[], [], [], []⟩, some ⟨STATUS_OK, none, []⟩⟩] := by
  decide +kernel

/-- The second call stays with HTTP, and the first one tried HTTPS before. -/
theorem no_downgrade_plain : ∃ s, (httpClient some).Run plainLobby s ∧
    (∀ y ∈ s.exchanges.drop 2, y.attempt.isSecure = false) ∧
    ∃ front y, s.exchanges.take 1 = front ++ [y] ∧ y.attempt = .secure ⟨[], [], [], []⟩ := by
  obtain ⟨s, hs, hx⟩ := plainLobby_ends
  have r : (httpClient some).Run plainLobby s := System.run_from.mpr hs
  obtain ⟨hlater, hbefore⟩ := no_downgrade r hx
  refine ⟨s, r, ?_, ?_⟩
  · rw [hx]
    exact hlater ⟨⟨STATUS_OK, none, []⟩, rfl, rfl, rfl⟩
  · rw [hx]
    refine hbefore rfl fun y hy => ?_
    rw [List.mem_singleton.mp hy]
    rintro ⟨response, hnone, -⟩
    cases hnone

end Runs

end Wga
