import Mathlib.Data.Int.ConditionallyCompleteOrder
import Mathlib.Order.ConditionallyCompleteLattice.Basic
import WeGoAll.Endpoints.Failover

/-!
# Endpoints — Silence

When a handler abandons its active endpoint.  `lastUnrepliedSendTime` is 0 while no message is
unreplied, and `lastUnrepliedSendOrKillTime` is the time from which five seconds are counted.

* `updateCall`, `killCall`: the states in which an event calls `update` and `killEndpoint`.
* `update_changes_iff`: `update` changes the handler exactly where it abandons the active endpoint.
* `Since`: the five seconds are counted from a given time or a later one.
* `failover_on_silence`: an endpoint is abandoned only after five seconds in which no reply was
  handled and no other endpoint was tried.
-/

namespace Wga

open Handler MultiEndpointHandler

variable {κ : Type}

namespace MultiEndpointHandler

/-! ### Calls inside an event -/

/-- The state in which `send` calls `update`, if it does. -/
def updateOfSend (self : Self (Handler κ)) : Option (Self (Handler κ)) :=
  let self := noteUnrepliedSend self
  let (now, self) := self.time
  if now ≠ self.sub.lastUpdateTime then
    let (now, self) := self.time
    some { self with sub.lastUpdateTime := now }
  else none

/-- `send`, by its call of `update`. -/
theorem send_eq (message : Bytes) (self : Self (Handler κ)) : send message self =
    ((match updateOfSend self with
      | some self => update self
      | none => .ok (noteUnrepliedSend self).time.2) >>= fun self =>
    .ok (noteUnrepliedSend (UdpBiDirectionalRpc.send message self))) := by
  unfold send updateOfSend
  dsimp only
  split_ifs <;> rfl

/-- The state in which an event calls `update`, if it does. -/
def updateCall (s : Self (Handler κ)) : FailoverEvent κ → Option (Self (Handler κ))
  | .update => some s
  | .send _ => updateOfSend s
  | _ => none

/-- `update` abandons the active endpoint; the time it reads is `s.env.time 0`. -/
def Abandons (s : Self (Handler κ)) : Prop :=
  s.sub.lastUnrepliedSendTime ≠ 0 ∧ s.sub.lastUnrepliedSendOrKillTime + 5 < s.env.time 0

instance (s : Self (Handler κ)) : Decidable (Abandons s) := inferInstanceAs (Decidable (_ ∧ _))

/-- **`update`** fails over exactly when it abandons the active endpoint, and changes nothing
else. -/
theorem update_eq (s : Self (Handler κ)) : update s =
    if Abandons s then killEndpoint s.time.2
    else .ok (if s.sub.lastUnrepliedSendTime = 0 then s else s.time.2) := by
  unfold update Abandons
  dsimp only [Self.time]
  split_ifs <;> simp_all

/-- **`update` changes the handler** exactly where it abandons the active endpoint: the failover is
stamped. -/
theorem update_changes_iff {s : Self (Handler κ)} (hclock : Monotone s.env.time) :
    (∃ s', update s = .ok s' ∧ s'.sub ≠ s.sub) ↔ Abandons s := by
  rw [update_eq]
  constructor
  · rintro ⟨s', h, hne⟩
    by_contra ha
    rw [if_neg ha] at h
    cases h
    split_ifs at hne <;> exact hne rfl
  · intro ha
    rw [if_pos ha]
    obtain ⟨s', h⟩ := killEndpoint_ends s.time.2
    refine ⟨s', h, fun heq => ?_⟩
    obtain ⟨x, _, _, -, rfl⟩ := killEndpoint_cases h
    have hstamp : s.env.time 1 = s.sub.lastUnrepliedSendOrKillTime :=
      congrArg Handler.lastUnrepliedSendOrKillTime heq
    have hlater : s.env.time 0 ≤ s.env.time 1 := hclock (Nat.zero_le 1)
    have hpast := ha.2
    omega

/-- The state in which an event calls `killEndpoint`, if it does. -/
def killCall (s : Self (Handler κ)) : FailoverEvent κ → Option (Self (Handler κ))
  | .killEndpoint => some s
  | .banEndpoint e => if s.sub.activeEndpoint = e then some (withBanned e s) else none
  | ev => (updateCall s ev).bind fun u => if Abandons u then some u.time.2 else none

/-! ### The time that is counted from -/

/-- The clock does not go back, it is past `t`, and the five seconds are not counted from any time
before `t`. -/
structure Since (t : Int) (s : Self (Handler κ)) : Prop where
  clock : Monotone s.env.time
  past : t ≤ s.env.time 0
  counted : s.sub.lastUnrepliedSendTime ≠ 0 → t ≤ s.sub.lastUnrepliedSendOrKillTime

/-- Some readings of the clock later, with the same stamps. -/
theorem Since.later {t : Int} {s s' : Self (Handler κ)} (h : Since t s) {n : Nat}
    (hclock : s'.env.time = fun k => s.env.time (k + n))
    (h₁ : s'.sub.lastUnrepliedSendTime = s.sub.lastUnrepliedSendTime)
    (h₂ : s'.sub.lastUnrepliedSendOrKillTime = s.sub.lastUnrepliedSendOrKillTime) :
    Since t s' where
  clock i j hij := by
    rw [hclock]
    exact h.clock (Nat.add_le_add_right hij n)
  past := by
    rw [hclock]
    exact h.past.trans (h.clock (Nat.zero_le _))
  counted := by
    rw [h₁, h₂]
    exact h.counted

theorem Since.time {t : Int} {s : Self (Handler κ)} (h : Since t s) : Since t s.time.2 :=
  h.later (n := 1) rfl rfl rfl

theorem Since.noteUnrepliedSend {t : Int} {s : Self (Handler κ)} (h : Since t s) :
    Since t (noteUnrepliedSend s) := by
  unfold MultiEndpointHandler.noteUnrepliedSend
  split
  · exact ⟨h.time.clock, h.time.past, fun _ => h.past⟩
  · exact h

theorem Since.udpSend {t : Int} {s : Self (Handler κ)} (h : Since t s) (m : Bytes) :
    Since t (UdpBiDirectionalRpc.send m s) := by
  unfold UdpBiDirectionalRpc.send
  dsimp only
  split_ifs
  all_goals first
    | exact h.later (n := 1) rfl rfl rfl
    | exact h.later (n := 2) rfl rfl rfl

/-- **After a failover** the time is counted from it. -/
theorem since_killEndpoint {s s' : Self (Handler κ)} (hc : Monotone s.env.time)
    (h : killEndpoint s = .ok s') : Since (s.env.time 0) s' := by
  obtain ⟨x, _, _, -, rfl⟩ := killEndpoint_cases h
  exact ⟨fun i j hij => hc (Nat.add_le_add_right hij 1), hc (Nat.zero_le 1), fun _ => le_rfl⟩

theorem Since.killEndpoint {t : Int} {s s' : Self (Handler κ)} (h : Since t s)
    (hk : killEndpoint s = .ok s') : Since t s' := by
  have hs := since_killEndpoint h.clock hk
  exact ⟨hs.clock, h.past.trans hs.past, fun hne => h.past.trans (hs.counted hne)⟩

theorem Since.update {t : Int} {s s' : Self (Handler κ)} (h : Since t s)
    (hu : update s = .ok s') : Since t s' := by
  rw [update_eq] at hu
  split at hu
  · exact h.time.killEndpoint hu
  · cases hu
    split
    · exact h
    · exact h.time

theorem Since.updateOfSend {t : Int} {s u : Self (Handler κ)} (h : Since t s)
    (hu : updateOfSend s = some u) : Since t u := by
  unfold MultiEndpointHandler.updateOfSend at hu
  dsimp only at hu
  split at hu
  · cases hu
    exact h.noteUnrepliedSend.later (n := 2) rfl rfl rfl
  · cases hu

theorem Since.send {t : Int} {s s' : Self (Handler κ)} (h : Since t s) {m : Bytes}
    (hs : send m s = .ok s') : Since t s' := by
  rw [send_eq] at hs
  obtain ⟨s₁, h₁, hs⟩ := bind_ok.mp hs
  cases hs
  refine (Since.udpSend ?_ m).noteUnrepliedSend
  split at h₁
  · rename_i u hu
    exact (h.updateOfSend hu).update h₁
  · cases h₁
    exact h.noteUnrepliedSend.time

theorem Since.banEndpoint {t : Int} {s s' : Self (Handler κ)} (h : Since t s) {e : Endpoint}
    (hb : banEndpoint e s = .ok s') : Since t s' := by
  obtain ⟨s₁, hkill, rfl⟩ := banEndpoint_cases hb
  have hban : Since t (withBanned e s) := h.later (n := 0) rfl rfl rfl
  rcases hkill with ⟨-, hkill⟩ | ⟨-, rfl⟩
  · exact (hban.killEndpoint hkill).later (n := 0) rfl rfl rfl
  · exact hban.later (n := 0) rfl rfl rfl

/-- The stamps an endpoint is added under are kept. -/
theorem addEndpoint_stamps (e : Endpoint) (h : Handler κ) :
    (addEndpoint e h).lastUnrepliedSendTime = h.lastUnrepliedSendTime ∧
      (addEndpoint e h).lastUnrepliedSendOrKillTime = h.lastUnrepliedSendOrKillTime := by
  unfold addEndpoint
  split_ifs <;> exact ⟨rfl, rfl⟩

theorem addEndpoints_stamps (es : List Endpoint) (h : Handler κ) :
    (addEndpoints es h).lastUnrepliedSendTime = h.lastUnrepliedSendTime ∧
      (addEndpoints es h).lastUnrepliedSendOrKillTime = h.lastUnrepliedSendOrKillTime := by
  induction es generalizing h with
  | nil => exact ⟨rfl, rfl⟩
  | cons e es ih =>
      obtain ⟨h₁, h₂⟩ := ih (addEndpoint e h)
      exact ⟨h₁.trans (addEndpoint_stamps e h).1, h₂.trans (addEndpoint_stamps e h).2⟩

theorem resurrect_stamps (e : Endpoint) (h : Handler κ) :
    (hasEndpointAndResurrectIfFound e h).2.lastUnrepliedSendTime = h.lastUnrepliedSendTime ∧
      (hasEndpointAndResurrectIfFound e h).2.lastUnrepliedSendOrKillTime =
        h.lastUnrepliedSendOrKillTime := by
  unfold hasEndpointAndResurrectIfFound
  split_ifs <;> exact ⟨rfl, rfl⟩

/-- **No event moves the time that is counted from back.** -/
theorem Since.step {t : Int} {s s' : Self (Handler κ)} (h : Since t s) {ev : FailoverEvent κ}
    (hs : step s ev = .ok s') : Since t s' := by
  cases ev with
  | addEndpoint e =>
      cases hs
      exact h.later (n := 0) rfl (addEndpoint_stamps e s.sub).1 (addEndpoint_stamps e s.sub).2
  | addEndpoints es =>
      cases hs
      exact h.later (n := 0) rfl (addEndpoints_stamps es s.sub).1 (addEndpoints_stamps es s.sub).2
  | banEndpoint e => exact h.banEndpoint hs
  | hasEndpointAndResurrectIfFound e =>
      cases hs
      exact h.later (n := 0) rfl (resurrect_stamps e s.sub).1 (resurrect_stamps e s.sub).2
  | update => exact h.update hs
  | killEndpoint => exact h.killEndpoint hs
  | send message => exact h.send hs
  | handleReply =>
      cases hs
      exact ⟨h.clock, h.past, fun hne => absurd rfl hne⟩
  | elsewhere rpc env derived =>
      cases hs
      exact h.later (n := 0) rfl rfl rfl

/-- **After an event that failed over** the time is counted from the failover. -/
theorem since_killCall {t : Int} {s s' c : Self (Handler κ)} (hs : Since t s)
    {ev : FailoverEvent κ} (hk : killCall s ev = some c) (h : step s ev = .ok s') :
    Since (c.env.time 0) s' := by
  -- the update of `u` that abandons its endpoint fails over at the next reading
  have abandoned : ∀ {u s₁ : Self (Handler κ)}, Since t u → Abandons u → update u = .ok s₁ →
      Since (u.time.2.env.time 0) s₁ := fun hu ha h₁ => by
    rw [update_eq, if_pos ha] at h₁
    exact since_killEndpoint hu.time.clock h₁
  cases ev with
  | killEndpoint =>
      cases hk
      exact since_killEndpoint hs.clock h
  | banEndpoint e =>
      obtain ⟨s₁, ⟨hact, hkill⟩ | ⟨hact, -⟩, rfl⟩ := banEndpoint_cases h
      · rw [killCall, if_pos hact] at hk
        cases hk
        exact (since_killEndpoint (s := withBanned e s) hs.clock hkill).later (n := 0) rfl rfl rfl
      · rw [killCall, if_neg hact] at hk
        cases hk
  | update =>
      simp only [killCall, updateCall, Option.bind_some] at hk
      split_ifs at hk with ha
      cases hk
      exact abandoned hs ha h
  | send m =>
      obtain ⟨u, hu, hk⟩ := Option.bind_eq_some_iff.mp hk
      split_ifs at hk with ha
      cases hk
      have h' : send m s = .ok s' := h
      rw [send_eq, show updateOfSend s = some u from hu] at h'
      obtain ⟨s₁, h₁, h'⟩ := bind_ok.mp h'
      cases h'
      exact ((abandoned (hs.updateOfSend hu) ha h₁).udpSend m).noteUnrepliedSend
  | _ => cases hk

/-! ### Which event the unreplied message was sent in -/

/-- **Only a send** makes a message unreplied. -/
theorem step_unreplied {s s' : Self (Handler κ)} {ev : FailoverEvent κ} (h : step s ev = .ok s') :
    (∃ m, ev = .send m) ∨ ev = .handleReply ∧ s'.sub.lastUnrepliedSendTime = 0 ∨
      ev ≠ .handleReply ∧ s'.sub.lastUnrepliedSendTime = s.sub.lastUnrepliedSendTime := by
  have kill : ∀ {s s' : Self (Handler κ)}, killEndpoint s = .ok s' →
      s'.sub.lastUnrepliedSendTime = s.sub.lastUnrepliedSendTime := fun h => by
    obtain ⟨x, _, _, -, rfl⟩ := killEndpoint_cases h
    rfl
  cases ev with
  | send m => exact .inl ⟨m, rfl⟩
  | handleReply =>
      cases h
      exact .inr (.inl ⟨rfl, rfl⟩)
  | addEndpoint e =>
      cases h
      exact .inr (.inr ⟨nofun, (addEndpoint_stamps e s.sub).1⟩)
  | addEndpoints es =>
      cases h
      exact .inr (.inr ⟨nofun, (addEndpoints_stamps es s.sub).1⟩)
  | hasEndpointAndResurrectIfFound e =>
      cases h
      exact .inr (.inr ⟨nofun, (resurrect_stamps e s.sub).1⟩)
  | elsewhere rpc env derived =>
      cases h
      exact .inr (.inr ⟨nofun, rfl⟩)
  | killEndpoint => exact .inr (.inr ⟨nofun, kill h⟩)
  | update =>
      have h' : update s = .ok s' := h
      rw [update_eq] at h'
      refine .inr (.inr ⟨nofun, ?_⟩)
      split_ifs at h'
      · exact (kill h' :)
      · cases h'
        rfl
      · cases h'
        rfl
  | banEndpoint e =>
      obtain ⟨s₁, hkill, rfl⟩ := banEndpoint_cases h
      refine .inr (.inr ⟨nofun, ?_⟩)
      rcases hkill with ⟨-, hkill⟩ | ⟨-, rfl⟩
      · exact (kill hkill :)
      · rfl

end MultiEndpointHandler

/-! ### Runs -/

/-- `p` leads to a state in which the send of `m` is the first event after `p`, and no reply is
handled after it. -/
structure SentIn (s₀ : Self (Handler κ)) (es p q : List (FailoverEvent κ)) (m : Bytes)
    (s : Self (Handler κ)) : Prop where
  split : es = p ++ .send m :: q
  run : (failover s₀).Run p s
  unreplied : .handleReply ∉ q

/-- While a message is unreplied, the time is counted from its send or later. -/
def CountedFromSend (s₀ : Self (Handler κ)) (es : List (FailoverEvent κ)) (s : Self (Handler κ)) :
    Prop :=
  s.sub.lastUnrepliedSendTime ≠ 0 → ∃ p q m s₁, SentIn s₀ es p q m s₁ ∧ Since (s₁.env.time 0) s

/-- A state with no unreplied message counts from no time. -/
theorem since_now {t : Int} {s : Self (Handler κ)} (h : Since t s)
    (hz : s.sub.lastUnrepliedSendTime = 0) : Since (s.env.time 0) s :=
  ⟨h.clock, le_rfl, fun hne => absurd hz hne⟩

/-- At an event that may send, the time is counted from that event or from an earlier send. -/
theorem sentIn_send {s₀ s : Self (Handler κ)} {es : List (FailoverEvent κ)}
    (hr : (failover s₀).Run es s) {t : Int} (hs : Since t s) (hI : CountedFromSend s₀ es s)
    (m : Bytes) : ∃ p q m' s₁, SentIn s₀ (es ++ [.send m]) p q m' s₁ ∧ Since (s₁.env.time 0) s := by
  by_cases hz : s.sub.lastUnrepliedSendTime = 0
  · exact ⟨es, [], m, s, ⟨rfl, hr, List.not_mem_nil⟩, since_now hs hz⟩
  · obtain ⟨p, q, m', s₁, hsent, hs₁⟩ := hI hz
    refine ⟨p, q ++ [.send m], m', s₁, ⟨?_, hsent.run, ?_⟩, hs₁⟩
    · rw [hsent.split, List.append_assoc, List.cons_append]
    · simpa using hsent.unreplied

theorem countedFromSend_step {s₀ s s' : Self (Handler κ)} {es : List (FailoverEvent κ)}
    (hr : (failover s₀).Run es s) {t : Int} (hs : Since t s) (hI : CountedFromSend s₀ es s)
    {ev : FailoverEvent κ} (h : MultiEndpointHandler.step s ev = .ok s') :
    CountedFromSend s₀ (es ++ [ev]) s' := by
  intro hne
  rcases step_unreplied h with ⟨m, rfl⟩ | ⟨-, hz⟩ | ⟨hev, hsame⟩
  · obtain ⟨p, q, m', s₁, hsent, hs₁⟩ := sentIn_send hr hs hI m
    exact ⟨p, q, m', s₁, hsent, hs₁.step h⟩
  · exact absurd hz hne
  · rw [hsame] at hne
    obtain ⟨p, q, m, s₁, hsent, hs₁⟩ := hI hne
    refine ⟨p, q ++ [ev], m, s₁, ⟨?_, hsent.run, ?_⟩, hs₁.step h⟩
    · rw [hsent.split, List.append_assoc, List.cons_append]
    · simpa using ⟨hsent.unreplied, Ne.symm hev⟩

/-- The clock of every state of a run has not gone back. -/
theorem since_of_run {s₀ s s₁ : Self (Handler κ)} {t : Int} {p : List (FailoverEvent κ)}
    (h₁ : (failover s₀).Run p s₁) (hs₁ : Since t s₁) {q : List (FailoverEvent κ)}
    (hr : (failover s₀).Run (p ++ q) s) : Since t s := by
  induction q using List.reverseRecOn generalizing s with
  | nil =>
      rw [List.append_nil] at hr
      rw [System.run_from_unique hr h₁]
      exact hs₁
  | append_singleton q ev ih =>
      rw [← List.append_assoc] at hr
      obtain ⟨s', hr', h⟩ := hr.snoc_inv
      exact (ih hr').step h

/-- Made by the constructor, a handler has no unreplied message. -/
theorem since_new {endpoints : List Endpoint} {now : Int} {derived : κ} {s₀ : Self (Handler κ)}
    (h₀ : new endpoints now derived = .ok s₀.sub) (hclock : Monotone s₀.env.time) :
    Since (s₀.env.time 0) s₀ ∧ s₀.sub.lastUnrepliedSendTime = 0 := by
  have hz : s₀.sub.lastUnrepliedSendTime = 0 := by
    unfold MultiEndpointHandler.new at h₀
    split at h₀
    · cases h₀
    · rw [← Except.ok.inj h₀]
  exact ⟨⟨hclock, le_rfl, fun hne => absurd hz hne⟩, hz⟩

/-- **Failover happens only on real silence.**  When a call of `update` in the event `ev` changes
the handler, which it does by abandoning the active endpoint, at the time it reads, some message was
sent more than five seconds before and no reply has been handled since, every reply handled was
handled more than five seconds before, and every failover happened more than five seconds before.  A
message is sent where `send` is called, also one that the limit on the bytes then drops. -/
theorem failover_on_silence {endpoints : List Endpoint} {now : Int} {derived : κ}
    {s₀ s u u' : Self (Handler κ)} (h₀ : new endpoints now derived = .ok s₀.sub)
    (hclock : Monotone s₀.env.time) {es : List (FailoverEvent κ)} (hr : (failover s₀).Run es s)
    {ev : FailoverEvent κ} (hu : updateCall s ev = some u) (h : update u = .ok u')
    (hchanged : u'.sub ≠ u.sub) :
    (∃ p m q s₁, es ++ [ev] = p ++ .send m :: q ∧ (failover s₀).Run p s₁ ∧
      s₁.env.time 0 < u.env.time 0 - 5 ∧ .handleReply ∉ q) ∧
    (∀ p q s₁, es = p ++ .handleReply :: q → (failover s₀).Run (p ++ [.handleReply]) s₁ →
      s₁.env.time 0 < u.env.time 0 - 5) ∧
    ∀ p k q s₁ c, es = p ++ k :: q → (failover s₀).Run p s₁ → killCall s₁ k = some c →
      c.env.time 0 < u.env.time 0 - 5 := by
  have hcalled : ∀ {t : Int}, Since t s → Since t u := fun hs => by
    cases ev with
    | update =>
        cases hu
        exact hs
    | send m => exact hs.updateOfSend hu
    | _ => cases hu
  obtain ⟨hs₀, hz₀⟩ := since_new h₀ hclock
  have hs : Since (s₀.env.time 0) s := since_of_run (p := []) (.start rfl) hs₀ hr
  obtain ⟨hne, hpast⟩ := (update_changes_iff (hcalled hs).clock).mp ⟨u', h, hchanged⟩
  have before : ∀ {t : Int}, Since t s → t < u.env.time 0 - 5 := fun hs => by
    have := (hcalled hs).counted hne
    omega
  have hcounted : CountedFromSend s₀ es s := by
    refine hr.invariant_history (I := CountedFromSend s₀) (fun s hs hne => ?_)
      (fun es s ev s' hr hI h => ?_)
    · rw [show s = s₀ from hs] at hne
      exact absurd hz₀ hne
    · exact countedFromSend_step hr (since_of_run (p := []) (.start rfl) hs₀ hr) hI h
  refine ⟨?_, fun p q s₁ hsplit h₁ => ?_, fun p k q s₁ c hsplit h₁ hk => ?_⟩
  · cases ev with
    | update =>
        cases hu
        obtain ⟨p, q, m, s₁, hsent, hs₁⟩ := hcounted hne
        refine ⟨p, m, q ++ [.update], s₁, ?_, hsent.run, before hs₁, ?_⟩
        · rw [hsent.split, List.append_assoc, List.cons_append]
        · simpa using hsent.unreplied
    | send m =>
        obtain ⟨p, q, m', s₁, hsent, hs₁⟩ := sentIn_send hr hs hcounted m
        exact ⟨p, m', q, s₁, hsent.split, hsent.run, before hs₁, hsent.unreplied⟩
    | _ => cases hu
  · rw [hsplit, List.append_cons] at hr
    obtain ⟨s₂, h₂, hreply⟩ := h₁.snoc_inv
    have hs₂ := (since_of_run (p := []) (.start rfl) hs₀ h₂).step hreply
    refine before (since_of_run h₁ (since_now hs₂ ?_) hr)
    cases hreply
    rfl
  · rw [hsplit, List.append_cons] at hr
    obtain ⟨s₂, h₂⟩ := hr.of_isPrefix (List.prefix_append _ _)
    obtain ⟨s₃, h₃, hstep⟩ := h₂.snoc_inv
    obtain rfl := System.run_from_unique h₁ h₃
    have hs₁ := since_of_run (p := []) (.start rfl) hs₀ h₁
    exact before (since_of_run h₂ (since_killCall hs₁ hk hstep) hr)

/-- Two sends of `twoEndpoints`, a reply between them. -/
def replied : List (FailoverEvent Unit) := [.send [], .handleReply, .send []]

theorem replied_abandons : ∃ s, replied.foldlM MultiEndpointHandler.step twoEndpoints = .ok s ∧
    Abandons s := by
  decide +kernel

/-- The next `update` after that run abandons the active endpoint. -/
theorem failover_on_silence_replied : ∃ s s', (failover twoEndpoints).Run replied s ∧
    update s = .ok s' ∧ s'.sub ≠ s.sub ∧
    (∃ p m q s₁, replied ++ [.update] = p ++ .send m :: q ∧ (failover twoEndpoints).Run p s₁ ∧
      s₁.env.time 0 < s.env.time 0 - 5 ∧ .handleReply ∉ q) ∧
    (∀ p q s₁, replied = p ++ .handleReply :: q →
      (failover twoEndpoints).Run (p ++ [.handleReply]) s₁ →
      s₁.env.time 0 < s.env.time 0 - 5) ∧
    ∀ p k q s₁ c, replied = p ++ k :: q → (failover twoEndpoints).Run p s₁ →
      killCall s₁ k = some c → c.env.time 0 < s.env.time 0 - 5 := by
  obtain ⟨s, h, ha⟩ := replied_abandons
  have hr := System.run_from.mpr h
  have hclock : Monotone twoEndpoints.env.time := fun i j hij => by
    simp only [twoEndpoints]
    omega
  have hs := since_of_run (p := []) (.start rfl) (since_new twoEndpoints_new hclock).1 hr
  obtain ⟨s', h', hne⟩ := (update_changes_iff hs.clock).mpr ha
  have hu : updateCall s .update = some s := rfl
  exact ⟨s, s', hr, h', hne, failover_on_silence twoEndpoints_new hclock hr hu h' hne⟩

end Wga
