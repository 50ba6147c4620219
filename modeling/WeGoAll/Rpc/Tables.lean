import WeGoAll.Rpc.Moves

/-!
# Rpc — Tables

What the tables of an endpoint have to do with each other, in every phase, whatever messages arrive
and whatever a derived class does.

* `Rpc.Consistent`: the barrier order, which holds except while delayed requests are going out, and
  the time stamps the clock keeps.
* `Move.consistent`: every move keeps it.
-/

namespace Wga

namespace Rpc

/-- The tables of an endpoint fit together. -/
structure Consistent (ph : Phase) (r : Rpc) : Prop where
  same : ∀ a ∈ r.outgoingRequests, ∀ b ∈ r.outgoingRequests, a.barrier = b.barrier
  le_delayed : ∀ a ∈ r.outgoingRequests, ∀ d ∈ r.delayedRequests, a.barrier ≤ d.barrier
  outgoing_le : ∀ a ∈ r.outgoingRequests, a.barrier ≤ r.onBarrier
  delayed_le : ∀ d ∈ r.delayedRequests, d.barrier ≤ r.onBarrier
  ordered : (∀ id, ph ≠ .completing id) → r.BarrierOrdered
  issuing : ∀ id p, ph = .issuing id p →
    id.barrier = r.onBarrier ∨ r.outgoingRequests.entries = [] ∧ id.barrier ≤ r.onBarrier
  nonneg : 0 ≤ r.onBarrier
  apart : ∀ id, ph = .completing id ∨ ph = .settled id →
    id ∉ r.outgoingRequests ∧ id ∉ r.delayedRequests
  sendTime : ∀ id, id ∈ r.clock.requestSendTimeMap ↔
    id ∈ r.outgoingRequests ∨ ph = .completing id ∨ ph = .settled id
  receiveTime : ∀ id, id ∈ r.clock.requestReceiveTimeMap ↔
    id ∈ r.incomingRequests ∨ id ∈ r.outgoingReplies
  disjoint : ∀ id ∈ r.incomingRequests, id ∉ r.outgoingReplies

/-- A new endpoint. -/
theorem consistent_new (flaky : Bool) : (BiDirectionalRpc.new flaky).Consistent .idle where
  same := by simp [BiDirectionalRpc.new]
  le_delayed := by simp [BiDirectionalRpc.new]
  outgoing_le := by simp [BiDirectionalRpc.new]
  delayed_le := by simp [BiDirectionalRpc.new]
  ordered := fun _ => ⟨by simp [BiDirectionalRpc.new], by simp [BiDirectionalRpc.new],
    by simp [BiDirectionalRpc.new], by simp [BiDirectionalRpc.new], fun _ => rfl⟩
  issuing := by simp
  nonneg := Int64.le_refl 0
  apart := by simp
  sendTime := by simp [BiDirectionalRpc.new, ClockSynchronizer.new]
  receiveTime := by simp [BiDirectionalRpc.new, ClockSynchronizer.new]
  disjoint := by simp [BiDirectionalRpc.new]

end Rpc

namespace ClockSynchronizer

variable {id : RpcId} {now t₁ t₂ : Int} {c c' : ClockSynchronizer}

/-- The clock enters the time a new request is sent at. -/
theorem createRequest_ok (h : c.createRequest id now = .ok c') :
    id ∉ c.requestSendTimeMap ∧
    c' = { c with requestSendTimeMap := c.requestSendTimeMap.insert id now } := by
  simp only [createRequest] at h
  split at h
  · cases h
  · rename_i hid
    cases h
    exact ⟨hid, rfl⟩

/-- The clock enters the time a new request is received at. -/
theorem receiveRequest_ok (h : c.receiveRequest id now = .ok c') :
    id ∉ c.requestReceiveTimeMap ∧
    c' = { c with requestReceiveTimeMap := c.requestReceiveTimeMap.insert id now } := by
  simp only [receiveRequest] at h
  split at h
  · cases h
  · rename_i hid
    cases h
    exact ⟨hid, rfl⟩

/-- The clock erases the time a request was received at. -/
theorem eraseRequestRecieveTime_ok (h : c.eraseRequestRecieveTime id = .ok c') :
    c' = { c with requestReceiveTimeMap := c.requestReceiveTimeMap.erase id } := by
  simp only [eraseRequestRecieveTime] at h
  split at h
  · cases h
    rfl
  · cases h

/-- A reply erases the time its request was sent at. -/
theorem handleReply_ok (h : c.handleReply id t₁ t₂ now = .ok c') :
    c'.requestSendTimeMap = c.requestSendTimeMap.erase id ∧
    c'.requestReceiveTimeMap = c.requestReceiveTimeMap := by
  simp only [handleReply] at h
  split at h
  · cases h
  · cases h
    exact ⟨rfl, rfl⟩

end ClockSynchronizer

namespace UnorderedMap

variable {κ ν : Type} [DecidableEq κ]

/-- `emplace` inserts a key that is new. -/
theorem emplace_eq_insert {m : UnorderedMap κ ν} {k : κ} {v : ν} (h : k ∉ m) :
    emplace k v m = m.insert k v := if_neg h

end UnorderedMap

/-- A request that goes out at once goes out among requests of its own barrier. -/
theorem Rpc.Consistent.barrier_eq {r : Rpc} {id : RpcId} {p : Bytes}
    (h : r.Consistent (.issuing id p)) (hf : r.FirstIsCurrent) {a : RpcId}
    (ha : a ∈ r.outgoingRequests) : a.barrier = id.barrier := by
  cases he : r.outgoingRequests.entries with
  | nil => exact absurd ha (UnorderedMap.entries_eq_nil.mp he a)
  | cons e l =>
      have hhead : e ∈ r.outgoingRequests.entries.head? := by rw [he]; rfl
      rcases h.issuing id p rfl with hid | ⟨hnil, -⟩
      · rw [h.same a ha e.1 (UnorderedMap.mem_of_head hhead), hf e hhead, hid]
      · rw [he] at hnil
        cases hnil

/-- A request is made at the current barrier or before. -/
theorem Rpc.Consistent.issuing_le {r : Rpc} {id : RpcId} {p : Bytes}
    (h : r.Consistent (.issuing id p)) : id.barrier ≤ r.onBarrier := by
  rcases h.issuing id p rfl with hid | ⟨-, hid⟩
  · exact hid ▸ Int64.le_refl _
  · exact hid

/-! ### The barrier order -/

namespace Rpc.Consistent

variable {r : Rpc} {id : RpcId} {p p' : Bytes}

/-- A request sent at once leaves the barriers in order. -/
theorem start_ordered (p' : Bytes) (h : r.Consistent (.issuing id p)) (hf : r.FirstIsCurrent) :
    ({ r with outgoingRequests := r.outgoingRequests.insert id p' } : Rpc).BarrierOrdered := by
  have hord := h.ordered (by simp)
  have hlt : ∀ d ∈ r.delayedRequests, id.barrier < d.barrier := by
    intro d hd
    cases he : r.outgoingRequests.entries with
    | nil => exact absurd hd (UnorderedMap.entries_eq_nil.mp (hord.empty he) d)
    | cons e l =>
        have hmem : e.1 ∈ r.outgoingRequests := UnorderedMap.mem_of_head (by rw [he]; rfl)
        rw [← h.barrier_eq hf hmem]
        exact hord.lt_delayed _ hmem d hd
  constructor
  · intro a ha b hb
    have hall : ∀ a ∈ r.outgoingRequests.insert id p', a.barrier = id.barrier := by
      intro a ha
      rcases (AList.mem_insert _).mp ha with rfl | ha
      · rfl
      · exact h.barrier_eq hf ha
    exact (hall a ha).trans (hall b hb).symm
  · intro a ha d hd
    rcases (AList.mem_insert _).mp ha with rfl | ha
    · exact hlt d hd
    · exact hord.lt_delayed a ha d hd
  · intro a ha
    rcases (AList.mem_insert _).mp ha with rfl | ha
    · exact h.issuing_le
    · exact h.outgoing_le a ha
  · exact h.delayed_le
  · intro hnil
    exact absurd ((AList.mem_insert _).mpr (.inl rfl))
      (UnorderedMap.entries_eq_nil.mp hnil id)

/-- A request that is delayed leaves the barriers in order. -/
theorem delay_ordered (p' : Bytes) (h : r.Consistent (.issuing id p))
    (hf : ∃ e ∈ r.outgoingRequests.entries.head?, e.1.barrier ≠ r.onBarrier) :
    ({ r with delayedRequests := r.delayedRequests.insert id p' } : Rpc).BarrierOrdered := by
  have hord := h.ordered (by simp)
  obtain ⟨e, he, hne⟩ := hf
  have hmem : e.1 ∈ r.outgoingRequests := UnorderedMap.mem_of_head he
  have hid : id.barrier = r.onBarrier := by
    rcases h.issuing id p rfl with hid | ⟨hnil, -⟩
    · exact hid
    · exact absurd hmem (UnorderedMap.entries_eq_nil.mp hnil _)
  constructor
  · exact h.same
  · intro a ha d hd
    rcases (AList.mem_insert _).mp hd with rfl | hd
    · rw [h.same a ha _ hmem, hid]
      exact Int64.lt_of_le_of_ne (h.outgoing_le _ hmem) hne
    · exact hord.lt_delayed a ha d hd
  · exact h.outgoing_le
  · intro d hd
    rcases (AList.mem_insert _).mp hd with rfl | hd
    · exact h.issuing_le
    · exact h.delayed_le d hd
  · intro hnil
    exact absurd hmem (UnorderedMap.entries_eq_nil.mp hnil _)

end Rpc.Consistent

theorem Rpc.BarrierOrdered.rehashed {r r' : Rpc} (h : r.BarrierOrdered) (hr : r.Rehashed r') :
    r'.BarrierOrdered := by
  have hout : ∀ a, a ∈ r'.outgoingRequests ↔ a ∈ r.outgoingRequests :=
    fun a => (AList.mem_of_perm hr.outgoingRequests).symm
  have hdel : ∀ a, a ∈ r'.delayedRequests ↔ a ∈ r.delayedRequests :=
    fun a => (AList.mem_of_perm hr.delayedRequests).symm
  have hbar : r'.onBarrier = r.onBarrier := by rw [hr.rest]
  constructor
  · exact fun a ha b hb => h.same a ((hout a).mp ha) b ((hout b).mp hb)
  · exact fun a ha d hd => h.lt_delayed a ((hout a).mp ha) d ((hdel d).mp hd)
  · exact fun a ha => hbar ▸ h.outgoing_le a ((hout a).mp ha)
  · exact fun d hd => hbar ▸ h.delayed_le d ((hdel d).mp hd)
  · intro hnil
    have hnil' := h.empty (List.Perm.eq_nil (hnil ▸ hr.outgoingRequests))
    exact List.nil_perm.mp (hnil' ▸ hr.delayedRequests)

/-! ### Every move keeps the tables consistent -/

namespace Rpc.Consistent

variable {r : Rpc} {id : RpcId} {p p' : Bytes} {now t₁ t₂ : Int} {clock : ClockSynchronizer}

/-- A request is issued: no table changes. -/
theorem issue (h : r.Consistent .idle)
    (hid : id.barrier = r.onBarrier ∨
      r.outgoingRequests.entries = [] ∧ id.barrier ≤ r.onBarrier) :
    r.Consistent (.issuing id p) :=
  { h with
    ordered := fun _ => h.ordered (by simp)
    issuing := by
      rintro _ _ ⟨⟩
      exact hid
    apart := by simp
    sendTime := by simpa using h.sendTime }

/-- A reply is disposed of: no table of the requests changes. -/
theorem settle (h : r.Consistent (.completing id)) (hord : r.BarrierOrdered) :
    r.Consistent (.settled id) :=
  { h with
    ordered := fun _ => hord
    issuing := by simp
    apart := by simpa using h.apart
    sendTime := by simpa using h.sendTime }

/-- A request is sent at once. -/
theorem start (h : r.Consistent (.issuing id p)) (hf : r.FirstIsCurrent)
    (hc : r.clock.createRequest id now = .ok clock) :
    ({ r with
      outgoingRequests := r.outgoingRequests.insert id p', clock := clock } : Rpc).Consistent
        .idle := by
  obtain ⟨-, rfl⟩ := ClockSynchronizer.createRequest_ok hc
  have hord := h.start_ordered p' hf
  exact {
    same := hord.same
    le_delayed := fun a ha d hd => Int64.le_of_lt (hord.lt_delayed a ha d hd)
    outgoing_le := hord.outgoing_le
    delayed_le := h.delayed_le
    ordered := fun _ => ⟨hord.same, hord.lt_delayed, hord.outgoing_le, hord.delayed_le, hord.empty⟩
    issuing := by simp
    nonneg := h.nonneg
    apart := by simp
    sendTime := fun a => by
      have := h.sendTime a
      simp only [AList.mem_insert, reduceCtorEq, or_false] at this ⊢
      rw [this]
    receiveTime := h.receiveTime
    disjoint := h.disjoint }

/-- A request is delayed behind those of an earlier barrier. -/
theorem delay (h : r.Consistent (.issuing id p))
    (hf : ∃ e ∈ r.outgoingRequests.entries.head?, e.1.barrier ≠ r.onBarrier) :
    ({ r with delayedRequests := r.delayedRequests.insert id p' } : Rpc).Consistent .idle := by
  have hord := h.delay_ordered p' hf
  exact { h with
    le_delayed := fun a ha d hd => Int64.le_of_lt (hord.lt_delayed a ha d hd)
    delayed_le := hord.delayed_le
    ordered := fun _ => hord
    issuing := by simp
    apart := by simp
    sendTime := by simpa using h.sendTime }

/-- A delayed request of the least barrier is sent. -/
theorem release {c : RpcId} (h : r.Consistent (.completing c))
    (hid : r.delayedRequests.lookup id = some p)
    (hout : ∀ a ∈ r.outgoingRequests, a.barrier = id.barrier)
    (hmin : ∀ d ∈ r.delayedRequests, id.barrier ≤ d.barrier)
    (hc : r.clock.createRequest id now = .ok clock) :
    ({ r with
      outgoingRequests := r.outgoingRequests.insert id p, clock := clock } : Rpc).Consistent
        (.completing c) := by
  obtain ⟨hnew, rfl⟩ := ClockSynchronizer.createRequest_ok hc
  have hmem : id ∈ r.delayedRequests := AList.lookup_isSome.mp (by rw [hid]; rfl)
  have hall : ∀ a ∈ r.outgoingRequests.insert id p, a.barrier = id.barrier := by
    intro a ha
    rcases (AList.mem_insert _).mp ha with rfl | ha
    · rfl
    · exact hout a ha
  exact {
    same := fun a ha b hb => (hall a ha).trans (hall b hb).symm
    le_delayed := fun a ha d hd => (hall a ha).symm ▸ hmin d hd
    outgoing_le := fun a ha => (hall a ha).symm ▸ h.delayed_le id hmem
    delayed_le := h.delayed_le
    ordered := fun hne => absurd rfl (hne c)
    issuing := by simp
    nonneg := h.nonneg
    apart := by
      intro a ha
      obtain ⟨h₁, h₂⟩ := h.apart a ha
      refine ⟨fun hm => ?_, h₂⟩
      rcases (AList.mem_insert _).mp hm with rfl | hm
      · exact hnew ((h.sendTime _).mpr (.inr ha))
      · exact h₁ hm
    sendTime := fun a => by
      simp only [AList.mem_insert, h.sendTime a, or_assoc]
    receiveTime := h.receiveTime
    disjoint := h.disjoint }

/-- A delayed request that was sent is erased. -/
theorem unqueue {c : RpcId} (h : r.Consistent (.completing c)) :
    ({ r with delayedRequests := r.delayedRequests.erase id } : Rpc).Consistent
      (.completing c) :=
  { h with
    le_delayed := fun a ha d hd => h.le_delayed a ha d (AList.mem_erase.mp hd).2
    delayed_le := fun d hd => h.delayed_le d (AList.mem_erase.mp hd).2
    ordered := fun hne => absurd rfl (hne c)
    apart := fun a ha =>
      ⟨(h.apart a ha).1, fun hm => (h.apart a ha).2 (AList.mem_erase.mp hm).2⟩ }

/-- A request that is answered is erased. -/
theorem complete (h : r.Consistent .idle) (hout : id ∈ r.outgoingRequests) :
    ({ r with outgoingRequests := r.outgoingRequests.erase id } : Rpc).Consistent
      (.completing id) := by
  have hord := h.ordered (by simp)
  have hsub : ∀ {a}, a ∈ r.outgoingRequests.erase id → a ∈ r.outgoingRequests :=
    fun ha => (AList.mem_erase.mp ha).2
  exact {
    same := fun a ha b hb => h.same a (hsub ha) b (hsub hb)
    le_delayed := fun a ha => h.le_delayed a (hsub ha)
    outgoing_le := fun a ha => h.outgoing_le a (hsub ha)
    delayed_le := h.delayed_le
    ordered := fun hne => absurd rfl (hne id)
    issuing := by simp
    nonneg := h.nonneg
    apart := by
      intro a ha
      simp only [Phase.completing.injEq, reduceCtorEq, or_false] at ha
      subst ha
      exact ⟨fun hm => (AList.mem_erase.mp hm).1 rfl,
        fun hm => Int64.lt_irrefl (hord.lt_delayed _ hout _ hm)⟩
    sendTime := fun a => by
      have := h.sendTime a
      simp only [reduceCtorEq, or_false, Phase.completing.injEq, AList.mem_erase] at this ⊢
      rw [this]
      constructor
      · intro ha
        by_cases heq : a = id
        · exact .inr heq.symm
        · exact .inl ⟨heq, ha⟩
      · rintro (⟨-, ha⟩ | rfl)
        · exact ha
        · exact hout
    receiveTime := h.receiveTime
    disjoint := h.disjoint }

/-- The clock takes the reply to a request. -/
theorem stopClock (h : r.Consistent (.settled id))
    (hc : r.clock.handleReply id t₁ t₂ now = .ok clock) :
    ({ r with clock := clock } : Rpc).Consistent .idle := by
  obtain ⟨hs, hr⟩ := ClockSynchronizer.handleReply_ok hc
  exact { h with
    ordered := fun _ => h.ordered (by simp)
    issuing := by simp
    apart := by simp
    sendTime := fun a => by
      have := h.sendTime a
      simp only [reduceCtorEq, or_false, false_or, Phase.settled.injEq, hs, AList.mem_erase]
        at this ⊢
      rw [this]
      constructor
      · rintro ⟨hne, ha | ha⟩
        · exact ha
        · exact absurd ha.symm hne
      · intro ha
        refine ⟨?_, .inl ha⟩
        rintro rfl
        exact (h.apart a (.inr rfl)).1 ha
    receiveTime := hr ▸ h.receiveTime }

/-- A request is received. -/
theorem accept (h : r.Consistent .idle) (hout : id ∉ r.outgoingReplies)
    (hc : r.clock.receiveRequest id now = .ok clock) :
    ({ r with
      clock := clock, incomingRequests := r.incomingRequests.insert id p } : Rpc).Consistent
        .idle := by
  obtain ⟨-, rfl⟩ := ClockSynchronizer.receiveRequest_ok hc
  exact { h with
    ordered := fun hne => h.ordered hne
    receiveTime := fun a => by
      simp only [AList.mem_insert, h.receiveTime a, or_assoc]
    disjoint := by
      intro a ha
      rcases (AList.mem_insert _).mp ha with rfl | ha
      · exact hout
      · exact h.disjoint a ha }

/-- A request is replied to. -/
theorem answer (h : r.Consistent .idle) (hin : id ∈ r.incomingRequests) :
    ({ r with
      incomingRequests := r.incomingRequests.erase id
      outgoingReplies := r.outgoingReplies.insert id p } : Rpc).Consistent .idle :=
  { h with
    ordered := fun hne => h.ordered hne
    receiveTime := fun a => by
      rw [h.receiveTime a, AList.mem_erase, AList.mem_insert]
      constructor
      · rintro (ha | ha)
        · by_cases heq : a = id
          · exact .inr (.inl heq)
          · exact .inl ⟨heq, ha⟩
        · exact .inr (.inr ha)
      · rintro (⟨-, ha⟩ | rfl | ha)
        · exact .inl ha
        · exact .inl hin
        · exact .inr ha
    disjoint := by
      intro a ha hm
      obtain ⟨hne, ha⟩ := AList.mem_erase.mp ha
      rcases (AList.mem_insert _).mp hm with rfl | hm
      · exact hne rfl
      · exact h.disjoint a ha hm }

/-- A reply that is acknowledged is erased. -/
theorem discard (h : r.Consistent .idle) (hout : id ∈ r.outgoingReplies)
    (hc : r.clock.eraseRequestRecieveTime id = .ok clock) :
    ({ r with clock := clock, outgoingReplies := r.outgoingReplies.erase id } : Rpc).Consistent
      .idle := by
  rw [ClockSynchronizer.eraseRequestRecieveTime_ok hc]
  exact { h with
    ordered := fun hne => h.ordered hne
    receiveTime := fun a => by
      rw [AList.mem_erase, AList.mem_erase, h.receiveTime a]
      constructor
      · rintro ⟨hne, ha | ha⟩
        · exact .inl ha
        · exact .inr ⟨hne, ha⟩
      · rintro (ha | ⟨hne, ha⟩)
        · refine ⟨?_, .inl ha⟩
          rintro rfl
          exact h.disjoint a ha hout
        · exact ⟨hne, .inr ha⟩
    disjoint := fun a ha hm => h.disjoint a ha (AList.mem_erase.mp hm).2 }

/-- The next barrier is later than this one, short of overflow. -/
theorem lt_next (hmax : r.onBarrier ≠ Int64.maxValue) : r.onBarrier < r.onBarrier + 1 := by
  have hne : r.onBarrier.toInt ≠ 2 ^ 63 - 1 := fun h => hmax (Int64.toInt_inj.mp h)
  have hlt := r.onBarrier.toInt_lt
  have hle := r.onBarrier.le_toInt
  rw [Int64.lt_iff_toInt_lt, Int64.toInt_add]
  have h₁ : (1 : Int64).toInt = 1 := rfl
  rw [h₁, Int.bmod_eq_of_le (by omega) (by omega)]
  omega

/-- A barrier is set. -/
theorem advance (h : r.Consistent .idle) (hmax : r.onBarrier ≠ Int64.maxValue) :
    ({ r with onBarrier := r.onBarrier + 1 } : Rpc).Consistent .idle := by
  have hle : ∀ {b : Int64}, b ≤ r.onBarrier → b ≤ r.onBarrier + 1 :=
    fun hb => Int64.le_of_lt (Int64.lt_of_le_of_lt hb (lt_next hmax))
  have hord := h.ordered (by simp)
  exact { h with
    outgoing_le := fun a ha => hle (h.outgoing_le a ha)
    delayed_le := fun d hd => hle (h.delayed_le d hd)
    ordered := fun _ => ⟨hord.same, hord.lt_delayed, fun a ha => hle (h.outgoing_le a ha),
      fun d hd => hle (h.delayed_le d hd), hord.empty⟩
    issuing := by simp
    nonneg := hle h.nonneg }

/-- The tables are rehashed. -/
theorem rehash {r' : Rpc} (h : r.Consistent .idle) (hr : r.Rehashed r') :
    r'.Consistent .idle := by
  have hord := (h.ordered (by simp)).rehashed hr
  have hout : ∀ a, a ∈ r'.outgoingRequests ↔ a ∈ r.outgoingRequests :=
    fun a => (AList.mem_of_perm hr.outgoingRequests).symm
  have hin : ∀ a, a ∈ r'.incomingRequests ↔ a ∈ r.incomingRequests :=
    fun a => (AList.mem_of_perm hr.incomingRequests).symm
  have hrep : ∀ a, a ∈ r'.outgoingReplies ↔ a ∈ r.outgoingReplies :=
    fun a => (AList.mem_of_perm hr.outgoingReplies).symm
  have hclock : r'.clock = r.clock := by rw [hr.rest]
  have hbar : r'.onBarrier = r.onBarrier := by rw [hr.rest]
  exact {
    same := hord.same
    le_delayed := fun a ha d hd => Int64.le_of_lt (hord.lt_delayed a ha d hd)
    outgoing_le := hord.outgoing_le
    delayed_le := hord.delayed_le
    ordered := fun _ => hord
    issuing := by simp
    nonneg := hbar ▸ h.nonneg
    apart := by simp
    sendTime := fun a => by rw [hclock, h.sendTime a, hout a]
    receiveTime := fun a => by rw [hclock, h.receiveTime a, hin a, hrep a]
    disjoint := fun a ha => by
      rw [hrep a]
      exact h.disjoint a ((hin a).mp ha) }

end Rpc.Consistent

/-- **Every move keeps the tables consistent.** -/
theorem Move.consistent {L : Libraries} {R : Rights} {ph ph' : Phase} {r r' : Rpc}
    (hm : Move L R ph r ph' r') (h : r.Consistent ph) : r'.Consistent ph' := by
  cases hm with
  | request hmay hid => exact { h.issue (.inl hid) with }
  | requestOneWay hmay hid => exact { h.issue (.inl hid) with }
  | greet hmay hnone hid => exact { h.issue (.inr ⟨hnone, hid⟩) with }
  | start hp hf hc => exact h.start hf hc
  | delay hp hf => exact h.delay hf
  | release hid hout hmin hc => exact h.release hid hout hmin hc
  | unqueue => exact h.unqueue
  | accept hmay hin hproc hout hc => exact { h.accept hout hc with }
  | answer hmay hin => exact { h.answer hin with }
  | complete hmay hout => exact { h.complete hout with }
  | queue hmay hord => exact { h.settle hord with }
  | forget hord => exact { h.settle hord with }
  | drop hmay hord => exact h.settle hord
  | stopClock hc => exact h.stopClock hc
  | take => exact { h with }
  | discard hmay hout hc => exact h.discard hout hc
  | advance hmax => exact h.advance hmax
  | close => exact { h with }
  | rehash hr => exact h.rehash hr

/-- Every path keeps the tables consistent. -/
theorem Path.consistent {τ : Type} {L : Libraries} {R : Rights}
    {Q : Phase → Rpc → τ → τ → Prop} {a b : Point τ} (h : Path L R Q a b)
    (ha : a.rpc.Consistent a.phase) : b.rpc.Consistent b.phase :=
  h.invariant_rpc (I := fun ph r => r.Consistent ph) (fun _ _ _ _ hr hm => hm.consistent hr) ha

end Wga
