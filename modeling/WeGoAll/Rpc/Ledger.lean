import WeGoAll.Rpc.Tables

/-!
# Rpc — Ledger

What the history of an endpoint says about its tables, for an endpoint that stores what it is given
and drops nothing.

* `Rpc.Requesting`: a request that was issued is in flight, delayed or completed.
* `Rpc.Answering`: a request that was accepted is waiting for its reply or was replied to.
* `Rpc.Receiving`: a reply that waits for the application, or was handed to it, was queued.
-/

namespace Wga

/-! ### Reading a history -/

/-- The request was made, one way or the other. -/
def Issued (h : List Event) (id : RpcId) (p : Bytes) : Prop :=
  .requested id p ∈ h ∨ .requestedOneWay id p ∈ h

/-- The identifiers of the requests made. -/
def issuedIds (h : List Event) : List RpcId :=
  h.filterMap fun
    | .requested id _ => some id
    | .requestedOneWay id _ => some id
    | _ => none

/-- The identifiers of the requests accepted. -/
def acceptedIds (h : List Event) : List RpcId :=
  h.filterMap fun
    | .accepted id _ => some id
    | _ => none

/-- The identifiers of the requests replied to. -/
def repliedIds (h : List Event) : List RpcId :=
  h.filterMap fun
    | .replied id _ => some id
    | _ => none

/-- The identifiers of the replies handed to the application. -/
def handedIds (h : List Event) : List RpcId :=
  h.filterMap fun
    | .handed id _ => some id
    | _ => none

/-- No identifier was drawn twice. -/
def FreshIds (h : List Event) : Prop := (issuedIds h).Nodup

instance (h : List Event) : Decidable (FreshIds h) :=
  inferInstanceAs (Decidable (issuedIds h).Nodup)

theorem mem_issuedIds {h : List Event} {id : RpcId} :
    id ∈ issuedIds h ↔ ∃ p, Issued h id p := by
  simp only [issuedIds, List.mem_filterMap, Issued]
  constructor
  · rintro ⟨e, he, heq⟩
    cases e <;> cases heq
    · exact ⟨_, .inl he⟩
    · exact ⟨_, .inr he⟩
  · rintro ⟨p, he | he⟩
    · exact ⟨_, he, rfl⟩
    · exact ⟨_, he, rfl⟩

/-- The identifiers that `f` picks are those of the events `g`. -/
theorem mem_picked {f : Event → Option RpcId} {g : RpcId → Bytes → Event}
    (hf : ∀ e id, f e = some id ↔ ∃ p, e = g id p) {h : List Event} {id : RpcId} :
    id ∈ h.filterMap f ↔ ∃ p, g id p ∈ h := by
  simp only [List.mem_filterMap, hf]
  constructor
  · rintro ⟨_, he, p, rfl⟩
    exact ⟨p, he⟩
  · rintro ⟨p, he⟩
    exact ⟨_, he, p, rfl⟩

theorem mem_acceptedIds {h : List Event} {id : RpcId} :
    id ∈ acceptedIds h ↔ ∃ p, .accepted id p ∈ h :=
  mem_picked (g := .accepted) fun e id => by cases e <;> simp

theorem mem_repliedIds {h : List Event} {id : RpcId} :
    id ∈ repliedIds h ↔ ∃ p, .replied id p ∈ h :=
  mem_picked (g := .replied) fun e id => by cases e <;> simp

theorem mem_handedIds {h : List Event} {id : RpcId} :
    id ∈ handedIds h ↔ ∃ p, .handed id p ∈ h :=
  mem_picked (g := .handed) fun e id => by cases e <;> simp

theorem FreshIds.of_isPrefix {h h' : List Event} (hf : FreshIds h') (hp : h <+: h') : FreshIds h :=
  List.Nodup.sublist (hp.sublist.filterMap _) hf

/-- A fresh identifier was not issued before. -/
theorem FreshIds.notIssued {h : List Event} {e : Event} {id : RpcId} {p : Bytes}
    (hf : FreshIds (h ++ [e])) (he : e = .requested id p ∨ e = .requestedOneWay id p) :
    ∀ q, ¬ Issued h id q := by
  intro q hq
  have hmem : id ∈ issuedIds h := mem_issuedIds.mpr ⟨q, hq⟩
  have hsplit : issuedIds (h ++ [e]) = issuedIds h ++ [id] := by
    rcases he with rfl | rfl <;> simp [issuedIds]
  rw [FreshIds, hsplit] at hf
  exact (List.nodup_append.mp hf).2.2 id hmem id (by simp) rfl

theorem Issued.mono {h h' : List Event} {id : RpcId} {p : Bytes} (hi : Issued h id p)
    (hp : h <+: h') : Issued h' id p :=
  hi.imp (fun he => hp.subset he) (fun he => hp.subset he)

/-! ### The requester -/

/-- Where the requests an endpoint made are. -/
structure Rpc.Requesting (ph : Phase) (r : Rpc) : Prop where
  outgoing : ∀ id p, r.outgoingRequests.lookup id = some p → Issued r.history id p
  delayed : ∀ id p, r.delayedRequests.lookup id = some p → Issued r.history id p
  issuing : ∀ id p, ph = .issuing id p → Issued r.history id p
  issued : ∀ id p, Issued r.history id p → id ∈ r.outgoingRequests ∨ id ∈ r.delayedRequests ∨
    .completed id ∈ r.history ∨ ∃ q, ph = .issuing id q
  barrier : ∀ id p, Issued r.history id p → id.barrier ≤ r.onBarrier
  completed : ∀ id, .completed id ∈ r.history → ∃ p, Issued r.history id p
  oneWay : ∀ id ∈ r.oneWayRequests, ∃ p, .requestedOneWay id p ∈ r.history
  progress : ∀ id, ph = .completing id ∨ ph = .settled id → .completed id ∈ r.history

namespace Rpc.Requesting

variable {r : Rpc} {ph : Phase} {id : RpcId} {p : Bytes}

theorem new (flaky : Bool) : (BiDirectionalRpc.new flaky).Requesting .idle where
  outgoing := by simp [BiDirectionalRpc.new]
  delayed := by simp [BiDirectionalRpc.new]
  issuing := by simp
  issued := by simp [BiDirectionalRpc.new, Issued]
  barrier := by simp [BiDirectionalRpc.new, Issued]
  completed := by simp [BiDirectionalRpc.new]
  oneWay := by simp [BiDirectionalRpc.new]
  progress := by simp

theorem outgoing_mem (h : r.Requesting ph) (hid : id ∈ r.outgoingRequests) :
    ∃ p, Issued r.history id p := by
  obtain ⟨p, hp⟩ := Option.isSome_iff_exists.mp (AList.lookup_isSome.mpr hid)
  exact ⟨p, h.outgoing id p hp⟩

/-- An event that is no request and no completion says nothing about the requests. -/
theorem record {e : Event} (h : r.Requesting ph) (h₁ : ∀ id p, e ≠ .requested id p)
    (h₂ : ∀ id p, e ≠ .requestedOneWay id p) (h₃ : ∀ id, e ≠ .completed id) :
    (r.record e).Requesting ph := by
  have hiss : ∀ id p, Issued (r.record e).history id p ↔ Issued r.history id p := fun id p => by
    simp [Issued, Rpc.record, (h₁ id p).symm, (h₂ id p).symm]
  have hone : ∀ id p, .requestedOneWay id p ∈ (r.record e).history ↔
      .requestedOneWay id p ∈ r.history := fun id p => by simp [Rpc.record, (h₂ id p).symm]
  have hcomp : ∀ id, .completed id ∈ (r.record e).history ↔ .completed id ∈ r.history :=
    fun id => by simp [Rpc.record, (h₃ id).symm]
  constructor
  · exact fun id p hp => (hiss id p).mpr (h.outgoing id p hp)
  · exact fun id p hp => (hiss id p).mpr (h.delayed id p hp)
  · exact fun id p hp => (hiss id p).mpr (h.issuing id p hp)
  · intro id p hp
    rw [hcomp]
    exact h.issued id p ((hiss id p).mp hp)
  · exact fun id p hp => h.barrier id p ((hiss id p).mp hp)
  · intro id hid
    obtain ⟨p, hp⟩ := h.completed id ((hcomp id).mp hid)
    exact ⟨p, (hiss id p).mpr hp⟩
  · intro id hid
    obtain ⟨p, hp⟩ := h.oneWay id hid
    exact ⟨p, (hone id p).mpr hp⟩
  · exact fun id hid => (hcomp id).mpr (h.progress id hid)

/-- A request is made. -/
theorem issue {e : Event} (h : r.Requesting .idle)
    (he : e = .requested id p ∨ e = .requestedOneWay id p) (hid : id.barrier = r.onBarrier) :
    (r.record e).Requesting (.issuing id p) := by
  have hpre : r.history <+: (r.record e).history := List.prefix_append _ _
  have hiss : ∀ a q, Issued (r.record e).history a q →
      Issued r.history a q ∨ a = id ∧ q = p := by
    intro a q ha
    rcases he with rfl | rfl <;>
      simpa [Issued, Rpc.record, or_assoc, or_comm, or_left_comm] using ha
  have hnew : Issued (r.record e).history id p := by
    rcases he with rfl | rfl <;> simp [Issued, Rpc.record]
  constructor
  · exact fun a q hq => (h.outgoing a q hq).mono hpre
  · exact fun a q hq => (h.delayed a q hq).mono hpre
  · rintro _ _ ⟨⟩
    exact hnew
  · intro a q ha
    rcases hiss a q ha with ha | ⟨rfl, rfl⟩
    · rcases h.issued a q ha with ho | hd | hc | ⟨_, ⟨⟩⟩
      · exact .inl ho
      · exact .inr (.inl hd)
      · exact .inr (.inr (.inl (hpre.subset hc)))
    · exact .inr (.inr (.inr ⟨_, rfl⟩))
  · intro a q ha
    rcases hiss a q ha with ha | ⟨rfl, rfl⟩
    · exact h.barrier a q ha
    · exact hid ▸ Int64.le_refl _
  · intro a ha
    have ha' : .completed a ∈ r.history := by
      rcases he with rfl | rfl <;> simpa [Rpc.record] using ha
    obtain ⟨q, hq⟩ := h.completed a ha'
    exact ⟨q, hq.mono hpre⟩
  · intro a ha
    obtain ⟨q, hq⟩ := h.oneWay a ha
    exact ⟨q, hpre.subset hq⟩
  · simp

/-- A request goes out. -/
theorem insertOutgoing (h : r.Requesting ph) (hp : Issued r.history id p)
    {clock : ClockSynchronizer} {ph' : Phase} (hph : ∀ a q, ph = .issuing a q → a = id)
    (hph' : ph' = .idle ∨ ∃ a, ph' = .completing a ∧ ph = .completing a) :
    ({ r with
      outgoingRequests := r.outgoingRequests.insert id p, clock := clock } : Rpc).Requesting
        ph' := by
  refine { h with outgoing := ?_, issuing := ?_, issued := ?_, progress := ?_ }
  · intro a q hq
    by_cases heq : a = id
    · subst heq
      rw [AList.lookup_insert] at hq
      cases hq
      exact hp
    · exact h.outgoing a q (AList.lookup_insert_ne heq ▸ hq)
  · rcases hph' with rfl | ⟨a, rfl, -⟩ <;> simp
  · intro a q ha
    rcases h.issued a q ha with ho | hd | hc | ⟨q', hq'⟩
    · exact .inl ((AList.mem_insert _).mpr (.inr ho))
    · exact .inr (.inl hd)
    · exact .inr (.inr (.inl hc))
    · exact .inl ((AList.mem_insert _).mpr (.inl (hph a q' hq')))
  · rcases hph' with rfl | ⟨a, rfl, rfl⟩
    · simp
    · exact h.progress

/-- A request is delayed. -/
theorem delay (h : r.Requesting (.issuing id p)) :
    ({ r with delayedRequests := r.delayedRequests.insert id p } : Rpc).Requesting .idle := by
  refine { h with delayed := ?_, issuing := by simp, issued := ?_, progress := by simp }
  · intro a q hq
    by_cases heq : a = id
    · subst heq
      rw [AList.lookup_insert] at hq
      cases hq
      exact h.issuing _ _ rfl
    · exact h.delayed a q (AList.lookup_insert_ne heq ▸ hq)
  · intro a q ha
    rcases h.issued a q ha with ho | hd | hc | ⟨q', ⟨⟩⟩
    · exact .inl ho
    · exact .inr (.inl ((AList.mem_insert _).mpr (.inr hd)))
    · exact .inr (.inr (.inl hc))
    · exact .inr (.inl ((AList.mem_insert _).mpr (.inl rfl)))

/-- A request that is in flight is no longer delayed. -/
theorem unqueue (h : r.Requesting ph) (hid : id ∈ r.outgoingRequests) :
    ({ r with delayedRequests := r.delayedRequests.erase id } : Rpc).Requesting ph := by
  refine { h with delayed := ?_, issued := ?_ }
  · intro a q hq
    by_cases heq : a = id
    · subst heq
      rw [AList.lookup_erase] at hq
      cases hq
    · exact h.delayed a q (AList.lookup_erase_ne heq ▸ hq)
  · intro a q ha
    rcases h.issued a q ha with ho | hd | hc
    · exact .inl ho
    · by_cases heq : a = id
      · exact .inl (heq ▸ hid)
      · exact .inr (.inl (AList.mem_erase.mpr ⟨heq, hd⟩))
    · exact .inr (.inr hc)

/-- A request is completed. -/
theorem complete (h : r.Requesting .idle) (hid : id ∈ r.outgoingRequests) :
    ({ r.record (.completed id) with
      outgoingRequests := r.outgoingRequests.erase id } : Rpc).Requesting (.completing id) := by
  have hpre : r.history <+: r.history ++ [.completed id] := List.prefix_append _ _
  have hiss : ∀ {a q}, Issued (r.history ++ [.completed id]) a q → Issued r.history a q := by
    intro a q ha
    simpa [Issued] using ha
  constructor
  · intro a q hq
    by_cases heq : a = id
    · subst heq
      rw [AList.lookup_erase] at hq
      cases hq
    · exact (h.outgoing a q (AList.lookup_erase_ne heq ▸ hq)).mono hpre
  · exact fun a q hq => (h.delayed a q hq).mono hpre
  · simp
  · intro a q ha
    by_cases heq : a = id
    · subst heq
      exact .inr (.inr (.inl (by simp [Rpc.record])))
    · rcases h.issued a q (hiss ha) with ho | hd | hc | ⟨_, ⟨⟩⟩
      · exact .inl (AList.mem_erase.mpr ⟨heq, ho⟩)
      · exact .inr (.inl hd)
      · exact .inr (.inr (.inl (hpre.subset hc)))
  · exact fun a q ha => h.barrier a q (hiss ha)
  · intro a ha
    simp only [Rpc.record, List.mem_append, List.mem_singleton, Event.completed.injEq] at ha
    rcases ha with ha | rfl
    · obtain ⟨q, hq⟩ := h.completed a ha
      exact ⟨q, hq.mono hpre⟩
    · obtain ⟨q, hq⟩ := h.outgoing_mem hid
      exact ⟨q, hq.mono hpre⟩
  · intro a ha
    obtain ⟨q, hq⟩ := h.oneWay a ha
    exact ⟨q, hpre.subset hq⟩
  · simp [Rpc.record]

theorem rehash {r' : Rpc} (h : r.Requesting .idle) (hr : r.Rehashed r') :
    r'.Requesting .idle := by
  have hhist : r'.history = r.history := by rw [hr.rest]
  have hbar : r'.onBarrier = r.onBarrier := by rw [hr.rest]
  have hone : r'.oneWayRequests = r.oneWayRequests := by rw [hr.rest]
  constructor
  · intro a q hq
    rw [← AList.perm_lookup hr.outgoingRequests] at hq
    exact hhist ▸ h.outgoing a q hq
  · intro a q hq
    rw [← AList.perm_lookup hr.delayedRequests] at hq
    exact hhist ▸ h.delayed a q hq
  · simp
  · intro a q ha
    rw [hhist] at ha ⊢
    rw [← AList.mem_of_perm hr.outgoingRequests, ← AList.mem_of_perm hr.delayedRequests]
    exact h.issued a q ha
  · rw [hhist, hbar]
    exact h.barrier
  · rw [hhist]
    exact h.completed
  · rw [hhist, hone]
    exact h.oneWay
  · simp

end Rpc.Requesting

/-- What a move needs to keep the books: it stores what it is given and drops nothing. -/
structure Rights.Faithful (R : Rights) : Prop where
  rewrites : ∀ p q, R.rewrites p q → q = p
  drops : ¬ R.drops
  greets : ¬ R.greets

variable {L : Libraries} {R : Rights} {ph ph' : Phase} {r r' : Rpc}

/-- **Every move keeps track of the requests made.** -/
theorem Move.requesting (hR : R.Faithful) (hm : Move L R ph r ph' r') (h : r.Requesting ph) :
    r'.Requesting ph' := by
  cases hm with
  | request hmay hid => exact h.issue (.inl rfl) hid
  | @requestOneWay _ id p hmay hid =>
      have h' := h.issue (p := p) (.inr rfl) hid
      refine { h' with oneWay := fun a ha => ?_ }
      rcases Finset.mem_insert.mp ha with rfl | ha
      · exact ⟨_, List.mem_append_right _ (List.mem_singleton.mpr rfl)⟩
      · exact h'.oneWay a ha
  | greet hmay => exact absurd hmay hR.greets
  | start hp =>
      cases hR.rewrites _ _ hp
      exact h.insertOutgoing (h.issuing _ _ rfl) (by simp +contextual) (.inl rfl)
  | delay hp =>
      cases hR.rewrites _ _ hp
      exact h.delay
  | release hid => exact h.insertOutgoing (h.delayed _ _ hid) (by simp) (.inr ⟨_, rfl, rfl⟩)
  | unqueue hid => exact h.unqueue hid
  | accept => exact { h.record (by simp) (by simp) (by simp) with }
  | answer => exact { h.record (by simp) (by simp) (by simp) with }
  | complete hmay hid => exact h.complete hid
  | @queue _ id p =>
      have h' := h.record (e := .queued id p) (by simp) (by simp) (by simp)
      exact { h' with
        issuing := by simp
        issued := by simpa using h'.issued
        progress := by simpa using h'.progress }
  | forget =>
      exact { h with
        issuing := by simp
        issued := by simpa using h.issued
        oneWay := fun a ha => h.oneWay a (Finset.mem_of_mem_erase ha)
        progress := by simpa using h.progress }
  | drop hmay => exact absurd hmay hR.drops
  | stopClock =>
      exact { h with
        issuing := by simp
        issued := by simpa using h.issued
        progress := by simp }
  | take => exact { h.record (by simp) (by simp) (by simp) with }
  | discard => exact { h with }
  | advance hmax =>
      refine { h with barrier := fun a q ha => ?_ }
      exact Int64.le_of_lt
        (Int64.lt_of_le_of_lt (h.barrier a q ha) (Rpc.Consistent.lt_next hmax))
  | close => exact { h with }
  | rehash hr => exact h.rehash hr

/-! ### The responder -/

/-- Where the requests an endpoint accepted are. -/
structure Rpc.Answering (r : Rpc) : Prop where
  incoming : ∀ id p, r.incomingRequests.lookup id = some p → .accepted id p ∈ r.history
  accepted : ∀ id p, .accepted id p ∈ r.history →
    id ∈ r.incomingRequests ∨ ∃ q, .replied id q ∈ r.history
  replied : ∀ id q, .replied id q ∈ r.history → ∃ p, .accepted id p ∈ r.history
  stored : ∀ id q, r.outgoingReplies.lookup id = some q → .replied id q ∈ r.history
  processed : ∀ id ∈ r.processedRequests.keys, ∃ q, .replied id q ∈ r.history

namespace Rpc.Answering

variable {r : Rpc} {id : RpcId} {p : Bytes}

theorem new (flaky : Bool) : (BiDirectionalRpc.new flaky).Answering where
  incoming := by simp [BiDirectionalRpc.new]
  accepted := by simp [BiDirectionalRpc.new]
  replied := by simp [BiDirectionalRpc.new]
  stored := by simp [BiDirectionalRpc.new]
  processed := by simp [BiDirectionalRpc.new]

/-- An event that is no acceptance and no reply says nothing about the answers. -/
theorem record {e : Event} (h : r.Answering) (h₁ : ∀ id p, e ≠ .accepted id p)
    (h₂ : ∀ id p, e ≠ .replied id p) : (r.record e).Answering := by
  have hacc : ∀ id p, .accepted id p ∈ (r.record e).history ↔ .accepted id p ∈ r.history :=
    fun id p => by simp [Rpc.record, (h₁ id p).symm]
  have hrep : ∀ id p, .replied id p ∈ (r.record e).history ↔ .replied id p ∈ r.history :=
    fun id p => by simp [Rpc.record, (h₂ id p).symm]
  constructor
  · exact fun id p hp => (hacc id p).mpr (h.incoming id p hp)
  · intro id p hp
    simp only [hrep]
    exact h.accepted id p ((hacc id p).mp hp)
  · intro id p hp
    simp only [hacc]
    exact h.replied id p ((hrep id p).mp hp)
  · exact fun id p hp => (hrep id p).mpr (h.stored id p hp)
  · intro id hid
    simp only [hrep]
    exact h.processed id hid

/-- A request is accepted. -/
theorem accept (h : r.Answering) :
    ({ r.record (.accepted id p) with
      incomingRequests := r.incomingRequests.insert id p } : Rpc).Answering := by
  have hpre : r.history <+: r.history ++ [.accepted id p] := List.prefix_append _ _
  constructor
  · intro a q hq
    by_cases heq : a = id
    · subst heq
      rw [AList.lookup_insert] at hq
      cases hq
      exact List.mem_append_right _ (List.mem_singleton.mpr rfl)
    · exact hpre.subset (h.incoming a q (AList.lookup_insert_ne heq ▸ hq))
  · intro a q ha
    simp only [Rpc.record, List.mem_append, List.mem_singleton, Event.accepted.injEq] at ha
    rcases ha with ha | ⟨rfl, rfl⟩
    · rcases h.accepted a q ha with hin | ⟨q', hq'⟩
      · exact .inl ((AList.mem_insert _).mpr (.inr hin))
      · exact .inr ⟨q', hpre.subset hq'⟩
    · exact .inl ((AList.mem_insert _).mpr (.inl rfl))
  · intro a q ha
    have ha' : .replied a q ∈ r.history := by simpa [Rpc.record] using ha
    obtain ⟨q', hq'⟩ := h.replied a q ha'
    exact ⟨q', hpre.subset hq'⟩
  · exact fun a q ha => hpre.subset (h.stored a q ha)
  · intro a ha
    obtain ⟨q', hq'⟩ := h.processed a ha
    exact ⟨q', hpre.subset hq'⟩

/-- A request is replied to. -/
theorem answer {P : LruPolicy} {n : Nat} (h : r.Answering) (hin : id ∈ r.incomingRequests) :
    ({ r.record (.replied id p) with
      incomingRequests := r.incomingRequests.erase id
      processedRequests := r.processedRequests.put P n id
      outgoingReplies := r.outgoingReplies.insert id p } : Rpc).Answering := by
  have hpre : r.history <+: r.history ++ [.replied id p] := List.prefix_append _ _
  have hnew : .replied id p ∈ r.history ++ [.replied id p] :=
    List.mem_append_right _ (List.mem_singleton.mpr rfl)
  constructor
  · intro a q hq
    by_cases heq : a = id
    · subst heq
      rw [AList.lookup_erase] at hq
      cases hq
    · exact hpre.subset (h.incoming a q (AList.lookup_erase_ne heq ▸ hq))
  · intro a q ha
    have ha' : .accepted a q ∈ r.history := by simpa [Rpc.record] using ha
    by_cases heq : a = id
    · subst heq
      exact .inr ⟨p, hnew⟩
    · rcases h.accepted a q ha' with hin | ⟨q', hq'⟩
      · exact .inl (AList.mem_erase.mpr ⟨heq, hin⟩)
      · exact .inr ⟨q', hpre.subset hq'⟩
  · intro a q ha
    simp only [Rpc.record, List.mem_append, List.mem_singleton, Event.replied.injEq] at ha
    rcases ha with ha | ⟨rfl, rfl⟩
    · obtain ⟨q', hq'⟩ := h.replied a q ha
      exact ⟨q', hpre.subset hq'⟩
    · obtain ⟨q', hq'⟩ := Option.isSome_iff_exists.mp (AList.lookup_isSome.mpr hin)
      exact ⟨q', hpre.subset (h.incoming a q' hq')⟩
  · intro a q hq
    by_cases heq : a = id
    · subst heq
      rw [AList.lookup_insert] at hq
      cases hq
      exact hnew
    · exact hpre.subset (h.stored a q (AList.lookup_insert_ne heq ▸ hq))
  · intro a ha
    rcases LruCache.mem_put ha with rfl | ha
    · exact ⟨p, hnew⟩
    · obtain ⟨q', hq'⟩ := h.processed a ha
      exact ⟨q', hpre.subset hq'⟩

theorem rehash {r' : Rpc} (h : r.Answering) (hr : r.Rehashed r') : r'.Answering := by
  have hhist : r'.history = r.history := by rw [hr.rest]
  have hproc : r'.processedRequests = r.processedRequests := by rw [hr.rest]
  constructor
  · intro a q hq
    rw [← AList.perm_lookup hr.incomingRequests] at hq
    exact hhist ▸ h.incoming a q hq
  · intro a q ha
    rw [hhist] at ha ⊢
    rw [← AList.mem_of_perm hr.incomingRequests]
    exact h.accepted a q ha
  · rw [hhist]
    exact h.replied
  · intro a q hq
    rw [← AList.perm_lookup hr.outgoingReplies] at hq
    exact hhist ▸ h.stored a q hq
  · rw [hhist, hproc]
    exact h.processed

end Rpc.Answering

/-- **Every move keeps track of the requests accepted.** -/
theorem Move.answering (hm : Move L R ph r ph' r') (h : r.Answering) : r'.Answering := by
  cases hm with
  | accept => exact { h.accept with }
  | answer hmay hin => exact h.answer hin
  | request | requestOneWay | complete | queue | take =>
      exact { h.record (by simp) (by simp) with }
  | discard =>
      refine { h with stored := fun a q hq => ?_ }
      rename_i id _ _ _ _
      by_cases heq : a = id
      · subst heq
        rw [AList.lookup_erase] at hq
        cases hq
      · exact h.stored a q (AList.lookup_erase_ne heq ▸ hq)
  | greet | start | delay | release | unqueue | forget | drop | stopClock | advance | close =>
      exact { h with }
  | rehash hr => exact h.rehash hr

/-! ### The replies -/

/-- Where the replies an endpoint queued are. -/
structure Rpc.Receiving (r : Rpc) : Prop where
  incoming : ∀ id p, r.incomingReplies.lookup id = some p → .queued id p ∈ r.history
  processed : ∀ id ∈ r.processedReplies.keys, ∃ p, .queued id p ∈ r.history
  handed : ∀ id p, .handed id p ∈ r.history → .queued id p ∈ r.history

namespace Rpc.Receiving

variable {r : Rpc} {id : RpcId} {p : Bytes}

theorem new (flaky : Bool) : (BiDirectionalRpc.new flaky).Receiving where
  incoming := by simp [BiDirectionalRpc.new]
  processed := by simp [BiDirectionalRpc.new]
  handed := by simp [BiDirectionalRpc.new]

theorem record {e : Event} (h : r.Receiving) (he : ∀ id p, e ≠ .handed id p) :
    (r.record e).Receiving := by
  have hpre : r.history <+: r.history ++ [e] := List.prefix_append _ _
  constructor
  · exact fun id p hp => hpre.subset (h.incoming id p hp)
  · intro id hid
    obtain ⟨p, hp⟩ := h.processed id hid
    exact ⟨p, hpre.subset hp⟩
  · intro id p hp
    have hp' : .handed id p ∈ r.history := by simpa [Rpc.record, (he id p).symm] using hp
    exact hpre.subset (h.handed id p hp')

theorem queue (h : r.Receiving) :
    ({ r.record (.queued id p) with
      incomingReplies := UnorderedMap.emplace id p r.incomingReplies } : Rpc).Receiving := by
  refine { h.record (by simp) with incoming := fun a q hq => ?_ }
  have hpre : r.history <+: r.history ++ [.queued id p] := List.prefix_append _ _
  by_cases hid : id ∈ r.incomingReplies
  · simp only [UnorderedMap.emplace, if_pos hid] at hq
    exact hpre.subset (h.incoming a q hq)
  · simp only [UnorderedMap.emplace_eq_insert hid] at hq
    by_cases heq : a = id
    · subst heq
      rw [AList.lookup_insert] at hq
      cases hq
      exact List.mem_append_right _ (List.mem_singleton.mpr rfl)
    · exact hpre.subset (h.incoming a q (AList.lookup_insert_ne heq ▸ hq))

theorem take {P : LruPolicy} {n : Nat} (h : r.Receiving)
    (hin : r.incomingReplies.lookup id = some p) :
    ({ r.record (.handed id p) with
      processedReplies := r.processedReplies.put P n id
      incomingReplies := r.incomingReplies.erase id } : Rpc).Receiving := by
  have hpre : r.history <+: r.history ++ [.handed id p] := List.prefix_append _ _
  constructor
  · intro a q hq
    by_cases heq : a = id
    · subst heq
      rw [AList.lookup_erase] at hq
      cases hq
    · exact hpre.subset (h.incoming a q (AList.lookup_erase_ne heq ▸ hq))
  · intro a ha
    rcases LruCache.mem_put ha with rfl | ha
    · exact ⟨p, hpre.subset (h.incoming _ p hin)⟩
    · obtain ⟨q, hq⟩ := h.processed a ha
      exact ⟨q, hpre.subset hq⟩
  · intro a q ha
    simp only [Rpc.record, List.mem_append, List.mem_singleton, Event.handed.injEq] at ha
    rcases ha with ha | ⟨rfl, rfl⟩
    · exact hpre.subset (h.handed a q ha)
    · exact hpre.subset (h.incoming a q hin)

theorem rehash {r' : Rpc} (h : r.Receiving) (hr : r.Rehashed r') : r'.Receiving := by
  have hhist : r'.history = r.history := by rw [hr.rest]
  have hproc : r'.processedReplies = r.processedReplies := by rw [hr.rest]
  constructor
  · intro a q hq
    rw [← AList.perm_lookup hr.incomingReplies] at hq
    exact hhist ▸ h.incoming a q hq
  · rw [hhist, hproc]
    exact h.processed
  · rw [hhist]
    exact h.handed

end Rpc.Receiving

/-- **Every move keeps track of the replies queued.** -/
theorem Move.receiving (hm : Move L R ph r ph' r') (h : r.Receiving) : r'.Receiving := by
  cases hm with
  | queue => exact h.queue
  | take hmay hin => exact h.take hin
  | request | requestOneWay | accept | answer | complete =>
      exact { h.record (by simp) with }
  | greet | start | delay | release | unqueue | forget | drop | stopClock | discard | advance
  | close => exact { h with }
  | rehash hr => exact h.rehash hr

end Wga
