import WeGoAll.Rpc.Ledger

/-!
# Rpc — Once

What happens at most once at an endpoint.

* `Rpc.Once`: with fresh identifiers, a request is completed once, its reply is queued and handed
  to the application once, and a completed two-way request has its reply queued.
* `Rpc.Remembers`: within the capacity of `processedRequests`, a request is accepted and replied to
  once.
-/

namespace Wga

/-- Two elements that a duplicate-free `filterMap` takes to the same value are one. -/
theorem eq_of_nodup_filterMap {α β : Type} {f : α → Option β} {l : List α}
    (hnd : (l.filterMap f).Nodup) {a b : α} {x : β} (ha : a ∈ l) (hb : b ∈ l)
    (hfa : f a = some x) (hfb : f b = some x) : a = b := by
  induction l with
  | nil => cases ha
  | cons c l ih =>
      have hx : ∀ {d}, d ∈ l → f d = some x → x ∈ l.filterMap f :=
        fun hd hfd => List.mem_filterMap.mpr ⟨_, hd, hfd⟩
      cases hc : f c with
      | none =>
          rw [List.filterMap_cons_none hc] at hnd
          rcases List.mem_cons.mp ha with rfl | ha
          · rw [hc] at hfa
            cases hfa
          rcases List.mem_cons.mp hb with rfl | hb
          · rw [hc] at hfb
            cases hfb
          exact ih hnd ha hb
      | some y =>
          rw [List.filterMap_cons_some hc, List.nodup_cons] at hnd
          rcases List.mem_cons.mp ha with rfl | ha'
          · rcases List.mem_cons.mp hb with rfl | hb'
            · rfl
            · rw [hc] at hfa
              cases hfa
              exact absurd (hx hb' hfb) hnd.1
          · rcases List.mem_cons.mp hb with rfl | hb'
            · rw [hc] at hfb
              cases hfb
              exact absurd (hx ha' hfa) hnd.1
            · exact ih hnd.2 ha' hb'

/-- A fresh identifier was issued with one payload. -/
theorem FreshIds.payload_unique {h : List Event} (hf : FreshIds h) {id : RpcId} {p q : Bytes}
    (hp : Issued h id p) (hq : Issued h id q) : p = q := by
  rcases hp with hp | hp <;> rcases hq with hq | hq
  · cases eq_of_nodup_filterMap hf hp hq rfl rfl
    rfl
  · cases eq_of_nodup_filterMap hf hp hq rfl rfl
  · cases eq_of_nodup_filterMap hf hp hq rfl rfl
  · cases eq_of_nodup_filterMap hf hp hq rfl rfl
    rfl

/-- A fresh identifier was issued one way only. -/
theorem FreshIds.not_both {h : List Event} (hf : FreshIds h) {id : RpcId} {p q : Bytes}
    (hp : .requested id p ∈ h) : .requestedOneWay id q ∉ h := by
  intro hq
  cases eq_of_nodup_filterMap hf hp hq rfl rfl

/-! ### The requester -/

/-- What happens once to a request and its reply. -/
structure Rpc.Once (ph : Phase) (r : Rpc) : Prop where
  outgoing : ∀ id ∈ r.outgoingRequests, .completed id ∉ r.history
  delayed : ∀ id ∈ r.delayedRequests, .completed id ∉ r.history
  issuing : ∀ id p, ph = .issuing id p → .completed id ∉ r.history
  completing : ∀ id, ph = .completing id →
    .completed id ∈ r.history ∧ ∀ p, .queued id p ∉ r.history
  queued : ∀ id p, .queued id p ∈ r.history →
    .completed id ∈ r.history ∧ ∃ q, .requested id q ∈ r.history
  disposed : ∀ id, .completed id ∈ r.history → ph = .completing id ∨
    (∃ p, .queued id p ∈ r.history) ∨ ∃ p, .requestedOneWay id p ∈ r.history
  oneWay : ∀ id p, .requestedOneWay id p ∈ r.history →
    id ∈ r.oneWayRequests ∨ .completed id ∈ r.history ∧ ph ≠ .completing id
  handed : ∀ id p, .handed id p ∈ r.history → id ∉ r.incomingReplies
  handedOnce : (handedIds r.history).Nodup

namespace Rpc.Once

variable {r : Rpc} {ph : Phase} {id : RpcId} {p : Bytes}

theorem new (flaky : Bool) : (BiDirectionalRpc.new flaky).Once .idle where
  outgoing := by simp [BiDirectionalRpc.new]
  delayed := by simp [BiDirectionalRpc.new]
  issuing := by simp
  completing := by simp
  queued := by simp [BiDirectionalRpc.new]
  disposed := by simp [BiDirectionalRpc.new]
  oneWay := by simp [BiDirectionalRpc.new]
  handed := by simp [BiDirectionalRpc.new]
  handedOnce := by simp [BiDirectionalRpc.new, handedIds]

/-- A request is made. -/
theorem issue {e : Event} (h : r.Once .idle)
    (he : e = .requested id p ∨ e = .requestedOneWay id p) (hnew : .completed id ∉ r.history)
    {o : Finset RpcId} (ho : r.oneWayRequests ⊆ o) (hone : e = .requestedOneWay id p → id ∈ o) :
    ({ r.record e with oneWayRequests := o } : Rpc).Once (.issuing id p) := by
  have hpre : r.history <+: r.history ++ [e] := List.prefix_append _ _
  have hcomp : ∀ a, .completed a ∈ r.history ++ [e] ↔ .completed a ∈ r.history := fun a => by
    rcases he with rfl | rfl <;> simp
  have hque : ∀ a q, .queued a q ∈ r.history ++ [e] ↔ .queued a q ∈ r.history := fun a q => by
    rcases he with rfl | rfl <;> simp
  have hhand : handedIds (r.history ++ [e]) = handedIds r.history := by
    rcases he with rfl | rfl <;> simp [handedIds]
  constructor
  · exact fun a ha hc => h.outgoing a ha ((hcomp a).mp hc)
  · exact fun a ha hc => h.delayed a ha ((hcomp a).mp hc)
  · rintro _ _ ⟨⟩ hc
    exact hnew ((hcomp id).mp hc)
  · simp
  · intro a q hq
    obtain ⟨hc, q', hq'⟩ := h.queued a q ((hque a q).mp hq)
    exact ⟨hpre.subset hc, q', hpre.subset hq'⟩
  · intro a ha
    rcases h.disposed a ((hcomp a).mp ha) with hph | ⟨q, hq⟩ | ⟨q, hq⟩
    · cases hph
    · exact .inr (.inl ⟨q, hpre.subset hq⟩)
    · exact .inr (.inr ⟨q, hpre.subset hq⟩)
  · intro a q hq
    rcases List.mem_append.mp hq with hq | hq
    · rcases h.oneWay a q hq with ha | ⟨hc, -⟩
      · exact .inl (ho ha)
      · exact .inr ⟨hpre.subset hc, by simp⟩
    · have heq := List.mem_singleton.mp hq
      rcases he with rfl | rfl
      · cases heq
      · cases heq
        exact .inl (hone rfl)
  · intro a q hq
    refine h.handed a q ?_
    rcases he with rfl | rfl <;> simpa [Rpc.record] using hq
  · exact hhand ▸ h.handedOnce

/-- A request goes out. -/
theorem insertOutgoing (h : r.Once ph) (hid : .completed id ∉ r.history)
    {clock : ClockSynchronizer} :
    ({ r with
      outgoingRequests := r.outgoingRequests.insert id p, clock := clock } : Rpc).Once ph := by
  refine { h with outgoing := fun a ha => ?_ }
  rcases (AList.mem_insert _).mp ha with rfl | ha
  · exact hid
  · exact h.outgoing a ha

theorem insertDelayed (h : r.Once ph) (hid : .completed id ∉ r.history) :
    ({ r with delayedRequests := r.delayedRequests.insert id p } : Rpc).Once ph := by
  refine { h with delayed := fun a ha => ?_ }
  rcases (AList.mem_insert _).mp ha with rfl | ha
  · exact hid
  · exact h.delayed a ha

/-- The operation in progress ends, with nothing left to dispose of. -/
theorem done (h : r.Once ph) (hph : ∀ id, ph ≠ .completing id) {ph' : Phase}
    (hph' : ∀ id, ph' ≠ .completing id) (hiss : ∀ id p, ph' ≠ .issuing id p) : r.Once ph' :=
  { h with
    issuing := fun a q ha => absurd ha (hiss a q)
    completing := fun a ha => absurd ha (hph' a)
    disposed := fun a ha => (h.disposed a ha).imp_left fun heq => absurd heq (hph a)
    oneWay := fun a q ha => (h.oneWay a q ha).imp_right fun hc => ⟨hc.1, hph' a⟩ }

/-- A request is completed. -/
theorem complete (h : r.Once .idle) (hc : r.Consistent .idle) (hid : id ∈ r.outgoingRequests) :
    ({ r.record (.completed id) with
      outgoingRequests := r.outgoingRequests.erase id } : Rpc).Once (.completing id) := by
  have hpre : r.history <+: r.history ++ [.completed id] := List.prefix_append _ _
  have hcomp : ∀ {a}, a ≠ id → .completed a ∈ r.history ++ [.completed id] →
      .completed a ∈ r.history := by
    intro a hne ha
    simpa [hne] using ha
  constructor
  · intro a ha hca
    obtain ⟨hne, ha⟩ := AList.mem_erase.mp ha
    exact h.outgoing a ha (hcomp hne hca)
  · intro a ha hca
    refine h.delayed a ha (hcomp ?_ hca)
    rintro rfl
    exact Int64.lt_irrefl ((hc.ordered (by simp)).lt_delayed _ hid _ ha)
  · simp
  · rintro _ ⟨⟩
    refine ⟨List.mem_append_right _ (List.mem_singleton.mpr rfl), fun q hq => ?_⟩
    have hq' : .queued id q ∈ r.history := by simpa [Rpc.record] using hq
    exact h.outgoing id hid (h.queued id q hq').1
  · intro a q hq
    have hq' : .queued a q ∈ r.history := by simpa [Rpc.record] using hq
    obtain ⟨hca, q', hq''⟩ := h.queued a q hq'
    exact ⟨hpre.subset hca, q', hpre.subset hq''⟩
  · intro a ha
    by_cases heq : a = id
    · exact .inl (by rw [heq])
    · rcases h.disposed a (hcomp heq ha) with hph | ⟨q, hq⟩ | ⟨q, hq⟩
      · cases hph
      · exact .inr (.inl ⟨q, hpre.subset hq⟩)
      · exact .inr (.inr ⟨q, hpre.subset hq⟩)
  · intro a q hq
    have hq' : .requestedOneWay a q ∈ r.history := by simpa [Rpc.record] using hq
    rcases h.oneWay a q hq' with ha | ⟨hca, -⟩
    · exact .inl ha
    · refine .inr ⟨hpre.subset hca, ?_⟩
      rintro ⟨⟩
      exact h.outgoing _ hid hca
  · intro a q hq
    exact h.handed a q (by simpa [Rpc.record] using hq)
  · have hhand : handedIds (r.history ++ [.completed id]) = handedIds r.history := by
      simp [handedIds]
    exact hhand ▸ h.handedOnce

/-- The reply is queued. -/
theorem queue (h : r.Once (.completing id)) (hr : r.Requesting (.completing id))
    (hv : r.Receiving) (hone : id ∉ r.oneWayRequests) :
    ({ r.record (.queued id p) with
      incomingReplies := UnorderedMap.emplace id p r.incomingReplies } : Rpc).Once
        (.settled id) := by
  have hpre : r.history <+: r.history ++ [.queued id p] := List.prefix_append _ _
  obtain ⟨hcid, hqid⟩ := h.completing id rfl
  have hcomp : ∀ {a}, .completed a ∈ r.history ++ [.queued id p] → .completed a ∈ r.history :=
    fun ha => by simpa using ha
  constructor
  · exact fun a ha hca => h.outgoing a ha (hcomp hca)
  · exact fun a ha hca => h.delayed a ha (hcomp hca)
  · simp
  · simp
  · intro a q hq
    simp only [Rpc.record, List.mem_append, List.mem_singleton, Event.queued.injEq] at hq
    rcases hq with hq | ⟨rfl, rfl⟩
    · obtain ⟨hca, q', hq'⟩ := h.queued a q hq
      exact ⟨hpre.subset hca, q', hpre.subset hq'⟩
    · refine ⟨hpre.subset hcid, ?_⟩
      obtain ⟨q', hq' | hq'⟩ := hr.completed _ hcid
      · exact ⟨q', hpre.subset hq'⟩
      · rcases h.oneWay _ q' hq' with ha | ⟨-, hne⟩
        · exact absurd ha hone
        · exact absurd rfl hne
  · intro a ha
    rcases h.disposed a (hcomp ha) with hph | ⟨q, hq⟩ | ⟨q, hq⟩
    · cases hph
      exact .inr (.inl ⟨p, List.mem_append_right _ (List.mem_singleton.mpr rfl)⟩)
    · exact .inr (.inl ⟨q, hpre.subset hq⟩)
    · exact .inr (.inr ⟨q, hpre.subset hq⟩)
  · intro a q hq
    have hq' : .requestedOneWay a q ∈ r.history := by simpa [Rpc.record] using hq
    exact (h.oneWay a q hq').imp_right fun hca => ⟨hpre.subset hca.1, by simp⟩
  · intro a q hq
    have hq' : .handed a q ∈ r.history := by simpa [Rpc.record] using hq
    have hnot : id ∉ r.incomingReplies := by
      intro hm
      obtain ⟨q', hq'⟩ := Option.isSome_iff_exists.mp (AList.lookup_isSome.mpr hm)
      exact hqid q' (hv.incoming id q' hq')
    simp only [UnorderedMap.emplace_eq_insert hnot]
    intro hm
    rcases (AList.mem_insert _).mp hm with rfl | hm
    · exact hqid q (hv.handed _ q hq')
    · exact h.handed a q hq' hm
  · have hhand : handedIds (r.history ++ [.queued id p]) = handedIds r.history := by
      simp [handedIds]
    exact hhand ▸ h.handedOnce

/-- Nobody waits for the reply. -/
theorem forget (h : r.Once (.completing id)) (hr : r.Requesting (.completing id))
    (hone : id ∈ r.oneWayRequests) :
    ({ r with oneWayRequests := r.oneWayRequests.erase id } : Rpc).Once (.settled id) := by
  refine { h with issuing := by simp, completing := by simp, disposed := ?_, oneWay := ?_ }
  · intro a ha
    rcases h.disposed a ha with hph | hq
    · cases hph
      exact .inr (.inr (hr.oneWay _ hone))
    · exact .inr hq
  · intro a q hq
    by_cases heq : a = id
    · subst heq
      exact .inr ⟨(h.completing _ rfl).1, by simp⟩
    · refine (h.oneWay a q hq).imp (fun ha => Finset.mem_erase.mpr ⟨heq, ha⟩) fun hca => ?_
      exact ⟨hca.1, by simp⟩

/-- A reply is handed to the application. -/
theorem take {P : LruPolicy} {n : Nat} (h : r.Once .idle) (hin : id ∈ r.incomingReplies) :
    ({ r.record (.handed id p) with
      processedReplies := r.processedReplies.put P n id
      incomingReplies := r.incomingReplies.erase id } : Rpc).Once .idle := by
  have hpre : r.history <+: r.history ++ [.handed id p] := List.prefix_append _ _
  have hcomp : ∀ {a}, .completed a ∈ r.history ++ [.handed id p] → .completed a ∈ r.history :=
    fun ha => by simpa using ha
  constructor
  · exact fun a ha hca => h.outgoing a ha (hcomp hca)
  · exact fun a ha hca => h.delayed a ha (hcomp hca)
  · simp
  · simp
  · intro a q hq
    have hq' : .queued a q ∈ r.history := by simpa [Rpc.record] using hq
    obtain ⟨hca, q', hq''⟩ := h.queued a q hq'
    exact ⟨hpre.subset hca, q', hpre.subset hq''⟩
  · intro a ha
    rcases h.disposed a (hcomp ha) with hph | ⟨q, hq⟩ | ⟨q, hq⟩
    · cases hph
    · exact .inr (.inl ⟨q, hpre.subset hq⟩)
    · exact .inr (.inr ⟨q, hpre.subset hq⟩)
  · intro a q hq
    have hq' : .requestedOneWay a q ∈ r.history := by simpa [Rpc.record] using hq
    exact (h.oneWay a q hq').imp_right fun hca => ⟨hpre.subset hca.1, by simp⟩
  · intro a q hq hm
    obtain ⟨hne, hm⟩ := AList.mem_erase.mp hm
    have hq' : .handed a q ∈ r.history := by simpa [Rpc.record, hne] using hq
    exact h.handed a q hq' hm
  · have hhand : handedIds (r.history ++ [.handed id p]) = handedIds r.history ++ [id] := by
      simp [handedIds]
    have hid : id ∉ handedIds r.history := by
      intro hm
      obtain ⟨q, hq⟩ := mem_handedIds.mp hm
      exact h.handed id q hq hin
    simp only [Rpc.record, hhand]
    exact List.nodup_append.mpr ⟨h.handedOnce, List.nodup_singleton _, fun a ha b hb heq =>
      hid (List.mem_singleton.mp hb ▸ heq ▸ ha)⟩

/-- An event that is none of the requester's. -/
theorem record {e : Event} (h : r.Once ph) (he : (∃ a q, e = .accepted a q) ∨
    ∃ a q, e = .replied a q) : (r.record e).Once ph := by
  have hmem : ∀ e' ∈ r.history ++ [e], e' = e ∨ e' ∈ r.history := fun e' he' => by
    rcases List.mem_append.mp he' with h' | h'
    · exact .inr h'
    · exact .inl (List.mem_singleton.mp h')
  have hpre : r.history <+: r.history ++ [e] := List.prefix_append _ _
  have hcomp : ∀ {a}, .completed a ∈ r.history ++ [e] → .completed a ∈ r.history := by
    intro a ha
    rcases hmem _ ha with rfl | ha
    · rcases he with ⟨_, _, ⟨⟩⟩ | ⟨_, _, ⟨⟩⟩
    · exact ha
  have hque : ∀ {a q}, .queued a q ∈ r.history ++ [e] → .queued a q ∈ r.history := by
    intro a q ha
    rcases hmem _ ha with rfl | ha
    · rcases he with ⟨_, _, ⟨⟩⟩ | ⟨_, _, ⟨⟩⟩
    · exact ha
  constructor
  · exact fun a ha hca => h.outgoing a ha (hcomp hca)
  · exact fun a ha hca => h.delayed a ha (hcomp hca)
  · exact fun a q ha hca => h.issuing a q ha (hcomp hca)
  · exact fun a ha => ⟨hpre.subset (h.completing a ha).1,
      fun q hq => (h.completing a ha).2 q (hque hq)⟩
  · intro a q hq
    obtain ⟨hca, q', hq'⟩ := h.queued a q (hque hq)
    exact ⟨hpre.subset hca, q', hpre.subset hq'⟩
  · intro a ha
    rcases h.disposed a (hcomp ha) with hph | ⟨q, hq⟩ | ⟨q, hq⟩
    · exact .inl hph
    · exact .inr (.inl ⟨q, hpre.subset hq⟩)
    · exact .inr (.inr ⟨q, hpre.subset hq⟩)
  · intro a q hq
    have hq' : .requestedOneWay a q ∈ r.history := by
      rcases hmem _ hq with rfl | hq
      · rcases he with ⟨_, _, ⟨⟩⟩ | ⟨_, _, ⟨⟩⟩
      · exact hq
    exact (h.oneWay a q hq').imp_right fun hca => ⟨hpre.subset hca.1, hca.2⟩
  · intro a q hq
    refine h.handed a q ?_
    rcases hmem _ hq with rfl | hq
    · rcases he with ⟨_, _, ⟨⟩⟩ | ⟨_, _, ⟨⟩⟩
    · exact hq
  · have hhand : handedIds (r.history ++ [e]) = handedIds r.history := by
      rcases he with ⟨_, _, rfl⟩ | ⟨_, _, rfl⟩ <;> simp [handedIds]
    exact hhand ▸ h.handedOnce

theorem rehash {r' : Rpc} (h : r.Once .idle) (hr : r.Rehashed r') : r'.Once .idle := by
  have hhist : r'.history = r.history := by rw [hr.rest]
  have hone : r'.oneWayRequests = r.oneWayRequests := by rw [hr.rest]
  constructor
  · intro a ha
    rw [← AList.mem_of_perm hr.outgoingRequests] at ha
    exact hhist ▸ h.outgoing a ha
  · intro a ha
    rw [← AList.mem_of_perm hr.delayedRequests] at ha
    exact hhist ▸ h.delayed a ha
  · simp
  · simp
  · exact hhist ▸ h.queued
  · exact hhist ▸ h.disposed
  · rw [hhist, hone]
    exact h.oneWay
  · intro a q hq
    rw [← AList.mem_of_perm hr.incomingReplies]
    exact h.handed a q (hhist ▸ hq)
  · exact hhist ▸ h.handedOnce

end Rpc.Once

variable {L : Libraries} {R : Rights} {ph ph' : Phase} {r r' : Rpc}

/-- **Every move of a fresh endpoint keeps what happens once.** -/
theorem Move.once (hR : R.Faithful) (hm : Move L R ph r ph' r') (hf : FreshIds r'.history)
    (hc : r.Consistent ph) (hr : r.Requesting ph) (hv : r.Receiving) (h : r.Once ph) :
    r'.Once ph' := by
  cases hm with
  | @request _ id p =>
      have hnew : .completed id ∉ r.history := fun hm =>
        let ⟨q, hq⟩ := hr.completed id hm
        hf.notIssued (.inl rfl) q hq
      exact h.issue (.inl rfl) hnew (Finset.Subset.refl _) (by simp)
  | @requestOneWay _ id p =>
      have hnew : .completed id ∉ r.history := fun hm =>
        let ⟨q, hq⟩ := hr.completed id hm
        hf.notIssued (.inr rfl) q hq
      exact h.issue (.inr rfl) hnew (Finset.subset_insert _ _)
        fun _ => Finset.mem_insert_self _ _
  | greet hmay => exact absurd hmay hR.greets
  | start => exact (h.insertOutgoing (h.issuing _ _ rfl)).done (by simp) (by simp) (by simp)
  | delay => exact (h.insertDelayed (h.issuing _ _ rfl)).done (by simp) (by simp) (by simp)
  | release hid =>
      exact h.insertOutgoing (h.delayed _ (AList.lookup_isSome.mp (by rw [hid]; rfl)))
  | unqueue => exact { h with delayed := fun a ha => h.delayed a (AList.mem_erase.mp ha).2 }
  | accept => exact { h.record (.inl ⟨_, _, rfl⟩) with }
  | answer => exact { h.record (.inr ⟨_, _, rfl⟩) with }
  | complete hmay hid => exact h.complete hc hid
  | queue hmay hord hone => exact h.queue hr hv hone
  | forget hord hone => exact h.forget hr hone
  | drop hmay => exact absurd hmay hR.drops
  | stopClock =>
      have h' : r.Once .idle := h.done (by simp) (by simp) (by simp)
      exact { h' with }
  | take hmay hin => exact h.take (AList.lookup_isSome.mp (by rw [hin]; rfl))
  | discard | advance | close => exact { h with }
  | rehash hr => exact h.rehash hr

/-! ### The responder -/

/-- What happens once to a request of the other side. -/
structure Rpc.Remembers (r : Rpc) : Prop where
  processed : ∀ id q, .replied id q ∈ r.history → id ∈ r.processedRequests.keys
  length : r.processedRequests.keys.length ≤ (repliedIds r.history).length
  incoming : ∀ id ∈ r.incomingRequests, ∀ q, .replied id q ∉ r.history
  acceptedOnce : (acceptedIds r.history).Nodup
  repliedOnce : (repliedIds r.history).Nodup

namespace Rpc.Remembers

variable {r : Rpc} {id : RpcId} {p : Bytes}

theorem new (flaky : Bool) : (BiDirectionalRpc.new flaky).Remembers where
  processed := by simp [BiDirectionalRpc.new]
  length := by simp [BiDirectionalRpc.new]
  incoming := by simp [BiDirectionalRpc.new]
  acceptedOnce := by simp [BiDirectionalRpc.new, acceptedIds]
  repliedOnce := by simp [BiDirectionalRpc.new, repliedIds]

theorem record {e : Event} (h : r.Remembers) (h₁ : ∀ id p, e ≠ .accepted id p)
    (h₂ : ∀ id p, e ≠ .replied id p) : (r.record e).Remembers := by
  have hrep : ∀ {a q}, .replied a q ∈ r.history ++ [e] → .replied a q ∈ r.history :=
    fun {a q} ha => by simpa [(h₂ a q).symm] using ha
  have hacc : acceptedIds (r.history ++ [e]) = acceptedIds r.history := by
    cases e with
    | accepted a q => exact absurd rfl (h₁ a q)
    | _ => simp [acceptedIds]
  have hreps : repliedIds (r.history ++ [e]) = repliedIds r.history := by
    cases e with
    | replied a q => exact absurd rfl (h₂ a q)
    | _ => simp [repliedIds]
  constructor
  · exact fun a q ha => h.processed a q (hrep ha)
  · exact hreps ▸ h.length
  · exact fun a ha q hq => h.incoming a ha q (hrep hq)
  · exact hacc ▸ h.acceptedOnce
  · exact hreps ▸ h.repliedOnce

theorem accept (h : r.Remembers) (ha : r.Answering) (hin : id ∉ r.incomingRequests)
    (hproc : id ∉ r.processedRequests.keys) :
    ({ r.record (.accepted id p) with
      incomingRequests := r.incomingRequests.insert id p } : Rpc).Remembers := by
  have hnew : ∀ q, .replied id q ∉ r.history := fun q hq => hproc (h.processed id q hq)
  have hrep : ∀ {a q}, .replied a q ∈ r.history ++ [.accepted id p] → .replied a q ∈ r.history :=
    fun hq => by simpa using hq
  have hacc : acceptedIds (r.history ++ [.accepted id p]) = acceptedIds r.history ++ [id] := by
    simp [acceptedIds]
  have hreps : repliedIds (r.history ++ [.accepted id p]) = repliedIds r.history := by
    simp [repliedIds]
  constructor
  · exact fun a q hq => h.processed a q (hrep hq)
  · exact hreps ▸ h.length
  · intro a hm q hq
    rcases (AList.mem_insert _).mp hm with rfl | hm
    · exact hnew q (hrep hq)
    · exact h.incoming a hm q (hrep hq)
  · have hid : id ∉ acceptedIds r.history := by
      intro hm
      obtain ⟨q, hq⟩ := mem_acceptedIds.mp hm
      rcases ha.accepted id q hq with hm | ⟨q', hq'⟩
      · exact hin hm
      · exact hnew q' hq'
    simp only [Rpc.record, hacc]
    exact List.nodup_append.mpr ⟨h.acceptedOnce, List.nodup_singleton _, fun a ha b hb heq =>
      hid (List.mem_singleton.mp hb ▸ heq ▸ ha)⟩
  · exact hreps ▸ h.repliedOnce

theorem answer {P : LruPolicy} {n : Nat} (h : r.Remembers) (hin : id ∈ r.incomingRequests)
    (hn : (repliedIds r.history).length < n) :
    ({ r.record (.replied id p) with
      incomingRequests := r.incomingRequests.erase id
      processedRequests := r.processedRequests.put P n id
      outgoingReplies := r.outgoingReplies.insert id p } : Rpc).Remembers := by
  have hlt : r.processedRequests.keys.length < n := Nat.lt_of_le_of_lt h.length hn
  have hreps : repliedIds (r.history ++ [.replied id p]) = repliedIds r.history ++ [id] := by
    simp [repliedIds]
  have hacc : acceptedIds (r.history ++ [.replied id p]) = acceptedIds r.history := by
    simp [acceptedIds]
  constructor
  · intro a q hq
    simp only [Rpc.record, List.mem_append, List.mem_singleton, Event.replied.injEq] at hq
    rcases hq with hq | ⟨rfl, rfl⟩
    · exact (LruCache.mem_put_of_length_lt hlt).mpr (.inr (h.processed a q hq))
    · exact (LruCache.mem_put_of_length_lt hlt).mpr (.inl rfl)
  · simp only [Rpc.record, hreps, List.length_append, List.length_singleton]
    exact LruCache.length_put_le.trans (Nat.add_le_add_right h.length 1)
  · intro a hm q hq
    obtain ⟨hne, hm⟩ := AList.mem_erase.mp hm
    have hq' : .replied a q ∈ r.history := by simpa [Rpc.record, hne] using hq
    exact h.incoming a hm q hq'
  · exact hacc ▸ h.acceptedOnce
  · have hid : id ∉ repliedIds r.history := by
      intro hm
      obtain ⟨q, hq⟩ := mem_repliedIds.mp hm
      exact h.incoming id hin q hq
    simp only [Rpc.record, hreps]
    exact List.nodup_append.mpr ⟨h.repliedOnce, List.nodup_singleton _, fun a ha b hb heq =>
      hid (List.mem_singleton.mp hb ▸ heq ▸ ha)⟩

theorem rehash {r' : Rpc} (h : r.Remembers) (hr : r.Rehashed r') : r'.Remembers := by
  have hhist : r'.history = r.history := by rw [hr.rest]
  have hproc : r'.processedRequests = r.processedRequests := by rw [hr.rest]
  constructor
  · rw [hhist, hproc]
    exact h.processed
  · rw [hhist, hproc]
    exact h.length
  · intro a ha
    rw [← AList.mem_of_perm hr.incomingRequests] at ha
    exact hhist ▸ h.incoming a ha
  · exact hhist ▸ h.acceptedOnce
  · exact hhist ▸ h.repliedOnce

end Rpc.Remembers

/-- **Every move within the capacity keeps what happens once.** -/
theorem Move.remembers (hm : Move L R ph r ph' r')
    (hn : (repliedIds r'.history).length ≤ processedCapacity) (ha : r.Answering)
    (h : r.Remembers) : r'.Remembers := by
  cases hm with
  | accept hmay hin hproc => exact { h.accept ha hin hproc with }
  | @answer _ id p hmay hin =>
      have hreps : repliedIds (r.history ++ [.replied id p]) = repliedIds r.history ++ [id] := by
        simp [repliedIds]
      simp only [Rpc.record, hreps, List.length_append, List.length_singleton] at hn
      exact h.answer hin hn
  | request | requestOneWay | complete | queue | take =>
      exact { h.record (by simp) (by simp) with }
  | greet | start | delay | release | unqueue | forget | drop | stopClock | discard | advance
  | close => exact { h with }
  | rehash hr => exact h.rehash hr

end Wga
