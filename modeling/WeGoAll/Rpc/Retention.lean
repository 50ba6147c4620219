import WeGoAll.Rpc.ExactlyOnce

/-!
# Rpc — Retention

A reply is kept until the other side has disposed of it.

* `Kept`: whatever was replied to is still stored or was completed, and only what was completed and
  disposed of is acknowledged.
* `Pair.run_kept`: it holds in every run with fresh identifiers, in both directions.
* `retention`: no answer is dropped while it is still needed.
-/

namespace Wga

variable {L : Libraries} {R : Rights}

/-- The reply is queued, or nobody waits for it. -/
def Disposed (h : List Event) (id : RpcId) : Prop :=
  (∃ p, .queued id p ∈ h) ∨ ∃ p, .requestedOneWay id p ∈ h

theorem Disposed.mono {h h' : List Event} {id : RpcId} (hd : Disposed h id) (hp : h <+: h') :
    Disposed h' id :=
  hd.imp (fun ⟨p, hq⟩ => ⟨p, hp.subset hq⟩) fun ⟨p, hq⟩ => ⟨p, hp.subset hq⟩

/-- The acknowledgements `x` sent and the replies `y` stored. -/
structure Kept (L : Libraries) (x : Rpc) (t : List Sent) (y : Rpc) : Prop where
  acknowledged : ∀ m ∈ t, ∀ uid q, m.message = (Packet.acknowledge uid q).message L →
    .completed uid ∈ x.history ∧ Disposed x.history uid
  stored : ∀ id q, .replied id q ∈ y.history → id ∈ y.outgoingReplies ∨ .completed id ∈ x.history

namespace Kept

variable {x x' y y' : Rpc} {t : List Sent} {ph ph' : Phase}

/-- A move of the requester. -/
theorem requester_move (h : Kept L x t y) (hm : Move L R ph x ph' x') : Kept L x' t y where
  acknowledged := fun m hm' uid q hq =>
    let ⟨hc, hd⟩ := h.acknowledged m hm' uid q hq
    ⟨hm.history.subset hc, hd.mono hm.history⟩
  stored := fun id q hq => (h.stored id q hq).imp_right fun hc => hm.history.subset hc

/-- The requester acknowledges only what it has disposed of. -/
theorem requester_send (h : Kept L x t y) (hR : R.Justified y) (hl : Link x y)
    (hy : y.Answering) (hr : x.Requesting ph) (hv : x.Receiving) (ho : x.Once ph) {p : Packet}
    (hp : Sends R ph x p) : Kept L x (t ++ [⟨x.history, p.message L⟩]) y := by
  refine { h with acknowledged := fun m hm uid q hq => ?_ }
  rcases List.mem_append.mp hm with hm | hm
  · exact h.acknowledged m hm uid q hq
  cases List.mem_singleton.mp hm
  have hobj : p.objects = BiDirectionalRpc.acknowledgeObjects uid q := by
    have h := congrArg L.unpack hq
    simp only [Packet.message, L.unpack_pack, Unpacked.mk.injEq, and_true] at h
    exact h
  cases Packet.eq_acknowledge hobj
  have hcomp : .completed uid ∈ x.history := by
    rcases hp with hph | ⟨-, hmay, hin | hproc | hout⟩
    · exact hr.progress uid (.inr hph)
    · obtain ⟨b, hb⟩ := Option.isSome_iff_exists.mp (AList.lookup_isSome.mpr hin)
      exact (ho.queued uid b (hv.incoming uid b hb)).1
    · obtain ⟨b, hb⟩ := hv.processed uid hproc
      exact (ho.queued uid b hb).1
    · -- an unknown request that was replied to was sent, so it was completed
      obtain ⟨b, hb⟩ := hR.completed x uid hmay
      obtain ⟨a, ha⟩ := hy.replied uid b hb
      exact (hl.accepted uid a ha).2.resolve_left hout
  refine ⟨hcomp, (ho.disposed uid hcomp).resolve_left ?_⟩
  rintro rfl
  rcases hp with hph | ⟨hph, -⟩ <;> cases hph

/-- A move of the responder. -/
theorem responder_move (h : Kept L x t y) (hm : Move L R ph y ph' y')
    (hR : ∀ uid, R.discards uid → .completed uid ∈ x.history) : Kept L x t y' := by
  refine { h with stored := fun id q hq => ?_ }
  cases hm with
  | @answer _ a b hmay hin =>
      simp only [Rpc.record, List.mem_append, List.mem_singleton, Event.replied.injEq] at hq
      rcases hq with hq | ⟨rfl, rfl⟩
      · exact (h.stored id q hq).imp_left fun hs => (AList.mem_insert _).mpr (.inr hs)
      · exact .inl ((AList.mem_insert _).mpr (.inl rfl))
  | @discard _ a _ hmay =>
      by_cases heq : id = a
      · exact .inr (heq ▸ hR a hmay)
      · exact (h.stored id q hq).imp_left fun hs => AList.mem_erase.mpr ⟨heq, hs⟩
  | request | requestOneWay | accept | complete | queue | take =>
      exact h.stored id q ((List.mem_append.mp hq).resolve_right (by simp))
  | greet | start | delay | release | unqueue | forget | drop | stopClock | advance | close =>
      exact h.stored id q hq
  | rehash hr =>
      rw [hr.rest] at hq
      exact (h.stored id q hq).imp_left fun hs => (AList.mem_of_perm hr.outgoingReplies).mp hs

end Kept

namespace Pair

/-- One side takes a path: its acknowledgements and its stored replies stay justified. -/
theorem kept_path {y : PlainRpc} {a b : Point (List Sent)} (hp : Path L R (Posts L R) a b)
    (hf : R.Faithful) (hR : R.Justified y.rpc)
    (hdis : ∀ uid, R.discards uid → .completed uid ∈ y.rpc.history)
    (hy : PlainRpc.Inv L (y.at .idle)) (ha : PlainRpc.Inv L a)
    (hl : Link a.rpc y.rpc ∧ Link y.rpc a.rpc)
    (ho : FreshIds a.rpc.history → a.rpc.Once a.phase) (hfresh : FreshIds b.rpc.history)
    (hk : Kept L a.rpc a.sub y.rpc) (hk' : Kept L y.rpc y.sub a.rpc) :
    Kept L b.rpc b.sub y.rpc ∧ Kept L y.rpc y.sub b.rpc := by
  -- the freshness at the end carries over to every point of the path
  induction hp with
  | refl => exact ⟨hk, hk'⟩
  | @tail c d hac hcd ih =>
      have hpre : c.rpc.history <+: d.rpc.history := Path.history (.single hcd)
      have hfc := hfresh.of_isPrefix hpre
      obtain ⟨h₁, h₂⟩ := ih hfc
      have hic := Path.inv hf hac ha
      have hlc := Link.path hac hR hf ha hl
      have hoc := PlainRpc.path_once hac hf ha ho hfc
      cases hcd with
      | move hm => exact ⟨h₁.requester_move hm, h₂.responder_move hm hdis⟩
      | quiet hq =>
          obtain ⟨p, hs, rfl⟩ := hq
          exact ⟨h₁.requester_send hR hlc.1 hy.answering hic.requesting hic.receiving hoc hs, h₂⟩

/-- What an event allows to discard was completed and disposed of by the other side. -/
theorem gives_discards {x : Rpc} {y : PlainRpc} {e : PairEvent} (hg : e.Gives L y R)
    (hk : Kept L y.rpc y.sub x) {uid : RpcId} (hd : R.discards uid) :
    .completed uid ∈ y.rpc.history ∧ Disposed y.rpc.history uid := by
  cases hg with
  | call x c => exact hd.elim
  | deliver x hm hp =>
      obtain ⟨q, rfl⟩ := hd
      exact hk.acknowledged _ hm uid q hp
  | rehash x => exact hd.elim

/-- **Every run with fresh identifiers keeps what is needed.** -/
theorem run_kept {es : List PairEvent} {s : Pair} (r : (exchange L).Run es s)
    (hfresh : ∀ x, FreshIds (s x).rpc.history) (x : Side) :
    Kept L (s x).rpc (s x).sub (s x.other).rpc := by
  revert x
  induction r with
  | @start s hs =>
      intro x
      obtain ⟨f, env, hx⟩ := hs x
      obtain ⟨f', env', hx'⟩ := hs x.other
      rw [hx, hx']
      refine ⟨fun m hm => ?_, fun id q hq => ?_⟩
      · cases hm
      · cases hq
  | @snoc es e s s' r h ih =>
      have hs := run_linked r
      obtain ⟨R, hg, hother, hpath⟩ := Pair.Step.path h hs.inv
      have hf₀ : ∀ x, FreshIds (s x).rpc.history := by
        refine (Side.forall_iff e.side).mpr ⟨?_, ?_⟩
        · exact (hfresh e.side).of_isPrefix hpath.history
        · rw [← hother]
          exact hfresh e.side.other
      have hk := ih hf₀
      have hback := hs.link e.side.other
      have hkback := hk e.side.other
      rw [Side.other_other] at hback hkback
      obtain ⟨h₁, h₂⟩ := kept_path hpath hg.faithful (hg.justified (hs.inv e.side.other))
        (fun uid hd => (gives_discards hg hkback hd).1) (hs.inv e.side.other) (hs.inv e.side)
        ⟨hs.link e.side, hback⟩ (run_once r e.side) (hfresh e.side) (hk e.side) hkback
      refine (Side.forall_iff e.side).mpr ⟨?_, ?_⟩
      · rw [hother]
        exact h₁
      · rw [hother, Side.other_other]
        exact h₂

end Pair

/-- A stored reply goes only where it may be discarded. -/
theorem Path.stored {a b : Point (List Sent)} (hp : Path L R (Posts L R) a b) {id : RpcId}
    (ha : id ∈ a.rpc.outgoingReplies) : id ∈ b.rpc.outgoingReplies ∨ R.discards id := by
  refine hp.invariant_rpc (I := fun _ r => id ∈ r.outgoingReplies ∨ R.discards id)
    (fun ph r ph' r' hr hm => hr.elim (fun hid => ?_) .inr) (.inl ha)
  cases hm with
  | answer => exact .inl ((AList.mem_insert _).mpr (.inr hid))
  | @discard _ c _ hmay =>
      by_cases heq : id = c
      · exact .inr (heq ▸ hmay)
      · exact .inl (AList.mem_erase.mpr ⟨heq, hid⟩)
  | request | requestOneWay | greet | start | delay | release | unqueue | accept | complete
  | queue | forget | drop | stopClock | take | advance | close => exact .inl hid
  | rehash hr => exact .inl ((AList.mem_of_perm hr.outgoingReplies).mp hid)

/-- **No answer is dropped while it is needed.**  In every run with fresh identifiers, a request in
flight was never accepted and is unknown to the other side, or waits for its reply there, or its
reply is still stored there.  A stored reply goes only when its request is no longer in flight and,
if it was two-way, a reply to it is queued: the one that goes, as long as the other side has
processed no more requests than `processedRequests` holds. -/
theorem retention {es : List PairEvent} {s : Pair} (r : (exchange L).Run es s)
    (hfresh : ∀ x, FreshIds (s x).rpc.history) (x : Side) :
    (∀ id ∈ (s x).rpc.outgoingRequests,
      ((∀ p, .accepted id p ∉ (s x.other).rpc.history) ∧
        id ∉ (s x.other).rpc.incomingRequests ∧
        id ∉ (s x.other).rpc.processedRequests.keys ∧
        id ∉ (s x.other).rpc.outgoingReplies) ∨
      id ∈ (s x.other).rpc.incomingRequests ∨ id ∈ (s x.other).rpc.outgoingReplies) ∧
    (∀ e s', Pair.Step L s e s' → ∀ id q,
      (s x.other).rpc.outgoingReplies.lookup id = some q →
      id ∉ (s' x.other).rpc.outgoingReplies →
      id ∉ (s x).rpc.outgoingRequests ∧ .completed id ∈ (s x).rpc.history ∧
      ∀ p, .requested id p ∈ (s x).rpc.history →
        (∃ q', .queued id q' ∈ (s x).rpc.history ∧ .replied id q' ∈ (s x.other).rpc.history) ∧
        ((repliedIds (s x.other).rpc.history).length ≤ processedCapacity →
          .queued id q ∈ (s x).rpc.history)) := by
  have hs := Pair.run_linked r
  have honce := Pair.run_once r x (hfresh x)
  have hk := Pair.run_kept r hfresh x
  have hans := (hs.inv x.other).answering
  refine ⟨fun id hid => ?_, fun e s' h id q hq hgone => ?_⟩
  · -- a request that was replied to and is in flight has its reply stored
    have hstored : ∀ q, .replied id q ∈ (s x.other).rpc.history →
        id ∈ (s x.other).rpc.outgoingReplies := fun q hq =>
      (hk.stored id q hq).resolve_right (honce.outgoing id hid)
    by_cases hacc : ∃ p, .accepted id p ∈ (s x.other).rpc.history
    · obtain ⟨p, hp⟩ := hacc
      rcases hans.accepted id p hp with hin | ⟨q, hq⟩
      · exact .inr (.inl hin)
      · exact .inr (.inr (hstored q hq))
    · have hrep : ∀ q, .replied id q ∉ (s x.other).rpc.history := fun q hq =>
        hacc (hans.replied id q hq)
      refine .inl ⟨fun p hp => hacc ⟨p, hp⟩, fun hin => ?_, fun hproc => ?_, fun hout => ?_⟩
      · obtain ⟨p, hp⟩ := Option.isSome_iff_exists.mp (AList.lookup_isSome.mpr hin)
        exact hacc ⟨p, hans.incoming id p hp⟩
      · obtain ⟨q, hq⟩ := hans.processed id hproc
        exact hrep q hq
      · obtain ⟨q, hq⟩ := Option.isSome_iff_exists.mp (AList.lookup_isSome.mpr hout)
        exact hrep q (hans.stored id q hq)
  · obtain ⟨R, hg, hother, hpath⟩ := h.path hs.inv
    have hmem : id ∈ (s x.other).rpc.outgoingReplies :=
      AList.lookup_isSome.mp (Option.isSome_of_eq_some hq)
    have hside : e.side = x.other := by
      rcases e.side.eq_or_other x with heq | heq
      · rw [heq] at hother
        rw [hother] at hgone
        exact absurd hmem hgone
      · exact heq
    rw [hside] at hg hpath
    rw [Side.other_other] at hg
    have hdis := (hpath.stored hmem).resolve_left hgone
    obtain ⟨hcomp, hdisp⟩ := Pair.gives_discards hg hk hdis
    refine ⟨fun hout => honce.outgoing id hout hcomp, hcomp, fun p hp => ?_⟩
    have hqueued : ∃ q', .queued id q' ∈ (s x).rpc.history :=
      hdisp.resolve_right fun ⟨q', hq'⟩ => (hfresh x).not_both hp hq'
    obtain ⟨q', hq'⟩ := hqueued
    have hrep := (hs.link x).queued id q' hq'
    refine ⟨⟨q', hq', hrep⟩, fun hcap => ?_⟩
    have hrem := Pair.run_remembers r x.other hcap
    cases eq_of_nodup_filterMap hrem.repliedOnce (hans.stored id q hq) hrep rfl rfl
    exact hq'

/-- What every request of the runs below says. -/
def greeting : Bytes := ascii ['H', 'I']

/-- A request, its reply and the acknowledgement of that. -/
def firstExchange : List PairEvent :=
  let L := Libraries.standIn
  [.call .left (.request 0 greeting),
    .deliver .right ((Packet.request [⟨⟨0, 0⟩, greeting⟩]).message L),
    .call .right (.reply ⟨0, 0⟩ PONG),
    .deliver .left ((Packet.reply [⟨⟨0, 0⟩, 0, 0, PONG⟩]).message L),
    .deliver .right ((Packet.acknowledge ⟨0, 0⟩ ACK_OK).message L)]

theorem firstExchange_acknowledge :
    ∃ s, (firstExchange.take 4).foldlM (Pair.exec .standIn) Pair.new = .ok s ∧
      FreshIds (s .left).rpc.history ∧ FreshIds (s .right).rpc.history ∧
      (repliedIds (s .right).rpc.history).length ≤ processedCapacity ∧
      .requested ⟨0, 0⟩ greeting ∈ (s .left).rpc.history ∧
      (s .right).rpc.outgoingReplies.lookup ⟨0, 0⟩ = some PONG ∧
      ∃ s', Pair.exec .standIn s (.deliver .right
        ((Packet.acknowledge ⟨0, 0⟩ ACK_OK).message .standIn)) = .ok s' ∧
        ⟨0, 0⟩ ∉ (s' .right).rpc.outgoingReplies := by
  decide +kernel

/-- The acknowledgement in that run erases a reply that is queued. -/
theorem retention_greeting : ∃ s e s', (exchange .standIn).Run (firstExchange.take 4) s ∧
    Pair.Step .standIn s e s' ∧ ⟨0, 0⟩ ∈ (s .right).rpc.outgoingReplies ∧
    ⟨0, 0⟩ ∉ (s' .right).rpc.outgoingReplies ∧
    .queued ⟨0, 0⟩ PONG ∈ (s .left).rpc.history := by
  obtain ⟨s, hs, hleft, hright, hcap, hreq, hout, s', h, hgone⟩ := firstExchange_acknowledge
  have r : (exchange .standIn).Run (firstExchange.take 4) s :=
    Pair.exec_run (fun _ => ⟨false, default, rfl⟩) hs
  have hfresh : ∀ x, FreshIds (s x).rpc.history := by
    intro x
    cases x
    · exact hleft
    · exact hright
  have hstep := Pair.exec_step h
  obtain ⟨-, -, hdone⟩ := (retention r hfresh .left).2 _ s' hstep ⟨0, 0⟩ PONG hout hgone
  exact ⟨s, _, s', r, hstep, AList.lookup_isSome.mp (Option.isSome_of_eq_some hout), hgone,
    (hdone greeting hreq).2 hcap⟩

end Wga
