import WeGoAll.Formats.Msgpack
import WeGoAll.Rpc.Exchange

/-!
# Rpc — ExactlyOnce

Every request is accepted at most once and every reply is handed to the application at most once,
with the payloads given, whatever the network does.

* `Pair.run_once`, `Pair.run_remembers`: what happens once at each endpoint of a run.
* `Pair.run_sourced`: a two-way request comes from the application, and so does every reply that is
  not given to a control word.
* `exactly_once`: the guarantee.
-/

namespace Wga

variable {L : Libraries} {R : Rights}

/-! ### What happens once -/

theorem PlainRpc.path_once {a b : Point (List Sent)} (hp : Path L R (Posts L R) a b)
    (hf : R.Faithful) (ha : PlainRpc.Inv L a)
    (h : FreshIds a.rpc.history → a.rpc.Once a.phase) :
    FreshIds b.rpc.history → b.rpc.Once b.phase := by
  refine (hp.invariant
    (I := fun c => PlainRpc.Inv L c ∧ (FreshIds c.rpc.history → c.rpc.Once c.phase))
    (fun c d hc hcd => ⟨hcd.inv hf hc.1, fun hfresh => ?_⟩) ⟨ha, h⟩).2
  obtain ⟨hi, ho⟩ := hc
  cases hcd with
  | move hm =>
      exact hm.once hf hfresh hi.consistent hi.requesting hi.receiving
        (ho (hfresh.of_isPrefix hm.history))
  | quiet hq => exact ho hfresh

theorem PlainRpc.path_remembers {a b : Point (List Sent)} (hp : Path L R (Posts L R) a b)
    (hf : R.Faithful) (ha : PlainRpc.Inv L a)
    (h : (repliedIds a.rpc.history).length ≤ processedCapacity → a.rpc.Remembers) :
    (repliedIds b.rpc.history).length ≤ processedCapacity → b.rpc.Remembers := by
  refine (hp.invariant (I := fun c => PlainRpc.Inv L c ∧
      ((repliedIds c.rpc.history).length ≤ processedCapacity → c.rpc.Remembers))
    (fun c d hc hcd => ⟨hcd.inv hf hc.1, fun hcap => ?_⟩) ⟨ha, h⟩).2
  obtain ⟨hi, hr⟩ := hc
  cases hcd with
  | move hm =>
      have hle := (hm.history.sublist.filterMap _).length_le.trans hcap
      exact hm.remembers hcap hi.answering (hr hle)
  | quiet hq => exact hr hcap

namespace Pair

/-- **Fresh identifiers make requests and replies happen once.** -/
theorem run_once {es : List PairEvent} {s : Pair} (r : (exchange L).Run es s) (x : Side) :
    FreshIds (s x).rpc.history → (s x).rpc.Once .idle := by
  revert x
  induction r with
  | start hs =>
      intro x _
      obtain ⟨f, env, hx⟩ := hs x
      rw [hx]
      exact .new f
  | @snoc es e s s' r h ih =>
      have hs := run_linked r
      obtain ⟨R, hg, hother, hpath⟩ := Pair.Step.path h hs.inv
      refine (Side.forall_iff e.side).mpr ⟨?_, ?_⟩
      · exact PlainRpc.path_once hpath hg.faithful (hs.inv e.side) (ih e.side)
      · rw [hother]
        exact ih e.side.other

/-- **Within the capacity nothing is accepted twice.** -/
theorem run_remembers {es : List PairEvent} {s : Pair} (r : (exchange L).Run es s) (x : Side) :
    (repliedIds (s x).rpc.history).length ≤ processedCapacity → (s x).rpc.Remembers := by
  revert x
  induction r with
  | start hs =>
      intro x _
      obtain ⟨f, env, hx⟩ := hs x
      rw [hx]
      exact .new f
  | @snoc es e s s' r h ih =>
      have hs := run_linked r
      obtain ⟨R, hg, hother, hpath⟩ := Pair.Step.path h hs.inv
      refine (Side.forall_iff e.side).mpr ⟨?_, ?_⟩
      · exact PlainRpc.path_remembers hpath hg.faithful (hs.inv e.side) (ih e.side)
      · rw [hother]
        exact ih e.side.other

/-! ### Where requests and replies come from -/

/-- What the history of one side owes to the calls of its application. -/
structure Sourced (es : List PairEvent) (x : Side) (h : List Event) : Prop where
  requested : ∀ id p, .requested id p ∈ h → ∃ uuid, .call x (.request uuid p) ∈ es
  replied : ∀ id q, .replied id q ∈ h → .call x (.reply id q) ∈ es ∨
    ∃ text, .accepted id text ∈ h ∧ BiDirectionalRpc.Control text q

theorem Sourced.snoc {es : List PairEvent} {x : Side} {h : List Event} (hs : Sourced es x h)
    (e : PairEvent) : Sourced (es ++ [e]) x h where
  requested := fun id p hp =>
    let ⟨u, hu⟩ := hs.requested id p hp
    ⟨u, List.mem_append_left _ hu⟩
  replied := fun id q hq => (hs.replied id q hq).imp_left (List.mem_append_left _)

/-- A two-way request an event may record comes from the application. -/
theorem gives_requested {y : PlainRpc} {e : PairEvent} (hg : e.Gives L y R) {r : Rpc} {id : RpcId}
    {p : Bytes} (hmay : R.may r (.requested id p)) :
    ∃ uuid, e = .call e.side (.request uuid p) := by
  cases hg with
  | call x c =>
      cases c with
      | request uuid q =>
          obtain ⟨a, ha⟩ := hmay
          cases ha
          exact ⟨uuid, rfl⟩
      | _ => simp [Call.rights, Rights.plain, Call.may] at hmay
  | @deliver x m p =>
      cases p <;> exact hmay.elim
  | rehash x => exact hmay.elim

/-- A reply an event may record comes from the application or answers a control word. -/
theorem gives_replied {y : PlainRpc} {e : PairEvent} (hg : e.Gives L y R) {r : Rpc} {id : RpcId}
    {q : Bytes} (hmay : R.may r (.replied id q)) : e = .call e.side (.reply id q) ∨
      ∃ text, r.incomingRequests.lookup id = some text ∧ BiDirectionalRpc.Control text q := by
  cases hg with
  | call x c =>
      cases c with
      | reply a b =>
          cases hmay
          exact .inl rfl
      | _ => simp [Call.rights, Rights.plain, Call.may] at hmay
  | @deliver x m p =>
      cases p with
      | request es => exact .inr hmay
      | reply es => exact hmay.elim
      | acknowledge uid b => exact hmay.elim
  | rehash x => exact hmay.elim

theorem Sourced.path {y : PlainRpc} {es : List PairEvent} {e : PairEvent} (hg : e.Gives L y R)
    {a b : Point (List Sent)} (hp : Path L R (Posts L R) a b) (ha : PlainRpc.Inv L a)
    (h : Sourced (es ++ [e]) e.side a.rpc.history) :
    Sourced (es ++ [e]) e.side b.rpc.history := by
  refine (hp.invariant
    (I := fun c => PlainRpc.Inv L c ∧ Sourced (es ++ [e]) e.side c.rpc.history)
    (fun c d hc hcd => ⟨hcd.inv hg.faithful hc.1, ?_⟩) ⟨ha, h⟩).2
  obtain ⟨hi, hs⟩ := hc
  have hlast : e ∈ es ++ [e] := List.mem_append_right _ (List.mem_singleton.mpr rfl)
  cases hcd with
  | move hm =>
      refine ⟨fun id p hid => ?_, fun id q hid => ?_⟩
      · rcases hm.new_event hid with hid | hmay
        · exact hs.requested id p hid
        · obtain ⟨u, hu⟩ := gives_requested hg hmay
          exact ⟨u, hu ▸ hlast⟩
      · rcases hm.new_event hid with hid | hmay
        · refine (hs.replied id q hid).imp_right fun ⟨text, htext, hctl⟩ => ?_
          exact ⟨text, hm.history.subset htext, hctl⟩
        · rcases gives_replied hg hmay with he | ⟨text, htext, hctl⟩
          · exact .inl (he ▸ hlast)
          · exact .inr ⟨text, hm.history.subset (hi.answering.incoming id text htext), hctl⟩
  | quiet hq => exact hs

/-- **Two-way requests come from the application, and so do the replies to all but control
words.** -/
theorem run_sourced {es : List PairEvent} {s : Pair} (r : (exchange L).Run es s) (x : Side) :
    Sourced es x (s x).rpc.history := by
  revert x
  induction r with
  | start hs =>
      intro x
      obtain ⟨f, env, hx⟩ := hs x
      rw [hx]
      exact ⟨fun _ _ h => (List.not_mem_nil h).elim, fun _ _ h => (List.not_mem_nil h).elim⟩
  | @snoc es e s s' r h ih =>
      have hs := run_linked r
      obtain ⟨R, hg, hother, hpath⟩ := Pair.Step.path h hs.inv
      refine (Side.forall_iff e.side).mpr ⟨?_, ?_⟩
      · exact Sourced.path hg hpath (hs.inv e.side) ((ih e.side).snoc e)
      · rw [hother]
        exact (ih e.side.other).snoc e

/-- A call of `reply` that returns has replied. -/
theorem run_replied {es : List PairEvent} {s : Pair} (r : (exchange L).Run es s) {x : Side}
    {id : RpcId} {q : Bytes} (hc : .call x (.reply id q) ∈ es) :
    .replied id q ∈ (s x).rpc.history := by
  induction r with
  | start => cases hc
  | @snoc es e s s' r h ih =>
      have hs := run_linked r
      obtain ⟨R, hg, hother, hpath⟩ := Pair.Step.path h hs.inv
      rcases List.mem_append.mp hc with hc | hc
      · have hold := ih hc
        rcases x.eq_or_other e.side with rfl | rfl
        · exact hpath.history.subset hold
        · rw [hother]
          exact hold
      · cases List.mem_singleton.mp hc
        cases h with
        | call h =>
            simp only [Function.update_self]
            exact BiDirectionalRpc.reply_replied (PlainRpc.send_within (R := R)) h

end Pair

/-! ### The guarantee -/

/-- The payload of the call is no control word. -/
def Call.NoControl : Call → Prop
  | .request _ p | .requestOneWay _ p => p ≠ PING ∧ p ≠ SHUTDOWN
  | _ => True

instance : DecidablePred Call.NoControl := fun c => by
  cases c <;> unfold Call.NoControl <;> infer_instance

/-- **Exactly once.**  In every run with fresh identifiers, application payloads that are no control
words and no more requests processed than `processedRequests` holds: every request enters
`incomingRequests` of the other side at most once, with the payload it was issued with; every reply
is handed to the application at most once, it answers a two-way request, and its payload is the one
the other application passed to `reply`. -/
theorem exactly_once {es : List PairEvent} {s : Pair} (r : (exchange L).Run es s)
    (hfresh : ∀ x, FreshIds (s x).rpc.history)
    (hcap : ∀ x, (repliedIds (s x).rpc.history).length ≤ processedCapacity)
    (happ : ∀ x c, .call x c ∈ es → c.NoControl) (x : Side) :
    (acceptedIds (s x.other).rpc.history).Nodup ∧
    (∀ id p, .accepted id p ∈ (s x.other).rpc.history → Issued (s x).rpc.history id p ∧
      ∀ q, Issued (s x).rpc.history id q → q = p) ∧
    (handedIds (s x).rpc.history).Nodup ∧
    (∀ id p, .handed id p ∈ (s x).rpc.history →
      (∃ q, .requested id q ∈ (s x).rpc.history) ∧
      .call x.other (.reply id p) ∈ es ∧ ∀ q, .call x.other (.reply id q) ∈ es → q = p) ∧
    (∀ id q, .requestedOneWay id q ∈ (s x).rpc.history →
      ∀ p, .handed id p ∉ (s x).rpc.history) := by
  have hs := Pair.run_linked r
  have hlink := hs.link x
  have honce := Pair.run_once r x (hfresh x)
  have hrem := Pair.run_remembers r x.other (hcap x.other)
  have hrecv := (hs.inv x).receiving
  refine ⟨hrem.acceptedOnce, fun id p hacc => ?_, honce.handedOnce, fun id p hh => ?_,
    fun id q hq p hh => ?_⟩
  · have hi := (hlink.accepted id p hacc).1
    exact ⟨hi, fun q hq => (hfresh x).payload_unique hq hi⟩
  · have hq := hrecv.handed id p hh
    have hrep := hlink.queued id p hq
    obtain ⟨-, q, htwo⟩ := honce.queued id p hq
    have hcall : .call x.other (.reply id p) ∈ es := by
      rcases (Pair.run_sourced r x.other).replied id p hrep with hc | ⟨text, hacc, hctl⟩
      · exact hc
      · -- a two-way request comes from the application, so it is no control word
        have hi := (hlink.accepted id text hacc).1
        cases (hfresh x).payload_unique hi (.inl htwo)
        obtain ⟨u, hu⟩ := (Pair.run_sourced r x).requested id _ htwo
        obtain ⟨hping, hshut⟩ := happ x _ hu
        cases hctl with
        | ping => exact absurd rfl hping
        | shutdown => exact absurd rfl hshut
    refine ⟨⟨q, htwo⟩, hcall, fun q' hq' => ?_⟩
    have hrep' := Pair.run_replied r hq'
    cases eq_of_nodup_filterMap hrem.repliedOnce hrep' hrep rfl rfl
    rfl
  · obtain ⟨-, q', htwo⟩ := honce.queued id p (hrecv.handed id p hh)
    exact (hfresh x).not_both htwo hq

/-! ### A run -/

/-- An event as a computation; `rehash` changes nothing here. -/
def Pair.exec (L : Libraries) (s : Pair) : PairEvent → Except Fault Pair
  | .call x c => do
      let v ← c.run L (PlainRpc.virtuals L) (s x)
      .ok (Function.update s x v)
  | .deliver x message =>
      if message ∈ (s x.other).sub.map Sent.message then do
        let (_, v) ← BiDirectionalRpc.receive L (PlainRpc.virtuals L) message (s x)
        .ok (Function.update s x v)
      else .error (.fatal "not sent")
  | .rehash _ => .ok s

theorem Pair.exec_step {s s' : Pair} {e : PairEvent} (h : Pair.exec L s e = .ok s') :
    Pair.Step L s e s' := by
  cases e with
  | call x c =>
      obtain ⟨v, hv, h⟩ := bind_ok.mp h
      cases h
      exact .call hv
  | deliver x message =>
      simp only [Pair.exec] at h
      split at h
      · rename_i hm
        obtain ⟨⟨b, v⟩, hv, h⟩ := bind_ok.mp h
        cases h
        exact .deliver (List.mem_map.mp hm) hv
      · cases h
  | rehash x =>
      cases h
      have h : Pair.Step L s (.rehash x) (Function.update s x { s x with rpc := (s x).rpc }) :=
        .rehash ⟨.refl _, .refl _, .refl _, .refl _, .refl _, rfl⟩
      rwa [Function.update_eq_self] at h

theorem Pair.exec_run {es : List PairEvent} {s s' : Pair} (hs : (exchange L).init s)
    (h : es.foldlM (Pair.exec L) s = .ok s') : (exchange L).Run es s' :=
  .of_foldlM (fun _ _ _ => Pair.exec_step) hs h

/-- The left side requests `HI`, the request arrives twice, the right side answers `PONG`, and
the answer arrives twice. -/
def greetingRun : List PairEvent :=
  let L := Libraries.standIn
  let request := (Packet.request [⟨⟨0, 7⟩, ascii ['H', 'I']⟩]).message L
  let reply := (Packet.reply [⟨⟨0, 7⟩, 0, 0, PONG⟩]).message L
  [.call .left (.request 7 (ascii ['H', 'I'])), .deliver .right request,
    .deliver .right request, .call .right (.reply ⟨0, 7⟩ PONG), .deliver .left reply,
    .call .left .getFirstIncomingReply, .deliver .left reply]

/-- Two new endpoints. -/
def Pair.new : Pair := fun _ => .new false default

theorem greetingRun_ends : ∃ s, greetingRun.foldlM (Pair.exec .standIn) Pair.new = .ok s ∧
    (s .left).rpc.history = [.requested ⟨0, 7⟩ (ascii ['H', 'I']), .completed ⟨0, 7⟩,
      .queued ⟨0, 7⟩ PONG, .handed ⟨0, 7⟩ PONG] ∧
    (s .right).rpc.history = [.accepted ⟨0, 7⟩ (ascii ['H', 'I']), .replied ⟨0, 7⟩ PONG] := by
  decide +kernel

/-- The reply is handed out once in that run. -/
theorem exactly_once_greeting : ∃ s, (exchange .standIn).Run greetingRun s ∧
    .handed ⟨0, 7⟩ PONG ∈ (s .left).rpc.history ∧ (handedIds (s .left).rpc.history).Nodup := by
  obtain ⟨s, hs, hleft, hright⟩ := greetingRun_ends
  have r : (exchange .standIn).Run greetingRun s :=
    Pair.exec_run (fun _ => ⟨false, default, rfl⟩) hs
  have hfresh : ∀ x, FreshIds (s x).rpc.history := by
    intro x
    cases x
    · rw [hleft]
      decide
    · rw [hright]
      decide
  have hcap : ∀ x, (repliedIds (s x).rpc.history).length ≤ processedCapacity := by
    intro x
    cases x
    · rw [hleft]
      decide
    · rw [hright]
      decide
  have happ : ∀ x c, .call x c ∈ greetingRun → c.NoControl := by
    intro x c hc
    simp only [greetingRun, List.mem_cons, PairEvent.call.injEq, reduceCtorEq, List.not_mem_nil,
      or_false, false_or] at hc
    rcases hc with ⟨-, rfl⟩ | ⟨-, rfl⟩ | ⟨-, rfl⟩ <;> decide
  refine ⟨s, r, ?_, (exactly_once r hfresh hcap happ .left).2.2.1⟩
  rw [hleft]
  simp

end Wga
