import WeGoAll.Rpc.ExactlyOnce

/-!
# Rpc — Channel

What two endpoints are for: a channel over which a request is made, accepted, answered, and its
answer completed, queued and handed over, each at most once and in this order, with the payloads
unchanged.

* `Stage`: how far a request is.
* `requests`: the channel.
* `requests_life`: what has happened to a request on it.
* `Stage.read`: the stage of a request, read off the histories of both endpoints.
* `exchange_refines_requests`: two endpoints behind a network that loses, repeats and reorders are
  such a channel.
-/

namespace Wga

/-! ### The channel -/

/-- How far a request is. -/
inductive Stage where
  | unissued
  | issued (oneWay : Bool) (payload : Bytes)
  | accepted (oneWay : Bool) (payload : Bytes)
  | replied (oneWay : Bool) (payload answer : Bytes)
  | completed (oneWay : Bool) (payload answer : Bytes)
  | queued (payload answer : Bytes)
  | handed (payload answer : Bytes)
  deriving DecidableEq

/-- How far an event takes its request. -/
inductive Stage.Step : Stage → Event → Stage → Prop where
  | request {id : RpcId} {p : Bytes} : Step .unissued (.requested id p) (.issued false p)
  | requestOneWay {id : RpcId} {p : Bytes} : Step .unissued (.requestedOneWay id p) (.issued true p)
  | accept {id : RpcId} {w : Bool} {p : Bytes} :
      Step (.issued w p) (.accepted id p) (.accepted w p)
  | reply {id : RpcId} {w : Bool} {p q : Bytes} :
      Step (.accepted w p) (.replied id q) (.replied w p q)
  | complete {id : RpcId} {w : Bool} {p q : Bytes} :
      Step (.replied w p q) (.completed id) (.completed w p q)
  | queue {id : RpcId} {p q : Bytes} : Step (.completed false p q) (.queued id q) (.queued p q)
  | hand {id : RpcId} {p q : Bytes} : Step (.queued p q) (.handed id q) (.handed p q)

namespace Event

/-- The request an event is about. -/
def id : Event → RpcId
  | .requested id _ | .requestedOneWay id _ | .accepted id _ | .replied id _ | .completed id
  | .queued id _ | .handed id _ => id

/-- The side whose request an event of the side `x` is about. -/
def requester (x : Side) : Event → Side
  | .accepted _ _ | .replied _ _ => x.other
  | _ => x

end Event

/-- The requests of both sides. -/
abbrev Requests := Side → RpcId → Stage

/-- **The channel.**  An event of one side takes one request further. -/
def requests : System Requests (Side × Event) where
  init s := ∀ x id, s x id = .unissued
  step s e s' := ∃ st, Stage.Step (s (e.2.requester e.1) e.2.id) e.2 st ∧
    s' = Function.update s (e.2.requester e.1)
      (Function.update (s (e.2.requester e.1)) e.2.id st)

/-- The event that makes a request. -/
def made (oneWay : Bool) (id : RpcId) (p : Bytes) : Event :=
  if oneWay then .requestedOneWay id p else .requested id p

/-- What has happened to a request, oldest first. -/
def Stage.life (id : RpcId) : Stage → List Event
  | .unissued => []
  | .issued w p => [made w id p]
  | .accepted w p => [made w id p, .accepted id p]
  | .replied w p q => [made w id p, .accepted id p, .replied id q]
  | .completed w p q => [made w id p, .accepted id p, .replied id q, .completed id]
  | .queued p q =>
      [made false id p, .accepted id p, .replied id q, .completed id, .queued id q]
  | .handed p q =>
      [made false id p, .accepted id p, .replied id q, .completed id, .queued id q, .handed id q]

theorem Stage.Step.life {st st' : Stage} {e : Event} (h : Stage.Step st e st') :
    st'.life e.id = st.life e.id ++ [e] := by
  cases h <;> rfl

/-- The events about one request. -/
def about (x : Side) (id : RpcId) (ds : List (Side × Event)) : List Event :=
  (ds.filter fun d => d.2.requester d.1 = x ∧ d.2.id = id).map Prod.snd

/-- **What happens to a request on the channel**, in every run. -/
theorem requests_life {ds : List (Side × Event)} {t : Requests} (r : requests.Run ds t) (x : Side)
    (id : RpcId) : about x id ds = (t x id).life id := by
  induction r with
  | start h =>
      rw [h x id]
      rfl
  | @snoc ds d t t' r h ih =>
      obtain ⟨st, hstep, rfl⟩ := h
      by_cases hd : d.2.requester d.1 = x ∧ d.2.id = id
      · obtain ⟨rfl, rfl⟩ := hd
        rw [Function.update_self, Function.update_self, hstep.life, ← ih]
        simp [about]
      · have hsame : about x id (ds ++ [d]) = about x id ds := by
          simp [about, List.filter_append, hd]
        rw [hsame, ih]
        by_cases hx : d.2.requester d.1 = x
        · subst hx
          rw [Function.update_self, Function.update_of_ne fun heq => hd ⟨rfl, heq.symm⟩]
        · rw [Function.update_of_ne fun heq => hx heq.symm]

/-! ### Reading the histories -/

/-- The identifiers of the queued replies. -/
def queuedIds (h : List Event) : List RpcId :=
  h.filterMap fun
    | .queued id _ => some id
    | _ => none

/-- How a request was made: one-way or not, with which payload. -/
def madeAs (h : List Event) (id : RpcId) : Option (Bool × Bytes) :=
  h.findSome? fun
    | .requested a p => if a = id then some (false, p) else none
    | .requestedOneWay a p => if a = id then some (true, p) else none
    | _ => none

/-- The answer to a request. -/
def answerTo (h : List Event) (id : RpcId) : Option Bytes :=
  h.findSome? fun
    | .replied a q => if a = id then some q else none
    | _ => none

/-- The stage of a request, from the histories of the requester and of the responder. -/
def Stage.read (hx hy : List Event) (id : RpcId) : Stage :=
  match madeAs hx id with
  | none => .unissued
  | some (w, p) =>
      if id ∈ acceptedIds hy then
        match answerTo hy id with
        | none => .accepted w p
        | some q =>
            if .completed id ∈ hx then
              if id ∈ queuedIds hx then
                if id ∈ handedIds hx then .handed p q else .queued p q
              else .completed w p q
            else .replied w p q
      else .issued w p

section Reading

variable {h : List Event} {id : RpcId} {p q : Bytes}

theorem mem_queuedIds : id ∈ queuedIds h ↔ ∃ p, .queued id p ∈ h :=
  mem_picked (g := Event.queued) fun e id => by
    cases e <;> simp

theorem madeAs_eq_none : madeAs h id = none ↔ ∀ p, ¬ Issued h id p := by
  simp only [madeAs, List.findSome?_eq_none_iff, Issued, not_or]
  constructor
  · exact fun hnone p => ⟨fun hp => by simpa using hnone _ hp, fun hp => by simpa using hnone _ hp⟩
  · intro hnone e he
    cases e with
    | requested a p =>
        exact if_neg fun (heq : a = id) => (hnone p).1 (heq ▸ he)
    | requestedOneWay a p =>
        exact if_neg fun (heq : a = id) => (hnone p).2 (heq ▸ he)
    | _ => rfl

theorem madeAs_mem {w : Bool} (h' : madeAs h id = some (w, p)) : made w id p ∈ h := by
  obtain ⟨e, he, heq⟩ := List.exists_of_findSome?_eq_some h'
  cases e with
  | requested a q =>
      obtain ⟨rfl, hq⟩ := Option.ite_none_right_eq_some.mp heq
      cases hq
      exact he
  | requestedOneWay a q =>
      obtain ⟨rfl, hq⟩ := Option.ite_none_right_eq_some.mp heq
      cases hq
      exact he
  | _ => cases heq

theorem answerTo_eq_none : answerTo h id = none ↔ ∀ q, .replied id q ∉ h := by
  simp only [answerTo, List.findSome?_eq_none_iff]
  constructor
  · exact fun hnone q hq => by simpa using hnone _ hq
  · intro hnone e he
    cases e with
    | replied a q => exact if_neg fun (heq : a = id) => hnone q (heq ▸ he)
    | _ => rfl

theorem answerTo_mem (h' : answerTo h id = some q) : .replied id q ∈ h := by
  obtain ⟨e, he, heq⟩ := List.exists_of_findSome?_eq_some h'
  cases e with
  | replied a q =>
      obtain ⟨rfl, hq⟩ := Option.ite_none_right_eq_some.mp heq
      cases hq
      exact he
  | _ => cases heq

theorem madeAs_append (h : List Event) (e : Event) (id : RpcId) :
    madeAs (h ++ [e]) id = (madeAs h id).or (madeAs [e] id) := List.findSome?_append

theorem answerTo_append (h : List Event) (e : Event) (id : RpcId) :
    answerTo (h ++ [e]) id = (answerTo h id).or (answerTo [e] id) := List.findSome?_append

end Reading

namespace Stage

variable {hx hy hx' hy' : List Event} {id : RpcId} {e : Event} {w : Bool} {p q : Bytes}

/-- What the stage of a request depends on. -/
theorem read_congr (hmade : madeAs hx' id = madeAs hx id)
    (hacc : id ∈ acceptedIds hy' ↔ id ∈ acceptedIds hy) (hans : answerTo hy' id = answerTo hy id)
    (hcomp : .completed id ∈ hx' ↔ .completed id ∈ hx)
    (hqueued : id ∈ queuedIds hx' ↔ id ∈ queuedIds hx)
    (hhanded : id ∈ handedIds hx' ↔ id ∈ handedIds hx) : read hx' hy' id = read hx hy id := by
  simp only [read, hmade, hacc, hans, hcomp, hqueued, hhanded]

/-- An event about another request. -/
theorem read_other (hid : e.id ≠ id) :
    read (hx ++ [e]) hy id = read hx hy id ∧ read hx (hy ++ [e]) id = read hx hy id := by
  constructor
  · apply read_congr <;>
      first
        | rfl
        | (cases e <;> simp_all [madeAs, Event.id, queuedIds, handedIds, eq_comm])
  · apply read_congr <;>
      first
        | rfl
        | (cases e <;> simp_all [answerTo, Event.id, acceptedIds, eq_comm])

/-- An event of the requester leaves its answers to the other side alone, and the other way
round. -/
theorem read_own (hrequester : ∀ x, e.requester x = x) :
    read hx (hy ++ [e]) id = read hx hy id := by
  cases e with
  | accepted a q => exact absurd (hrequester .left) (Side.other_ne .left)
  | replied a q => exact absurd (hrequester .left) (Side.other_ne .left)
  | _ => apply read_congr <;> simp [answerTo, acceptedIds]

theorem read_peer (hrequester : ∀ x, e.requester x = x.other) :
    read (hx ++ [e]) hy id = read hx hy id := by
  cases e with
  | accepted a q => apply read_congr <;> simp [madeAs, queuedIds, handedIds]
  | replied a q => apply read_congr <;> simp [madeAs, queuedIds, handedIds]
  | _ => exact absurd (hrequester .left).symm (Side.other_ne .left)

/-! ### One event -/

/-- A request is made. -/
theorem step_made (hnew : ∀ q, ¬ Issued hx id q) (hacc : id ∉ acceptedIds hy) :
    Step (read hx hy id) (made w id p) (read (hx ++ [made w id p]) hy id) := by
  have hnone := madeAs_eq_none.mpr hnew
  have hsome : madeAs (hx ++ [made w id p]) id = some (w, p) := by
    rw [madeAs_append, hnone, Option.none_or]
    cases w <;> simp [madeAs, made]
  rw [read, hnone, read, hsome]
  simp only [if_neg hacc]
  cases w
  · exact .request
  · exact .requestOneWay

/-- It is accepted. -/
theorem step_accepted (hmade : madeAs hx id = some (w, p)) (hacc : id ∉ acceptedIds hy)
    (hans : ∀ q, .replied id q ∉ hy) :
    Step (read hx hy id) (.accepted id p) (read hx (hy ++ [.accepted id p]) id) := by
  have hnone : answerTo (hy ++ [.accepted id p]) id = none := by
    rw [answerTo_append, answerTo_eq_none.mpr hans]
    rfl
  have hmem : id ∈ acceptedIds (hy ++ [.accepted id p]) := by simp [acceptedIds]
  simp only [read, hmade, if_neg hacc, if_pos hmem, hnone]
  exact .accept

/-- It is answered. -/
theorem step_replied (hmade : madeAs hx id = some (w, p)) (hacc : id ∈ acceptedIds hy)
    (hans : ∀ q, .replied id q ∉ hy) (hcomp : .completed id ∉ hx) :
    Step (read hx hy id) (.replied id q) (read hx (hy ++ [.replied id q]) id) := by
  have hnone := answerTo_eq_none.mpr hans
  have hsome : answerTo (hy ++ [.replied id q]) id = some q := by
    rw [answerTo_append, hnone]
    simp [answerTo]
  have hmem : id ∈ acceptedIds (hy ++ [.replied id q]) := by simpa [acceptedIds] using hacc
  simp only [read, hmade, if_pos hacc, if_pos hmem, hnone, hsome, if_neg hcomp]
  exact .reply

/-- Its answer arrives. -/
theorem step_completed (hmade : madeAs hx id = some (w, p)) (hacc : id ∈ acceptedIds hy)
    (hans : answerTo hy id = some q) (hcomp : .completed id ∉ hx) (hqueued : id ∉ queuedIds hx) :
    Step (read hx hy id) (.completed id) (read (hx ++ [.completed id]) hy id) := by
  have hmade' : madeAs (hx ++ [.completed id]) id = some (w, p) := by simp [madeAs_append, hmade]
  have hmem : .completed id ∈ hx ++ [.completed id] := by simp
  have hqueued' : id ∉ queuedIds (hx ++ [.completed id]) := by simpa [queuedIds] using hqueued
  simp only [read, hmade, hmade', if_pos hacc, hans, if_neg hcomp, if_pos hmem, if_neg hqueued']
  exact .complete

/-- Its answer is queued. -/
theorem step_queued (hmade : madeAs hx id = some (false, p)) (hacc : id ∈ acceptedIds hy)
    (hans : answerTo hy id = some q) (hcomp : .completed id ∈ hx) (hqueued : id ∉ queuedIds hx)
    (hhanded : id ∉ handedIds hx) :
    Step (read hx hy id) (.queued id q) (read (hx ++ [.queued id q]) hy id) := by
  have hmade' : madeAs (hx ++ [.queued id q]) id = some (false, p) := by
    simp [madeAs_append, hmade]
  have hcomp' : .completed id ∈ hx ++ [.queued id q] := List.mem_append_left _ hcomp
  have hmem : id ∈ queuedIds (hx ++ [.queued id q]) := by simp [queuedIds]
  have hhanded' : id ∉ handedIds (hx ++ [.queued id q]) := by simpa [handedIds] using hhanded
  simp only [read, hmade, hmade', if_pos hacc, hans, if_pos hcomp, if_pos hcomp', if_neg hqueued,
    if_pos hmem, if_neg hhanded']
  exact .queue

/-- Its answer is handed over. -/
theorem step_handed (hmade : madeAs hx id = some (w, p)) (hacc : id ∈ acceptedIds hy)
    (hans : answerTo hy id = some q) (hcomp : .completed id ∈ hx) (hqueued : id ∈ queuedIds hx)
    (hhanded : id ∉ handedIds hx) :
    Step (read hx hy id) (.handed id q) (read (hx ++ [.handed id q]) hy id) := by
  have hmade' : madeAs (hx ++ [.handed id q]) id = some (w, p) := by simp [madeAs_append, hmade]
  have hcomp' : .completed id ∈ hx ++ [.handed id q] := List.mem_append_left _ hcomp
  have hqueued' : id ∈ queuedIds (hx ++ [.handed id q]) := by simpa [queuedIds] using hqueued
  have hmem : id ∈ handedIds (hx ++ [.handed id q]) := by simp [handedIds]
  simp only [read, hmade, hmade', if_pos hacc, hans, if_pos hcomp, if_pos hcomp', if_pos hqueued,
    if_pos hqueued', if_neg hhanded, if_pos hmem]
  exact .hand

end Stage

/-! ### What an endpoint does -/

theorem Issued.madeAs {h : List Event} (hf : FreshIds h) {id : RpcId} {p : Bytes}
    (hi : Issued h id p) : ∃ w, Wga.madeAs h id = some (w, p) := by
  obtain ⟨⟨w, q⟩, hq⟩ := Option.ne_none_iff_exists'.mp fun hnone => madeAs_eq_none.mp hnone p hi
  have hi' : Issued h id q := by
    have hmem := madeAs_mem hq
    cases w
    · exact .inl hmem
    · exact .inr hmem
  exact ⟨w, hf.payload_unique hi hi' ▸ hq⟩

theorem Rpc.Remembers.answerTo {r : Rpc} (h : r.Remembers) {id : RpcId} {q : Bytes}
    (hq : .replied id q ∈ r.history) : Wga.answerTo r.history id = some q := by
  obtain ⟨q', hq'⟩ := Option.ne_none_iff_exists'.mp fun hnone => answerTo_eq_none.mp hnone q hq
  cases eq_of_nodup_filterMap h.repliedOnce hq (answerTo_mem hq') rfl rfl
  exact hq'

/-- An event takes its request one stage further. -/
def Event.Advances (hr hy : List Event) (e : Event) : Prop :=
  (∀ x, e.requester x = x) ∧
      Stage.Step (Stage.read hr hy e.id) e (Stage.read (hr ++ [e]) hy e.id) ∨
    (∀ x, e.requester x = x.other) ∧
      Stage.Step (Stage.read hy hr e.id) e (Stage.read hy (hr ++ [e]) e.id)

variable {L : Libraries} {R : Rights}

/-- **A move takes at most one request further, and that by one stage.** -/
theorem Move.advances {ph ph' : Phase} {r r' y : Rpc} (hm : Move L R ph r ph' r')
    (hR : R.Justified y) (hl : Link r y ∧ Link y r) (hfresh : FreshIds r'.history)
    (hfresh' : FreshIds y.history) (ha : r.Answering) (hv : r.Receiving) (ho : r.Once ph)
    (hrem : r.Remembers) (ha' : y.Answering) (hrem' : y.Remembers) :
    r'.history = r.history ∨
      ∃ e, r'.history = r.history ++ [e] ∧ e.Advances r.history y.history := by
  have hf := hfresh.of_isPrefix hm.history
  -- what is known of a request of this side that the other side answered
  have answered : ∀ {id q}, .replied id q ∈ y.history →
      id ∈ acceptedIds y.history ∧ Wga.answerTo y.history id = some q ∧
        ∃ w p, Wga.madeAs r.history id = some (w, p) := fun {id q} hq => by
    obtain ⟨p, hp⟩ := ha'.replied id q hq
    obtain ⟨w, hw⟩ := Issued.madeAs hf (hl.1.accepted id p hp).1
    exact ⟨mem_acceptedIds.mpr ⟨p, hp⟩, hrem'.answerTo hq, w, p, hw⟩
  have fresh : ∀ {e : Event} {id p}, FreshIds (r.history ++ [e]) →
      e = .requested id p ∨ e = .requestedOneWay id p →
      (∀ q, ¬ Issued r.history id q) ∧ id ∉ acceptedIds y.history := fun hfe he => by
    have hnew := hfe.notIssued he
    refine ⟨hnew, fun hmem => ?_⟩
    obtain ⟨q, hq⟩ := mem_acceptedIds.mp hmem
    exact hnew q (hl.1.accepted _ q hq).1
  cases hm with
  | @request _ id p hmay =>
      obtain ⟨hnew, hacc⟩ := fresh hfresh (.inl rfl)
      exact .inr ⟨_, rfl, .inl ⟨fun _ => rfl, Stage.step_made (w := false) hnew hacc⟩⟩
  | @requestOneWay _ id p hmay =>
      obtain ⟨hnew, hacc⟩ := fresh hfresh (.inr rfl)
      exact .inr ⟨_, rfl, .inl ⟨fun _ => rfl, Stage.step_made (w := true) hnew hacc⟩⟩
  | @accept _ id p now clock hmay hin hproc =>
      obtain ⟨w, hw⟩ := Issued.madeAs hfresh' (hR.accepted r id p hmay).1
      have hans : ∀ q, .replied id q ∉ r.history := fun q hq => hproc (hrem.processed id q hq)
      refine .inr ⟨_, rfl, .inr ⟨fun _ => rfl, Stage.step_accepted hw (fun hmem => ?_) hans⟩⟩
      obtain ⟨q, hq⟩ := mem_acceptedIds.mp hmem
      rcases ha.accepted id q hq with h | ⟨a, h⟩
      · exact hin h
      · exact hans a h
  | @answer _ id q hmay hin =>
      obtain ⟨p, hp⟩ := Option.isSome_iff_exists.mp (AList.lookup_isSome.mpr hin)
      have hacc := ha.incoming id p hp
      obtain ⟨w, hw⟩ := Issued.madeAs hfresh' (hl.2.accepted id p hacc).1
      have hans := hrem.incoming id hin
      refine .inr ⟨_, rfl, .inr ⟨fun _ => rfl,
        Stage.step_replied hw (mem_acceptedIds.mpr ⟨p, hacc⟩) hans fun hcomp => ?_⟩⟩
      obtain ⟨a, h⟩ := hl.2.completed id hcomp
      exact hans a h
  | @complete _ id hmay hout =>
      obtain ⟨q, hq⟩ := hR.completed r id hmay
      obtain ⟨hacc, hans, w, p, hw⟩ := answered hq
      have hcomp := ho.outgoing id hout
      refine .inr ⟨_, rfl, .inl ⟨fun _ => rfl, Stage.step_completed hw hacc hans hcomp
        fun hmem => ?_⟩⟩
      obtain ⟨a, h⟩ := mem_queuedIds.mp hmem
      exact hcomp (ho.queued id a h).1
  | @queue _ id q hmay hord hone =>
      obtain ⟨hacc, hans, w, p, hw⟩ := answered (hR.queued r id q hmay)
      obtain ⟨hcomp, hqueued⟩ := ho.completing id rfl
      have hnotQueued : id ∉ queuedIds r.history := fun hmem => by
        obtain ⟨a, h⟩ := mem_queuedIds.mp hmem
        exact hqueued a h
      have hnotHanded : id ∉ handedIds r.history := fun hmem => by
        obtain ⟨a, h⟩ := mem_handedIds.mp hmem
        exact hqueued a (hv.handed id a h)
      -- nobody waits for the reply to a one-way request
      have htwo : w = false := by
        cases w with
        | false => rfl
        | true => exact absurd rfl ((ho.oneWay id p (madeAs_mem hw)).resolve_left hone).2
      rw [htwo] at hw
      exact .inr ⟨_, rfl, .inl ⟨fun _ => rfl,
        Stage.step_queued hw hacc hans hcomp hnotQueued hnotHanded⟩⟩
  | @take _ id q hmay hin =>
      have hq := hv.incoming id q hin
      obtain ⟨hacc, hans, w, p, hw⟩ := answered (hl.1.queued id q hq)
      refine .inr ⟨_, rfl, .inl ⟨fun _ => rfl, Stage.step_handed hw hacc hans (ho.queued id q hq).1
        (mem_queuedIds.mpr ⟨q, hq⟩) fun hmem => ?_⟩⟩
      obtain ⟨a, h⟩ := mem_handedIds.mp hmem
      exact ho.handed id a h (AList.lookup_isSome.mp (Option.isSome_of_eq_some hin))
  | greet | start | delay | release | unqueue | forget | drop | stopClock | discard | advance
  | close => exact .inl rfl
  | rehash hr =>
      rw [hr.rest]
      exact .inl rfl

/-! ### What a run shows -/

/-- The stages of all requests, read off the histories. -/
def seen (h : Side → List Event) : Requests := fun x id => Stage.read (h x) (h x.other) id

/-- The events of one side. -/
def eventsOf (x : Side) (ds : List (Side × Event)) : List Event :=
  (ds.filter fun d => d.1 = x).map Prod.snd

/-- The channel has a run whose events are, side by side, those of the histories. -/
def Explains (ds : List (Side × Event)) (h : Side → List Event) : Prop :=
  requests.Run ds (seen h) ∧ ∀ x, eventsOf x ds = h x

/-- A step of the channel, seen in the histories. -/
theorem seen_step {h : Side → List Event} {x : Side} {e : Event}
    (he : e.Advances (h x) (h x.other)) :
    requests.step (seen h) (x, e) (seen (Function.update h x (h x ++ [e]))) := by
  rcases he with ⟨howner, hstep⟩ | ⟨howner, hstep⟩
  · refine ⟨Stage.read (h x ++ [e]) (h x.other) e.id, ?_, ?_⟩
    · simp only [howner, seen]
      exact hstep
    · funext z id
      rw [howner]
      rcases Side.eq_or_other z x with rfl | rfl
      · by_cases hid : id = e.id
        · subst hid
          simp only [seen, Function.update_self, Function.update_of_ne z.other_ne]
        · rw [Function.update_self, Function.update_of_ne hid]
          simp only [seen, Function.update_self, Function.update_of_ne z.other_ne]
          exact (Stage.read_other fun heq => hid heq.symm).1
      · rw [Function.update_of_ne x.other_ne]
        simp only [seen, Side.other_other, Function.update_self, Function.update_of_ne x.other_ne]
        exact Stage.read_own howner
  · refine ⟨Stage.read (h x.other) (h x ++ [e]) e.id, ?_, ?_⟩
    · simp only [howner, seen, Side.other_other]
      exact hstep
    · funext z id
      rw [howner]
      rcases Side.eq_or_other z x with rfl | rfl
      · rw [Function.update_of_ne z.other_ne.symm]
        simp only [seen, Function.update_self, Function.update_of_ne z.other_ne]
        exact Stage.read_peer howner
      · by_cases hid : id = e.id
        · subst hid
          simp only [seen, Side.other_other, Function.update_self,
            Function.update_of_ne x.other_ne]
        · rw [Function.update_self, Function.update_of_ne hid]
          simp only [seen, Side.other_other, Function.update_self,
            Function.update_of_ne x.other_ne]
          exact (Stage.read_other fun heq => hid heq.symm).2

theorem Explains.step {ds : List (Side × Event)} {h : Side → List Event} (hds : Explains ds h)
    {x : Side} {e : Event} (he : e.Advances (h x) (h x.other)) :
    Explains (ds ++ [(x, e)]) (Function.update h x (h x ++ [e])) := by
  refine ⟨hds.1.snoc (seen_step he), (Side.forall_iff x).mpr ⟨?_, ?_⟩⟩
  · simp [eventsOf, Function.update_self, ← hds.2 x]
  · simp [eventsOf, Function.update_of_ne x.other_ne, x.other_ne.symm, ← hds.2 x.other]

namespace Pair

/-- What a run is held to: fresh identifiers, and no more answers than an endpoint remembers. -/
def Bounded (s : Pair) : Prop :=
  ∀ x, FreshIds (s x).rpc.history ∧ (repliedIds (s x).rpc.history).length ≤ processedCapacity

/-- **A path of one side is a run of the channel.** -/
theorem explains_path {x : Side} {y : PlainRpc} {a b : Point (List Sent)}
    (hp : Path L R (Posts L R) a b) (hf : R.Faithful) (hR : R.Justified y.rpc)
    (ha : PlainRpc.Inv L a) (hy : PlainRpc.Inv L (y.at .idle))
    (hl : Link a.rpc y.rpc ∧ Link y.rpc a.rpc)
    (ho : FreshIds a.rpc.history → a.rpc.Once a.phase)
    (hrem : (repliedIds a.rpc.history).length ≤ processedCapacity → a.rpc.Remembers)
    (hrem' : y.rpc.Remembers) (hfresh : FreshIds b.rpc.history)
    (hcap : (repliedIds b.rpc.history).length ≤ processedCapacity)
    (hfresh' : FreshIds y.rpc.history) {ds : List (Side × Event)} {h : Side → List Event}
    (hx : h x = a.rpc.history) (hother : h x.other = y.rpc.history) (hds : Explains ds h) :
    ∃ ds', Explains ds' (Function.update h x b.rpc.history) := by
  induction hp with
  | refl => exact ⟨ds, by rwa [← hx, Function.update_eq_self]⟩
  | @tail c d hac hcd ih =>
      have hpre : c.rpc.history <+: d.rpc.history := Path.history (.single hcd)
      have hfc := hfresh.of_isPrefix hpre
      have hcc := (hpre.sublist.filterMap _).length_le.trans hcap
      obtain ⟨ds', h'⟩ := ih hfc hcc
      have hic := Path.inv hf hac ha
      have hlc := Link.path hac hR hf ha hl
      cases hcd with
      | quiet hq => exact ⟨ds', h'⟩
      | move hm =>
          rcases hm.advances hR hlc hfresh hfresh' hic.answering hic.receiving
            (PlainRpc.path_once hac hf ha ho hfc) (PlainRpc.path_remembers hac hf ha hrem hcc)
            hy.answering hrem' with heq | ⟨e, heq, he⟩
          · exact ⟨ds', heq ▸ h'⟩
          · have hstep := h'.step (x := x) (e := e) (by
              rwa [Function.update_self, Function.update_of_ne x.other_ne, hother])
            rw [Function.update_self, Function.update_idem, ← heq] at hstep
            exact ⟨_, hstep⟩

/-- A run is held to it from the start. -/
theorem Bounded.back {s s' : Pair} {e : PairEvent} (hs' : s'.Bounded) (hlinked : s.Linked L)
    (h : Pair.Step L s e s') : s.Bounded := by
  obtain ⟨R, hg, hother, hpath⟩ := h.path hlinked.inv
  refine (Side.forall_iff e.side).mpr ⟨?_, ?_⟩
  · exact ⟨(hs' e.side).1.of_isPrefix hpath.history,
      (hpath.history.sublist.filterMap _).length_le.trans (hs' e.side).2⟩
  · rw [← hother]
    exact hs' e.side.other

/-- An event of two endpoints is a run of the channel. -/
theorem explains_event {es : List PairEvent} {s s' : Pair} {e : PairEvent}
    (r : (exchange L).Run es s) (h : Pair.Step L s e s') (hs' : s'.Bounded)
    {ds : List (Side × Event)} (hds : Explains ds fun x => (s x).rpc.history) :
    ∃ ds', Explains ds' fun x => (s' x).rpc.history := by
  have hlinked := run_linked r
  obtain ⟨R, hg, hother, hpath⟩ := h.path hlinked.inv
  have hback := hlinked.link e.side.other
  rw [Side.other_other] at hback
  have hpeer := hs' e.side.other
  rw [hother] at hpeer
  obtain ⟨ds', h'⟩ := explains_path hpath hg.faithful (hg.justified (hlinked.inv e.side.other))
    (hlinked.inv e.side) (hlinked.inv e.side.other) ⟨hlinked.link e.side, hback⟩
    (run_once r e.side) (run_remembers r e.side) (run_remembers r e.side.other hpeer.2)
    (hs' e.side).1 (hs' e.side).2 hpeer.1 (h := fun x => (s x).rpc.history) rfl rfl hds
  refine ⟨ds', ?_⟩
  convert h' using 1
  funext x
  rcases Side.eq_or_other x e.side with rfl | rfl
  · rw [Function.update_self]
    rfl
  · rw [Function.update_of_ne e.side.other_ne, hother]

end Pair

/-- **Two endpoints are a channel.**  In every run over a network that loses, repeats, delays and
reorders, with fresh identifiers and no more answers than an endpoint remembers, the events of both
histories can be put into one order that is a run of the channel; in that order each request goes
through its stages one by one, and it and its answer keep their payloads. -/
theorem exchange_refines_requests {es : List PairEvent} {s : Pair} (r : (exchange L).Run es s)
    (hs : s.Bounded) : ∃ ds, requests.Run ds (seen fun x => (s x).rpc.history) ∧
      (∀ x, eventsOf x ds = (s x).rpc.history) ∧
      ∀ x id, about x id ds = (seen (fun x => (s x).rpc.history) x id).life id := by
  have hinit : ∀ s : Pair, (exchange L).init s → ∃ t, requests.init t ∧
      t = seen (fun x => (s x).rpc.history) ∧
      ∀ x, eventsOf x [] = (s x).rpc.history := fun s hs => by
    have hnil : ∀ x, (s x).rpc.history = [] := fun x => by
      obtain ⟨f, env, hx⟩ := hs x
      rw [hx]
      rfl
    refine ⟨_, fun x id => ?_, rfl, fun x => (hnil x).symm⟩
    simp only [seen, hnil]
    rfl
  obtain ⟨ds, t, hrun, rfl, hds⟩ := r.simulate (T := requests) (fun _ => Pair.Bounded)
    (fun _ s ds t => t = seen (fun x => (s x).rpc.history) ∧
      ∀ x, eventsOf x ds = (s x).rpc.history)
    (fun es s e s' r h hs' => hs'.back (Pair.run_linked r) h) hinit
    (fun es s e s' ds t r h hs' hrun hrel => by
      obtain ⟨rfl, hds⟩ := hrel
      obtain ⟨ds', hrun', hds'⟩ := Pair.explains_event r h hs' ⟨hrun, hds⟩
      exact ⟨ds', _, hrun', rfl, hds'⟩) hs
  exact ⟨ds, hrun, hds, requests_life hrun⟩

/-- The request of a run in which packets arrive twice goes through all its stages. -/
theorem exchange_refines_requests_greeting : ∃ s ds, (exchange .standIn).Run greetingRun s ∧
    requests.Run ds (seen fun x => (s x).rpc.history) ∧
    about .left ⟨0, 7⟩ ds = (Stage.handed (ascii ['H', 'I']) PONG).life ⟨0, 7⟩ := by
  obtain ⟨s, hs, hleft, hright⟩ := greetingRun_ends
  have r : (exchange .standIn).Run greetingRun s :=
    Pair.exec_run (fun _ => ⟨false, default, rfl⟩) hs
  have hbounded : s.Bounded := (Side.forall_iff .left).mpr ⟨by
    rw [hleft]
    decide +kernel, by
    rw [Side.other, hright]
    decide +kernel⟩
  obtain ⟨ds, hrun, -, hlife⟩ := exchange_refines_requests r hbounded
  refine ⟨s, ds, r, hrun, (hlife .left ⟨0, 7⟩).trans ?_⟩
  simp only [seen, Side.other, hleft, hright]
  decide +kernel

end Wga
