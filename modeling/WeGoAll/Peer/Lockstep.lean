import WeGoAll.Chrono.Arrival
import WeGoAll.Peer.Sharing

/-!
# Peer — Lockstep

What `getAllInputValues` returns on the peers of a game.  The loop asks whether a peer is shut down
before it looks at the peer's inputs, so a call made before a `SHUTDOWN` arrives has inputs that a
call made after it leaves out.

* `Follows`: what a call has found so far.
* `told_complete`: a call that is told of a shutdown has all inputs of that peer at hand.
* `lockstep_iff`: when two calls for one time stamp return the same values.
* `departure_disagrees`: two calls around a shutdown that do not.
-/

namespace Wga

open ChronoMap MyPeer

variable {L : Libraries} {ids : List Bytes}

/-! ### The values of a call -/

/-- What the call has collected for the key `k` from the peer `p`. -/
def valueOf (values : UnorderedMap Bytes (UnorderedMap Bytes Bytes)) (k p : Bytes) :
    Option Bytes := (values.lookup k).bind fun m => m.lookup p

/-- No key has an empty map. -/
def NoneEmpty (values : UnorderedMap Bytes (UnorderedMap Bytes Bytes)) : Prop :=
  ∀ k m, values.lookup k = some m → ∃ p v, m.lookup p = some v

/-- The maps are equal, whatever the order of their entries. -/
def SameValues (a b : UnorderedMap Bytes (UnorderedMap Bytes Bytes)) : Prop :=
  ∀ k, (a.lookup k).map (fun m p => m.lookup p) = (b.lookup k).map fun m p => m.lookup p

theorem valueOf_ne_none {a : UnorderedMap Bytes (UnorderedMap Bytes Bytes)} (ha : NoneEmpty a)
    {k : Bytes} (h : a.lookup k ≠ none) : ∃ p, valueOf a k p ≠ none := by
  obtain ⟨m, hm⟩ := Option.ne_none_iff_exists'.mp h
  obtain ⟨p, v, hv⟩ := ha k m hm
  exact ⟨p, by rw [valueOf, hm, Option.bind_some, hv]; exact Option.some_ne_none v⟩

theorem SameValues.valueOf {a b : UnorderedMap Bytes (UnorderedMap Bytes Bytes)}
    (h : SameValues a b) (k p : Bytes) : valueOf a k p = valueOf b k p := by
  have hk := h k
  rw [Wga.valueOf, Wga.valueOf]
  cases hak : a.lookup k with
  | none =>
      rw [hak, Option.map_none] at hk
      rw [Option.map_eq_none_iff.mp hk.symm]
  | some m =>
      rw [hak, Option.map_some] at hk
      obtain ⟨m', hm', heq⟩ := Option.map_eq_some_iff.mp hk.symm
      rw [hm', Option.bind_some, Option.bind_some, congrFun heq p]

/-- **Maps are equal when they have the same values.** -/
theorem sameValues_iff {a b : UnorderedMap Bytes (UnorderedMap Bytes Bytes)} (ha : NoneEmpty a)
    (hb : NoneEmpty b) : SameValues a b ↔ ∀ k p, valueOf a k p = valueOf b k p := by
  constructor
  · exact SameValues.valueOf
  · intro h k
    cases hak : a.lookup k with
    | none =>
        have hbk : b.lookup k = none := by
          by_contra hne
          obtain ⟨p, hp⟩ := valueOf_ne_none hb hne
          rw [← h k p, valueOf, hak] at hp
          exact hp rfl
        rw [hbk]
    | some m =>
        have hbk : b.lookup k ≠ none := by
          intro hnone
          obtain ⟨p, hp⟩ := valueOf_ne_none ha (k := k) (by rw [hak]; exact Option.some_ne_none m)
          rw [h k p, valueOf, hnone] at hp
          exact hp rfl
        obtain ⟨m', hm'⟩ := Option.ne_none_iff_exists'.mp hbk
        rw [hm', Option.map_some, Option.map_some]
        refine congrArg some (funext fun p => ?_)
        have hp := h k p
        rw [valueOf, valueOf, hak, hm'] at hp
        exact hp

theorem lookup_emplace (p q v : Bytes) (m : UnorderedMap Bytes Bytes) :
    (m.emplace p v).lookup q = if q = p then (m.lookup p).or (some v) else m.lookup q := by
  rw [UnorderedMap.emplace]
  by_cases hq : q = p
  · subst hq
    rw [if_pos rfl]
    split
    · rename_i hmem
      obtain ⟨w, hw⟩ := Option.isSome_iff_exists.mp (AList.lookup_isSome.mpr hmem)
      rw [hw, Option.some_or]
    · rename_i hmem
      rw [AList.lookup_insert, AList.lookup_eq_none.mpr hmem, Option.none_or]
  · rw [if_neg hq]
    split
    · rfl
    · exact AList.lookup_insert_ne hq

namespace InputPeer

/-- **The loop over the values of a peer** adds them under the peer. -/
theorem valueOf_addValues (p : Bytes) (all : UnorderedMap Bytes Bytes)
    (values : UnorderedMap Bytes (UnorderedMap Bytes Bytes)) (k q : Bytes) :
    valueOf (addValues p all values) k q =
      if q = p then (valueOf values k p).or (all.lookup k) else valueOf values k q := by
  have hloop : ∀ (l : List (Σ _ : Bytes, Bytes)), l.NodupKeys →
      ∀ values : UnorderedMap Bytes (UnorderedMap Bytes Bytes),
      valueOf (l.foldl (fun values it2 => values.insert it2.1
        (((values.lookup it2.1).getD ∅).emplace p it2.2)) values) k q =
      if q = p then (valueOf values k p).or (l.dlookup k) else valueOf values k q := by
    intro l
    induction l with
    | nil =>
        intro _ values
        split
        · rename_i hq
          subst hq
          exact (Option.or_none).symm
        · rfl
    | cons e l ih =>
        obtain ⟨k₀, v⟩ := e
        intro hl values
        obtain ⟨hk₀, hl⟩ := List.nodupKeys_cons.mp hl
        rw [List.foldl_cons, ih hl]
        by_cases hk : k = k₀
        · subst hk
          have hown : ∀ q, ((((values.lookup k).getD ∅).emplace p v)).lookup q =
              if q = p then (valueOf values k p).or (some v) else valueOf values k q := by
            intro q
            rw [lookup_emplace, valueOf, valueOf]
            cases values.lookup k <;> rfl
          rw [List.dlookup_eq_none.mpr hk₀, List.dlookup_cons_eq, Option.or_none]
          simp only [valueOf, AList.lookup_insert, Option.bind_some]
          rw [hown, hown, if_pos rfl]
          split <;> rfl
        · have hd : List.dlookup k (⟨k₀, v⟩ :: l) = List.dlookup k l :=
            List.dlookup_cons_ne l ⟨k₀, v⟩ hk
          simp only [valueOf, AList.lookup_insert_ne hk, hd]
  exact hloop all.entries all.nodupKeys values

theorem inhabited_addValues (p : Bytes) (all : UnorderedMap Bytes Bytes)
    {values : UnorderedMap Bytes (UnorderedMap Bytes Bytes)} (h : NoneEmpty values) :
    NoneEmpty (addValues p all values) := by
  unfold addValues
  induction all.entries generalizing values with
  | nil => exact h
  | cons e l ih =>
      refine ih fun k m hm => ?_
      by_cases hk : k = e.1
      · subst hk
        rw [AList.lookup_insert] at hm
        cases hm
        refine ⟨p, ((((values.lookup e.1).getD ∅).lookup p).getD e.2), ?_⟩
        rw [lookup_emplace, if_pos rfl]
        cases ((values.lookup e.1).getD ∅).lookup p <;> rfl
      · rw [AList.lookup_insert_ne hk] at hm
        exact h k m hm

end InputPeer

/-- `getAll` has the values that `get` has. -/
theorem getAll_value {t : Int} {m : ChronoMap Bytes Bytes} {r : UnorderedMap Bytes Bytes}
    (h : m.getAll t = .ok r) (k v : Bytes) : r.lookup k = some v ↔ m.get t k = .ok (some v) := by
  rcases lt_or_ge t 0 with hneg | h₀
  · rw [getAll_neg hneg] at h
    rw [get_eq, if_pos hneg]
    split at h
    · cases h
      exact iff_of_false (by rw [AList.lookup_empty]; exact (Option.some_ne_none v).symm)
        (by intro h; cases h)
    · cases h
  · obtain ⟨r', hr', hlook⟩ := getAll_lookup h₀ m
    cases h.symm.trans hr'
    rw [hlook k]
    exact ⟨congrArg Except.ok, Except.ok.inj⟩

namespace Game

variable {s s' : Game} {e : GameEvent} {es : List GameEvent}

/-! ### Shutdowns that are noticed -/

/-- The call `i` asks whether `p` is shut down, and it is. -/
def Told (s : Game) (i : Nat) (p : Bytes) : Prop :=
  ∃ x call, s.At i x call p ∧ (call.stage = .begin ∨ call.stage = .timedOut) ∧
    (s.peers x).isPeerShutDown p = true

/-- The call `i` was told, somewhere in the run, that `p` is shut down. -/
def WasTold (L : Libraries) (ids : List Bytes) (es : List GameEvent) (i : Nat) (p : Bytes) : Prop :=
  ∃ es₁ s₁, es₁ ++ [.resume i] <+: es ∧ (game L ids).Run es₁ s₁ ∧ s₁.Told i p

theorem wasTold_snoc (r : (game L ids).Run es s) {i : Nat} {p : Bytes} :
    WasTold L ids (es ++ [e]) i p ↔ WasTold L ids es i p ∨ e = .resume i ∧ s.Told i p := by
  constructor
  · rintro ⟨es₁, s₁, hpre, r₁, ht⟩
    rcases List.prefix_concat_iff.mp hpre with heq | hpre
    · obtain ⟨rfl, he⟩ := List.append_inj' heq rfl
      cases he
      exact .inr ⟨rfl, Run.unique r₁ r ▸ ht⟩
    · exact .inl ⟨es₁, s₁, hpre, r₁, ht⟩
  · rintro (⟨es₁, s₁, hpre, r₁, ht⟩ | ⟨rfl, ht⟩)
    · exact ⟨es₁, s₁, hpre.trans (List.prefix_append _ _), r₁, ht⟩
    · exact ⟨es, s, List.prefix_refl _, r, ht⟩

/-- `p` has an input at the time `t`. -/
def HasInput (s : Game) (p : Bytes) (t : Int) : Prop :=
  ∃ k v, (s.store p p).get t k = .ok (some v)

/-- A peer that is found shut down by another one has sent `SHUTDOWN`. -/
theorem Wired.shutDown (hw : s.Wired ids) {x p : Bytes}
    (h : (s.peers x).isPeerShutDown p = true) : p ≠ x ∧ (s.peers p).sentShutdown = true := by
  rw [InputPeer.isPeerShutDown] at h
  split at h
  · rename_i hmem
    rw [List.contains_iff_mem, InputPeer.endpointIds, List.mem_filter, hw.userId] at hmem
    exact ⟨of_decide_eq_true hmem.2, hw.marked x p h⟩
  · cases h

/-- Where the loop of a call goes from the peer `p`. -/
theorem resumeAt_cases {x p : Bytes} {call call' : InputCall}
    (h : (s.peers x).resumeAt p call = .ok call') :
    ((call.stage = .begin ∨ call.stage = .timedOut) ∧ (s.peers x).isPeerShutDown p = true ∧
      call' = call.next) ∨
    (¬ ((call.stage = .begin ∨ call.stage = .timedOut) ∧ (s.peers x).isPeerShutDown p = true) ∧
      ((∃ stage, call' = { call with stage := stage } ∧
        (stage = .read → call.timestamp < (s.store x p).expirationTime)) ∨
      (call.stage = .read ∧ ∃ all, (s.store x p).getAll call.timestamp = .ok all ∧
        call' = { call.next with values := InputPeer.addValues p all call.values }))) := by
  rw [InputPeer.resumeAt] at h
  cases hs : call.stage with
  | begin =>
      rw [hs] at h
      cases h
      split
      · rename_i hd
        exact .inl ⟨.inl rfl, hd, rfl⟩
      · rename_i hd
        exact .inr ⟨fun h => hd h.2, .inl ⟨.wait, rfl, by intro h; cases h⟩⟩
  | wait =>
      rw [hs] at h
      cases h
      refine .inr ⟨fun h => h.1.elim (by intro h; cases h) (by intro h; cases h),
        .inl ⟨_, rfl, fun h => ?_⟩⟩
      split at h
      · assumption
      · cases h
  | read =>
      rw [hs] at h
      obtain ⟨all, hall, h⟩ := bind_ok.mp h
      cases h
      exact .inr ⟨fun h => h.1.elim (by intro h; cases h) (by intro h; cases h),
        .inr ⟨rfl, all, hall, rfl⟩⟩
  | timedOut =>
      rw [hs] at h
      cases h
      split
      · rename_i hd
        exact .inl ⟨.inr rfl, hd, rfl⟩
      · rename_i hd
        exact .inr ⟨fun h => hd h.2, .inl ⟨.wait, rfl, by intro h; cases h⟩⟩

/-! ### What a call has found -/

/-- What the call `i` has found: of the peers the loop has finished with, those it was told are shut
down are left out, and of the others it has the inputs. -/
structure Follows (L : Libraries) (ids : List Bytes) (es : List GameEvent) (s : Game) (i : Nat)
    (x : Bytes) (call : InputCall) : Prop where
  caller : x ∈ ids
  remaining : call.remaining <:+ ids
  noneEmpty : NoneEmpty call.values
  reading : ∀ p, call.remaining.head? = some p → call.stage = .read →
    call.timestamp < (s.store x p).expirationTime
  pending : ∀ p ∈ call.remaining, ¬ WasTold L ids es i p ∧ ∀ k, valueOf call.values k p = none
  done : ∀ p ∈ ids, p ∉ call.remaining →
    (WasTold L ids es i p ∧ ∀ k, valueOf call.values k p = none) ∨
    (¬ WasTold L ids es i p ∧ call.timestamp < (s.store p p).expirationTime ∧
      ∀ k v, valueOf call.values k p = some v ↔ (s.store p p).get call.timestamp k = .ok (some v))
  outside : ∀ p ∉ ids, ∀ k, valueOf call.values k p = none

/-- A step that the call does not take. -/
theorem Follows.later {i : Nat} {x : Bytes} {call : InputCall} (hw : s.Wired ids)
    (h : Effect L ids s e s')
    (hsame : ∀ p, WasTold L ids (es ++ [e]) i p ↔ WasTold L ids es i p)
    (hf : Follows L ids es s i x call) : Follows L ids (es ++ [e]) s' i x call where
  caller := hf.caller
  remaining := hf.remaining
  noneEmpty := hf.noneEmpty
  reading p hp hs := (hf.reading p hp hs).trans_le (h.grows hw x p).expirationTime
  pending p hp := by
    rw [hsame]
    exact hf.pending p hp
  done p hp hd := by
    rw [hsame]
    refine (hf.done p hp hd).imp_right fun ⟨hn, hlt, hv⟩ => ?_
    have hg := h.grows hw p p
    refine ⟨hn, hlt.trans_le hg.expirationTime, fun k v => ?_⟩
    rw [hg.get _ hlt]
    exact hv k v
  outside := hf.outside

/-- Whom the call is told of when it takes a step. -/
theorem told_iff {i : Nat} {x p : Bytes} {call : InputCall} (hat : s.At i x call p) (q : Bytes) :
    s.Told i q ↔ q = p ∧
      ((call.stage = .begin ∨ call.stage = .timedOut) ∧ (s.peers x).isPeerShutDown p = true) := by
  constructor
  · rintro ⟨y, call₁, hat₁, hs, hd⟩
    cases hat.1.symm.trans hat₁.1
    cases hat.2.symm.trans hat₁.2
    exact ⟨rfl, hs, hd⟩
  · rintro ⟨rfl, hs, hd⟩
    exact ⟨x, call, hat, hs, hd⟩

section Steps

variable {es' : List GameEvent} {i : Nat} {x p : Bytes} {rest : List Bytes} {call : InputCall}
  {calls : List (Bytes × InputCall)}

/-- The peer that the loop is at is in the game, and is not among those to come. -/
theorem Follows.ahead (hids : ids.Nodup) (hremaining : call.remaining = p :: rest)
    (hf : Follows L ids es s i x call) : p ∈ ids ∧ p ∉ rest ∧ rest <:+ ids := by
  have hsuffix : p :: rest <:+ ids := hremaining ▸ hf.remaining
  exact ⟨hsuffix.subset List.mem_cons_self,
    (List.nodup_cons.mp (hids.sublist hsuffix.sublist)).1, (List.suffix_cons p rest).trans hsuffix⟩

theorem next_remaining (hremaining : call.remaining = p :: rest) : call.next.remaining = rest :=
  congrArg List.tail hremaining

/-- The peers that the loop has finished with when it leaves `p`, but for `p`. -/
theorem not_mem_remaining (hremaining : call.remaining = p :: rest) {q : Bytes} (hq : q ∉ rest)
    (hqp : q ≠ p) : q ∉ call.remaining := by
  rw [hremaining]
  exact List.not_mem_cons_of_ne_of_not_mem hqp hq

/-- The loop stays at the peer. -/
theorem Follows.stay {stage : LoopStage}
    (hsame : ∀ q, WasTold L ids es' i q ↔ WasTold L ids es i q)
    (hat : call.remaining.head? = some p)
    (hread : stage = .read → call.timestamp < (s.store x p).expirationTime)
    (hf : Follows L ids es s i x call) :
    Follows L ids es' { s with calls := calls } i x { call with stage := stage } where
  caller := hf.caller
  remaining := hf.remaining
  noneEmpty := hf.noneEmpty
  reading q hq hs := by
    cases hat.symm.trans hq
    exact hread hs
  pending q hq := by
    rw [hsame]
    exact hf.pending q hq
  done q hq hqr := by
    rw [hsame]
    exact hf.done q hq hqr
  outside := hf.outside

/-- The loop leaves the peer out. -/
theorem Follows.leaveOut (hids : ids.Nodup) (hremaining : call.remaining = p :: rest)
    (htold : WasTold L ids es' i p)
    (hother : ∀ q, q ≠ p → (WasTold L ids es' i q ↔ WasTold L ids es i q))
    (hf : Follows L ids es s i x call) :
    Follows L ids es' { s with calls := calls } i x call.next := by
  obtain ⟨-, hnot, hsuffix⟩ := hf.ahead hids hremaining
  have hnext := next_remaining hremaining
  refine ⟨hf.caller, hnext ▸ hsuffix, hf.noneEmpty, fun q _ hs => ?_, fun q hq => ?_,
    fun q hq hqr => ?_, hf.outside⟩
  · cases hs
  · rw [hnext] at hq
    rw [hother q fun h => hnot (h ▸ hq)]
    exact hf.pending q (hremaining ▸ List.mem_cons_of_mem p hq)
  · rw [hnext] at hqr
    by_cases hqp : q = p
    · subst hqp
      exact .inl ⟨htold, (hf.pending q (hremaining ▸ List.mem_cons_self)).2⟩
    · rw [hother q hqp]
      exact hf.done q hq (not_mem_remaining hremaining hqr hqp)

/-- The loop reads the inputs of the peer. -/
theorem Follows.read {all : UnorderedMap Bytes Bytes} (hids : ids.Nodup)
    (r : (game L ids).Run es s) (hremaining : call.remaining = p :: rest)
    (hsame : ∀ q, WasTold L ids es' i q ↔ WasTold L ids es i q) (hstage : call.stage = .read)
    (hall : (s.store x p).getAll call.timestamp = .ok all) (hf : Follows L ids es s i x call) :
    Follows L ids es' { s with calls := calls } i x
      { call.next with values := InputPeer.addValues p all call.values } := by
  obtain ⟨hp, hnot, hsuffix⟩ := hf.ahead hids hremaining
  have hnext := next_remaining hremaining
  have hvalue := InputPeer.valueOf_addValues p all call.values
  refine ⟨hf.caller, hnext ▸ hsuffix, InputPeer.inhabited_addValues p all hf.noneEmpty,
    fun q _ hs => ?_, fun q hq => ?_, fun q hq hqr => ?_, fun q hq k => ?_⟩
  · cases hs
  · have hqrest : q ∈ rest := hnext ▸ hq
    obtain ⟨htold, hnone⟩ := hf.pending q (hremaining ▸ List.mem_cons_of_mem p hqrest)
    rw [hsame]
    refine ⟨htold, fun k => ?_⟩
    have hqp : q ≠ p := fun h => hnot (h ▸ hqrest)
    rw [hvalue, if_neg hqp]
    exact hnone k
  · have hqrest : q ∉ rest := hnext ▸ hqr
    rw [hsame]
    by_cases hqp : q = p
    · subst hqp
      obtain ⟨htold, hnone⟩ := hf.pending q (hremaining ▸ List.mem_cons_self)
      have hg := run_shared r x q
      have hlt := hf.reading q (by rw [hremaining, List.head?_cons]) hstage
      refine .inr ⟨htold, hlt.trans_le hg.expirationTime, fun k v => ?_⟩
      rw [hvalue, if_pos rfl, hnone, Option.none_or, getAll_value hall]
      exact hg.get _ hlt k ▸ Iff.rfl
    · refine (hf.done q hq (not_mem_remaining hremaining hqrest hqp)).imp
        (fun ⟨ht, hn⟩ => ⟨ht, fun k => ?_⟩) fun ⟨ht, hlt, hv⟩ => ⟨ht, hlt, fun k v => ?_⟩
      · rw [hvalue, if_neg hqp]
        exact hn k
      · rw [hvalue, if_neg hqp]
        exact hv k v
  · have hqp : q ≠ p := fun h => hq (h ▸ hp)
    rw [hvalue, if_neg hqp]
    exact hf.outside q hq k

/-- A step that the call takes. -/
theorem Follows.resume {call' : InputCall} (hids : ids.Nodup) (r : (game L ids).Run es s)
    (hat : s.At i x call p) (h : (s.peers x).resumeAt p call = .ok call')
    (hf : Follows L ids es s i x call) :
    Follows L ids (es ++ [.resume i]) { s with calls := calls } i x call' := by
  obtain ⟨rest, hremaining⟩ : ∃ rest, call.remaining = p :: rest :=
    List.head?_eq_some_iff.mp hat.2
  rcases resumeAt_cases h with ⟨hs, hd, rfl⟩ | ⟨hno, hcase⟩
  · have htold : WasTold L ids (es ++ [.resume i]) i p :=
      (wasTold_snoc r).mpr (.inr ⟨rfl, (told_iff hat p).mpr ⟨rfl, hs, hd⟩⟩)
    exact hf.leaveOut hids hremaining htold fun q hq =>
      (wasTold_snoc r).trans (or_iff_left fun h => hq ((told_iff hat q).mp h.2).1)
  · have hsame : ∀ q, WasTold L ids (es ++ [.resume i]) i q ↔ WasTold L ids es i q := fun q =>
      (wasTold_snoc r).trans (or_iff_left fun h => hno ((told_iff hat q).mp h.2).2)
    rcases hcase with ⟨stage, rfl, hread⟩ | ⟨hstage, all, hall, rfl⟩
    · exact hf.stay hsame hat.2 hread
    · exact hf.read hids r hremaining hsame hstage hall

end Steps

/-- A call that begins. -/
theorem Follows.begin {i : Nat} {x : Bytes} {t : Int} (hw : s.Wired ids) (hx : x ∈ ids)
    (hnot : ∀ p, ¬ WasTold L ids es i p) :
    Follows L ids es s i x ((s.peers x).getAllInputValues t) where
  caller := hx
  remaining := ⟨[], hw.peerIds x⟩
  noneEmpty k m hm := by
    rw [InputPeer.getAllInputValues, AList.lookup_empty] at hm
    cases hm
  reading p _ hs := by cases hs
  pending p _ := ⟨hnot p, fun k => rfl⟩
  done p hp hd := by
    rw [InputPeer.getAllInputValues, hw.peerIds] at hd
    exact absurd hp hd
  outside p _ k := rfl

theorem Step.calls_length (h : Step L ids s e s') : s.calls.length ≤ s'.calls.length := by
  cases h with
  | getAllInputValues hx hlive => simp
  | resume hat hlive h => simp
  | _ => exact le_rfl

/-- A call is told of nothing before it begins. -/
theorem run_wasTold (r : (game L ids).Run es s) {i : Nat} {p : Bytes}
    (h : WasTold L ids es i p) : i < s.calls.length := by
  induction r with
  | start _ =>
      obtain ⟨es₁, s₁, hpre, -⟩ := h
      simp at hpre
  | snoc r hstep ih =>
      rcases (wasTold_snoc r).mp h with h | ⟨rfl, x, call, hat, -⟩
      · exact (ih h).trans_le (Step.calls_length hstep)
      · obtain ⟨hi, -⟩ := List.getElem?_eq_some_iff.mp hat.1
        exact hi.trans_le (Step.calls_length hstep)

/-- **Every call follows its run.** -/
theorem run_follows (hids : ids.Nodup) (r : (game L ids).Run es s) {i : Nat} {x : Bytes}
    {call : InputCall} (hi : s.calls[i]? = some (x, call)) : Follows L ids es s i x call := by
  suffices h : ∀ i x call, s.calls[i]? = some (x, call) → Follows L ids es s i x call from
    h i x call hi
  clear hi
  refine r.invariant_history (I := fun es s => ∀ i x call, s.calls[i]? = some (x, call) →
    Follows L ids es s i x call) (fun s h i x call hi => ?_)
    fun es s e s' r ih hstep i x call hi => ?_
  · cases h
    cases hi
  · have hw := run_wired r
    have heff := Step.effect hstep
    -- a call that an event is not about is left as it is
    have hother : e ≠ .resume i → ∀ p, WasTold L ids (es ++ [e]) i p ↔ WasTold L ids es i p :=
      fun he p => (wasTold_snoc r).trans (or_iff_left fun h => he h.1)
    cases hstep with
    | @getAllInputValues y t hy hlive =>
        rcases Nat.lt_or_ge i s.calls.length with hlt | hge
        · rw [List.getElem?_append_left hlt] at hi
          exact (ih i x call hi).later hw heff (hother (by intro h; cases h))
        · rw [List.getElem?_append_right hge] at hi
          obtain ⟨hi₀, hi⟩ := List.getElem?_eq_some_iff.mp hi
          rw [List.getElem_singleton] at hi
          cases hi
          have hnot : ∀ p, ¬ WasTold L ids (es ++ [.getAllInputValues x t]) i p := fun p h =>
            absurd (run_wasTold r ((hother (by intro h; cases h) p).mp h)) (not_lt.mpr hge)
          exact Follows.begin (hw.step heff) hy hnot
    | @resume j y p c c' hat hlive h =>
        by_cases hij : j = i
        · subst hij
          obtain ⟨hj, -⟩ := List.getElem?_eq_some_iff.mp hat.1
          rw [List.getElem?_set_self hj] at hi
          cases hi
          exact (ih j x c hat.1).resume hids r hat h
        · rw [List.getElem?_set_ne hij] at hi
          exact (ih i x call hi).later hw heff (hother fun h => hij (by cases h; rfl))
    | updateState _ _ _ _ => exact (ih i x call hi).later hw heff (hother (by intro h; cases h))
    | deliver _ _ => exact (ih i x call hi).later hw heff (hother (by intro h; cases h))
    | sendShutdown _ _ _ => exact (ih i x call hi).later hw heff (hother (by intro h; cases h))

/-! ### After a shutdown -/

theorem run_leads {es₁ : List GameEvent} {s₁ : Game} (r₁ : (game L ids).Run es₁ s₁)
    (r : (game L ids).Run es s) (hpre : es₁ <+: es) : (game L ids).Leads s₁ s :=
  r₁.leads (fun _ _ _ => Run.unique) r hpre

/-- A peer that has sent `SHUTDOWN` records nothing more. -/
theorem leads_shutDown (r : (game L ids).Run es s) (hl : (game L ids).Leads s s') {p : Bytes}
    (hsent : (s.peers p).sentShutdown = true) : s'.store p p = s.store p p := by
  refine (System.Leads.invariant (I := fun s' => (s'.peers p).sentShutdown = true ∧
    s'.store p p = s.store p p) (fun s₁ e s₂ hr hs h => ?_) hl ⟨es, r⟩ ⟨hsent, rfl⟩).2
  obtain ⟨es₁, r₁⟩ := hr
  obtain ⟨hs, hstore⟩ := hs
  have hw := run_wired r₁
  have heff := Step.effect h
  obtain ⟨hs', hb⟩ := (heff.later p).sentShutdown hs
  refine ⟨hs', Eq.trans ?_ hstore⟩
  rcases heff.inputs p with ⟨hin, -, -⟩ | ⟨t, data, payload, -, -, -, hb'⟩
  · rw [(hw.step heff).own, hw.own, hin]
  · omega

/-- A call keeps its caller and its time stamp. -/
theorem leads_call (r : (game L ids).Run es s) (hl : (game L ids).Leads s s') {i : Nat} {x : Bytes}
    {call : InputCall} (hi : s.calls[i]? = some (x, call)) :
    ∃ call', s'.calls[i]? = some (x, call') ∧ call'.timestamp = call.timestamp := by
  refine System.Leads.invariant (I := fun s' => ∃ call', s'.calls[i]? = some (x, call') ∧
    call'.timestamp = call.timestamp) (fun s₁ e s₂ _ hs h => ?_) hl ⟨es, r⟩ ⟨call, hi, rfl⟩
  obtain ⟨c, hc, ht⟩ := hs
  cases h with
  | getAllInputValues hx hlive =>
      obtain ⟨hlt, -⟩ := List.getElem?_eq_some_iff.mp hc
      exact ⟨c, (List.getElem?_append_left hlt).trans hc, ht⟩
  | @resume j y p d d' hat hlive h =>
      by_cases hij : j = i
      · subst hij
        cases hc.symm.trans hat.1
        obtain ⟨hlt, -⟩ := List.getElem?_eq_some_iff.mp hc
        refine ⟨d', List.getElem?_set_self hlt, Eq.trans ?_ ht⟩
        rcases resumeAt_cases h with ⟨-, -, rfl⟩ | ⟨-, ⟨stage, rfl, -⟩ | ⟨-, all, -, rfl⟩⟩ <;> rfl
      · exact ⟨c, (List.getElem?_set_ne hij).trans hc, ht⟩
  | _ => exact ⟨c, hc, ht⟩

/-- **A call that is told of a shutdown has all inputs of that peer at hand**, if a peer sends
`SHUTDOWN` only once all its requests have been answered. -/
theorem told_complete (r : (game L ids).Run es s) (hans : Answers L ids es) {i : Nat} {p x : Bytes}
    {call : InputCall} (hi : s.calls[i]? = some (x, call)) (hx : x ∈ ids) (ht : s.Told i p) :
    (s.peers p).sentShutdown = true ∧ ∀ t k, (s.store p p).get t k = (s.store x p).get t k := by
  obtain ⟨y, call', hat, -, hd⟩ := ht
  cases hi.symm.trans hat.1
  have hw := run_wired r
  obtain ⟨hpx, hsent⟩ := hw.shutDown hd
  have hexp := run_complete r hpx.symm (run_replied r hans p hsent x hx hpx.symm)
  refine ⟨hsent, fun t k => ?_⟩
  rcases lt_or_ge t (s.store x p).expirationTime with hlt | hge
  · exact (run_shared r x p).get t hlt k
  · rw [get_eq, get_eq, ← hexp, if_pos hge, if_pos hge]

/-! ### Two calls for one time stamp -/

/-- What a call that has returned has of a peer. -/
theorem Follows.returned {i : Nat} {x : Bytes} {call : InputCall}
    (hf : Follows L ids es s i x call) (hr : call.Returned) {p : Bytes} (hp : p ∈ ids)
    (k v : Bytes) : valueOf call.values k p = some v ↔
      ¬ WasTold L ids es i p ∧ (s.store p p).get call.timestamp k = .ok (some v) := by
  have hnot : p ∉ call.remaining := fun hmem => by
    rw [hr] at hmem
    cases hmem
  rcases hf.done p hp hnot with ⟨ht, hnone⟩ | ⟨ht, -, hv⟩
  · rw [hnone k]
    exact iff_of_false (Option.some_ne_none v).symm fun h => h.1 ht
  · rw [hv k v]
    exact (and_iff_right ht).symm

/-- Two calls agree when they are told of the same departures. -/
theorem Follows.agree_iff {i j : Nat} {x y : Bytes} {c d : InputCall}
    (hfc : Follows L ids es s i x c) (hfd : Follows L ids es s j y d) (hc : c.Returned)
    (hd : d.Returned) (ht : c.timestamp = d.timestamp) :
    SameValues c.values d.values ↔ ∀ p ∈ ids, s.HasInput p c.timestamp →
      (WasTold L ids es i p ↔ WasTold L ids es j p) := by
  rw [sameValues_iff hfc.noneEmpty hfd.noneEmpty]
  constructor
  · rintro h p hp ⟨k, v, hv⟩
    have hiff := hfc.returned hc hp k v
    rw [h k p, hfd.returned hd hp k v, ← ht, and_iff_left hv, and_iff_left hv] at hiff
    exact (not_iff_not.mp hiff).symm
  · intro h k p
    by_cases hp : p ∈ ids
    · refine Option.ext fun v => ?_
      rw [hfc.returned hc hp k v, hfd.returned hd hp k v, ← ht]
      exact and_congr_left fun hv => not_congr (h p hp ⟨k, v, hv⟩)
    · rw [hfc.outside p hp k, hfd.outside p hp k]

/-- **Calls that look at the inputs first agree.**  If a peer sends `SHUTDOWN` only once all its
requests have been answered, and the calls are told of a shutdown only where they have no inputs of
the peer for the time stamp, they return the same values. -/
theorem lockstep_of_late (hids : ids.Nodup) (r : (game L ids).Run es s) (hans : Answers L ids es)
    {i j : Nat} {x y : Bytes} {c d : InputCall} (hi : s.calls[i]? = some (x, c))
    (hj : s.calls[j]? = some (y, d)) (hc : c.Returned) (hd : d.Returned)
    (ht : c.timestamp = d.timestamp)
    (hlate : ∀ es₁ s₁ l z e p, es₁ ++ [.resume l] <+: es → (game L ids).Run es₁ s₁ →
      s₁.calls[l]? = some (z, e) → e.timestamp = c.timestamp → s₁.Told l p →
      ∀ k v, (s₁.store z p).get c.timestamp k ≠ .ok (some v)) :
    SameValues c.values d.values := by
  refine ((run_follows hids r hi).agree_iff (run_follows hids r hj) hc hd ht).mpr
    fun p hp ⟨k, v, hv⟩ => ?_
  have hnot : ∀ l z e, s.calls[l]? = some (z, e) → e.timestamp = c.timestamp →
      ¬ WasTold L ids es l p := by
    rintro l z e hl hte ⟨es₁, s₁, hpre, r₁, htold⟩
    obtain ⟨z₁, e₁, hat, hrest⟩ := htold
    have hlead := run_leads r₁ r ((List.prefix_append _ _).trans hpre)
    obtain ⟨e', hl', hte'⟩ := leads_call r₁ hlead hat.1
    cases hl.symm.trans hl'
    have htold : s₁.Told l p := ⟨z, e₁, hat, hrest⟩
    have hans₁ := hans.of_isPrefix ((List.prefix_append _ _).trans hpre)
    obtain ⟨hsent, hall⟩ := told_complete r₁ hans₁ hat.1 (run_follows hids r₁ hat.1).caller htold
    refine hlate es₁ s₁ l z e₁ p hpre r₁ hat.1 (hte'.symm.trans hte) htold k v ?_
    rw [← hall, ← leads_shutDown r₁ hlead hsent]
    exact hv
  exact iff_of_false (hnot i x c hi rfl) (hnot j y d hj ht.symm)

/-- **When two calls of `getAllInputValues` for one time stamp agree**: for every peer with an input
at that time, they are both told that it is shut down, or neither is. -/
theorem lockstep_iff (hids : ids.Nodup) (r : (game L ids).Run es s) {i j : Nat} {x y : Bytes}
    {c d : InputCall} (hi : s.calls[i]? = some (x, c)) (hj : s.calls[j]? = some (y, d))
    (hc : c.Returned) (hd : d.Returned) (ht : c.timestamp = d.timestamp) :
    SameValues c.values d.values ↔ ∀ p ∈ ids, s.HasInput p c.timestamp →
      (WasTold L ids es i p ↔ WasTold L ids es j p) :=
  (run_follows hids r hi).agree_iff (run_follows hids r hj) hc hd ht

/-! ### A departure -/

/-- Three peers, `[1]`, `[2]` and `[3]`. -/
def trio : List Bytes := [[1], [2], [3]]

/-- The first input of the peer `p`. -/
def firstInput (p : Bytes) : UnorderedMap Bytes Bytes := .singleton (ascii ['k']) p

/-- Its broadcast to `x`. -/
def firstRequest (p x : Bytes) : InputMessage :=
  .request p x 0 (Libraries.standIn.pack ((window [⟨0, 10, firstInput p⟩]).flatMap blockObjects))

/-- All have each other's inputs up to 10.  `[1]` asks for those at 5; then `[3]`, whose request was
answered, leaves; then `[2]` asks for those at 5. -/
def departure : List GameEvent :=
  trio.map (fun p => .updateState p 10 (firstInput p)) ++
  [.deliver (firstRequest [1] [2]), .deliver (firstRequest [1] [3]),
    .deliver (firstRequest [2] [1]), .deliver (firstRequest [2] [3]),
    .deliver (firstRequest [3] [1]), .deliver (firstRequest [3] [2]),
    .deliver (.reply [1] [3] 0), .deliver (.reply [2] [3] 0)] ++
  .getAllInputValues [1] 5 :: List.replicate 9 (.resume 0) ++
  [.sendShutdown [3] fun _ => false, .deliver (.shutdown [3] [2])] ++
  .getAllInputValues [2] 5 :: List.replicate 7 (.resume 1)

theorem departure_live : ∀ e ∈ departure, e.Live := by
  simp [departure, trio, GameEvent.Live]

/-- A list of two, by what a function makes of it. -/
theorem eq_pair_of_map {α β : Type} {f : α → β} {l : List α} {a b : β} (h : l.map f = [a, b]) :
    ∃ c d, l = [c, d] ∧ f c = a ∧ f d = b := by
  obtain ⟨c, l₁, rfl, hc, h₁⟩ := List.map_eq_cons_iff.mp h
  obtain ⟨d, l₂, rfl, hd, h₂⟩ := List.map_eq_cons_iff.mp h₁
  obtain rfl := List.map_eq_nil_iff.mp h₂
  exact ⟨c, d, rfl, hc, hd⟩

/-- A call's caller and time stamp, whether it has returned, and of whom it has the first input. -/
def inputsOf (call : Bytes × InputCall) : Bytes × Int × Bool × List Bytes :=
  (call.1, call.2.timestamp, call.2.remaining.isEmpty,
    trio.filter fun p => valueOf call.2.values (ascii ['k']) p = some p)

theorem departure_ends : ∃ s, departure.foldlM (exec .standIn trio) (start trio) = .ok s ∧
    s.calls.map inputsOf = [([1], 5, true, [[1], [2], [3]]), ([2], 5, true, [[1], [2]])] ∧
    (s.peers [1]).sentShutdown = false ∧ (s.peers [2]).sentShutdown = false := by
  decide +kernel

theorem departure_calls : ∃ s c d, (game .standIn trio).Run departure s ∧
    Answers .standIn trio departure ∧ s.calls[0]? = some ([1], c) ∧ s.calls[1]? = some ([2], d) ∧
    c.Returned ∧ d.Returned ∧ c.timestamp = 5 ∧ d.timestamp = 5 ∧ (s.peers [1]).sentShutdown = false ∧
    (s.peers [2]).sentShutdown = false ∧
    valueOf c.values (ascii ['k']) [3] = some [3] ∧
    valueOf d.values (ascii ['k']) [3] ≠ some [3] := by
  obtain ⟨s, hs, hcalls, hone, htwo⟩ := departure_ends
  obtain ⟨⟨x, c⟩, ⟨y, d⟩, hcd, hcs, hds⟩ := eq_pair_of_map hcalls
  simp only [inputsOf, Prod.mk.injEq] at hcs hds
  obtain ⟨rfl, hct, hcr, hcv⟩ := hcs
  obtain ⟨rfl, hdt, hdr, hdv⟩ := hds
  have hlast : ([3] : Bytes) ∈ trio := by decide
  have r : (game .standIn trio).Run departure s := .of_foldlM (fun _ _ _ => exec_step) rfl hs
  refine ⟨s, c, d, r, .of_live r departure_live, by rw [hcd]; rfl, by rw [hcd]; rfl,
    List.isEmpty_iff.mp hcr, List.isEmpty_iff.mp hdr, hct, hdt, hone, htwo,
    ?_, fun h => ?_⟩
  · have hmem : ([3] : Bytes) ∈ trio.filter fun p =>
        decide (valueOf c.values (ascii ['k']) p = some p) := by
      rw [hcv]
      decide
    exact of_decide_eq_true (List.mem_filter.mp hmem).2
  · have hmem : ([3] : Bytes) ∈ trio.filter fun p =>
        decide (valueOf d.values (ascii ['k']) p = some p) :=
      List.mem_filter.mpr ⟨hlast, decide_eq_true h⟩
    rw [hdv] at hmem
    exact absurd hmem (by decide)

/-- The two calls of that run disagree exactly if they are not told alike. -/
theorem lockstep_iff_departure : ∃ s c d, (game .standIn trio).Run departure s ∧
    s.calls[0]? = some ([1], c) ∧ s.calls[1]? = some ([2], d) ∧
    (SameValues c.values d.values ↔ ∀ p ∈ trio, s.HasInput p c.timestamp →
      (WasTold .standIn trio departure 0 p ↔ WasTold .standIn trio departure 1 p)) := by
  obtain ⟨s, c, d, r, -, hi, hj, hc, hd, hct, hdt, -⟩ := departure_calls
  exact ⟨s, c, d, r, hi, hj,
    lockstep_iff (by decide) r hi hj hc hd (hct.trans hdt.symm)⟩

/-- **Two live peers get different inputs for one time stamp**: the third one left between their
calls, after all its updates had been answered. -/
theorem departure_disagrees : ∃ s c d, (game .standIn trio).Run departure s ∧
    Answers .standIn trio departure ∧ s.calls[0]? = some ([1], c) ∧ s.calls[1]? = some ([2], d) ∧
    c.Returned ∧ d.Returned ∧ c.timestamp = 5 ∧ d.timestamp = 5 ∧ (s.peers [1]).sentShutdown = false ∧
    (s.peers [2]).sentShutdown = false ∧ ¬ SameValues c.values d.values := by
  obtain ⟨s, c, d, r, hans, hi, hj, hc, hd, hct, hdt, hone, htwo, hcv, hdv⟩ := departure_calls
  refine ⟨s, c, d, r, hans, hi, hj, hc, hd, hct, hdt, hone, htwo, fun h => hdv ?_⟩
  rw [← h.valueOf, hcv]

end Game

end Wga
