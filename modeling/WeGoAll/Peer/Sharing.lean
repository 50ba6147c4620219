import WeGoAll.Peer.Stores

/-!
# Peer — Sharing

The stores the peers of a game build from each other's broadcasts.

* `Origin`: where the stores of a peer's inputs come from.  Its calls of `updateState` form an
  `InputHistory`, unless the only one so far carried no data.
* `run_shared`: a store another peer has of a peer's inputs answers as that peer's own, as far as it
  reaches.
* `run_complete`: it reaches as far as that one, once it has handled every broadcast.
-/

namespace Wga

open ChronoMap MyPeer Timeline

variable {L : Libraries} {ids : List Bytes}

/-! ### Histories -/

/-- The call of `updateState` by `p` that an event is. -/
def GameEvent.callOf (p : Bytes) : GameEvent → Option (Int × UnorderedMap Bytes Bytes)
  | .updateState q t data => if q = p then some (t, data) else none
  | _ => none

/-- The calls of `updateState` by `p`. -/
def callsOf (p : Bytes) (es : List GameEvent) : List (Int × UnorderedMap Bytes Bytes) :=
  es.filterMap (GameEvent.callOf p)

theorem callsOf_snoc (p : Bytes) (es : List GameEvent) (e : GameEvent) :
    callsOf p (es ++ [e]) = callsOf p es ++ (e.callOf p).toList := by
  rw [callsOf, List.filterMap_append]
  rfl

theorem GameEvent.callOf_eq_some {p : Bytes} {e : GameEvent}
    {c : Int × UnorderedMap Bytes Bytes} (h : e.callOf p = some c) :
    e = .updateState p c.1 c.2 := by
  cases e with
  | updateState q t data =>
      rw [callOf] at h
      split at h
      · rename_i hq
        cases h
        rw [hq]
      · cases h
  | _ => cases h

namespace Game

variable {s s' : Game} {e : GameEvent} {p : Bytes}

/-! ### Peers that follow a history -/

/-- A broadcast with the block `j` of `p` has been handled by `x`. -/
def Handled (s : Game) (p x : Bytes) (j : Nat) : Prop :=
  ∃ i, .reply x p i ∈ s.posted ∧ i ≤ j + 2 ∧ j ≤ i

/-- What there is of the inputs of `p` is what the beginning of the history `H` leaves. -/
structure Tracks (L : Libraries) (H : InputHistory) (s : Game) (p : Bytes) : Prop where
  le : (s.peers p).broadcasts ≤ H.calls.length
  recorded : Recorded H (s.peers p).broadcasts (s.peers p).inputs
  posted : ∀ x i payload, .request p x i payload ∈ s.posted → H.Carries L i payload
  stores : ∀ x, x ≠ p → H.chain.Inv (s.Handled p x) (s.store x p)

/-- The members of a peer that its calls of `updateState` change. -/
theorem Effect.inputs (h : Effect L ids s e s') (p : Bytes) :
    ((s'.peers p).inputs = (s.peers p).inputs ∧
      (s'.peers p).broadcasts = (s.peers p).broadcasts ∧ e.callOf p = none) ∨
    ∃ t data payload, e.callOf p = some (t, data) ∧ t < 2 ^ 63 ∧
      MyPeer.updateState L t data (s.peers p).inputs = .ok (payload, (s'.peers p).inputs) ∧
      (s'.peers p).broadcasts = (s.peers p).broadcasts + 1 := by
  cases h with
  | @recorded q t data payload inputs hq hlive ht h =>
      rw [set_peers, GameEvent.callOf]
      by_cases hp : p = q
      · subst hp
        rw [if_pos rfl, if_pos rfl]
        exact .inr ⟨t, data, payload, rfl, ht, h, rfl⟩
      · rw [if_neg hp, if_neg (Ne.symm hp)]
        exact .inl ⟨rfl, rfl, rfl⟩
  | asked he calls =>
      refine .inl ⟨rfl, rfl, ?_⟩
      rcases he with ⟨x, t, rfl⟩ | ⟨i, rfl⟩ <;> rfl
  | _ =>
      rw [set_peers]
      split
      · rename_i hp
        subst hp
        exact .inl ⟨rfl, rfl, rfl⟩
      · exact .inl ⟨rfl, rfl, rfl⟩

theorem Tracks.step {H : InputHistory} (hw : s.Wired ids) (h : Effect L ids s e s')
    (ht : Tracks L H s p)
    (hnext : ∀ c, e.callOf p = some c → H.calls[(s.peers p).broadcasts]? = some c) :
    Tracks L H s' p := by
  -- the call of `updateState`, if it is one, is the next one of the history
  have hcall : ∀ t data, e.callOf p = some (t, data) →
      (s.peers p).broadcasts < H.calls.length ∧ ∃ payload self',
      MyPeer.updateState L t data (s.peers p).inputs = .ok (payload, self') ∧
      Recorded H ((s.peers p).broadcasts + 1) self' ∧
      H.Carries L (s.peers p).broadcasts payload := by
    intro t data he
    obtain ⟨hi, hc⟩ := List.getElem?_eq_some_iff.mp (hnext _ he)
    have hup := updateState_ok (L := L) hi ht.recorded
    rw [hc] at hup
    exact ⟨hi, hup⟩
  refine ⟨?_, ?_, fun x i payload hm => ?_, fun x hx => ?_⟩
  · rcases h.inputs p with ⟨-, hb, -⟩ | ⟨t, data, payload, he, -, -, hb⟩
    · rw [hb]
      exact ht.le
    · rw [hb]
      exact (hcall t data he).1
  · rcases h.inputs p with ⟨hin, hb, -⟩ | ⟨t, data, payload, he, -, hup, hb⟩
    · rw [hin, hb]
      exact ht.recorded
    · obtain ⟨-, payload', self', hup', hrec, -⟩ := hcall t data he
      cases hup.symm.trans hup'
      rw [hb]
      exact hrec
  · rcases h.request hw hm with hm | ⟨-, rfl, t, data, inputs, rfl, hup⟩
    · exact ht.posted x i payload hm
    · obtain ⟨-, payload', self', hup', -, hcar⟩ := hcall t data (if_pos rfl)
      cases hup.symm.trans hup'
      exact hcar
  · by_cases he : ∃ i payload, e = .deliver (.request p x i payload)
    · obtain ⟨i, payload, rfl⟩ := he
      have hm : .request p x i payload ∈ s.posted := by
        cases h with
        | handled hm hread => exact hm
        | asked he calls => simp at he
      obtain ⟨-, hread, hposted⟩ := h.taken hw
      obtain ⟨m', hread', hinv⟩ := readInputs_ok ((hw.request p x i payload hm).2.trans_le ht.le)
        (ht.posted x i payload hm) (ht.stores x hx)
      cases hread.symm.trans hread'
      refine hinv.congr fun j => ?_
      simp only [Handled, hposted, List.mem_append, List.mem_singleton]
      constructor
      · rintro (⟨k, hk, hj⟩ | hj)
        · exact ⟨k, .inl hk, hj⟩
        · exact ⟨i, .inr rfl, hj⟩
      · rintro ⟨k, hk | hk, hj⟩
        · exact .inl ⟨k, hk, hj⟩
        · cases hk
          exact .inr hj
    · have hsame : s'.store x p = s.store x p := by
        rcases h.store hw x p with hs | ⟨hxp, -⟩ | ⟨-, i, payload, he', -⟩
        · exact hs
        · exact absurd hxp hx
        · exact absurd ⟨i, payload, he'⟩ he
      rw [hsame]
      refine (ht.stores x hx).congr fun j => exists_congr fun i => and_congr_left fun _ =>
        ⟨h.posted, fun hm => ?_⟩
      rcases h.reply hm with hm | ⟨payload, he', -⟩
      · exact hm
      · exact absurd ⟨i, payload, he'⟩ he

/-! ### Peers without inputs -/

/-- A peer that has not called `updateState`. -/
structure Idle (s : Game) (p : Bytes) : Prop where
  broadcasts : (s.peers p).broadcasts = 0
  inputs : (s.peers p).inputs = noInputs
  stores : ∀ x, s.store x p = .new

theorem Idle.tracks (hw : s.Wired ids) (h : s.Idle p) (H : InputHistory) : Tracks L H s p where
  le := h.broadcasts ▸ Nat.zero_le _
  recorded := by
    rw [h.broadcasts, h.inputs]
    exact ⟨Chain.Inv.new.congr fun j => by simp, 0, 0, rfl, rfl, List.Forall₂.nil⟩
  posted x i payload hm := by
    have hi := (hw.request p x i payload hm).2
    rw [h.broadcasts] at hi
    exact absurd hi (Nat.not_lt_zero i)
  stores x hx := by
    rw [h.stores x]
    refine Chain.Inv.new.congr fun j => ⟨False.elim, fun hj => ?_⟩
    obtain ⟨i, hm, -⟩ := hj
    have hi := hw.reply x p i hm
    rw [h.broadcasts] at hi
    exact absurd hi (Nat.not_lt_zero i)

/-- A peer whose only call of `updateState` carried no data and a time stamp `t`. -/
structure Blank (L : Libraries) (t : Int) (s : Game) (p : Bytes) : Prop where
  positive : 0 < t
  bounded : t < 2 ^ 63
  broadcasts : (s.peers p).broadcasts = 1
  own : (s.store p p).expirationTime = t ∧ (s.store p p).data.entries = []
  posted : ∀ x i payload, .request p x i payload ∈ s.posted →
    payload = L.pack ((emptyWindow t).flatMap blockObjects)
  stores : ∀ x, x ≠ p → Barren t (s.store x p)
  handled : ∀ x i, x ≠ p → .reply x p i ∈ s.posted → (s.store x p).expirationTime = t

/-- Where the stores of a peer's inputs come from. -/
inductive Origin (L : Libraries) (es : List GameEvent) (s : Game) (p : Bytes) : Prop where
  | idle (hc : callsOf p es = []) (h : s.Idle p)
  | tracks (H₀ : InputHistory) (hc : H₀.calls = callsOf p es) (hne : H₀.calls ≠ [])
      (hb : (s.peers p).broadcasts = H₀.calls.length)
      (h : ∀ H : InputHistory, H₀.calls <+: H.calls → Tracks L H s p)
  | blank (t : Int) (data : UnorderedMap Bytes Bytes) (hc : callsOf p es = [(t, data)])
      (h : Blank L t s p)

theorem Wired.own (hw : s.Wired ids) (p : Bytes) :
    s.store p p = (s.peers p).inputs.playerInputData := if_pos (hw.userId p).symm

/-- A step that is no call of `p` leaves it idle. -/
theorem Idle.step (hw : s.Wired ids) (h : Effect L ids s e s') (hi : s.Idle p)
    (he : e.callOf p = none) : s'.Idle p := by
  rcases h.inputs p with ⟨hin, hb, -⟩ | ⟨t, data, payload, he', -⟩
  · refine ⟨hb.trans hi.broadcasts, hin.trans hi.inputs, fun x => ?_⟩
    rcases h.store hw x p with hs | ⟨rfl, t, data, payload, inputs, rfl, -⟩ |
      ⟨-, i, payload, -, hm, -⟩
    · exact hs.trans (hi.stores x)
    · rw [GameEvent.callOf, if_pos rfl] at he
      cases he
    · have hlt := (hw.request p x i payload hm).2
      rw [hi.broadcasts] at hlt
      exact absurd hlt (Nat.not_lt_zero i)
  · rw [he] at he'
    cases he'

/-- The time stamp of a call that succeeds is later than where the store reaches. -/
theorem updateState_later {t : Int} {data : UnorderedMap Bytes Bytes} {self self' : MyInputs}
    {payload : Bytes} (h : MyPeer.updateState L t data self = .ok (payload, self')) :
    self.playerInputData.expirationTime < t := by
  obtain ⟨-, ⟨hlt, -⟩ | ⟨hlt, -⟩ | ⟨-, hlt, -⟩⟩ := put_iff.mp (updateState_put h)
  · exact absurd hlt (lt_irrefl _)
  · exact absurd hlt (lt_irrefl _)
  · exact hlt

/-- A first call without data. -/
theorem Idle.blank (hw : s.Wired ids) (h : Effect L ids s e s') (hi : s.Idle p) {t : Int}
    {data : UnorderedMap Bytes Bytes} (he : e.callOf p = some (t, data))
    (hd : data.entries = []) : Blank L t s' p := by
  have hw' := hw.step h
  rcases h.inputs p with ⟨-, -, he'⟩ | ⟨t', data', payload, he', ht, hup, hb⟩
  · rw [he] at he'
    cases he'
  · cases he.symm.trans he'
    have hpos := updateState_later hup
    rw [hi.inputs] at hup hpos
    obtain ⟨self, hup', hexp, hnil⟩ := updateState_empty L hpos hd
    cases hup.symm.trans hup'
    have hnew : ∀ x i payload, .request p x i payload ∉ s.posted := fun x i payload hm => by
      have hlt := (hw.request p x i payload hm).2
      rw [hi.broadcasts] at hlt
      exact absurd hlt (Nat.not_lt_zero i)
    refine ⟨hpos, ht, by rw [hb, hi.broadcasts], ?_, fun x i payload hm => ?_, fun x hx => ?_,
      fun x i hx hm => ?_⟩
    · rw [hw'.own]
      exact ⟨hexp, hnil⟩
    · rcases h.request hw hm with hm | ⟨-, -, t', data', inputs, rfl, hup''⟩
      · exact absurd hm (hnew x i payload)
      · cases GameEvent.callOf_eq_some he
        rw [hi.inputs, hup'] at hup''
        cases hup''
        rfl
    · rcases h.store hw x p with hs | ⟨hxp, -⟩ | ⟨-, i, payload, -, hm, -⟩
      · exact .inl (hs.trans (hi.stores x))
      · exact absurd hxp hx
      · exact absurd hm (hnew x i payload)
    · rcases h.reply hm with hm | ⟨payload, -, hm⟩
      · have hlt := hw.reply x p i hm
        rw [hi.broadcasts] at hlt
        exact absurd hlt (Nat.not_lt_zero i)
      · exact absurd hm (hnew x i payload)

/-- There is no second call after a first one without data. -/
theorem Blank.no_call {t : Int} (hw : s.Wired ids) (hbl : Blank L t s p) {t' : Int}
    {data : UnorderedMap Bytes Bytes} {self' : MyInputs} {payload : Bytes} :
    MyPeer.updateState L t' data (s.peers p).inputs ≠ .ok (payload, self') := by
  intro hup
  obtain ⟨hexp, hnil⟩ := hbl.own
  rw [hw.own] at hexp hnil
  obtain ⟨-, ⟨hlt, -⟩ | ⟨hlt, -⟩ | ⟨-, -, hdr⟩⟩ := put_iff.mp (updateState_put hup)
  · exact absurd hlt (lt_irrefl _)
  · exact absurd hlt (lt_irrefl _)
  · have h₀ : (s.peers p).inputs.playerInputData.expirationTime = 0 := hdr.enterable.rooted hnil
    exact absurd (hexp.symm.trans h₀) hbl.positive.ne'

/-- The broadcast of a call without data, taken in. -/
theorem Blank.taken {t : Int} (hbl : Blank L t s p) {x : Bytes} (hx : x ≠ p) {i : Nat}
    {payload : Bytes} (hm : .request p x i payload ∈ s.posted) {m : ChronoMap Bytes Bytes}
    (hread : readInputs L payload (s.store x p) = .ok m) :
    m.expirationTime = t ∧ m.data.entries = [] := by
  rw [hbl.posted x i payload hm] at hread
  obtain ⟨m', hread', hm'⟩ := readInputs_empty hbl.positive hbl.bounded (hbl.stores x hx)
  cases hread.symm.trans hread'
  exact hm'

theorem Blank.step {t : Int} (hw : s.Wired ids) (h : Effect L ids s e s')
    (hbl : Blank L t s p) : Blank L t s' p ∧ e.callOf p = none := by
  rcases h.inputs p with ⟨hin, hb, he⟩ | ⟨t', data', payload, -, -, hup, -⟩
  · refine ⟨⟨hbl.positive, hbl.bounded, hb.trans hbl.broadcasts, ?_, fun x i payload hm => ?_,
      fun x hx => ?_, fun x i hx hm => ?_⟩, he⟩
    · rw [(hw.step h).own, hin, ← hw.own]
      exact hbl.own
    · rcases h.request hw hm with hm | ⟨-, -, t', data', inputs, -, hup⟩
      · exact hbl.posted x i payload hm
      · exact absurd hup (hbl.no_call hw)
    · rcases h.store hw x p with hs | ⟨hxp, -⟩ | ⟨-, i, payload, -, hm, hread⟩
      · rw [hs]
        exact hbl.stores x hx
      · exact absurd hxp hx
      · exact .inr (hbl.taken hx hm hread)
    · rcases h.reply hm with hm | ⟨payload, rfl, hm⟩
      · rcases h.store hw x p with hs | ⟨hxp, -⟩ | ⟨-, j, payload, -, hm', hread⟩
        · rw [hs]
          exact hbl.handled x i hx hm
        · exact absurd hxp hx
        · exact (hbl.taken hx hm' hread).1
      · exact (hbl.taken hx hm (h.taken hw).2.1).1
  · exact absurd hup (hbl.no_call hw)

/-! ### Runs -/

theorem run_wired {es : List GameEvent} (r : (game L ids).Run es s) : s.Wired ids :=
  r.invariant (fun _ h => h ▸ wired_start ids) fun _ _ _ hw h => hw.step h.effect

theorem run_replied {es : List GameEvent} (r : (game L ids).Run es s) (h : Answers L ids es) :
    s.Replied ids := by
  revert h
  refine r.invariant_history (I := fun es s => Answers L ids es → s.Replied ids)
    (fun s h _ p hsent => ?_) fun es s e s' r ih h hans => ?_
  · cases h
    cases hsent
  · exact (ih (hans.of_isPrefix (List.prefix_append _ _))).step (run_wired r) h.effect
      (hans es s e List.prefix_rfl r)

theorem Origin.step {es : List GameEvent} (hw : s.Wired ids) (h : Effect L ids s e s')
    (ho : Origin L es s p) : Origin L (es ++ [e]) s' p := by
  cases ho with
  | idle hc hi =>
      cases he : e.callOf p with
      | none => exact .idle (by rw [callsOf_snoc, hc, he]; rfl) (hi.step hw h he)
      | some c =>
          obtain ⟨t, data⟩ := c
          have hcalls : callsOf p (es ++ [e]) = [(t, data)] := by
            rw [callsOf_snoc, hc, he]
            rfl
          by_cases hd : data.entries = []
          · exact .blank t data hcalls (hi.blank hw h he hd)
          · rcases h.inputs p with ⟨-, -, he'⟩ | ⟨t', data', payload, he', ht, hup, hb⟩
            · rw [he] at he'
              cases he'
            · cases he.symm.trans he'
              have hpos := updateState_later hup
              rw [hi.inputs] at hpos
              refine .tracks (InputHistory.empty.snoc t data hpos ht fun _ => hd) hcalls.symm
                (List.cons_ne_nil _ _) (by rw [hb, hi.broadcasts]; rfl) fun H hH => ?_
              refine (hi.tracks hw H).step hw h fun c hc' => ?_
              cases he.symm.trans hc'
              obtain ⟨rest, hrest⟩ := hH
              rw [hi.broadcasts, ← hrest]
              rfl
  | tracks H₀ hc hne hb htr =>
      rcases h.inputs p with ⟨hin, hb', he⟩ | ⟨t, data, payload, he, ht, hup, hb'⟩
      · refine .tracks H₀ (by rw [callsOf_snoc, he, hc]; simp) hne (hb'.trans hb) fun H hH => ?_
        refine (htr H hH).step hw h fun c hc' => ?_
        rw [he] at hc'
        cases hc'
      · have hlt : H₀.time H₀.calls.length < t := by
          have hrec := (htr H₀ (List.prefix_refl _)).recorded.store
          rw [hb] at hrec
          have hexp := (hrec.expirationTime (m := H₀.calls.length) le_rfl (fun j hj => hj)
            fun hlt => absurd hlt (lt_irrefl _)).1
          exact lt_of_eq_of_lt hexp.symm (updateState_later hup)
        refine .tracks (H₀.snoc t data hlt ht fun hnil => absurd hnil hne)
          (by rw [callsOf_snoc, he, ← hc]; rfl) (List.append_ne_nil_of_left_ne_nil hne _)
          (by rw [hb', hb]; simp [InputHistory.snoc]) fun H hH => ?_
        refine (htr H ((List.prefix_append _ _).trans hH)).step hw h fun c hc' => ?_
        cases he.symm.trans hc'
        obtain ⟨rest, hrest⟩ := hH
        rw [hb, ← hrest]
        simp [InputHistory.snoc]
  | blank t data hc hbl =>
      obtain ⟨hbl', he⟩ := hbl.step hw h
      exact .blank t data (by rw [callsOf_snoc, he, hc]; rfl) hbl'

/-- **Every peer's inputs have an origin.** -/
theorem run_origin {es : List GameEvent} (r : (game L ids).Run es s) (p : Bytes) :
    Origin L es s p := by
  refine r.invariant_history (I := fun es s => Origin L es s p) (fun s h => ?_)
    fun es s e s' r ho h => ho.step (run_wired r) h.effect
  cases h
  refine .idle rfl ⟨rfl, rfl, fun x => ?_⟩
  rw [store, InputPeer.playerInputData]
  split <;> rfl

/-- What a store of a chain answers, as far as it reaches. -/
theorem grows_of_applied {C : Chain Bytes Bytes} {m n : Nat} {a b : ChronoMap Bytes Bytes}
    (ha : C.Applied m a) (hb : C.Applied n b) (hmn : m ≤ n) (ht : b.Timed) : a.Grows b := by
  refine ⟨ht, ?_, fun t hlt k => ?_⟩
  · rw [ha.expirationTime, hb.expirationTime]
    exact Timeline.time_le C.time_lt hmn hb.le
  · rcases lt_or_ge t 0 with hneg | h₀
    · rw [get_eq, get_eq, if_pos hneg, if_pos hneg]
    · rw [ha.expirationTime] at hlt
      obtain ⟨i, hi, h₁, h₂⟩ := exists_interval C.time (C.time_zero.trans_le h₀) hlt
      rw [ha.get hi h₁ h₂ k, hb.get (hi.trans_le hmn) h₁ h₂ k]

/-- What a store without keys answers. -/
theorem get_keyless {m : ChronoMap Bytes Bytes} (hnil : m.data.entries = []) (t : Int)
    (k : Bytes) : m.get t k = if t < 0 then .error (.fatal "Invalid time stamp") else .ok none := by
  have hnone : m.data.lookup k = none :=
    AList.lookup_eq_none.mpr (UnorderedMap.entries_eq_nil.mp hnil k)
  rw [ChronoMap.get, hnone, ite_self]

/-- **Stores are shared.**  As far as a store of a peer's inputs reaches, the peer's own reaches and
answers alike. -/
theorem run_shared {es : List GameEvent} (r : (game L ids).Run es s) (x p : Bytes) :
    (s.store x p).Grows (s.store p p) := by
  have hw := run_wired r
  have ht := hw.timed p p
  by_cases hx : x = p
  · subst hx
    exact ht.grows
  cases run_origin r p with
  | idle hc hi =>
      rw [hi.stores x, hi.stores p]
      exact Timed.new.grows
  | tracks H₀ hc hne hb htr =>
      have h := htr H₀ (List.prefix_refl _)
      have hrec := h.recorded.store
      rw [hb, ← hw.own] at hrec
      obtain ⟨-, hown⟩ := hrec.expirationTime (m := H₀.calls.length) le_rfl (fun j hj => hj)
        fun hlt => absurd hlt (lt_irrefl _)
      obtain ⟨m, ha, -⟩ := h.stores x hx
      exact grows_of_applied ha hown ha.le ht
  | blank t data hc hbl =>
      obtain ⟨hexp, hnil⟩ := hbl.own
      refine ⟨ht, ?_, fun t' _ k => ?_⟩
      · rcases hbl.stores x hx with hs | ⟨hs, -⟩
        · rw [hs, hexp]
          exact hbl.positive.le
        · rw [hs, hexp]
      · have hnil' : (s.store x p).data.entries = [] := by
          rcases hbl.stores x hx with hs | ⟨-, hs⟩
          · rw [hs]
            rfl
          · exact hs
        rw [get_keyless hnil, get_keyless hnil']

/-- **A store is complete** once every broadcast has been handled. -/
theorem run_complete {es : List GameEvent} (r : (game L ids).Run es s) {x p : Bytes} (hx : x ≠ p)
    (hall : ∀ i < (s.peers p).broadcasts, .reply x p i ∈ s.posted) :
    (s.store x p).expirationTime = (s.store p p).expirationTime := by
  have hw := run_wired r
  cases run_origin r p with
  | idle hc hi => rw [hi.stores x, hi.stores p]
  | tracks H₀ hc hne hb htr =>
      have h := htr H₀ (List.prefix_refl _)
      have hrec := h.recorded.store
      rw [hb, ← hw.own] at hrec
      have hend : ∀ {P : Prop}, H₀.calls.length < H₀.calls.length → P := fun hlt =>
        absurd hlt (lt_irrefl _)
      rw [(hrec.expirationTime (m := H₀.calls.length) le_rfl (fun j hj => hj) hend).1,
        ((h.stores x hx).expirationTime (m := H₀.calls.length) le_rfl
          (fun j hj => ⟨j, hall j (hb ▸ hj), Nat.le_add_right j 2, le_rfl⟩) hend).1]
  | blank t data hc hbl =>
      rw [hbl.handled x 0 hx (hall 0 (by rw [hbl.broadcasts]; exact Nat.one_pos)), hbl.own.1]

end Game

end Wga
