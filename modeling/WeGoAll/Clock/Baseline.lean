import Mathlib.Algebra.BigOperators.Group.List.Basic
import Mathlib.Algebra.Order.BigOperators.Group.List
import Mathlib.Data.Int.Cast.Lemmas
import Mathlib.Data.List.Induction
import WeGoAll.Clock.Exchange

/-!
# Clock — Baseline

The time shift a synchronizer sets while it measures its baseline, over the first ten replies of the
host.  The baseline is a running sum until the tenth reply divides it, and it is set as the time
shift after every one.

* `ClockDrift.feed_new`: what is set after so many replies.
* `average_within`: an average lies between the smallest and the largest number.
* `ClockDrift.timeShift_plausible_iff`: when the shift stays between the smallest and the largest
  offset measured.
* `ClockPair.Run.timeShift_fed`: the replies of a run feed their offsets in this way.
-/

namespace Wga

/-! ### Averages -/

/-- The value lies between the smallest and the largest of the list. -/
def Within (value : Int) (l : List Int) : Prop := (∃ a ∈ l, a ≤ value) ∧ ∃ a ∈ l, value ≤ a

instance (value : Int) (l : List Int) : Decidable (Within value l) :=
  inferInstanceAs (Decidable (_ ∧ _))

/-- **An average lies within its list**, also where the division truncates. -/
theorem average_within {l : List Int} (h : l ≠ []) : Within (l.sum.tdiv l.length) l := by
  have hpos : (0 : Int) < l.length := by exact_mod_cast List.length_pos_iff.mpr h
  have hdiv := Int.mul_tdiv_add_tmod l.sum l.length
  have hlt := Int.tmod_lt_of_pos l.sum hpos
  have hgt := Int.lt_tmod_of_pos l.sum hpos
  constructor
  · by_contra hall
    push Not at hall
    have hsum := List.card_nsmul_le_sum l (l.sum.tdiv l.length + 1) fun a ha => hall a ha
    rw [nsmul_eq_mul, Int.mul_add, Int.mul_one] at hsum
    omega
  · by_contra hall
    push Not at hall
    have hsum := List.sum_le_card_nsmul l (l.sum.tdiv l.length - 1) fun a ha =>
      Int.le_sub_one_of_lt (hall a ha)
    rw [nsmul_eq_mul, Int.mul_sub, Int.mul_one] at hsum
    omega

/-- Without one largest number the others sum to nothing positive, and without one smallest to
nothing negative. -/
def Balanced (l : List Int) : Prop :=
  (∃ a ∈ l, (l.erase a).sum ≤ 0) ∧ ∃ a ∈ l, 0 ≤ (l.erase a).sum

instance (l : List Int) : Decidable (Balanced l) := inferInstanceAs (Decidable (_ ∧ _))

theorem within_sum_iff {l : List Int} : Within l.sum l ↔ Balanced l := by
  have hsum : ∀ a ∈ l, a + (l.erase a).sum = l.sum := fun a ha => List.sum_erase ha
  constructor
  · rintro ⟨⟨a, ha, hle⟩, b, hb, hge⟩
    exact ⟨⟨b, hb, by have := hsum b hb; omega⟩, a, ha, by have := hsum a ha; omega⟩
  · rintro ⟨⟨b, hb, hge⟩, a, ha, hle⟩
    exact ⟨⟨a, ha, by have := hsum a ha; omega⟩, b, hb, by have := hsum b hb; omega⟩

/-! ### The first ten replies -/

namespace ClockDrift

variable {F : Doubles} {timeHandler : TimeHandler F}

/-- The samples of one connection, fed one after the other. -/
def feed (samples : List DriftSample) (self : ClockDrift F) (timeHandler : TimeHandler F) :
    ClockDrift F × TimeHandler F :=
  samples.foldl (fun c s => c.1.updateDrift s c.2) (self, timeHandler)

theorem feed_snoc {samples : List DriftSample} {s : DriftSample} {self : ClockDrift F} :
    feed (samples ++ [s]) self timeHandler =
      (feed samples self timeHandler).1.updateDrift s (feed samples self timeHandler).2 := by
  simp only [feed, List.foldl_append, List.foldl_cons, List.foldl_nil]

/-- The baseline after replies with these offsets, ten of them at most. -/
def baseline (offsets : List Int) : Int :=
  if offsets.length < 10 then offsets.sum else offsets.sum.tdiv 10

/-- An optimizer at its initial value adds nothing to the baseline. -/
theorem newTimeShift_initial {self : ClockDrift F}
    (h : timeHandler.offsetOptimizer.getCurrentValue = F.ofInt 0) :
    self.newTimeShift timeHandler = self.baselineOffset := by
  rw [newTimeShift, h, F.mul_zero _ (by decide), F.toInt64_ofInt _ (by decide), Int.zero_add]

/-- What a reply leaves while the baseline is measured. -/
theorem updateDrift_measuring {self : ClockDrift F} {s : DriftSample}
    (hhost : self.connectedToHost = true) (hcount : self.count < 10)
    (hopt : timeHandler.offsetOptimizer.getCurrentValue = F.ofInt 0) :
    (self.updateDrift s timeHandler).1.connectedToHost = true ∧
    (self.updateDrift s timeHandler).1.count = self.count + 1 ∧
    (self.updateDrift s timeHandler).1.baselineOffset =
      (if self.count + 1 < 10 then self.baselineOffset + s.offset
        else (self.baselineOffset + s.offset).tdiv 10) ∧
    (self.updateDrift s timeHandler).2.offsetOptimizer = timeHandler.offsetOptimizer ∧
    (self.updateDrift s timeHandler).2.timeShift =
      (self.updateDrift s timeHandler).1.baselineOffset := by
  by_cases h : self.count + 1 < 10
  · simp [updateDrift, hhost, measure, h, timeOffset_eq, newTimeShift_initial hopt,
      TimeHandler.setTimeShift]
  · have hten : self.count + 1 = 10 := by omega
    simp [updateDrift, hhost, measure, hten, timeOffset_eq, newTimeShift_initial hopt,
      TimeHandler.setTimeShift]

/-- **What is set after so many replies.** -/
theorem feed_new (hopt : timeHandler.offsetOptimizer.getCurrentValue = F.ofInt 0)
    {samples : List DriftSample} (hlen : samples.length ≤ 10) :
    (feed samples (.new true) timeHandler).1.connectedToHost = true ∧
    (feed samples (.new true) timeHandler).1.count = samples.length ∧
    (feed samples (.new true) timeHandler).1.baselineOffset =
      baseline (samples.map DriftSample.offset) ∧
    (feed samples (.new true) timeHandler).2.offsetOptimizer = timeHandler.offsetOptimizer ∧
    (samples ≠ [] → (feed samples (.new true) timeHandler).2.timeShift =
      baseline (samples.map DriftSample.offset)) := by
  induction samples using List.reverseRecOn with
  | nil => exact ⟨rfl, rfl, rfl, rfl, fun h => absurd rfl h⟩
  | append_singleton samples s ih =>
      rw [List.length_append, List.length_singleton] at hlen
      obtain ⟨hhost, hcount, hbase, hoptimizer, -⟩ := ih (by omega)
      obtain ⟨h₁, h₂, h₃, h₄, h₅⟩ := updateDrift_measuring (s := s) hhost (by omega)
        (by rw [hoptimizer, hopt])
      have hnext : (if ((feed samples (.new true) timeHandler).1.count + 1 < 10) then
            (feed samples (.new true) timeHandler).1.baselineOffset + s.offset
          else ((feed samples (.new true) timeHandler).1.baselineOffset + s.offset).tdiv 10) =
          baseline ((samples ++ [s]).map DriftSample.offset) := by
        have hlt : samples.length < 10 := by omega
        simp only [hcount, hbase, baseline, List.map_append, List.map_cons, List.map_nil,
          List.length_append, List.length_map, List.length_singleton, List.sum_append,
          List.sum_singleton, hlt, if_true]
        norm_cast
      rw [feed_snoc]
      refine ⟨h₁, ?_, h₃.trans hnext, h₄.trans hoptimizer, fun _ => h₅.trans (h₃.trans hnext)⟩
      rw [h₂, hcount, List.length_append, List.length_singleton, Nat.cast_add, Nat.cast_one]

/-- The shift set after some replies lies between the smallest and the largest offset measured. -/
def Plausible (samples : List DriftSample) (timeHandler : TimeHandler F) : Prop :=
  Within (feed samples (.new true) timeHandler).2.timeShift (samples.map DriftSample.offset)

instance (samples : List DriftSample) (timeHandler : TimeHandler F) :
    Decidable (Plausible samples timeHandler) :=
  inferInstanceAs (Decidable (Within _ _))

/-- After one reply the shift is its offset, after ten it is the average. -/
theorem plausible_iff (hopt : timeHandler.offsetOptimizer.getCurrentValue = F.ofInt 0)
    {samples : List DriftSample} (hne : samples ≠ []) (hlen : samples.length ≤ 10) :
    Plausible samples timeHandler ↔
      (2 ≤ samples.length → samples.length ≤ 9 → Balanced (samples.map DriftSample.offset)) := by
  have hlength : (samples.map DriftSample.offset).length = samples.length := List.length_map _
  rw [Plausible, (feed_new hopt hlen).2.2.2.2 hne, baseline, hlength]
  by_cases hlt : samples.length < 10
  · rw [if_pos hlt, within_sum_iff]
    refine ⟨fun h _ _ => h, fun h => ?_⟩
    by_cases htwo : 2 ≤ samples.length
    · exact h htwo (by omega)
    · have hpos := List.length_pos_iff.mpr hne
      obtain ⟨s, rfl⟩ := List.length_eq_one_iff.mp (show samples.length = 1 by omega)
      simp [Balanced]
  · have hten : samples.length = 10 := by omega
    have hwithin := average_within (l := samples.map DriftSample.offset) (by simpa using hne)
    rw [hlength, hten] at hwithin
    rw [if_neg hlt]
    exact iff_of_true hwithin fun _ h => absurd h (by omega)

/-- **When the shift set while the baseline is measured is plausible.**  Up to the tenth reply it
lies between the smallest and the largest offset after every reply exactly when, after two to nine
of them, the offsets are balanced. -/
theorem timeShift_plausible_iff (hopt : timeHandler.offsetOptimizer.getCurrentValue = F.ofInt 0)
    {samples : List DriftSample} (hlen : samples.length ≤ 10) :
    (∀ n, 0 < n → n ≤ samples.length → Plausible (samples.take n) timeHandler) ↔
      ∀ n, 2 ≤ n → n ≤ 9 → n ≤ samples.length →
        Balanced ((samples.take n).map DriftSample.offset) := by
  have htake : ∀ n, n ≤ samples.length → (samples.take n).length = n := fun n hn =>
    List.length_take_of_le hn
  have hreplies : ∀ n, 0 < n → n ≤ samples.length → (Plausible (samples.take n) timeHandler ↔
      (2 ≤ n → n ≤ 9 → Balanced ((samples.take n).map DriftSample.offset))) := by
    intro n hpos hn
    have hne : samples.take n ≠ [] := List.ne_nil_of_length_pos (by rw [htake n hn]; exact hpos)
    rw [plausible_iff hopt hne (by rw [htake n hn]; omega), htake n hn]
  constructor
  · intro h n htwo hnine hn
    exact (hreplies n (by omega) hn).mp (h n (by omega) hn) htwo hnine
  · intro h n hpos hn
    exact (hreplies n hpos hn).mpr fun htwo hnine => h n htwo hnine hn

/-- Replies that measure offsets on both sides of zero. -/
def opposed : List DriftSample := [⟨0, 0, 0, 20⟩, ⟨100, 120, 120, 100⟩, ⟨200, 200, 200, 204⟩]

theorem timeShift_plausible_iff_opposed :
    Plausible (opposed.take 2) (TimeHandler.new (F := .exact)) ∧
      Plausible opposed (TimeHandler.new (F := .exact)) := by
  have hbalanced : ∀ n, 2 ≤ n → n ≤ 9 → n ≤ opposed.length →
      Balanced ((opposed.take n).map DriftSample.offset) := by
    intro n htwo _ hn
    have hn : n ≤ 3 := hn
    obtain rfl | rfl : n = 2 ∨ n = 3 := by omega
    · decide
    · decide
  have hopt : (TimeHandler.new (F := .exact)).offsetOptimizer.getCurrentValue =
      Doubles.exact.ofInt 0 := rfl
  have h := (timeShift_plausible_iff hopt (show opposed.length ≤ 10 by decide)).mpr hbalanced
  exact ⟨h 2 (by decide) (by decide), h 3 (by decide) le_rfl⟩

/-- Two replies that measure an offset of ten each. -/
def twoAlike : List DriftSample := [⟨0, 0, 0, 20⟩, ⟨100, 100, 100, 120⟩]

/-- After two offsets of ten the shift is twenty. -/
theorem twoAlike_implausible :
    (feed twoAlike (.new true) (TimeHandler.new (F := .exact))).2.timeShift = 20 ∧
      ¬ Plausible twoAlike (TimeHandler.new (F := .exact)) := by
  decide +kernel

/-! ### The replies of a run -/

/-- Of the `TimeHandler` only the optimizer matters to what a reply leaves. -/
theorem updateDrift_congr {self : ClockDrift F} {s : DriftSample} {timeHandler' : TimeHandler F}
    (h : timeHandler.offsetOptimizer = timeHandler'.offsetOptimizer) :
    (self.updateDrift s timeHandler).1 = (self.updateDrift s timeHandler').1 ∧
    (self.updateDrift s timeHandler).2.offsetOptimizer =
      (self.updateDrift s timeHandler').2.offsetOptimizer ∧
    (self.connectedToHost = true → (self.updateDrift s timeHandler).2.timeShift =
      (self.updateDrift s timeHandler').2.timeShift) := by
  have hmeasure : ∀ (o : Int) (self : ClockDrift F),
      (self.measure o timeHandler).1 = (self.measure o timeHandler').1 ∧
      (self.measure o timeHandler).2.offsetOptimizer =
        (self.measure o timeHandler').2.offsetOptimizer := by
    intro o self
    simp only [measure]
    split
    · exact ⟨rfl, h⟩
    · split
      · exact ⟨rfl, h⟩
      · exact ⟨rfl, by rw [h]⟩
  simp only [updateDrift]
  split
  · obtain ⟨h₁, h₂⟩ := hmeasure (self.timeOffset s) _
    refine ⟨h₁, h₂, fun _ => ?_⟩
    simp only [TimeHandler.setTimeShift, newTimeShift, h₁, h₂]
  · exact ⟨rfl, h, fun hhost => absurd hhost ‹_›⟩

@[simp] theorem updateDrift_connectedToHost (s : DriftSample) (self : ClockDrift F)
    (timeHandler : TimeHandler F) :
    (self.updateDrift s timeHandler).1.connectedToHost = self.connectedToHost := by
  simp only [updateDrift, measure]
  split
  · split
    · rfl
    · split
      · rfl
      · rfl
  · rfl

end ClockDrift

namespace ClockHost

variable {F : Doubles} {timeHandler : TimeHandler F} {host host' : ClockHost F}

/-- The synchronizer of a host has been fed the samples its tables record. -/
def Fed (timeHandler : TimeHandler F) (host : ClockHost F) : Prop :=
  (ClockDrift.feed host.clock.samples (.new true) timeHandler).1 = host.drift ∧
    (ClockDrift.feed host.clock.samples (.new true) timeHandler).2.offsetOptimizer =
      host.timeHandler.offsetOptimizer

/-- A handled reply feeds its sample, and sets the shift that feeding it sets. -/
theorem Fed.handleReply {id : RpcId} {rr rs time : Int} (hfed : Fed timeHandler host)
    (h : host.handleReply id rr rs time = .ok host') :
    Fed timeHandler host' ∧ (host.drift.connectedToHost = true →
      host'.timeHandler.timeShift =
        (ClockDrift.feed host'.clock.samples (.new true) timeHandler).2.timeShift) := by
  obtain ⟨requestSendTime, -, -, hclock, hdrift, -⟩ := handleReply_ok h
  obtain ⟨h₁, h₂⟩ := hfed
  simp only [Fed, hclock, ClockDrift.feed_snoc, h₁]
  obtain ⟨hd, ho, hs⟩ := ClockDrift.updateDrift_congr h₂
  rw [← hdrift] at hd ho hs
  exact ⟨⟨hd, ho⟩, fun hhost => (hs hhost).symm⟩

/-- A call handles a reply or feeds nothing. -/
theorem call_cases {call : ClockCall} {time : Int} (h : host.call time call = .ok host') :
    (∃ id rr rs, host.handleReply id rr rs time = .ok host') ∨
    (host'.clock.samples = host.clock.samples ∧ host'.drift = host.drift ∧
      host'.timeHandler.offsetOptimizer = host.timeHandler.offsetOptimizer) := by
  cases call with
  | createRequest id =>
      obtain ⟨-, rfl⟩ := createRequest_ok h
      exact .inr ⟨rfl, rfl, rfl⟩
  | receiveRequest id =>
      obtain ⟨-, rfl⟩ := receiveRequest_ok h
      exact .inr ⟨rfl, rfl, rfl⟩
  | getReplyDuration id =>
      obtain ⟨_, _, h⟩ := bind_ok.mp h
      cases h
      exact .inr ⟨rfl, rfl, rfl⟩
  | eraseRequestRecieveTime id =>
      obtain rfl := eraseRequestRecieveTime_ok h
      exact .inr ⟨rfl, rfl, rfl⟩
  | handleReply id rr rs => exact .inl ⟨id, rr, rs, h⟩
  | setTimeShift timeShift =>
      cases h
      exact .inr ⟨rfl, rfl, rfl⟩

theorem Fed.call {call : ClockCall} {time : Int} (hfed : Fed timeHandler host)
    (h : host.call time call = .ok host') : Fed timeHandler host' := by
  rcases call_cases h with ⟨id, rr, rs, h⟩ | ⟨hsamples, hdrift, hopt⟩
  · exact (hfed.handleReply h).1
  · simpa only [Fed, hsamples, hdrift, hopt] using hfed

theorem call_connectedToHost {call : ClockCall} {time : Int}
    (h : host.call time call = .ok host') :
    host'.drift.connectedToHost = host.drift.connectedToHost := by
  rcases call_cases h with ⟨id, rr, rs, h⟩ | ⟨-, hdrift, -⟩
  · obtain ⟨requestSendTime, -, -, -, hdrift, -⟩ := handleReply_ok h
    exact (congrArg (fun r => r.1.connectedToHost) hdrift).trans
      (ClockDrift.updateDrift_connectedToHost _ _ _)
  · rw [hdrift]

end ClockHost

/-- **After every reply of a run, the shift is the one that feeding the offsets measured so far
sets.** -/
theorem ClockPair.Run.timeShift_fed {F : Doubles} {es : List ClockEvent} {s s' : ClockPair F}
    (r : (clockPair F).Run es s) (hhost : s.requester.drift.connectedToHost = true) {id : RpcId}
    {rr rs : Int} (h : (clockPair F).step s (.requester (.handleReply id rr rs)) s') :
    ∃ timeHandler : TimeHandler F,
      timeHandler.offsetOptimizer.getCurrentValue = F.ofInt 0 ∧
      s'.requester.timeHandler.timeShift =
        (ClockDrift.feed s'.requester.clock.samples (.new true) timeHandler).2.timeShift := by
  have hfed : s.requester.drift.connectedToHost = true → ∃ timeHandler : TimeHandler F,
      timeHandler.offsetOptimizer.getCurrentValue = F.ofInt 0 ∧
      ClockHost.Fed timeHandler s.requester := by
    refine System.Run.invariant (I := fun s => s.requester.drift.connectedToHost = true →
      ∃ timeHandler : TimeHandler F, timeHandler.offsetOptimizer.getCurrentValue = F.ofInt 0 ∧
        ClockHost.Fed timeHandler s.requester) ?_ ?_ r
    · rintro s ⟨⟨hclock, ⟨connectedToHost, hdrift⟩, hopt⟩, -⟩ hhost
      obtain rfl : connectedToHost = true := by rwa [hdrift] at hhost
      exact ⟨s.requester.timeHandler, hopt, by
        simp only [ClockHost.Fed, hclock, hdrift]; exact ⟨rfl, rfl⟩⟩
    · intro s e s' ih h hhost
      cases e with
      | wait duration =>
          cases h
          exact ih hhost
      | requester call =>
          obtain ⟨host, hcall, h⟩ := bind_ok.mp h
          cases h
          rw [ClockHost.call_connectedToHost hcall] at hhost
          obtain ⟨timeHandler, hopt, hfed⟩ := ih hhost
          exact ⟨timeHandler, hopt, hfed.call hcall⟩
      | responder call =>
          obtain ⟨host, -, h⟩ := bind_ok.mp h
          cases h
          exact ih hhost
  obtain ⟨timeHandler, hopt, hfed⟩ := hfed hhost
  obtain ⟨host, hcall, h⟩ := bind_ok.mp h
  cases h
  exact ⟨timeHandler, hopt, (hfed.handleReply hcall).2 hhost⟩

end Wga
