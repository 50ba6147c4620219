import Mathlib.Data.List.Induction
import Mathlib.Logic.Relation
import Mathlib.Order.RelClasses
import WeGoAll.Support.Except

/-!
# Support — Runs

Systems that move from state to state under events, and what holds along their runs.  A run is the
list of its events, oldest first.

* `System.Run S es s`: the events `es` lead from an initial state to `s`.
* `Run.invariant`: what holds initially and is kept by every step holds of every state reached.
* `Leads.invariant`: what the steps from the states reached keep, later states have.
* `Leads.progress`: a measure that can be lowered leads to states that are done.
* `Run.invariant_history`: the same for a property of the state and of the events that led to it.
* `Run.simulate`: what matches every step matches every run.
* `Run.always_iff`: what holds all along a run exactly when every step meets a condition.
* `watched`: a system and someone who looks at its states.
* `ofStep`: the system of a step function that may fail; its runs are computed by a fold.
-/

namespace Wga

variable {σ ε : Type*}

/-- The last event of a beginning of `es`. -/
theorem prefix_snoc {es p : List ε} {e : ε} (h : p ++ [e] <+: es) :
    ∃ k : Nat, p = es.take k ∧ es[k]? = some e := by
  obtain ⟨t, rfl⟩ := h
  exact ⟨p.length, by simp, by simp⟩

/-- States `σ`, events `ε`. -/
structure System (σ ε : Type*) where
  init : σ → Prop
  step : σ → ε → σ → Prop

namespace System

/-- The events `es` lead from an initial state to `s`. -/
inductive Run (S : System σ ε) : List ε → σ → Prop where
  | start {s : σ} (h : S.init s) : Run S [] s
  | snoc {es : List ε} {e : ε} {s s' : σ} (r : Run S es s) (h : S.step s e s') :
      Run S (es ++ [e]) s'

/-- A state some run reaches. -/
def Reachable (S : System σ ε) (s : σ) : Prop := ∃ es, S.Run es s

variable {S : System σ ε}

theorem Reachable.step {s s' : σ} {e : ε} (h : S.Reachable s) (hs : S.step s e s') :
    S.Reachable s' := by
  obtain ⟨es, r⟩ := h
  exact ⟨es ++ [e], r.snoc hs⟩

/-- A state some events lead to from `s`. -/
def Leads (S : System σ ε) : σ → σ → Prop := Relation.ReflTransGen fun s s' => ∃ e, S.step s e s'

theorem Reachable.leads {s s' : σ} (h : S.Reachable s) (hl : S.Leads s s') : S.Reachable s' := by
  induction hl with
  | refl => exact h
  | tail _ hs ih =>
      obtain ⟨e, he⟩ := hs
      exact ih.step he

/-- What the steps from reachable states keep, later states have. -/
theorem Leads.invariant {I : σ → Prop}
    (hstep : ∀ s e s', S.Reachable s → I s → S.step s e s' → I s') {s s' : σ}
    (h : S.Leads s s') (hr : S.Reachable s) (hs : I s) : I s' := by
  induction h with
  | refl => exact hs
  | tail hl h ih =>
      obtain ⟨e, he⟩ := h
      exact hstep _ e _ (hr.leads hl) ih he

/-- What every step keeps, later states have. -/
theorem Leads.keeps {I : σ → Prop} (hstep : ∀ s e s', I s → S.step s e s' → I s') {s s' : σ}
    (h : S.Leads s s') (hs : I s) : I s' := by
  induction h with
  | refl => exact hs
  | tail _ h ih =>
      obtain ⟨e, he⟩ := h
      exact hstep _ e _ ih he

/-- **The progress rule.**  Where every state that is not done leads to one of a lower measure,
every state leads to one that is done. -/
theorem Leads.progress {α : Type*} [LT α] [WellFoundedLT α] {I Done : σ → Prop} (measure : σ → α)
    (hlower : ∀ s, I s → ¬ Done s → ∃ s', S.Leads s s' ∧ I s' ∧ measure s' < measure s) {s : σ}
    (hs : I s) : ∃ s', S.Leads s s' ∧ I s' ∧ Done s' := by
  induction hn : measure s using WellFoundedLT.induction generalizing s with
  | ind n ih =>
      by_cases hdone : Done s
      · exact ⟨s, .refl, hs, hdone⟩
      · obtain ⟨s₁, h₁, hs₁, hlt⟩ := hlower s hs hdone
        obtain ⟨s', h', hs', hdone'⟩ := ih (measure s₁) (hn ▸ hlt) hs₁ rfl
        exact ⟨s', h₁.trans h', hs', hdone'⟩

/-- The system without the events that do not meet `P`. -/
def only (S : System σ ε) (P : ε → Prop) : System σ ε where
  init := S.init
  step s e s' := P e ∧ S.step s e s'

namespace Run

/-- Inversion at the last event. -/
theorem snoc_inv {es : List ε} {e : ε} {s' : σ} (r : S.Run (es ++ [e]) s') :
    ∃ s, S.Run es s ∧ S.step s e s' := by
  generalize hl : es ++ [e] = l at r
  cases r with
  | start h => simp at hl
  | snoc r h =>
      obtain ⟨rfl, he⟩ := List.append_inj' hl rfl
      cases he
      exact ⟨_, r, h⟩

theorem nil_inv {s : σ} (r : S.Run [] s) : S.init s := by
  generalize hl : ([] : List ε) = l at r
  cases r with
  | start h => exact h
  | snoc r h => simp at hl

/-- **The invariant rule.** -/
theorem invariant {I : σ → Prop} (hinit : ∀ s, S.init s → I s)
    (hstep : ∀ s e s', I s → S.step s e s' → I s') {es : List ε} {s : σ} (r : S.Run es s) :
    I s := by
  induction r with
  | start h => exact hinit _ h
  | snoc _ h ih => exact hstep _ _ _ ih h

/-- The invariant rule, with the run so far at hand. -/
theorem invariant_history {I : List ε → σ → Prop} (hinit : ∀ s, S.init s → I [] s)
    (hstep : ∀ es s e s', S.Run es s → I es s → S.step s e s' → I (es ++ [e]) s')
    {es : List ε} {s : σ} (r : S.Run es s) : I es s := by
  induction r with
  | start h => exact hinit _ h
  | snoc r h ih => exact hstep _ _ _ _ r ih h

/-- Its events determine where a run leads, if they determine each step. -/
theorem unique (hinit : ∀ s s', S.init s → S.init s' → s = s')
    (hstep : ∀ s e s₁ s₂, S.step s e s₁ → S.step s e s₂ → s₁ = s₂) {es : List ε} {s s' : σ}
    (r : S.Run es s) (r' : S.Run es s') : s = s' := by
  induction r generalizing s' with
  | start h => exact hinit _ _ h r'.nil_inv
  | snoc r h ih =>
      obtain ⟨s₁, r₁, h₁⟩ := r'.snoc_inv
      obtain rfl := ih r₁
      exact hstep _ _ _ _ h h₁

/-- A beginning of a run is a run. -/
theorem of_isPrefix {es p : List ε} {s : σ} (r : S.Run es s) (hp : p <+: es) :
    ∃ s₀, S.Run p s₀ := by
  induction r with
  | start h =>
      rw [List.prefix_nil.mp hp]
      exact ⟨_, .start h⟩
  | snoc r h ih =>
      rcases List.prefix_concat_iff.mp hp with rfl | hp
      · exact ⟨_, r.snoc h⟩
      · exact ih hp

/-- Events that meet `P` prolong a run. -/
theorem prolong {P : ε → Prop} {es : List ε} {s s' : σ} (r : S.Run es s)
    (h : (S.only P).Leads s s') : ∃ es', S.Run (es ++ es') s' ∧ ∀ e ∈ es', P e := by
  induction h with
  | refl => exact ⟨[], (List.append_nil es).symm ▸ r, fun _ he => absurd he List.not_mem_nil⟩
  | tail _ h ih =>
      obtain ⟨es', r', hes'⟩ := ih
      obtain ⟨e, he, hs⟩ := h
      refine ⟨es' ++ [e], (List.append_assoc es es' [e]) ▸ r'.snoc hs, fun a ha => ?_⟩
      rcases List.mem_append.mp ha with ha | ha
      · exact hes' a ha
      · exact List.mem_singleton.mp ha ▸ he

/-- **The simulation rule.**  Where every good step is matched by steps of `T`, every good run is
matched by a run of `T`. -/
theorem simulate {τ δ : Type*} {T : System τ δ} (Good : List ε → σ → Prop)
    (Rel : List ε → σ → List δ → τ → Prop)
    (hgood : ∀ es s e s', S.Run es s → S.step s e s' → Good (es ++ [e]) s' → Good es s)
    (hinit : ∀ s, S.init s → ∃ t, T.init t ∧ Rel [] s [] t)
    (hstep : ∀ es s e s' ds t, S.Run es s → S.step s e s' → Good (es ++ [e]) s' → T.Run ds t →
      Rel es s ds t → ∃ ds' t', T.Run ds' t' ∧ Rel (es ++ [e]) s' ds' t')
    {es : List ε} {s : σ} (r : S.Run es s) (hs : Good es s) :
    ∃ ds t, T.Run ds t ∧ Rel es s ds t := by
  induction r with
  | start h =>
      obtain ⟨t, ht, hrel⟩ := hinit _ h
      exact ⟨[], t, .start ht, hrel⟩
  | snoc r h ih =>
      obtain ⟨ds, t, ht, hrel⟩ := ih (hgood _ _ _ _ r h hs)
      exact hstep _ _ _ _ ds t r h hs ht hrel

/-- A run goes on from where its beginning leads. -/
theorem leads (hdet : ∀ p s s', S.Run p s → S.Run p s' → s = s') {es es₁ : List ε} {s s₁ : σ}
    (r₁ : S.Run es₁ s₁) (r : S.Run es s) (hpre : es₁ <+: es) : S.Leads s₁ s := by
  induction r with
  | start h =>
      obtain rfl := List.prefix_nil.mp hpre
      exact hdet _ _ _ r₁ (.start h) ▸ .refl
  | @snoc es e s s' r h ih =>
      rcases List.prefix_concat_iff.mp hpre with rfl | hpre
      · exact hdet _ _ _ r₁ (r.snoc h) ▸ .refl
      · exact (ih hpre).tail ⟨e, h⟩

/-- **A property of all states of a run, by a condition on its steps.**  Where a step keeps the
property exactly when it meets the condition, the property holds all along a run exactly when all
its steps meet the condition. -/
theorem always_iff {P : List ε → σ → Prop} {C : List ε → σ → ε → Prop}
    (hdet : ∀ p s s', S.Run p s → S.Run p s' → s = s') (hinit : ∀ s, S.init s → P [] s)
    (hstep : ∀ p s e s', S.Run p s → P p s → S.step s e s' → (P (p ++ [e]) s' ↔ C p s e))
    {es : List ε} {s : σ} (r : S.Run es s) :
    (∀ p s, p <+: es → S.Run p s → P p s) ↔
      ∀ p s e, p ++ [e] <+: es → S.Run p s → C p s e := by
  constructor
  · intro h p s e hp hs
    obtain ⟨s', hs'⟩ := r.of_isPrefix hp
    obtain ⟨s₁, hs₁, he⟩ := hs'.snoc_inv
    obtain rfl := hdet p s s₁ hs hs₁
    exact (hstep p s e s' hs (h p s ((List.prefix_append _ _).trans hp) hs) he).mp
      (h (p ++ [e]) s' hp hs')
  · intro h p
    induction p using List.reverseRecOn with
    | nil => exact fun s _ hs => hinit s hs.nil_inv
    | append_singleton p e ih =>
        intro s' hp hs'
        obtain ⟨s, hs, he⟩ := hs'.snoc_inv
        have hP := ih s ((List.prefix_append _ _).trans hp) hs
        exact (hstep p s e s' hs hP he).mpr (h p s e hp hs)

end Run

/-! ### Systems that are watched -/

section Watched

variable {ω δ : Type*} {init : ω → Prop} {look : σ → ω → δ → ω → Prop}

/-- `S`, and someone who looks at its states and keeps notes `ω` on them. -/
def watched (S : System σ ε) (init : ω → Prop) (look : σ → ω → δ → ω → Prop) :
    System (σ × ω) (ε ⊕ δ) where
  init s := S.init s.1 ∧ init s.2
  step s e s' := match e with
    | .inl e => S.step s.1 e s'.1 ∧ s'.2 = s.2
    | .inr d => s'.1 = s.1 ∧ look s.1 s.2 d s'.2

/-- **Looking changes nothing**: a watched run is a run. -/
theorem Run.unwatched {es : List (ε ⊕ δ)} {s : σ × ω} (r : (S.watched init look).Run es s) :
    S.Run (es.filterMap Sum.getLeft?) s.1 := by
  induction r with
  | start h => exact .start h.1
  | @snoc es e s s' _ h ih =>
      rw [List.filterMap_append]
      cases e with
      | inl e => exact ih.snoc h.1
      | inr d => exact (List.append_nil _).symm ▸ h.1.symm ▸ ih

/-- **The rule for notes.**  What holds of the first notes, what the steps of the system keep and
what every look keeps, holds of all notes. -/
theorem Run.notes {P : List ε → σ → ω → Prop} (hinit : ∀ s w, S.init s → init w → P [] s w)
    (hstep : ∀ es s e s' w, S.Run es s → S.step s e s' → P es s w → P (es ++ [e]) s' w)
    (hlook : ∀ es s d w w', S.Run es s → look s w d w' → P es s w → P es s w')
    {es : List (ε ⊕ δ)} {s : σ × ω} (r : (S.watched init look).Run es s) :
    P (es.filterMap Sum.getLeft?) s.1 s.2 := by
  induction r with
  | start h => exact hinit _ _ h.1 h.2
  | @snoc es e s s' r h ih =>
      rw [List.filterMap_append]
      cases e with
      | inl e => exact h.2 ▸ hstep _ _ e _ _ r.unwatched h.1 ih
      | inr d => exact (List.append_nil _).symm ▸ h.1 ▸ hlook _ _ d _ _ r.unwatched h.2 ih

end Watched

/-! ### Systems of a step function -/

section OfStep

variable {σ ε φ : Type} {init : σ → Prop} {step : σ → ε → Except φ σ}

/-- The system that moves by a step function, where it succeeds. -/
def ofStep (init : σ → Prop) (step : σ → ε → Except φ σ) : System σ ε where
  init := init
  step s e s' := step s e = .ok s'

/-- **A run is a fold.** -/
theorem run_ofStep {es : List ε} {s : σ} :
    (ofStep init step).Run es s ↔ ∃ s₀, init s₀ ∧ es.foldlM step s₀ = .ok s := by
  have snoc : ∀ es e s₀, (es ++ [e]).foldlM step s₀ = (es.foldlM step s₀ >>= fun s => step s e) :=
    fun es e s₀ => by
      simp only [List.foldlM_append, List.foldlM_cons, List.foldlM_nil, bind_pure]
  constructor
  · intro h
    induction h with
    | start h => exact ⟨_, h, rfl⟩
    | @snoc es e s s' _ h ih =>
        obtain ⟨s₀, h₀, hf⟩ := ih
        refine ⟨s₀, h₀, ?_⟩
        rw [snoc, hf, ok_bind]
        exact h
  · rintro ⟨s₀, h₀, hf⟩
    induction es using List.reverseRecOn generalizing s with
    | nil =>
        cases hf
        exact .start h₀
    | append_singleton es e ih =>
        rw [snoc, bind_ok] at hf
        obtain ⟨s₁, h₁, hf⟩ := hf
        exact (ih h₁).snoc hf

/-- A fold of a function that takes steps of the system is a run. -/
theorem Run.of_foldlM {S : System σ ε} (hexec : ∀ s e s', step s e = .ok s' → S.step s e s')
    {s₀ s : σ} (h₀ : S.init s₀) {es : List ε} (h : es.foldlM step s₀ = .ok s) : S.Run es s := by
  have hr : (ofStep (· = s₀) step).Run es s := run_ofStep.mpr ⟨s₀, rfl, h⟩
  clear h
  induction hr with
  | start h =>
      cases h
      exact .start h₀
  | snoc _ h ih => exact ih.snoc (hexec _ _ _ h)

/-- A run of a system that starts in one state. -/
theorem run_from {start s : σ} {es : List ε} :
    (ofStep (· = start) step).Run es s ↔ es.foldlM step start = .ok s :=
  run_ofStep.trans ⟨fun ⟨_, h₀, h⟩ => h₀ ▸ h, fun h => ⟨start, rfl, h⟩⟩

/-- Its events determine where it leads. -/
theorem run_from_unique {start s s' : σ} {es : List ε}
    (h : (ofStep (· = start) step).Run es s) (h' : (ofStep (· = start) step).Run es s') :
    s = s' :=
  Except.ok.inj ((run_from.mp h).symm.trans (run_from.mp h'))

end OfStep

end System

end Wga
