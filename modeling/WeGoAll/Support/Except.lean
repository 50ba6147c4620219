import Mathlib.Data.List.Forall2

/-!
# Support — Except

Inversion of computations that may fail: a `bind` that succeeds, and a fold of fallible steps.
-/

namespace Wga

variable {ε α β σ : Type}

/-- A `bind` succeeds exactly when both of its halves do. -/
theorem bind_ok {x : Except ε α} {f : α → Except ε β} {b : β} :
    (x >>= f) = .ok b ↔ ∃ a, x = .ok a ∧ f a = .ok b := by
  cases x with
  | error e => simp [bind, Except.bind]
  | ok a => simp [bind, Except.bind]

/-- A `bind` of halves that do not fail does not fail. -/
theorem bind_ends {x : Except ε α} {f : α → Except ε β} (hx : ∃ a, x = .ok a)
    (hf : ∀ a, x = .ok a → ∃ b, f a = .ok b) : ∃ b, (x >>= f) = .ok b := by
  obtain ⟨a, ha⟩ := hx
  obtain ⟨b, hb⟩ := hf a ha
  exact ⟨b, bind_ok.mpr ⟨a, ha, hb⟩⟩

/-- A `bind` fails where one of its halves does. -/
theorem bind_error {x : Except ε α} {f : α → Except ε β} {e : ε} :
    (x >>= f) = .error e ↔ x = .error e ∨ ∃ a, x = .ok a ∧ f a = .error e := by
  cases x with
  | error e' => simp [bind, Except.bind]
  | ok a => simp [bind, Except.bind]

@[simp] theorem ok_bind {a : α} {f : α → Except ε β} : (Except.ok a >>= f) = f a := rfl

@[simp] theorem pure_ok {a b : α} : (pure a : Except ε α) = .ok b ↔ a = b :=
  ⟨fun h => Except.ok.inj h, fun h => congrArg Except.ok h⟩

/-- Running a computation decides what holds of its result. -/
instance decidableOk (x : Except ε α) (P : α → Prop) [DecidablePred P] :
    Decidable (∃ a, x = .ok a ∧ P a) :=
  match x with
  | .ok a => decidable_of_iff (P a) (by simp)
  | .error _ => .isFalse (by simp)

/-- Running a computation decides how it fails. -/
instance decidableError [DecidableEq ε] (x : Except ε α) (f : ε) : Decidable (x = .error f) :=
  match x with
  | .ok _ => .isFalse nofun
  | .error e => decidable_of_iff (e = f) (by simp)

/-- **The fold rule.**  What every step keeps, a fold of steps keeps. -/
theorem foldlM_invariant {f : σ → α → Except ε σ} {I : σ → Prop} {l : List α}
    (hf : ∀ s a s', a ∈ l → I s → f s a = .ok s' → I s') {s s' : σ} (hs : I s)
    (h : l.foldlM f s = .ok s') : I s' := by
  induction l generalizing s with
  | nil =>
      cases h
      exact hs
  | cons a l ih =>
      rw [List.foldlM_cons, bind_ok] at h
      obtain ⟨s₁, h₁, h⟩ := h
      exact ih (fun s a s' ha => hf s a s' (List.mem_cons_of_mem _ ha))
        (hf s a s₁ List.mem_cons_self hs h₁) h

/-- A fold of steps that never fail on an invariant does not fail. -/
theorem foldlM_ok {f : σ → α → Except ε σ} {I : σ → Prop} {l : List α}
    (hf : ∀ s a, a ∈ l → I s → ∃ s', f s a = .ok s' ∧ I s') {s : σ} (hs : I s) :
    ∃ s', l.foldlM f s = .ok s' ∧ I s' := by
  induction l generalizing s with
  | nil => exact ⟨s, rfl, hs⟩
  | cons a l ih =>
      obtain ⟨s₁, h₁, hs₁⟩ := hf s a List.mem_cons_self hs
      obtain ⟨s', h', hs'⟩ := ih (fun s a ha => hf s a (List.mem_cons_of_mem _ ha)) hs₁
      exact ⟨s', by rw [List.foldlM_cons, h₁, ok_bind, h'], hs'⟩

/-- Folds of steps that agree on an invariant agree. -/
theorem foldlM_congr {f g : σ → α → Except ε σ} {I : σ → Prop} {l : List α}
    (hfg : ∀ s a, a ∈ l → I s → f s a = g s a)
    (hf : ∀ s a s', a ∈ l → I s → f s a = .ok s' → I s') {s : σ} (hs : I s) :
    l.foldlM f s = l.foldlM g s := by
  induction l generalizing s with
  | nil => rfl
  | cons a l ih =>
      rw [List.foldlM_cons, List.foldlM_cons, ← hfg s a List.mem_cons_self hs]
      cases h : f s a with
      | error e => rfl
      | ok s₁ =>
          exact ih (fun s a ha => hfg s a (List.mem_cons_of_mem _ ha))
            (fun s a s' ha => hf s a s' (List.mem_cons_of_mem _ ha))
            (hf s a s₁ List.mem_cons_self hs h)

/-- A traversal that succeeds succeeds at every element. -/
theorem mapM_ok {f : α → Except ε β} {l : List α} {l' : List β} (h : l.mapM f = .ok l') :
    List.Forall₂ (fun a b => f a = .ok b) l l' := by
  induction l generalizing l' with
  | nil =>
      cases h
      exact List.Forall₂.nil
  | cons a l ih =>
      rw [List.mapM_cons] at h
      obtain ⟨b, hb, h⟩ := bind_ok.mp h
      obtain ⟨bs, hbs, h⟩ := bind_ok.mp h
      cases h
      exact List.Forall₂.cons hb (ih hbs)

theorem forall₂_mem_right {R : α → β → Prop} {l : List α} {m : List β} (h : List.Forall₂ R l m)
    {b : β} (hb : b ∈ m) : ∃ a ∈ l, R a b := by
  obtain ⟨i, hi, rfl⟩ := List.getElem_of_mem hb
  have hil : i < l.length := h.length_eq ▸ hi
  exact ⟨l[i], List.getElem_mem hil, h.get hil hi⟩

theorem forall₂_comp {γ : Type} {R : α → β → Prop} {S : β → γ → Prop} {T : α → γ → Prop}
    {l : List α} {m : List β} {n : List γ} (h₁ : List.Forall₂ R l m) (h₂ : List.Forall₂ S m n)
    (h : ∀ a b c, R a b → S b c → T a c) : List.Forall₂ T l n := by
  induction h₁ generalizing n with
  | nil =>
      cases h₂
      exact List.Forall₂.nil
  | cons hab _ ih =>
      cases h₂ with
      | cons hbc h₂ => exact List.Forall₂.cons (h _ _ _ hab hbc) (ih h₂)

end Wga
