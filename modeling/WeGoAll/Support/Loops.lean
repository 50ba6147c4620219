import Mathlib.Data.Sum.Basic

/-!
# Support — Loops

Loops without a bound on their iterations, and the bounded functions that compute them.  The body of
a loop leaves it with a result or goes on from another state.

* `Loop body s r`: the loop that starts at `s` ends, with `r`.
* `Loop.ends`: a loop whose iterations lower a measure ends.
* `Loop.iterate_eq`: enough iterations of the bounded function give what the loop ends with.
-/

namespace Wga

variable {σ ρ : Type*}

/-- From `s`, the loop of this body ends with `r`. -/
inductive Loop (body : σ → ρ ⊕ σ) : σ → ρ → Prop where
  | leave {s : σ} {r : ρ} (h : body s = .inl r) : Loop body s r
  | again {s s' : σ} {r : ρ} (h : body s = .inr s') (rest : Loop body s' r) : Loop body s r

/-- At most `fuel` iterations; the loop is then cut off as `cut` says. -/
def iterate (body : σ → ρ ⊕ σ) (cut : σ → ρ) : Nat → σ → ρ
  | 0, s => cut s
  | fuel + 1, s =>
    match body s with
    | .inl r => r
    | .inr s' => iterate body cut fuel s'

namespace Loop

variable {body : σ → ρ ⊕ σ} {measure : σ → Nat}

/-- **A loop whose iterations lower a measure ends.** -/
theorem ends (hlower : ∀ s s', body s = .inr s' → measure s' < measure s) (s : σ) :
    ∃ r, Loop body s r := by
  induction hn : measure s using Nat.strongRecOn generalizing s with
  | ind n ih =>
      cases hb : body s with
      | inl r => exact ⟨r, .leave hb⟩
      | inr s' =>
          obtain ⟨r, hr⟩ := ih (measure s') (hn ▸ hlower s s' hb) s' rfl
          exact ⟨r, .again hb hr⟩

/-- **The bounded function computes the loop**, where its bound exceeds the measure. -/
theorem iterate_eq (hlower : ∀ s s', body s = .inr s' → measure s' < measure s) {cut : σ → ρ}
    {s : σ} {r : ρ} (h : Loop body s r) {fuel : Nat} (hfuel : measure s < fuel) :
    iterate body cut fuel s = r := by
  induction h generalizing fuel with
  | leave h =>
      obtain ⟨fuel, rfl⟩ := Nat.exists_eq_add_of_lt hfuel
      rw [iterate, h]
  | again h rest ih =>
      obtain ⟨n, rfl⟩ := Nat.exists_eq_add_of_lt hfuel
      rw [iterate, h]
      exact ih (Nat.lt_of_lt_of_le (hlower _ _ h) (Nat.le_add_right _ _))

end Loop

end Wga
