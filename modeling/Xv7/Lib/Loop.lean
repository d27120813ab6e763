import Mathlib.Data.Nat.Init

/-!
# Loops

A loop that goes on as long as its body finds something to do.  It need not end.
-/

namespace Loop

variable {σ : Type*}

/-- The state in which the loop ends, if it does within `n` turns; `step` is `none` when the condition
of the loop is false. -/
def turns (step : σ → Option σ) : ℕ → σ → Option σ
  | 0, _ => none
  | n + 1, s =>
    match step s with
    | none => some s
    | some t => turns step n t

variable {step : σ → Option σ}

/-- A loop that makes progress ends. -/
lemma exists_turns (step : σ → Option σ) (P : σ → Prop) (left : σ → ℕ)
    (hstep : ∀ s t, P s → step s = some t → P t ∧ left t < left s) {s : σ} (h : P s) :
    ∃ n t, turns step n s = some t ∧ step t = none ∧ P t := by
  induction hl : left s using Nat.strong_induction_on generalizing s with
  | _ l ih =>
    subst hl
    cases hs : step s with
    | none => exact ⟨1, s, by rw [turns, hs], hs, h⟩
    | some t =>
      obtain ⟨hP, hlt⟩ := hstep s t h hs
      obtain ⟨n, u, hn, hend, hu⟩ := ih _ hlt hP rfl
      exact ⟨n + 1, u, by rw [turns, hs]; exact hn, hend, hu⟩

/-- A loop that always finds something to do does not end. -/
lemma turns_eq_none (P : σ → Prop) (hstep : ∀ s, P s → ∃ t, step s = some t ∧ P t) (n : ℕ) {s : σ}
    (h : P s) : turns step n s = none := by
  induction n generalizing s with
  | zero => rfl
  | succ n ih =>
    obtain ⟨t, hs, ht⟩ := hstep s h
    rw [turns, hs]
    exact ih ht

end Loop
