import Mathlib

/-!
# Computations that can fail

The inversion of a bind in `Except`, and a predicate that bounds the errors of a computation, with
one rule for each way to build a computation.
-/

namespace Fallible

universe u v

variable {ε : Type u} {α β : Type v} {E : ε → Prop}

/-- A bind after a success goes on with the value. -/
lemma ok_bind (a : α) (f : α → Except ε β) : (.ok a : Except ε α) >>= f = f a := rfl

/-- A bind succeeds iff both parts do. -/
lemma bind_eq_ok {x : Except ε α} {f : α → Except ε β} {b : β} :
    x >>= f = .ok b ↔ ∃ a, x = .ok a ∧ f a = .ok b := by
  cases x with
  | error e => simp [bind, Except.bind]
  | ok a => simp [bind, Except.bind]

/-- What every step of a loop keeps, the loop keeps. -/
lemma foldlM_keeps {P : β → Prop} {f : β → α → Except ε β}
    (hstep : ∀ {b a b'}, f b a = .ok b' → P b → P b') {l : List α} {b b' : β}
    (h : l.foldlM f b = .ok b') (hb : P b) : P b' := by
  induction l generalizing b with
  | nil =>
    cases h
    exact hb
  | cons a l ih =>
    obtain ⟨c, hc, hrest⟩ := bind_eq_ok.mp h
    exact ih hrest (hstep hc hb)

/-- A value read from the result of a computation. -/
lemma exists_of_map_toOption {x : Except ε α} {f : α → β} {b : β}
    (h : x.toOption.map f = some b) : ∃ a, x = .ok a ∧ f a = b := by
  cases x with
  | error e => simp [Except.toOption] at h
  | ok a => exact ⟨a, rfl, Option.some.inj h⟩

/-- The error of a computation. -/
def failure : Except ε α → Option ε
  | .error e => some e
  | .ok _ => none

lemma eq_error_of_failure {x : Except ε α} {e : ε} (h : failure x = some e) : x = .error e := by
  cases x with
  | error e' => exact congrArg _ (Option.some.inj h)
  | ok a => exact absurd h (by simp [failure])

/-- Every error of the computation satisfies `E`. -/
def FailsWithin (E : ε → Prop) (x : Except ε α) : Prop := ∀ e, x = .error e → E e

lemma FailsWithin.ok (a : α) : FailsWithin E (.ok a) := fun _ h => nomatch h

lemma FailsWithin.error {e : ε} (he : E e) : FailsWithin (α := α) E (.error e) := fun e' h => by
  rw [Except.error.injEq] at h
  exact h ▸ he

/-- A bind fails where one of its parts does. -/
lemma FailsWithin.bind {x : Except ε α} {f : α → Except ε β} (hx : FailsWithin E x)
    (hf : ∀ a, x = .ok a → FailsWithin E (f a)) : FailsWithin E (x >>= f) := by
  cases x with
  | error e => exact FailsWithin.error (hx e rfl)
  | ok a => exact hf a rfl

end Fallible
