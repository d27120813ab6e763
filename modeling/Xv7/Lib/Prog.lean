import Mathlib

/-!
# Computations over a state that can stop

A command takes a state and either returns a value and the next state, or stops with a reason.
`Ends x s Q E` says how the command `x` ends when it is started in `s`: if it returns, then with a
value and a state that satisfy `Q`; if it stops, then for a reason that satisfies `E`.  There is one
rule for each way to build a command, and the rule for sequences is an equivalence.
-/

namespace Prog

variable {σ ε α β : Type} {Q Q' : α → σ → Prop} {E E' : ε → Prop} {s s' : σ}

/-- How the command ends from the state `s`. -/
def Ends (x : StateT σ (Except ε) α) (s : σ) (Q : α → σ → Prop) (E : ε → Prop) : Prop :=
  match x s with
  | .ok (a, s') => Q a s'
  | .error e => E e

lemma ends_iff {x : StateT σ (Except ε) α} :
    Ends x s Q E ↔ (∀ a s', x s = .ok (a, s') → Q a s') ∧ ∀ e, x s = .error e → E e := by
  unfold Ends
  rcases x s with e | ⟨a, s'⟩ <;> simp

/-- What a command that returned has reached. -/
lemma Ends.of_ok {x : StateT σ (Except ε) α} {a : α} (h : Ends x s Q E) (hx : x s = .ok (a, s')) :
    Q a s' := (ends_iff.mp h).1 a s' hx

/-- Why a command that stopped has stopped. -/
lemma Ends.of_error {x : StateT σ (Except ε) α} {e : ε} (h : Ends x s Q E)
    (hx : x s = .error e) : E e := (ends_iff.mp h).2 e hx

/-- A command that returns. -/
lemma Ends.of_return {x : StateT σ (Except ε) α} {a : α} (hx : x s = .ok (a, s')) (h : Q a s') :
    Ends x s Q E := by
  unfold Ends
  rw [hx]
  exact h

/-- A command that stops. -/
lemma Ends.of_stop {x : StateT σ (Except ε) α} {e : ε} (hx : x s = .error e) (he : E e) :
    Ends x s Q E := by
  unfold Ends
  rw [hx]
  exact he

/-- A command that can only stop, for one reason. -/
lemma Ends.eq_error {x : StateT σ (Except ε) α} {e : ε} (h : Ends x s (fun _ _ => False) (· = e)) :
    x s = .error e := by
  unfold Ends at h
  split at h
  · exact h.elim
  case h_2 e' he' => rw [he', h]

/-- A sequence goes on from where its first part has returned. -/
lemma bind_of_ok {x : StateT σ (Except ε) α} {f : α → StateT σ (Except ε) β} {a : α}
    (hx : x s = .ok (a, s')) : (x >>= f) s = f a s' := by
  have hbind : (x >>= f) s = x s >>= fun p => f p.1 p.2 := rfl
  rw [hbind, hx]
  rfl

/-- A command that cannot stop returns. -/
lemma Ends.exists_ok {x : StateT σ (Except ε) α} (h : Ends x s Q fun _ => False) :
    ∃ a s', x s = .ok (a, s') ∧ Q a s' := by
  unfold Ends at h
  split at h
  case h_1 a s' hx => exact ⟨a, s', hx, h⟩
  case h_2 => exact h.elim

/-! ## Rules -/

@[simp] lemma ends_pure {a : α} : Ends (pure a) s Q E ↔ Q a s := Iff.rfl

@[simp] lemma ends_throw {e : ε} : Ends (throw e : StateT σ (Except ε) α) s Q E ↔ E e := Iff.rfl

@[simp] lemma ends_get {Q : σ → σ → Prop} :
    Ends (get : StateT σ (Except ε) σ) s Q E ↔ Q s s := Iff.rfl

@[simp] lemma ends_modify {f : σ → σ} {Q : PUnit → σ → Prop} :
    Ends (modify f : StateT σ (Except ε) PUnit) s Q E ↔ Q ⟨⟩ (f s) := Iff.rfl

@[simp] lemma ends_set {t : σ} {Q : PUnit → σ → Prop} :
    Ends (set t : StateT σ (Except ε) PUnit) s Q E ↔ Q ⟨⟩ t := Iff.rfl

/-- A sequence ends as its second part does from where the first one ended. -/
@[simp] lemma ends_bind {x : StateT σ (Except ε) α} {f : α → StateT σ (Except ε) β}
    {Q : β → σ → Prop} : Ends (x >>= f) s Q E ↔ Ends x s (fun a s' => Ends (f a) s' Q E) E := by
  have hbind : (x >>= f) s = x s >>= fun p => f p.1 p.2 := rfl
  unfold Ends
  rw [hbind]
  rcases x s with e | ⟨a, s'⟩ <;> rfl

/-- The value of a command is mapped. -/
@[simp] lemma ends_map {x : StateT σ (Except ε) α} {f : α → β} {Q : β → σ → Prop} :
    Ends (f <$> x) s Q E ↔ Ends x s (fun a s' => Q (f a) s') E := by
  have hmap : (f <$> x) s = x s >>= fun p => pure (f p.1, p.2) := rfl
  unfold Ends
  rw [hmap]
  rcases x s with e | ⟨a, s'⟩ <;> rfl

/-- A weaker description of the same end. -/
lemma Ends.imp {x : StateT σ (Except ε) α} (h : Ends x s Q E) (hQ : ∀ a s', Q a s' → Q' a s')
    (hE : ∀ e, E e → E' e) : Ends x s Q' E' :=
  ends_iff.mpr ⟨fun a s' hx => hQ a s' (h.of_ok hx), fun e hx => hE e (h.of_error hx)⟩

lemma Ends.mono {x : StateT σ (Except ε) α} (h : Ends x s Q E)
    (hQ : ∀ a s', Q a s' → Q' a s') : Ends x s Q' E := h.imp hQ fun _ he => he

/-- Two descriptions of the same end. -/
lemma Ends.and {x : StateT σ (Except ε) α} (h : Ends x s Q E) (h' : Ends x s Q' E) :
    Ends x s (fun a s' => Q a s' ∧ Q' a s') E :=
  ends_iff.mpr ⟨fun _ _ hx => ⟨h.of_ok hx, h'.of_ok hx⟩, fun _ hx => h.of_error hx⟩

/-- The sequence rule, with what is known of the first part. -/
lemma Ends.bind {x : StateT σ (Except ε) α} {f : α → StateT σ (Except ε) β}
    {R : β → σ → Prop} (hx : Ends x s Q E) (hf : ∀ a s', Q a s' → Ends (f a) s' R E) :
    Ends (x >>= f) s R E := ends_bind.mpr (hx.mono hf)

end Prog
