import Xv7.Lib.Machine

/-!
# Simulation

Two machines that are driven by the same events.  If from related states every step of the first
that meets a condition can be taken by the second as well and leads to related states, then every
run of the first whose steps meet the condition is one of the second.
-/

namespace Machine

variable {σ τ ε : Type*} {step : σ → ε → Option σ} {step' : τ → ε → Option τ}
  {C : σ → ε → Prop} {R : σ → τ → Prop}

/-- A step of the first machine from related states is a step of the second. -/
def Simulates (step : σ → ε → Option σ) (step' : τ → ε → Option τ) (C : σ → ε → Prop)
    (R : σ → τ → Prop) : Prop :=
  ∀ s t e s', R s t → C s e → step s e = some s' → ∃ t', step' t e = some t' ∧ R s' t'

/-- A run of the first machine is a run of the second. -/
lemma Simulates.exec (h : Simulates step step' C R) {s s' : σ} {t : τ} {tr : List ε} (hR : R s t)
    (hrun : exec step s tr = some s') (hC : Meets step C s tr) :
    ∃ t', exec step' t tr = some t' ∧ R s' t' := by
  refine exec_induction_of_meets (motive := fun tr s' => ∃ t', Machine.exec step' t tr = some t' ∧ R s' t')
    ⟨t, rfl, hR⟩ ?_ hrun hC
  rintro tr s1 e s2 - ⟨t1, ht1, hR1⟩ hCe hstep
  obtain ⟨t2, ht2, hR2⟩ := h s1 t1 e s2 hR1 hCe hstep
  exact ⟨t2, exec_concat_eq_some.mpr ⟨t1, ht1, ht2⟩, hR2⟩

end Machine
