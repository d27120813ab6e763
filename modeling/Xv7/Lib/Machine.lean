import Mathlib

/-!
# Machines driven by a list of events

A machine is a partial step function `step : σ → ε → Option σ`: the event resolves every choice,
and `none` says that the event is not possible in the state.  `exec` runs a list of events.

Two rules carry every invariant proof.  `exec_induction` proves a property of the events so far
together with the state they lead to; `exec_induction_of_meets` does the same for the runs whose
steps all meet a side condition `C`, recorded by `Meets`.
-/

namespace Machine

variable {σ ε : Type*} {step : σ → ε → Option σ} {C D : σ → ε → Prop}

/-- Run the events of a list in order. -/
def exec (step : σ → ε → Option σ) (s : σ) (tr : List ε) : Option σ :=
  tr.foldlM step s

/-- Every step of the run meets the condition `C` in the state where it is taken. -/
def Meets (step : σ → ε → Option σ) (C : σ → ε → Prop) : σ → List ε → Prop
  | _, [] => True
  | s, e :: es => C s e ∧ ∀ s', step s e = some s' → Meets step C s' es

@[simp] lemma exec_nil (s : σ) : exec step s [] = some s := rfl

@[simp] lemma exec_cons (s : σ) (e : ε) (tr : List ε) :
    exec step s (e :: tr) = (step s e).bind fun s' => exec step s' tr := by
  simp [exec, List.foldlM_cons]

/-- Running two lists of events one after the other. -/
lemma exec_append (s : σ) (tr tr' : List ε) :
    exec step s (tr ++ tr') = (exec step s tr).bind fun s' => exec step s' tr' := by
  simp [exec, List.foldlM_append]

/-- A run of one more event is a run followed by a step. -/
lemma exec_concat_eq_some {s s' : σ} {tr : List ε} {e : ε} :
    exec step s (tr ++ [e]) = some s' ↔ ∃ t, exec step s tr = some t ∧ step t e = some s' := by
  rw [exec_append, Option.bind_eq_some_iff]
  refine exists_congr fun t => and_congr_right fun _ => ?_
  simp

/-- A machine that never refuses an event folds its step function. -/
lemma exec_total (f : σ → ε → σ) (s : σ) (tr : List ε) :
    exec (fun s e => some (f s e)) s tr = some (tr.foldl f s) := by
  induction tr generalizing s with
  | nil => rfl
  | cons e tr ih =>
    rw [exec_cons, Option.bind_some, ih]
    rfl

/-- A property of the events so far and of the state reached holds along every run if it holds
at the start and is kept by each step. -/
lemma exec_induction {s0 : σ} {motive : List ε → σ → Prop} (init : motive [] s0)
    (hstep : ∀ tr s e s', exec step s0 tr = some s → motive tr s → step s e = some s' →
      motive (tr ++ [e]) s') {tr : List ε} {s : σ} (h : exec step s0 tr = some s) :
    motive tr s := by
  induction tr using List.reverseRecOn generalizing s with
  | nil =>
    rw [exec_nil, Option.some.injEq] at h
    exact h ▸ init
  | append_singleton tr e ih =>
    obtain ⟨t, ht, hte⟩ := exec_concat_eq_some.mp h
    exact hstep tr t e s ht (ih ht) hte

/-- The steps of a run meet the condition iff those of its two parts do. -/
lemma meets_append {s : σ} {tr tr' : List ε} :
    Meets step C s (tr ++ tr') ↔
      Meets step C s tr ∧ ∀ t, exec step s tr = some t → Meets step C t tr' := by
  induction tr generalizing s with
  | nil => simp [Meets]
  | cons e tr ih =>
    simp only [List.cons_append, Meets, ih, exec_cons, Option.bind_eq_some_iff]
    constructor
    · rintro ⟨hC, h⟩
      exact ⟨⟨hC, fun s' hs' => (h s' hs').1⟩, fun t ⟨s', hs', ht⟩ => (h s' hs').2 t ht⟩
    · rintro ⟨⟨hC, h⟩, h'⟩
      exact ⟨hC, fun s' hs' => ⟨h s' hs', fun t ht => h' t ⟨s', hs', ht⟩⟩⟩

/-- The last step of a run meets the condition. -/
lemma meets_concat {s t : σ} {tr : List ε} {e : ε} (ht : exec step s tr = some t) :
    Meets step C s (tr ++ [e]) ↔ Meets step C s tr ∧ C t e := by
  rw [meets_append]
  refine and_congr_right fun _ => ⟨fun h => (h t ht).1, fun h u hu => ?_⟩
  rw [ht, Option.some.injEq] at hu
  exact ⟨hu ▸ h, fun _ _ => trivial⟩

/-- Along a run only the steps that are taken matter. -/
lemma Meets.imp_of_exec (hCD : ∀ s e s', step s e = some s' → C s e → D s e) {s t : σ}
    {tr : List ε} (hrun : exec step s tr = some t) (h : Meets step C s tr) :
    Meets step D s tr := by
  induction tr generalizing s with
  | nil => trivial
  | cons e tr ih =>
    rw [exec_cons, Option.bind_eq_some_iff] at hrun
    obtain ⟨s1, hs1, hrun⟩ := hrun
    refine ⟨hCD s e s1 hs1 h.1, fun s' hs' => ?_⟩
    obtain rfl : s1 = s' := Option.some.inj (hs1.symm.trans hs')
    exact ih hrun (h.2 s1 hs1)

/-- A condition on the events alone is met when every event of the list satisfies it. -/
lemma meets_of_forall {s : σ} {tr : List ε} (h : ∀ s, ∀ e ∈ tr, C s e) :
    Meets step C s tr := by
  induction tr generalizing s with
  | nil => trivial
  | cons e tr ih =>
    exact ⟨h s e List.mem_cons_self, fun s' _ => ih fun s e he => h s e (List.mem_cons_of_mem _ he)⟩

/-- A decidable condition can be checked along a concrete run. -/
instance decidableMeets [∀ s e, Decidable (C s e)] :
    ∀ (s : σ) (tr : List ε), Decidable (Meets step C s tr)
  | _, [] => isTrue trivial
  | s, e :: es =>
    match h : step s e with
    | none => decidable_of_iff (C s e) (by simp [Meets, h])
    | some s' =>
      have := decidableMeets s' es
      decidable_of_iff (C s e ∧ Meets step C s' es) (by simp [Meets, h])

/-- `exec_induction` for the runs whose steps all meet the condition `C`. -/
lemma exec_induction_of_meets {s0 : σ} {motive : List ε → σ → Prop} (init : motive [] s0)
    (hstep : ∀ tr s e s', exec step s0 tr = some s → motive tr s → C s e →
      step s e = some s' → motive (tr ++ [e]) s')
    {tr : List ε} {s : σ} (h : exec step s0 tr = some s) (hC : Meets step C s0 tr) :
    motive tr s := by
  refine exec_induction (motive := fun tr s => Meets step C s0 tr → motive tr s)
    (fun _ => init) ?_ h hC
  intro tr s e s' hs ih hse hm
  rw [meets_concat hs] at hm
  exact hstep tr s e s' hs (ih hm.1) hm.2 hse

/-- A run whose steps all meet the condition does not stop, if from a state with the property
every step that meets the condition is possible and leads to such a state. -/
lemma exec_total_of_meets {s0 : σ} {motive : List ε → σ → Prop} (init : motive [] s0)
    (hstep : ∀ tr s e, motive tr s → C s e → ∃ s', step s e = some s' ∧ motive (tr ++ [e]) s')
    {tr : List ε} (hC : Meets step C s0 tr) : ∃ s, exec step s0 tr = some s ∧ motive tr s := by
  induction tr using List.reverseRecOn with
  | nil => exact ⟨s0, rfl, init⟩
  | append_singleton tr e ih =>
    obtain ⟨hC, hlast⟩ := meets_append.mp hC
    obtain ⟨s, hs, hm⟩ := ih hC
    obtain ⟨s', hs', hm'⟩ := hstep tr s e hm (hlast s hs).1
    exact ⟨s', exec_concat_eq_some.mpr ⟨s, hs, hs'⟩, hm'⟩

end Machine
