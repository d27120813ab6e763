import Xv7.Proc.Table

/-!
# Parents and children

Every process that was started, except for `initproc`, has a parent that can run; no process sleeps
in `wait` while one of its children has exited; and a process that has exited leaves the table
through one call of `wait`, made by the process that is its parent then.
-/

namespace Xv7.Ptable

open State

variable {s s' : State} {e : Event}

/-- The process can run or is waiting to. -/
def Active (st : ProcState) : Prop := st = .SLEEPING ∨ st = .RUNNABLE ∨ st = .RUNNING

/-- The process was started. -/
def Live (st : ProcState) : Prop := Active st ∨ st = .ZOMBIE

/-- What is kept along a run. -/
structure Family (s : State) : Prop where
  init_active : Active (s.proc initproc).state
  init_parent : (s.proc initproc).parent = none
  some_parent : ∀ p, p ≠ initproc → Live (s.proc p).state → (s.proc p).parent ≠ none
  active_parent : ∀ p q, (s.proc p).parent = some q → Active (s.proc q).state
  not_self : ∀ p, (s.proc p).parent ≠ some p
  unused : ∀ p, (s.proc p).state = .UNUSED → (s.proc p).parent = none
  busy : ∀ i, (s.proc i).task ≠ .other → Active (s.proc i).state
  forking : ∀ i np, (s.proc i).task = .forking np →
    (s.proc np).state = .EMBRYO ∧ (s.proc np).parent = none
  forked : ∀ i np, (s.proc i).task = .forked np →
    (s.proc np).state = .EMBRYO ∧ (s.proc np).parent = some i
  owner : ∀ i j np, (s.proc i).task = .forking np ∨ (s.proc i).task = .forked np →
    (s.proc j).task = .forking np ∨ (s.proc j).task = .forked np → i = j
  embryo : ∀ p i, (s.proc p).state = .EMBRYO → (s.proc p).parent = some i →
    (s.proc i).task = .forked p
  waiting : ∀ i, (s.proc i).state = .SLEEPING → (s.proc i).task = .waiting →
    (s.proc i).chan = some (.proc i)
  asleep : ∀ i p, (s.proc i).state = .SLEEPING → (s.proc i).task = .waiting →
    (s.proc p).parent = some i → (s.proc p).state ≠ .ZOMBIE

@[grind =] lemma modify_proc (s : State) (i p : Slot) (f : Proc → Proc) :
    (s.modify i f).proc p = if p = i then f (s.proc i) else s.proc p := by
  by_cases h : p = i
  · subst h
    simp [State.modify]
  · simp [State.modify, h]

@[grind =] lemma wakeup1_proc (s : State) (c : Chan) (p : Slot) :
    (s.wakeup1 c).proc p = { s.proc p with
      state := if (s.proc p).state = .SLEEPING ∧ (s.proc p).chan = some c then .RUNNABLE
        else (s.proc p).state } := rfl

@[grind =] lemma abandon_proc (s : State) (i p : Slot) :
    (s.abandon i).proc p = { s.proc p with
      parent := if (s.proc p).parent = some i then some initproc
        else (s.proc p).parent } := rfl

@[grind =] lemma goto_proc (s : State) (i p : Slot) (t : Task) :
    (s.goto i t).proc p = if p = i then { s.proc i with task := t } else s.proc p :=
  modify_proc s i p _

@[grind =] lemma embryo_proc (s : State) (np p : Slot) :
    (s.embryo np).proc p = if p = np then { s.proc np with
      state := .EMBRYO, pid := s.nextpid, pending := 0, ident := s.born, named := false }
      else s.proc p := modify_proc s np p fun p => { p with
      state := .EMBRYO, pid := s.nextpid, pending := 0, ident := s.born, named := false }

@[grind =] lemma reap_proc (s : State) (i q p : Slot) :
    (s.reap i q).proc p = if p = q then { s.proc q with
      pid := 0, parent := none, killed := false, state := .UNUSED } else s.proc p :=
  modify_proc s q p fun q => { q with
      pid := 0, parent := none, killed := false, state := .UNUSED }

@[grind =] lemma name_proc (s : State) (pid : UInt32) (p : Slot) :
    (s.name pid).proc p =
      { s.proc p with named := (s.proc p).named || (s.proc p).pid = pid } := rfl

/-- A slot that is found has the property. -/
lemma first_eq_some {p : Proc → Bool} {i : Slot} (h : s.first p = some i) : p (s.proc i) = true :=
  List.find?_some (p := p ∘ s.proc) h

/-- If no slot is found, none has the property. -/
lemma first_eq_none {p : Proc → Bool} (h : s.first p = none) (i : Slot) :
    p (s.proc i) = false := by
  have := List.find?_eq_none.mp h i (List.mem_finRange i)
  simpa using this

/-- The table after `exit` of a process with the parent `q`. -/
lemma exit_proc {i q : Slot} (hq : (s.proc i).parent = some q) (p : Slot) :
    (s.exit i).proc p = { s.proc p with
      parent := if (s.proc p).parent = some i then some initproc else (s.proc p).parent
      state := if p = i then .ZOMBIE
        else if (s.proc p).state = .SLEEPING ∧ ((s.proc p).chan = some (.proc q) ∨
          s.HasZombie i ∧ (s.proc p).chan = some (.proc initproc)) then .RUNNABLE
        else (s.proc p).state } := by
  have hz : (s.wakeup1 (.proc q)).HasZombie i ↔ s.HasZombie i := by
    unfold HasZombie
    refine exists_congr fun p => ?_
    simp only [wakeup1_proc]
    grind
  unfold State.exit
  rw [hq]
  simp only [wakeParent, modify_proc, hz]
  by_cases hpi : p = i
  · subst hpi
    by_cases hzi : s.HasZombie p <;>
      simp only [hzi, if_true, if_false, wakeup1_proc, abandon_proc] <;> rfl
  · by_cases hzi : s.HasZombie i <;>
      simp only [hzi, hpi, if_true, if_false, wakeup1_proc, abandon_proc, Proc.mk.injEq, true_and,
        and_true, false_and, or_false] <;> grind

/-- A step that changes no parent and no task, and a state only between those of a process that can
run, and that puts nobody to sleep in `wait`. -/
lemma Family.of_same (h : Family s) (hparent : ∀ p, (s'.proc p).parent = (s.proc p).parent)
    (htask : ∀ p, (s'.proc p).task = (s.proc p).task)
    (hstate : ∀ p, (s'.proc p).state = (s.proc p).state ∨
      Active (s.proc p).state ∧ Active (s'.proc p).state)
    (hwait : ∀ p, (s'.proc p).state = .SLEEPING → (s.proc p).task = .waiting →
      (s.proc p).state = .SLEEPING ∧ (s'.proc p).chan = (s.proc p).chan) : Family s' := by
  have hactive : ∀ p, Active (s'.proc p).state ↔ Active (s.proc p).state := by
    intro p
    rcases hstate p with heq | ⟨hold, hnew⟩
    · rw [heq]
    · exact iff_of_true hnew hold
  have hother : ∀ p st, ¬ Active st → ((s'.proc p).state = st ↔ (s.proc p).state = st) := by
    intro p st hst
    rcases hstate p with heq | ⟨hold, hnew⟩
    · rw [heq]
    · exact iff_of_false (fun h => hst (h ▸ hnew)) fun h => hst (h ▸ hold)
  have hU := fun p => hother p .UNUSED (by simp [Active])
  have hE := fun p => hother p .EMBRYO (by simp [Active])
  have hZ := fun p => hother p .ZOMBIE (by simp [Active])
  refine ⟨?_, ?_, ?_, ?_, ?_, ?_, ?_, ?_, ?_, ?_, ?_, ?_, ?_⟩
  · exact (hactive _).mpr h.init_active
  · exact (hparent _).trans h.init_parent
  · intro p hp hlive
    rw [hparent]
    exact h.some_parent p hp (hlive.imp (hactive p).mp (hZ p).mp)
  · intro p q hpq
    exact (hactive q).mpr (h.active_parent p q (hparent p ▸ hpq))
  · intro p hp
    exact h.not_self p (hparent p ▸ hp)
  · intro p hp
    exact (hparent p).trans (h.unused p ((hU p).mp hp))
  · intro i hi
    exact (hactive i).mpr (h.busy i (htask i ▸ hi))
  · intro i np hi
    rw [hE, hparent]
    exact h.forking i np (htask i ▸ hi)
  · intro i np hi
    rw [hE, hparent]
    exact h.forked i np (htask i ▸ hi)
  · intro i j np hi hj
    rw [htask] at hi hj
    exact h.owner i j np hi hj
  · intro p i hp hpi
    rw [htask]
    exact h.embryo p i ((hE p).mp hp) (hparent p ▸ hpi)
  · intro i hi hwaiting
    rw [htask] at hwaiting
    obtain ⟨hsleep, hchan⟩ := hwait i hi hwaiting
    exact hchan.trans (h.waiting i hsleep hwaiting)
  · intro i p hi hwaiting hpi hzombie
    rw [htask] at hwaiting
    exact h.asleep i p (hwait i hi hwaiting).1 hwaiting (hparent p ▸ hpi) ((hZ p).mp hzombie)

section Steps

variable (h : Family s) {i : Slot}

include h

lemma Family.alloc (hi : (s.proc i).state = .RUNNING) (ht : (s.proc i).task = .other) :
    Family (s.alloc i) := by
  unfold State.alloc
  split
  · exact h
  · rename_i np hnp
    have hnp := first_eq_some hnp
    obtain ⟨h1, h2, h3, h4, h5, h6, h7, h8, h9, h10, h11, h12, h13⟩ := h
    constructor <;> grind [Active, Live]

lemma Family.forkFail {np : Slot} (ht : (s.proc i).task = .forking np) :
    Family ((s.modify np fun p => { p with state := .UNUSED }).goto i .other) := by
  obtain ⟨h1, h2, h3, h4, h5, h6, h7, h8, h9, h10, h11, h12, h13⟩ := h
  constructor <;> grind [Active, Live]

lemma Family.forkCopy {np : Slot} (ht : (s.proc i).task = .forking np) :
    Family ((s.modify np fun p => { p with parent := some i, father := (s.proc i).ident }).goto i
      (.forked np)) := by
  obtain ⟨h1, h2, h3, h4, h5, h6, h7, h8, h9, h10, h11, h12, h13⟩ := h
  constructor <;> grind [Active, Live]

lemma Family.forkDone {np : Slot} (ht : (s.proc i).task = .forked np) :
    Family ((s.modify np fun p => { p with state := .RUNNABLE, task := .other }).goto i .other) := by
  obtain ⟨h1, h2, h3, h4, h5, h6, h7, h8, h9, h10, h11, h12, h13⟩ := h
  constructor <;> grind [Active, Live]

lemma Family.exit (hi : (s.proc i).state = .RUNNING) (ht : (s.proc i).task = .other)
    (hne : i ≠ initproc) : Family (s.exit i) := by
  obtain ⟨h1, h2, h3, h4, h5, h6, h7, h8, h9, h10, h11, h12, h13⟩ := h
  have hpar := h3 i hne (by grind [Active, Live])
  obtain ⟨q, hq⟩ := Option.ne_none_iff_exists'.mp hpar
  have hexit := exit_proc hq
  have hz : ∀ p, (s.proc p).parent = some i → (s.proc p).state = .ZOMBIE → s.HasZombie i :=
    fun p hp hp' => ⟨p, hp, hp'⟩
  constructor <;> grind [Active, Live]

lemma Family.reap {p : Slot} (hp : (s.proc p).parent = some i) (hz : (s.proc p).state = .ZOMBIE) :
    Family (s.reap i p) := by
  have hnone : ∀ q, (s.proc q).parent ≠ some p := fun q hq => by
    rcases h.active_parent q p hq with ha | ha | ha <;> simp [hz] at ha
  have hother : (s.proc p).task = .other := by
    by_contra ht
    rcases h.busy p ht with ha | ha | ha <;> simp [hz] at ha
  obtain ⟨h1, h2, h3, h4, h5, h6, h7, h8, h9, h10, h11, h12, h13⟩ := h
  constructor <;> grind [Active, Live]

lemma Family.leave (ht : (s.proc i).task = .other ∨ (s.proc i).task = .waiting) :
    Family (s.goto i .other) := by
  obtain ⟨h1, h2, h3, h4, h5, h6, h7, h8, h9, h10, h11, h12, h13⟩ := h
  constructor <;> grind

lemma Family.waitSleep (hi : (s.proc i).state = .RUNNING)
    (ht : (s.proc i).task = .other ∨ (s.proc i).task = .waiting)
    (hnone : ∀ p, (s.proc p).parent = some i → (s.proc p).state ≠ .ZOMBIE) :
    Family (s.modify i fun p => { p with
      state := .SLEEPING, chan := some (.proc i), task := .waiting }) := by
  obtain ⟨h1, h2, h3, h4, h5, h6, h7, h8, h9, h10, h11, h12, h13⟩ := h
  constructor <;> grind [Active, Live]

lemma Family.wait (hi : (s.proc i).state = .RUNNING)
    (ht : (s.proc i).task = .other ∨ (s.proc i).task = .waiting) : Family (s.wait i) := by
  unfold State.wait
  split
  · rename_i p hp
    obtain ⟨hparent, hzombie⟩ := of_decide_eq_true (first_eq_some hp)
    have hpi : i ≠ p := by
      rintro rfl
      exact h.not_self i hparent
    refine (h.reap hparent hzombie).leave ?_
    rwa [reap_proc, if_neg hpi]
  · rename_i hnone
    split_ifs
    · exact h.leave ht
    · refine h.waitSleep hi ht fun p hp hz => ?_
      exact absurd ⟨hp, hz⟩ (of_decide_eq_false (first_eq_none hnone p))

lemma Family.sleep (hi : (s.proc i).state = .RUNNING) (ht : (s.proc i).task = .other) (a : ℕ) :
    Family (s.modify i fun p => { p with state := .SLEEPING, chan := some (.other a) }) :=
  h.of_same (by grind) (by grind) (by grind [Active]) (by grind)

lemma Family.wakeup (c : Chan) : Family (s.wakeup1 c) :=
  h.of_same (by grind) (by grind) (by grind [Active]) (by grind)

lemma Family.kill (pid sig : UInt32) : Family (s.kill pid sig) := by
  unfold State.kill
  split
  · exact h.of_same (by grind) (by grind) (by grind [Active]) (by grind)
  · exact h.of_same (by grind [signal]) (by grind [signal]) (by grind [Active, signal])
      (by grind [signal])

lemma Family.yield (hi : (s.proc i).state = .RUNNING) :
    Family (s.modify i fun p => { p with state := .RUNNABLE }) :=
  h.of_same (by grind) (by grind) (by grind [Active]) (by grind)

lemma Family.schedule (hi : (s.proc i).state = .RUNNABLE) :
    Family (s.modify i fun p => { p with state := .RUNNING, chan := none }) :=
  h.of_same (by grind) (by grind) (by grind [Active]) (by grind)

end Steps

lemma family_init : Family init := by
  constructor <;> simp [init, Active, Live] <;> grind

lemma Family.step (h : Family s) (hstep : s.step e = some s') : Family s' := by
  cases does_of_step hstep with
  | alloc hi ht => exact h.alloc hi ht
  | forkFail _ ht => exact h.forkFail ht
  | forkCopy _ ht => exact h.forkCopy ht
  | forkDone _ ht => exact h.forkDone ht
  | exit hi ht hne => exact h.exit hi ht hne
  | wait hi ht => exact h.wait hi ht
  | sleep hi ht => exact h.sleep hi ht _
  | wakeup => exact h.wakeup _
  | kill => exact h.kill _ _
  | yield hi => exact h.yield hi
  | schedule hi => exact h.schedule hi

/-! ## Who has exited and who was waited for -/

/-- What the records say. -/
structure Records (s : State) : Prop where
  ident_lt : ∀ p, (s.proc p).ident < s.born
  ident_inj : ∀ p q, (s.proc p).state ≠ .UNUSED → (s.proc q).state ≠ .UNUSED →
    (s.proc p).ident = (s.proc q).ident → p = q
  zombie : ∀ p, (s.proc p).state = .ZOMBIE → (s.proc p).ident ∈ s.exited
  reaped : ∀ x ∈ s.reaped, x.1 ∈ s.exited ∧ x.1 < s.born ∧
    ∀ p, (s.proc p).state ≠ .UNUSED → (s.proc p).ident ≠ x.1
  nodup : (s.reaped.map Prod.fst).Nodup
  father : ∀ p q, (s.proc p).parent = some q →
    (s.proc q).ident = (s.proc p).father ∨ q = initproc

lemma records_init : Records init := by
  refine ⟨fun p => ?_, fun p q hp hq _ => ?_, fun p hp => ?_, by simp [init], by simp [init], ?_⟩
  · simp only [init]
    split_ifs <;> decide
  · simp only [init] at hp hq
    split_ifs at hp hq with h1 h2
    · rw [h1, h2]
    all_goals simp at hp hq
  · simp only [init] at hp
    split_ifs at hp
  · intro p q hp
    simp only [init] at hp
    split_ifs at hp

/-- A step that changes no identity, starts and ends no process, and changes no parent. -/
lemma Records.of_same (h : Records s) (hident : ∀ p, (s'.proc p).ident = (s.proc p).ident)
    (hstate : ∀ p, (s'.proc p).state ≠ .UNUSED → (s.proc p).state ≠ .UNUSED)
    (hzombie : ∀ p, (s'.proc p).state = .ZOMBIE → (s.proc p).state = .ZOMBIE)
    (hparent : ∀ p q, (s'.proc p).parent = some q →
      (s.proc p).parent = some q ∧ (s'.proc p).father = (s.proc p).father)
    (hborn : s'.born = s.born) (hexited : s'.exited = s.exited) (hreaped : s'.reaped = s.reaped) :
    Records s' := by
  refine ⟨?_, ?_, ?_, ?_, ?_, ?_⟩
  · intro p
    rw [hident, hborn]
    exact h.ident_lt p
  · intro p q hp hq heq
    rw [hident, hident] at heq
    exact h.ident_inj p q (hstate p hp) (hstate q hq) heq
  · intro p hp
    rw [hident, hexited]
    exact h.zombie p (hzombie p hp)
  · intro x hx
    rw [hreaped] at hx
    obtain ⟨hex, hlt, hno⟩ := h.reaped x hx
    rw [hexited, hborn]
    refine ⟨hex, hlt, fun p hp => ?_⟩
    rw [hident]
    exact hno p (hstate p hp)
  · rw [hreaped]
    exact h.nodup
  · intro p q hpq
    obtain ⟨hold, hfather⟩ := hparent p q hpq
    rw [hident, hfather]
    exact h.father p q hold

lemma Records.alloc (h : Records s) (hF : Family s) (i : Slot) : Records (s.alloc i) := by
  unfold State.alloc
  split
  · exact h
  · rename_i np hnp
    have hnp : (s.proc np).state = .UNUSED := of_decide_eq_true (first_eq_some hnp)
    have hnone : ∀ q, (s.proc q).parent ≠ some np := fun q hq => by
      rcases hF.active_parent q np hq with ha | ha | ha <;> simp [hnp] at ha
    have hborn : ((s.embryo np).goto i (.forking np)).born = s.born + 1 := rfl
    have hsame : ((s.embryo np).goto i (.forking np)).exited = s.exited ∧
        ((s.embryo np).goto i (.forking np)).reaped = s.reaped := ⟨rfl, rfl⟩
    obtain ⟨h1, h2, h3, h4, h5, h6⟩ := h
    have hun := hF.unused np hnp
    constructor <;> grind

lemma Records.exit (h : Records s) (hF : Family s) {i : Slot}
    (hi : (s.proc i).state = .RUNNING) (hne : i ≠ initproc) : Records (s.exit i) := by
  obtain ⟨q, hq⟩ := Option.ne_none_iff_exists'.mp
    (hF.some_parent i hne (by simp [Live, Active, hi]))
  have hexit := exit_proc hq
  have hborn : (s.exit i).born = s.born := by
    unfold State.exit
    rw [hq]
    simp only
    split_ifs <;> rfl
  have hex : (s.exit i).exited = (s.proc i).ident :: s.exited := rfl
  have hre : (s.exit i).reaped = s.reaped := by
    unfold State.exit
    rw [hq]
    simp only
    split_ifs <;> rfl
  obtain ⟨h1, h2, h3, h4, h5, h6⟩ := h
  constructor <;> grind

lemma Records.reap (h : Records s) {i p : Slot} (hz : (s.proc p).state = .ZOMBIE) :
    Records (s.reap i p) := by
  have hborn : (s.reap i p).born = s.born := rfl
  have hex : (s.reap i p).exited = s.exited := rfl
  have hre : (s.reap i p).reaped = ((s.proc p).ident, i) :: s.reaped := rfl
  obtain ⟨h1, h2, h3, h4, h5, h6⟩ := h
  constructor <;> grind

lemma Records.leave (h : Records s) (i : Slot) (t : Task) : Records (s.goto i t) :=
  h.of_same (by grind) (by grind) (by grind) (by grind) rfl rfl rfl

lemma Records.wait (h : Records s) {i : Slot}
    (hi : (s.proc i).state = .RUNNING) : Records (s.wait i) := by
  unfold State.wait
  split
  · rename_i p hp
    exact (h.reap (of_decide_eq_true (first_eq_some hp)).2).leave i _
  · split_ifs
    · exact h.leave i _
    · exact h.of_same (by grind) (by grind) (by grind) (by grind) rfl rfl rfl

lemma Records.step (h : Records s) (hF : Family s) (hstep : s.step e = some s') :
    Records s' := by
  cases does_of_step hstep with
  | @alloc i => exact h.alloc hF i
  | @forkFail i np hi ht =>
    exact (h.of_same (by grind) (by grind) (by grind) (by grind) rfl rfl rfl : Records
      (s.modify np fun p => { p with state := .UNUSED })).leave i _
  | @forkCopy i np hi ht =>
    obtain ⟨h1, h2, h3, h4, h5, h6⟩ := h
    have hF := hF.forking i np ht
    constructor <;> grind [State.modify, State.goto]
  | @forkDone i np hi ht =>
    have hE := (hF.forked i np ht).1
    exact (h.of_same (by grind) (by grind) (by grind) (by grind) rfl rfl rfl : Records
      (s.modify np fun p => { p with state := .RUNNABLE, task := .other })).leave i _
  | exit hi ht hne => exact h.exit hF hi hne
  | wait hi ht => exact h.wait hi
  | sleep hi | yield hi | schedule hi =>
    exact h.of_same (by grind) (by grind) (by grind) (by grind) rfl rfl rfl
  | wakeup => exact h.of_same (by grind) (by grind) (by grind) (by grind) rfl rfl rfl
  | @kill pid sig =>
    unfold State.kill
    split
    · exact h.of_same (by grind) (by grind) (by grind) (by grind) rfl rfl rfl
    · exact h.of_same (by grind [signal]) (by grind [signal]) (by grind [signal])
        (by grind [signal]) rfl rfl rfl

/-- A slot is left by a process that has exited only when its parent waits for it. -/
lemma Family.zombie_leaves (h : Family s) (hstep : s.step e = some s') {p : Slot}
    (hz : (s.proc p).state = .ZOMBIE) (hleave : (s'.proc p).state ≠ .ZOMBIE) :
    ∃ i, e = .wait i ∧ (s.proc p).parent = some i ∧ (s'.proc p).state = .UNUSED ∧
      s'.reaped = ((s.proc p).ident, i) :: s.reaped := by
  cases does_of_step hstep with
  | @alloc i hi ht =>
    refine absurd ?_ hleave
    unfold State.alloc
    split
    · exact hz
    · rename_i np hnp
      have hnp : (s.proc np).state = .UNUSED := of_decide_eq_true (first_eq_some hnp)
      grind
  | @forkFail i np hi ht =>
    have hE := (h.forking i np ht).1
    grind
  | @forkCopy i np hi ht =>
    have hE := (h.forking i np ht).1
    grind
  | @forkDone i np hi ht =>
    have hE := (h.forked i np ht).1
    grind
  | @exit i hi ht hne =>
    obtain ⟨q, hq⟩ := Option.ne_none_iff_exists'.mp
      (h.some_parent i hne (by simp [Live, Active, hi]))
    have hexit := exit_proc hq
    grind
  | @wait i hi ht =>
    refine ⟨i, rfl, ?_⟩
    unfold State.wait at hleave ⊢
    split at hleave
    · rename_i q hq
      obtain ⟨hparent, hzombie⟩ := of_decide_eq_true (first_eq_some hq)
      have hqp : p = q := by
        by_contra hne
        grind
      subst hqp
      refine ⟨hparent, ?_, rfl⟩
      grind
    · grind
  | sleep hi | yield hi | schedule hi => grind
  | wakeup => grind
  | @kill pid sig =>
    unfold State.kill at hleave
    split at hleave <;> grind [signal]

/-- In every state of the process table, every process that was started and is not `initproc` has a
parent that is neither unused nor a zombie, namely the process that has forked it or `initproc`; no
process asleep in `wait` has a child that is a zombie; no process was waited for twice, and none
before it has exited; and a zombie leaves its slot only when its parent waits for it. -/
theorem ptable_family {tr : List Event} (h : Machine.exec State.step init tr = some s) :
    (∀ p, p ≠ initproc → Live (s.proc p).state → ∃ q, (s.proc p).parent = some q ∧
      (s.proc q).state ≠ .UNUSED ∧ (s.proc q).state ≠ .ZOMBIE ∧
      ((s.proc q).ident = (s.proc p).father ∨ q = initproc)) ∧
    (∀ i p, (s.proc i).state = .SLEEPING → (s.proc i).task = .waiting →
      (s.proc p).parent = some i → (s.proc p).state ≠ .ZOMBIE) ∧
    (s.reaped.map Prod.fst).Nodup ∧ (∀ x ∈ s.reaped, x.1 ∈ s.exited) ∧
    ∀ e s' p, s.step e = some s' → (s.proc p).state = .ZOMBIE → (s'.proc p).state ≠ .ZOMBIE →
      ∃ i, e = .wait i ∧ (s.proc p).parent = some i ∧ (s'.proc p).state = .UNUSED ∧
        s'.reaped = ((s.proc p).ident, i) :: s.reaped := by
  obtain ⟨hF, hR⟩ : Family s ∧ Records s :=
    Machine.exec_induction (motive := fun _ s => Family s ∧ Records s)
      ⟨family_init, records_init⟩
      (fun _ _ _ _ _ ih hstep => ⟨ih.1.step hstep, ih.2.step ih.1 hstep⟩) h
  refine ⟨fun p hp hlive => ?_, hF.asleep, hR.nodup, fun x hx => (hR.reaped x hx).1,
    fun e s' p hstep hz hleave => hF.zombie_leaves hstep hz hleave⟩
  obtain ⟨q, hq⟩ := Option.ne_none_iff_exists'.mp (hF.some_parent p hp hlive)
  refine ⟨q, hq, ?_, ?_, hR.father p q hq⟩ <;>
    rcases hF.active_parent p q hq with ha | ha | ha <;> rw [ha] <;> decide

/-- `initproc` forks, the child exits while its parent sleeps in `wait`, and is waited for. -/
def forkWait : List Event :=
  [.schedule 0, .alloc 0, .forkCopy 0, .forkDone 0, .wait 0, .schedule 1, .exit 1, .schedule 0,
    .wait 0]

theorem ptable_family_forkWait : ∃ s, Machine.exec State.step init forkWait = some s ∧
    s.reaped = [(1, 0)] ∧ (s.proc 1).state = .UNUSED ∧ (s.reaped.map Prod.fst).Nodup := by
  obtain ⟨s, hs, hrec⟩ : ∃ s, Machine.exec State.step init forkWait = some s ∧
      (s.reaped, (s.proc 1).state) = ([(1, 0)], .UNUSED) :=
    Option.map_eq_some_iff.mp (by decide +kernel)
  rw [Prod.mk.injEq] at hrec
  exact ⟨s, hs, hrec.1, hrec.2, (ptable_family hs).2.2.1⟩

end Xv7.Ptable
