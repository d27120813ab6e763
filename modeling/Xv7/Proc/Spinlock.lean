import Xv7.Lib.Machine

/-!
# Spin locks

`acquire`, `release`, `holding`, `pushcli` and `popcli`, for any number of processors and locks.  A
step of a processor ends with an access to a lock, which the others can see.  What `pushcli` and
`popcli` change belongs to one processor, and interrupts are off on it from the first `cli` on.
-/

namespace Xv7.Spin

open Function (update update_apply update_eq_self)
open Machine (exec Meets)

variable {C L : Type*}

/-- The panics of the lock code. -/
inductive Panic where
  | acquire
  | release
  | interruptible
  | popcli
  deriving DecidableEq, Repr

/-- What a processor does next.  `acq` tells which function has called `holding`. -/
inductive Pc (L : Type*) where
  /-- It is not in the lock code. -/
  | out
  /-- `lock->locked` in `holding`. -/
  | readLocked (acq : Bool) (l : L)
  /-- `lock->cpu == mycpu()` in `holding`. -/
  | readCpu (acq : Bool) (l : L)
  /-- `xchg(&lk->locked, 1)`. -/
  | xchg (l : L)
  /-- `lk->cpu = mycpu()`. -/
  | own (l : L)
  /-- `lk->cpu = 0`. -/
  | disown (l : L)
  /-- `lk->locked = 0`. -/
  | unlock (l : L)
  /-- `popcli` at the end of `release`. -/
  | pop
  deriving DecidableEq

/-- `struct cpu`, with the interrupt flag of the processor. -/
structure Cpu (L : Type*) where
  ncli : ℤ
  intena : Bool
  eflags : Bool
  pc : Pc L
  /-- The locks that `acquire` has returned with and `release` has not given up; the code has no such
  field. -/
  held : Finset L

/-- `struct spinlock`. -/
structure Lock (C : Type*) where
  locked : Bool
  cpu : Option C

/-- The state of the machine. -/
structure State (C L : Type*) where
  cpu : C → Cpu L
  lock : L → Lock C
  panicked : Option Panic

/-- What can happen. -/
inductive Event (C L : Type*) where
  /-- A processor calls `acquire`. -/
  | acquire (c : C) (l : L)
  /-- A processor calls `release`. -/
  | release (c : C) (l : L)
  /-- The next step of the lock code. -/
  | run (c : C)
  /-- `sti`, `cli`, a trap or the return from it. -/
  | setIf (c : C) (b : Bool)
  /-- `sched`, which resumes a thread that has saved `b` for `intena`. -/
  | sched (c : C) (b : Bool)

/-- `pushcli`. -/
def Cpu.pushcli (x : Cpu L) : Cpu L :=
  { x with
    ncli := x.ncli + 1
    intena := if x.ncli = 0 then x.eflags else x.intena
    eflags := false }

/-- `popcli`. -/
def Cpu.popcli (x : Cpu L) : Except Panic (Cpu L) :=
  if x.eflags then .error .interruptible
  else if x.ncli - 1 < 0 then .error .popcli
  else .ok { x with ncli := x.ncli - 1, eflags := decide (x.ncli - 1 = 0) && x.intena }

variable [DecidableEq C]

namespace State

/-- The start: no lock is held, and interrupts are as given. -/
def init (flag : C → Bool) : State C L :=
  ⟨fun c => ⟨0, false, flag c, .out, ∅⟩, fun _ => ⟨false, none⟩, none⟩

variable (s : State C L) (c : C)

/-- A processor changes. -/
def setCpu (x : Cpu L) : State C L := { s with cpu := update s.cpu c x }

variable [DecidableEq L]

/-- A lock and a processor change. -/
def setLock (l : L) (k : Lock C) (x : Cpu L) : State C L :=
  { s.setCpu c x with lock := update s.lock l k }

/-- `popcli`, and what comes next. -/
def popcli (next : Except Panic (Pc L)) : State C L :=
  match (s.cpu c).popcli, next with
  | .error p, _ | .ok _, .error p => { s with panicked := some p }
  | .ok x, .ok pc => s.setCpu c { x with pc }

/-- The end of `holding` with the result `r`. -/
def answer (acq : Bool) (l : L) (r : Bool) : State C L :=
  s.popcli c (if acq then if r then .error .acquire else .ok (.xchg l)
    else if r then .ok (.disown l) else .error .release)

/-- The next step of the lock code. -/
def run : Option (State C L) :=
  let x := s.cpu c
  match x.pc with
  | .out => none
  | .readLocked acq l => some <|
    if (s.lock l).locked then s.setCpu c { x with pc := .readCpu acq l } else s.answer c acq l false
  | .readCpu acq l => some (s.answer c acq l (decide ((s.lock l).cpu = some c)))
  | .xchg l => some <|
    if (s.lock l).locked then s
    else s.setLock c l { s.lock l with locked := true } { x with pc := .own l }
  | .own l => some <|
    s.setLock c l { s.lock l with cpu := some c } { x with pc := .out, held := insert l x.held }
  | .disown l => some <|
    s.setLock c l { s.lock l with cpu := none } { x with pc := .unlock l, held := x.held.erase l }
  | .unlock l => some (s.setLock c l { s.lock l with locked := false } { x with pc := .pop })
  | .pop => some (s.popcli c (.ok .out))

/-- A step.  After a panic there is none. -/
def step (s : State C L) (e : Event C L) : Option (State C L) :=
  if s.panicked ≠ none then none
  else match e with
  | .acquire c l =>
    if (s.cpu c).pc = .out then
      some (s.setCpu c { (s.cpu c).pushcli.pushcli with pc := .readLocked true l })
    else none
  | .release c l =>
    if (s.cpu c).pc = .out then
      some (s.setCpu c { (s.cpu c).pushcli with pc := .readLocked false l })
    else none
  | .run c => s.run c
  | .setIf c b =>
    if (s.cpu c).pc = .out ∧ (s.cpu c).ncli = 0 then some (s.setCpu c { s.cpu c with eflags := b })
    else none
  | .sched c b =>
    if (s.cpu c).pc = .out ∧ (s.cpu c).ncli = 1 then some (s.setCpu c { s.cpu c with intena := b })
    else none

end State

/-! ## Nesting -/

/-- Interrupts are as given outside of all calls of `pushcli`, and off inside `n` of them. -/
structure Cpu.Nested (x : Cpu L) (flag : Bool) (n : ℕ) : Prop where
  ncli : x.ncli = n
  eflags : x.eflags = (decide (n = 0) && flag)
  intena : n ≠ 0 → x.intena = flag

section

variable {x : Cpu L} {b : Bool} {n : ℕ}

lemma Cpu.Nested.pushcli (h : x.Nested b n) : x.pushcli.Nested b (n + 1) := by
  obtain ⟨h1, h2, h3⟩ := h
  refine ⟨by simp [Cpu.pushcli, h1], by simp [Cpu.pushcli], fun _ => ?_⟩
  by_cases hn : n = 0
  · simp [Cpu.pushcli, h1, h2, hn]
  · simp [Cpu.pushcli, h1, h3 hn, hn]

lemma Cpu.Nested.popcli (h : x.Nested b (n + 1)) :
    ∃ x', x.popcli = .ok x' ∧ x'.held = x.held ∧ x'.Nested b n := by
  obtain ⟨h1, h2, h3⟩ := h
  have hncli : x.ncli - 1 = n := by omega
  refine ⟨{ x with ncli := n, eflags := decide (n = 0) && b }, ?_, rfl, rfl, rfl, fun _ => h3 (by omega)⟩
  rw [Cpu.popcli, if_neg (by simp [h2]), if_neg (by omega), hncli, h3 (by omega)]
  simp

end

/-- The calls of `pushcli` that are open, those for the locks that are held apart. -/
def Pc.depth : Pc L → ℕ
  | .out | .disown _ => 0
  | .readLocked acq _ | .readCpu acq _ => if acq then 2 else 1
  | .xchg _ | .own _ | .unlock _ | .pop => 1

/-- What the interrupts of a processor are set to outside of all locks. -/
def flagAfter (flag : C → Bool) (tr : List (Event C L)) : C → Bool :=
  tr.foldl (fun flag e => match e with
    | .setIf c b | .sched c b => Function.update flag c b
    | _ => flag) flag

/-! ## Owners -/

/-- The processor has taken the lock word, but has not written its number, or not any more. -/
def Pc.Between : Pc L → L → Prop
  | .own l, l' | .unlock l, l' => l = l'
  | _, _ => False

/-- The lock word is set by the processor. -/
def Cpu.Owns (x : Cpu L) (l : L) : Prop := l ∈ x.held ∨ x.pc.Between l

/-- The processor is in `holding`. -/
def Pc.Asks : Pc L → Bool → L → Prop
  | .readLocked acq l, acq', l' | .readCpu acq l, acq', l' => acq = acq' ∧ l = l'
  | _, _, _ => False

/-- A caller takes only locks that it does not hold, and gives up only those that it holds. -/
def Proper (s : State C L) : Event C L → Prop
  | .acquire c l => l ∉ (s.cpu c).held
  | .release c l => l ∈ (s.cpu c).held
  | _ => True

/-- The locks have the owners that the map says.  If all callers were proper, there was no panic, and
`holding` will give the answers that they expect. -/
structure Inv (owner : L → Option C) (flag : C → Bool) (proper : Prop) (s : State C L) : Prop where
  locked : ∀ l, (s.lock l).locked = (owner l).isSome
  cpu : ∀ l c, (s.lock l).cpu = some c ↔ l ∈ (s.cpu c).held
  owner : ∀ l c, owner l = some c ↔ (s.cpu c).Owns l
  between : ∀ l c, (s.cpu c).pc.Between l → l ∉ (s.cpu c).held
  disown : ∀ l c, (s.cpu c).pc = .disown l → l ∈ (s.cpu c).held
  nested : ∀ c, (s.cpu c).Nested (flag c) ((s.cpu c).held.card + (s.cpu c).pc.depth)
  panicked : proper → s.panicked = none
  asks : proper → ∀ c acq l, (s.cpu c).pc.Asks acq l → (l ∈ (s.cpu c).held ↔ acq = false)

section

variable {owner : L → Option C} {flag : C → Bool} {s s' : State C L} {c c' : C} {l l' : L}
  {x : Cpu L} {k : Lock C} {b : Bool} {P Q : Prop}

/-- A processor changes outside of the locks. -/
lemma Inv.setCpu (h : Inv owner flag P s) (hheld : x.held = (s.cpu c).held)
    (hb : ∀ l, x.pc.Between l ↔ (s.cpu c).pc.Between l)
    (hd : ∀ l, x.pc = .disown l → l ∈ x.held) (hn : x.Nested b (x.held.card + x.pc.depth))
    (ha : Q → P ∧ ∀ acq l, x.pc.Asks acq l → (l ∈ x.held ↔ acq = false)) :
    Inv owner (update flag c b) Q (s.setCpu c x) := by
  obtain ⟨h1, h2, h3, h4, h5, h6, h7, h8⟩ := h
  have hcpu : ∀ c', (s.setCpu c x).cpu c' = if c' = c then x else s.cpu c' := fun _ =>
    update_apply ..
  have hlock : (s.setCpu c x).lock = s.lock := rfl
  constructor
  case panicked => exact fun hQ => h7 (ha hQ).1
  all_goals grind [update_apply, Cpu.Owns]

/-- `popcli` does not panic. -/
lemma Inv.popcli (h : Inv owner flag P s) {next : Except Panic (Pc L)}
    (hb : ∀ l, ¬ (s.cpu c).pc.Between l) (hdepth : 0 < (s.cpu c).pc.depth)
    (hnext : ∀ pc, next = .ok pc → pc.depth + 1 = (s.cpu c).pc.depth ∧ ∀ l, ¬ pc.Between l ∧
      (pc = .disown l → l ∈ (s.cpu c).held) ∧ ∀ acq, ¬ pc.Asks acq l)
    (hok : P → ∃ pc, next = .ok pc) : Inv owner flag P (s.popcli c next) := by
  obtain ⟨n, hn⟩ := Nat.exists_eq_add_one.mpr hdepth
  have hnested := h.nested c
  rw [hn, ← Nat.add_assoc] at hnested
  obtain ⟨x, hx, hheld, hnested⟩ := hnested.popcli
  rcases next with p | pc <;> simp only [State.popcli, hx]
  · have hP : ¬ P := fun hP => by simpa using hok hP
    exact ⟨h.locked, h.cpu, h.owner, h.between, h.disown, h.nested, (absurd · hP), (absurd · hP)⟩
  · obtain ⟨hpc, hl⟩ := hnext pc rfl
    refine update_eq_self c flag ▸ h.setCpu hheld (fun l => ?_) (fun l hd => ?_) ?_
      fun hP => ⟨hP, fun acq l ha => absurd ha ((hl l).2.2 acq)⟩
    · exact iff_of_false (hl l).1 (hb l)
    · exact hheld ▸ (hl l).2.1 hd
    · rw [hheld, show pc.depth = n by omega]
      exact ⟨hnested.ncli, hnested.eflags, hnested.intena⟩

/-- `holding` tells whether the processor holds the lock. -/
lemma Inv.answer (h : Inv owner flag P s) {acq r : Bool} (hasks : (s.cpu c).pc.Asks acq l)
    (hr : r = true ↔ l ∈ (s.cpu c).held) : Inv owner flag P (s.answer c acq l r) := by
  have hdepth : (s.cpu c).pc.depth = if acq then 2 else 1 := by
    cases hpc : (s.cpu c).pc <;> simp_all [Pc.Asks, Pc.depth]
  refine h.popcli (fun l => ?_) (by rw [hdepth]; split_ifs <;> omega) ?_ fun hP => ?_
  · cases hpc : (s.cpu c).pc <;> simp_all [Pc.Asks, Pc.Between]
  · cases acq <;> cases r <;> simp_all [Pc.depth, Pc.Between, Pc.Asks]
  · have := h.asks hP c acq l hasks
    cases acq <;> cases r <;> simp_all

variable [DecidableEq L]

@[grind =] lemma setLock_cpu : (s.setLock c l k x).cpu c' = if c' = c then x else s.cpu c' :=
  update_apply ..

@[grind =] lemma setLock_lock : (s.setLock c l k x).lock l' = if l' = l then k else s.lock l' :=
  update_apply ..

@[grind =] lemma setLock_panicked : (s.setLock c l k x).panicked = s.panicked := rfl

lemma Inv.run (h : Inv owner flag P s) (hrun : s.run c = some s') :
    ∃ owner', Inv owner' flag P s' := by
  have hinv := h
  obtain ⟨h1, h2, h3, h4, h5, h6, h7, h8⟩ := h
  simp only [State.run] at hrun
  rcases hpc : (s.cpu c).pc with _ | ⟨acq, l⟩ | ⟨acq, l⟩ | l | l | l | l | _ <;>
    simp only [hpc, reduceCtorEq, Option.some.injEq] at hrun <;> subst hrun
  case readLocked =>
    refine ⟨owner, ?_⟩
    split_ifs with hl
    · have hn := h6 c
      simp only [hpc] at hn
      exact update_eq_self c flag ▸ hinv.setCpu rfl (by simp [hpc, Pc.Between]) nofun
        ⟨hn.1, hn.2, hn.3⟩ fun hP => ⟨hP, by simpa only [hpc, Pc.Asks] using h8 hP c⟩
    · exact hinv.answer (by simp [hpc, Pc.Asks]) (by grind [Cpu.Owns])
  case readCpu => exact ⟨owner, hinv.answer (by simp [hpc, Pc.Asks]) (by simp [h2])⟩
  case xchg =>
    split_ifs with hl
    · exact ⟨owner, hinv⟩
    · refine ⟨update owner l (some c), ?_⟩
      constructor <;> grind [Cpu.Owns, Pc.Between, Pc.depth, Pc.Asks, Cpu.Nested, update_apply]
  case own | disown =>
    exact ⟨owner, by constructor <;> grind [Cpu.Owns, Pc.Between, Pc.depth, Pc.Asks, Cpu.Nested]⟩
  case unlock =>
    refine ⟨update owner l none, ?_⟩
    constructor <;> grind [Cpu.Owns, Pc.Between, Pc.depth, Pc.Asks, Cpu.Nested, update_apply]
  case pop =>
    exact ⟨owner, hinv.popcli (by simp [hpc, Pc.Between]) (by simp [hpc, Pc.depth])
      (by simp [hpc, Pc.Between, Pc.depth, Pc.Asks]) fun _ => ⟨_, rfl⟩⟩

lemma Inv.step {e : Event C L} (h : Inv owner flag P s) (hs : s.step e = some s') :
    ∃ owner', Inv owner' (flagAfter flag [e]) (P ∧ Proper s e) s' := by
  have hnested {c} (hpc : (s.cpu c).pc = .out) :
      (s.cpu c).Nested (flag c) (s.cpu c).held.card := by
    simpa [hpc, Pc.depth] using h.nested c
  have henter {c l Q} (acq) (x : Cpu L) (hpc : (s.cpu c).pc = .out) (hheld : x.held = (s.cpu c).held)
      (hn : x.Nested (flag c) (x.held.card + if acq then 2 else 1))
      (hQ : Q → P ∧ (l ∈ x.held ↔ acq = false)) :
      Inv owner flag Q (s.setCpu c { x with pc := .readLocked acq l }) := by
    refine update_eq_self c flag ▸ h.setCpu hheld (by simp [hpc, Pc.Between]) nofun
      ⟨hn.1, hn.2, hn.3⟩ fun hq => ⟨(hQ hq).1, ?_⟩
    rintro _ _ ⟨rfl, rfl⟩
    exact (hQ hq).2
  unfold State.step at hs
  split_ifs at hs
  rcases e with ⟨c, l⟩ | ⟨c, l⟩ | c | ⟨c, b⟩ | ⟨c, b⟩ <;> simp only [Option.ite_none_right_eq_some,
    Option.some.injEq] at hs
  case acquire =>
    obtain ⟨hpc, rfl⟩ := hs
    exact ⟨owner, henter true _ hpc rfl (hnested hpc).pushcli.pushcli
      fun hq => ⟨hq.1, iff_of_false hq.2 nofun⟩⟩
  case release =>
    obtain ⟨hpc, rfl⟩ := hs
    exact ⟨owner, henter false _ hpc rfl (hnested hpc).pushcli fun hq => ⟨hq.1, iff_of_true hq.2 rfl⟩⟩
  case run =>
    obtain ⟨owner', h'⟩ := h.run hs
    exact ⟨owner', by simpa [Proper, flagAfter] using h'⟩
  case setIf =>
    obtain ⟨⟨hpc, hzero⟩, rfl⟩ := hs
    have hn := hnested hpc
    have hcard : (s.cpu c).held.card = 0 := by exact_mod_cast hn.ncli ▸ hzero
    exact ⟨owner, h.setCpu rfl (by simp) (h.disown · c) ⟨by simp [hpc, Pc.depth, hn.ncli],
      by simp [hpc, Pc.depth, hcard], by simp [hpc, Pc.depth, hcard]⟩
      fun hq => ⟨hq.1, h.asks hq.1 c⟩⟩
  case sched =>
    obtain ⟨⟨hpc, hone⟩, rfl⟩ := hs
    have hn := hnested hpc
    have hcard : (s.cpu c).held.card = 1 := by exact_mod_cast hn.ncli ▸ hone
    exact ⟨owner, h.setCpu rfl (by simp) (h.disown · c) ⟨by simp [hpc, Pc.depth, hn.ncli],
      by simp [hpc, Pc.depth, hcard, hn.eflags], fun _ => rfl⟩ fun hq => ⟨hq.1, h.asks hq.1 c⟩⟩

end

/-! ## Runs -/

section

variable [DecidableEq L] {flag : C → Bool} {s : State C L} {tr : List (Event C L)}

lemma inv_exec (hrun : exec State.step (State.init flag) tr = some s) :
    ∃ owner, Inv owner (flagAfter flag tr)
      (Meets State.step Proper (State.init flag) tr) s := by
  refine Machine.exec_induction (motive := fun tr s => ∃ owner, Inv owner (flagAfter flag tr)
    (Meets State.step Proper (State.init flag) tr) s) ⟨fun _ => none, ?_⟩ ?_ hrun
  · constructor <;> simp [State.init, Cpu.Owns, Pc.Between, Pc.depth, Pc.Asks]
    exact fun c => ⟨rfl, by simp [flagAfter], by simp⟩
  · rintro tr s e s' hrun ⟨_, h⟩ hs
    obtain ⟨owner', h'⟩ := h.step hs
    exact ⟨owner', by simpa [flagAfter, Machine.meets_concat hrun] using h'⟩

/-- In every run a lock carries the number of its holder; a lock word is set by one processor or not
set; and interrupts are off while a processor holds a lock and as before when it holds none. -/
theorem spinlock_safe (hrun : exec State.step (State.init flag) tr = some s) :
    (∀ l c, l ∈ (s.cpu c).held → (s.lock l).cpu = some c) ∧
      (∀ l c c', (s.cpu c).Owns l → (s.cpu c').Owns l → c = c') ∧
      (∀ l, (s.lock l).locked = true ↔ ∃ c, (s.cpu c).Owns l) ∧
      ∀ c, (s.cpu c).ncli = (s.cpu c).held.card + (s.cpu c).pc.depth ∧
        (s.cpu c).eflags = (decide ((s.cpu c).ncli = 0) && flagAfter flag tr c) := by
  obtain ⟨owner, h⟩ := inv_exec hrun
  refine ⟨fun l c => (h.cpu l c).mpr, fun l c c' hc hc' => ?_, fun l => ?_,
    fun c => ⟨by simpa using (h.nested c).ncli, ?_⟩⟩
  · exact Option.some.inj (((h.owner l c).mpr hc).symm.trans ((h.owner l c').mpr hc'))
  · rw [h.locked, Option.isSome_iff_exists]
    exact exists_congr (h.owner l)
  · simp only [(h.nested c).eflags, (h.nested c).ncli, Int.natCast_eq_zero]

/-- A processor takes a lock. -/
def taking : List (Event Bool Unit) := [.acquire true (), .run true, .run true, .run true]

theorem spinlock_safe_taking : ∃ s, exec State.step (State.init fun _ => true) taking = some s ∧
    (s.lock ()).cpu = some true := by
  obtain ⟨s, hrun, hheld⟩ := Option.map_eq_some_iff.mp (show (exec State.step
    (State.init fun _ => true) taking).map (fun s => decide (() ∈ (s.cpu true).held)) = some true
      by decide +kernel)
  exact ⟨s, hrun, (spinlock_safe hrun).1 () true (of_decide_eq_true hheld)⟩

/-- The lock code panics only at a caller that takes a lock twice or gives up one that it does not
hold. -/
theorem spinlock_no_panic (hrun : exec State.step (State.init flag) tr = some s)
    (hp : Meets State.step Proper (State.init flag) tr) : s.panicked = none := by
  obtain ⟨_, h⟩ := inv_exec hrun
  exact h.panicked hp

theorem spinlock_no_panic_taking : ∃ s, exec State.step (State.init fun _ => true) taking = some s ∧
    s.panicked = none := by
  obtain ⟨s, hrun⟩ := Option.isSome_iff_exists.mp
    (show (exec State.step (State.init fun _ => true) taking).isSome by decide +kernel)
  exact ⟨s, hrun, spinlock_no_panic hrun ⟨Finset.notMem_empty (), fun _ _ =>
    Machine.meets_of_forall (by simp [Proper])⟩⟩

end

end Xv7.Spin
