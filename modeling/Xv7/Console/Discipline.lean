import Xv7.Console.Model
import Xv7.Lib.Ring
import Xv7.Lib.Simulation

/-!
# The line discipline

What the console is for: a queue of bytes that can be read, and a line that is still edited.  The
ring with its three indices is such a discipline, as long as the first process is not in the
foreground when Control-C is pressed.
-/

namespace Xv7.Console

/-- The bytes that can be read, and those that can be edited. -/
structure Line where
  queue : List UInt8
  edit : List UInt8
  deriving DecidableEq, Repr

namespace Line

/-- The bytes that were typed and not read. -/
def size (l : Line) : ℕ := (l.queue ++ l.edit).length

/-- The line can be read. -/
def commit (l : Line) : Line := ⟨l.queue ++ l.edit, []⟩

/-- A character joins the line.  A newline, a Control-D and the last byte that there is room for end
the line. -/
def type (l : Line) (c : UInt8) : Line :=
  let l' : Line := ⟨l.queue, l.edit ++ [c]⟩
  if c = newline ∨ c = C 'D' ∨ l'.size = INPUT_BUF then l'.commit else l'

/-- A key is pressed.  `fg` says if there is a foreground process. -/
def key (l : Line) (c : UInt8) (fg : Bool) : Line :=
  if c = C 'P' then l
  else if c = C 'U' then ⟨l.queue, []⟩
  else if c = C 'H' ∨ c = delete then ⟨l.queue, l.edit.dropLast⟩
  else if c = C 'C' then if fg then ⟨[newline], []⟩ else l
  else if c = 0 ∨ l.size = INPUT_BUF then l
  else l.type (if c = carriageReturn then newline else c)

end Line

/-- What a read of at most `n` bytes comes to, when it has got some already: it is done and leaves a
queue, or it waits for more. -/
inductive Delivery where
  | done (got queue : List UInt8)
  | wait (n : ℕ) (got : List UInt8)
  deriving DecidableEq, Repr

/-- A read ends after a newline, and before a Control-D, which is left in the queue if bytes were
delivered before it. -/
def deliver : ℕ → List UInt8 → List UInt8 → Delivery
  | 0, queue, got => .done got queue
  | n + 1, [], got => .wait (n + 1) got
  | n + 1, c :: queue, got =>
    if c = C 'D' then .done got (if got = [] then queue else c :: queue)
    else if c = newline then .done (got ++ [c]) queue
    else deliver n queue (got ++ [c])

/-- The discipline, with the reads that wait: how many bytes they wait for, and what they have. -/
structure Discipline where
  line : Line
  readers : ℕ → Option (ℕ × List UInt8)
  out : List (ℕ × Result)

namespace Discipline

/-- A read goes on. -/
def serve (d : Discipline) (k : ℕ) (n : ℕ) (got : List UInt8) (signal : Bool) : Discipline :=
  match deliver n d.line.queue got with
  | .done got queue =>
    { line := ⟨queue, d.line.edit⟩, readers := Function.update d.readers k none
      out := d.out ++ [(k, .bytes got)] }
  | .wait n got =>
    if signal then
      { line := ⟨[], d.line.edit⟩, readers := Function.update d.readers k none
        out := d.out ++ [(k, .interrupted got)] }
    else
      { line := ⟨[], d.line.edit⟩, readers := Function.update d.readers k (some (n, got))
        out := d.out }

/-- A step of the discipline. -/
def step (d : Discipline) : Event → Option Discipline
  | .key c fg => some { d with line := d.line.key c fg.isSome }
  | .read k n signal => if d.readers k = none then some (d.serve k n.toNat [] signal) else none
  | .wake k signal => (d.readers k).map fun rd => d.serve k rd.1 rd.2 signal

/-- Nothing was typed, and nobody reads. -/
def init : Discipline := ⟨⟨[], []⟩, fun _ => none, []⟩

end Discipline

/-! ## The ring shows a line -/

/-- The indices are 32 bits wide. -/
abbrev WRAP : ℕ := 2 ^ 32

lemma inputBuf_dvd : INPUT_BUF ∣ WRAP := ⟨2 ^ 25, by decide⟩

/-- The bytes from `r` to `e`. -/
def Input.ring (s : Input) : Ring.Buffer UInt8 := ⟨s.buf, s.r.toNat, s.e.toNat⟩

/-- The ring shows the bytes of the line, and `w` is where the edited part begins. -/
structure Shows (s : Input) (l : Line) : Prop where
  ring : Ring.Holds INPUT_BUF WRAP s.ring (l.queue ++ l.edit)
  write : s.w = s.r + BitVec.ofNat 32 l.queue.length
  /-- A newline is never edited. -/
  edit : newline ∉ l.edit

section

variable {s : Input} {l : Line} {queue edit : List UInt8} {c : UInt8}

lemma Shows.size_le (h : Shows s l) : l.size ≤ 128 := h.ring.le

lemma Shows.e_eq (h : Shows s l) : s.e = s.r + BitVec.ofNat 32 l.size := by
  have := h.ring.nwrite
  apply BitVec.eq_of_toNat_eq
  simpa [Input.ring, Line.size, BitVec.toNat_add, WRAP] using this

lemma length_le (l : Line) : l.queue.length ≤ l.size := by
  rw [Line.size, List.length_append]
  exact Nat.le_add_right _ _

/-- The indices are in order. -/
lemma Shows.indices (h : Shows s l) :
    (s.w - s.r).toNat ≤ (s.e - s.r).toNat ∧ (s.e - s.r).toNat ≤ INPUT_BUF := by
  have hle := h.size_le
  have hq := length_le l
  rw [h.e_eq, h.write, INPUT_BUF]
  bv_omega

lemma Shows.sub_eq (h : Shows s l) : (s.e - s.r).toNat = l.size := by
  have hle := h.size_le
  rw [h.e_eq]
  bv_omega

lemma Shows.e_eq_w (h : Shows s ⟨queue, edit⟩) : s.e = s.w ↔ edit = [] := by
  have hle := h.size_le
  rw [h.e_eq, h.write, ← List.length_eq_zero_iff]
  simp only [Line.size, List.length_append] at hle ⊢
  bv_omega

lemma Shows.r_eq_w (h : Shows s l) : s.r = s.w ↔ l.queue = [] := by
  have hle := h.size_le
  have hq := length_le l
  rw [h.write, ← List.length_eq_zero_iff]
  bv_omega

/-! ### Keys -/

lemma Shows.unput (h : Shows s ⟨queue, edit ++ [c]⟩) :
    s.get (s.e - 1) = c ∧ Shows { s with e := s.e - 1 } ⟨queue, edit⟩ := by
  have hring := h.ring
  simp only [← List.append_assoc] at hring
  have hsub : (s.e - 1).toNat = (WRAP - 1 + s.e.toNat) % WRAP := BitVec.toNat_sub ..
  refine ⟨?_, ⟨?_, h.write, fun hmem => h.edit (List.mem_append_left _ hmem)⟩⟩
  · rw [Input.get, hsub]
    exact hring.last inputBuf_dvd
  · have := hring.unpush
    simp only [Input.ring, hsub] at this ⊢
    exact this

lemma Shows.killLine (h : Shows s ⟨queue, edit⟩) : Shows s.killLine ⟨queue, []⟩ := by
  induction edit using List.reverseRecOn generalizing s with
  | nil =>
    rw [Input.killLine, if_neg fun hne => hne.1 (h.e_eq_w.mpr rfl)]
    exact h
  | append_singleton edit c ih =>
    obtain ⟨hget, hs⟩ := h.unput
    have hne : s.e ≠ s.w := fun heq => absurd (h.e_eq_w.mp heq) (by simp)
    have hc : s.get (s.e - 1) ≠ newline := by
      rw [hget]
      exact fun heq => h.edit (List.mem_append_right _ (by simp [heq]))
    rw [Input.killLine, if_pos ⟨hne, hc⟩]
    exact ih hs

lemma Shows.backspace (h : Shows s ⟨queue, edit⟩) : Shows s.backspace ⟨queue, edit.dropLast⟩ := by
  rcases List.eq_nil_or_concat edit with rfl | ⟨edit, c, rfl⟩
  · rw [Input.backspace, if_neg (not_not_intro (h.e_eq_w.mpr rfl))]
    exact h
  · rw [List.concat_eq_append] at h ⊢
    have hne : s.e ≠ s.w := fun heq => absurd (h.e_eq_w.mp heq) (by simp)
    rw [Input.backspace, if_pos hne, List.dropLast_concat]
    exact h.unput.2

lemma Input.ring_put : (s.put c).ring = Ring.push INPUT_BUF WRAP s.ring c := by
  simp [Input.ring, Input.put, Ring.push, BitVec.toNat_add, WRAP]

/-- The bytes from `r` to `e` can all be read. -/
lemma shows_commit (h : Ring.Holds INPUT_BUF WRAP s.ring queue) :
    Shows { s with w := s.e } ⟨queue, []⟩ where
  ring := by rwa [List.append_nil]
  write := by
    apply BitVec.eq_of_toNat_eq
    simpa [Input.ring, BitVec.toNat_add, WRAP] using h.nwrite
  edit := List.not_mem_nil

lemma shows_interrupt (s : Input) : Shows s.interrupt ⟨[newline], []⟩ := by
  have hempty : Ring.Holds INPUT_BUF WRAP ({ s with e := s.r } : Input).ring [] :=
    Ring.holds_nil _ s.r.isLt rfl
  have hput := hempty.push inputBuf_dvd (by decide) newline
  rw [← Input.ring_put] at hput
  exact shows_commit hput

lemma Shows.type (h : Shows s l) (hc : c ≠ 0) (hsize : l.size ≠ INPUT_BUF) :
    Shows (s.type c) (l.type (if c = carriageReturn then newline else c)) := by
  have hle := h.size_le
  have hlt : l.size < INPUT_BUF := lt_of_le_of_ne hle hsize
  rw [Input.type, if_pos ⟨hc, h.sub_eq.symm ▸ hlt⟩]
  generalize (if c = carriageReturn then newline else c) = c
  have hput := h.ring.push inputBuf_dvd hlt c
  rw [← Input.ring_put, List.append_assoc] at hput
  have hfull : (s.put c).e = (s.put c).r + BitVec.ofNat 32 INPUT_BUF ↔ l.size + 1 = INPUT_BUF := by
    show s.e + 1 = s.r + 128 ↔ l.size + 1 = 128
    rw [h.e_eq]
    bv_omega
  have hsize' : (⟨l.queue, l.edit ++ [c]⟩ : Line).size = l.size + 1 := by
    simp only [Line.size, List.length_append, List.length_singleton]
    omega
  simp only [Line.type, hfull, hsize']
  split_ifs with hend
  · exact shows_commit hput
  · refine ⟨hput, h.write, fun hmem => ?_⟩
    rcases List.mem_append.mp hmem with hmem | hmem
    · exact h.edit hmem
    · exact hend (Or.inl (List.mem_singleton.mp hmem).symm)

/-- A character does to the ring what the key does to the line; `consoleintr` panics if and only if
Control-C is to go to the first process. -/
lemma Shows.consoleintr (h : Shows s l) (c : UInt8) (fg : Option ℕ) :
    match s.consoleintr c fg with
    | none => c = C 'C' ∧ fg = some 1
    | some s' => ¬ (c = C 'C' ∧ fg = some 1) ∧ Shows s' (l.key c fg.isSome) := by
  unfold Input.consoleintr Line.key
  by_cases hP : c = C 'P'
  · rw [if_pos hP, if_pos hP]
    exact ⟨fun hC => absurd (hP.symm.trans hC.1) (by decide), h⟩
  rw [if_neg hP, if_neg hP]
  by_cases hU : c = C 'U'
  · rw [if_pos hU, if_pos hU]
    exact ⟨fun hC => absurd (hU.symm.trans hC.1) (by decide), h.killLine⟩
  rw [if_neg hU, if_neg hU]
  by_cases hH : c = C 'H' ∨ c = delete
  · rw [if_pos hH, if_pos hH]
    refine ⟨fun hC => ?_, h.backspace⟩
    rw [hC.1] at hH
    exact absurd hH (by decide)
  rw [if_neg hH, if_neg hH]
  by_cases hC : c = C 'C'
  · rw [if_pos hC, if_pos hC]
    rcases fg with _ | pid
    · exact ⟨fun hfg => absurd hfg.2 (by simp), h⟩
    · by_cases hpid : pid = 1
      · simp only [if_pos hpid]
        exact ⟨hC, congrArg some hpid⟩
      · simp only [if_neg hpid]
        exact ⟨fun hfg => hpid (Option.some.inj hfg.2), shows_interrupt s⟩
  rw [if_neg hC, if_neg hC]
  refine ⟨fun hfg => hC hfg.1, ?_⟩
  by_cases hno : c = 0 ∨ l.size = INPUT_BUF
  · rw [if_pos hno, Input.type, if_neg]
    · exact h
    · rw [h.sub_eq]
      exact fun hroom => hno.elim hroom.1 hroom.2.ne
  · rw [if_neg hno]
    exact h.type (fun h0 => hno (Or.inl h0)) fun hsize => hno (Or.inr hsize)

/-! ### Reads -/

/-- The first byte of the queue is at the read index. -/
lemma Shows.pop (h : Shows s ⟨c :: queue, edit⟩) :
    s.get s.r = c ∧ Shows { s with r := s.r + 1 } ⟨queue, edit⟩ := by
  obtain ⟨hfront, hpop⟩ := Ring.Holds.pop inputBuf_dvd h.ring
  refine ⟨hfront, ⟨?_, ?_, h.edit⟩⟩
  · have hring : ({ s with r := s.r + 1 } : Input).ring = Ring.pop WRAP s.ring := by
      simp [Input.ring, Ring.pop, BitVec.toNat_add, WRAP]
    rw [hring]
    exact hpop
  · have hw := h.write
    simp only [List.length_cons] at hw
    rw [hw]
    bv_omega

/-- What the loop of `consoleread` leads to is what the discipline delivers. -/
lemma Shows.readLoop {target n : ℕ} {dst : List UInt8} (h : Shows s ⟨queue, edit⟩)
    (htarget : target = n + dst.length) :
    match deliver n queue dst with
    | .done got queue' => ∃ s', readLoop s target n dst = (s', .done got) ∧ Shows s' ⟨queue', edit⟩
    | .wait n' got => ∃ s', readLoop s target n dst = (s', .empty ⟨n' + got.length, n', got⟩) ∧
        Shows s' ⟨[], edit⟩ := by
  induction n generalizing s queue dst with
  | zero => exact ⟨s, rfl, h⟩
  | succ n ih =>
    rw [Console.readLoop]
    rcases queue with _ | ⟨c, queue⟩
    · rw [if_pos (h.r_eq_w.mpr rfl), htarget]
      exact ⟨s, rfl, h⟩
    rw [if_neg fun heq => absurd (h.r_eq_w.mp heq) (by simp), deliver]
    obtain ⟨hget, hpop⟩ := h.pop
    simp only [hget]
    by_cases hD : c = C 'D'
    · rw [if_pos hD, if_pos hD]
      by_cases hdst : dst = []
      · have hfirst : ¬ n + 1 < target := by
          rw [htarget, hdst]
          exact lt_irrefl _
        rw [if_pos hdst, if_neg hfirst]
        exact ⟨_, rfl, hpop⟩
      · have hlater : n + 1 < target := by
          have := List.length_pos_iff.mpr hdst
          omega
        rw [if_neg hdst, if_pos hlater]
        refine ⟨_, rfl, ?_⟩
        rw [BitVec.add_sub_cancel]
        exact h
    · rw [if_neg hD, if_neg hD]
      by_cases hnl : c = newline
      · rw [if_pos hnl, if_pos hnl]
        exact ⟨_, rfl, hpop⟩
      · rw [if_neg hnl, if_neg hnl]
        refine ih hpop ?_
        rw [htarget, List.length_append, List.length_singleton]
        omega

end

/-! ## The console is a line discipline -/

/-- The console is in the state of the discipline. -/
structure Follows (s : State) (d : Discipline) : Prop where
  shows : Shows s.input d.line
  readers : ∀ k, s.readers k = (d.readers k).map fun rd => ⟨rd.1 + rd.2.length, rd.1, rd.2⟩
  out : s.out = d.out
  running : s.panicked = false

/-- Control-C does not go to the first process. -/
def SparesInit (_ : State) : Event → Prop
  | .key c fg => ¬ (c = C 'C' ∧ fg = some 1)
  | _ => True

section

variable {s s' : State} {d : Discipline}

lemma follows_init (buf : ℕ → UInt8) (r : BitVec 32) :
    Follows (State.init buf r) Discipline.init where
  shows := ⟨Ring.holds_nil _ r.isLt rfl, by simp [State.init, Discipline.init], List.not_mem_nil⟩
  readers _ := rfl
  out := rfl
  running := rfl

lemma Follows.serve (h : Follows s d) (k n : ℕ) (got : List UInt8) (signal : Bool) :
    Follows (s.serve k ⟨n + got.length, n, got⟩ signal) (d.serve k n got signal) := by
  have hreaders : ∀ (rd : Option (ℕ × List UInt8)) (j : ℕ),
      Function.update s.readers k (rd.map fun rd => ⟨rd.1 + rd.2.length, rd.1, rd.2⟩) j =
        (Function.update d.readers k rd j).map fun rd => ⟨rd.1 + rd.2.length, rd.1, rd.2⟩ := by
    intro rd j
    by_cases hj : j = k
    · subst hj
      simp only [Function.update_self]
    · simp only [Function.update_of_ne hj, h.readers]
  have hloop := h.shows.readLoop (n := n) (rfl : n + got.length = n + got.length)
  rw [State.serve, Discipline.serve]
  rcases hdel : deliver n d.line.queue got with ⟨got', queue'⟩ | ⟨n', got'⟩
  · rw [hdel] at hloop
    obtain ⟨input, hrun, hshows⟩ := hloop
    simp only [hrun]
    exact ⟨hshows, hreaders none, by rw [h.out], h.running⟩
  · rw [hdel] at hloop
    obtain ⟨input, hrun, hshows⟩ := hloop
    simp only [hrun]
    cases signal with
    | true => exact ⟨hshows, hreaders none, by simp only [if_true, h.out], h.running⟩
    | false => exact ⟨hshows, hreaders (some (n', got')), h.out, h.running⟩

/-- A step that spares the first process is a step of the discipline. -/
lemma simulates : Machine.Simulates State.step Discipline.step SparesInit Follows := by
  intro s d ev s' h hC hstep
  rw [State.step.eq_def, if_neg (by rw [h.running]; decide)] at hstep
  cases ev with
  | key c fg =>
    have hkey := h.shows.consoleintr c fg
    rcases hintr : s.input.consoleintr c fg with _ | input
    · rw [hintr] at hkey
      exact absurd hkey hC
    · rw [hintr] at hkey
      simp only [hintr, Option.some.injEq] at hstep
      subst hstep
      exact ⟨_, rfl, hkey.2, h.readers, h.out, h.running⟩
  | read k n signal =>
    simp only at hstep
    split_ifs at hstep with hk
    rw [Option.some.injEq] at hstep
    subst hstep
    have hd : d.readers k = none := by
      have := h.readers k
      rw [hk] at this
      exact Option.map_eq_none_iff.mp this.symm
    exact ⟨_, if_pos hd, h.serve k n.toNat [] signal⟩
  | wake k signal =>
    obtain ⟨rd, hrd, rfl⟩ := Option.map_eq_some_iff.mp hstep
    rw [h.readers, Option.map_eq_some_iff] at hrd
    obtain ⟨⟨n, got⟩, hd, rfl⟩ := hrd
    refine ⟨d.serve k n got signal, ?_, h.serve k n got signal⟩
    show Option.map _ (d.readers k) = _
    rw [hd, Option.map_some]

/-- A step that does not spare it is the last one. -/
lemma Follows.panics {ev : Event} (h : Follows s d) (hC : ¬ SparesInit s ev)
    (hstep : s.step ev = some s') : s'.panicked = true := by
  rw [State.step.eq_def, if_neg (by rw [h.running]; decide)] at hstep
  cases ev with
  | key c fg =>
    have hkey := h.shows.consoleintr c fg
    rcases hintr : s.input.consoleintr c fg with _ | input
    · simp only [hintr, Option.some.injEq] at hstep
      rw [← hstep]
    · rw [hintr] at hkey
      exact absurd hkey.1 hC
  | read k n signal => exact absurd trivial hC
  | wake k signal => exact absurd trivial hC

/-- After a panic nothing happens. -/
lemma meets_of_running {buf : ℕ → UInt8} {r : BitVec 32} {tr : List Event}
    (hrun : Machine.exec State.step (State.init buf r) tr = some s) (hs : s.panicked = false) :
    Machine.Meets State.step SparesInit (State.init buf r) tr := by
  refine Machine.exec_induction (motive := fun tr s => s.panicked = false →
    Machine.Meets State.step SparesInit (State.init buf r) tr) (fun _ => trivial) ?_ hrun hs
  intro tr s ev s' hrun ih hstep hs'
  have hs : s.panicked = false := by
    by_contra hp
    rw [State.step.eq_def, if_pos (by simpa using hp)] at hstep
    exact nomatch hstep
  have hmeets := ih hs
  obtain ⟨d, -, hd⟩ := simulates.exec (follows_init buf r) hrun hmeets
  refine (Machine.meets_concat hrun).mpr ⟨hmeets, ?_⟩
  by_contra hC
  rw [hd.panics hC hstep] at hs'
  exact nomatch hs'

/-- In a run of the console in which Control-C never goes to the first process, and only there, the
kernel does not panic, the calls of `consoleread` have returned what the line discipline returns for
the same events, and the indices are in order. -/
theorem console_follows_iff (buf : ℕ → UInt8) (r : BitVec 32) {tr : List Event} {s : State}
    (hrun : Machine.exec State.step (State.init buf r) tr = some s) :
    Machine.Meets State.step SparesInit (State.init buf r) tr ↔
      s.panicked = false ∧
      (∃ d, Machine.exec Discipline.step Discipline.init tr = some d ∧ s.out = d.out) ∧
      (s.input.w - s.input.r).toNat ≤ (s.input.e - s.input.r).toNat ∧
      (s.input.e - s.input.r).toNat ≤ INPUT_BUF := by
  constructor
  · intro hmeets
    obtain ⟨d, hd, h⟩ := simulates.exec (follows_init buf r) hrun hmeets
    exact ⟨h.running, ⟨d, hd, h.out⟩, h.shows.indices⟩
  · exact fun h => meets_of_running hrun h.1

end

/-- `ab`, a backspace, a newline and a read of 10 bytes: the reader gets `a` and the newline. -/
theorem console_follows_iff_line : ∃ s,
    Machine.exec State.step (State.init (fun _ => 0) 0)
      [.key 97 none, .key 98 none, .key (C 'H') none, .key 13 (some 2), .read 3 10 false] = some s ∧
    s.panicked = false ∧ s.out = [(3, .bytes [97, newline])] := by
  have hrun : ∃ s, Machine.exec State.step (State.init (fun _ => 0) 0)
      [.key 97 none, .key 98 none, .key (C 'H') none, .key 13 (some 2), .read 3 10 false] = some s ∧
      s.out = [(3, .bytes [97, newline])] := by
    refine ⟨_, rfl, ?_⟩
    decide +kernel
  obtain ⟨s, hs, hout⟩ := hrun
  refine ⟨s, hs, ((console_follows_iff _ _ hs).mp (Machine.meets_of_forall fun _ ev hev => ?_)).1, hout⟩
  fin_cases hev <;> simp [SparesInit]

/-- Control-C when the first process is in the foreground. -/
theorem interrupt_init_panics : ∃ s,
    Machine.exec State.step (State.init (fun _ => 0) 0) [.key (C 'C') (some 1)] = some s ∧
      s.panicked = true :=
  ⟨_, rfl, rfl⟩

end Xv7.Console
