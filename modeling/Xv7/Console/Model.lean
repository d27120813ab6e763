import Xv7.Lib.Machine

/-!
# The console

The input side of the console: `consoleintr` takes characters from the keyboard or the serial line,
and `consoleread` gives them to processes.  They share a ring of bytes with three indices that wrap
around: up to `w` the bytes can be read, and from there to `e` they can still be edited.

A step is a section under `cons.lock`: one character of `consoleintr`, or `consoleread` from where it
takes the lock, at the beginning or after `sleep`, to where it returns or goes to sleep.
-/

namespace Xv7.Console

/-- Size of the ring. -/
abbrev INPUT_BUF : ℕ := 128

/-- `struct input_struct` without `fgproc`. -/
structure Input where
  buf : ℕ → UInt8
  /-- Read index. -/
  r : BitVec 32
  /-- Write index. -/
  w : BitVec 32
  /-- Edit index. -/
  e : BitVec 32

/-- `C(x)`: Control-x. -/
abbrev C (x : Char) : UInt8 := x.toUInt8 - '@'.toUInt8

/-- `'\n'`. -/
abbrev newline : UInt8 := 10

/-- `'\r'`. -/
abbrev carriageReturn : UInt8 := 13

/-- `'\x7f'`. -/
abbrev delete : UInt8 := 127

namespace Input

/-- `input.buf[i % INPUT_BUF]`. -/
def get (s : Input) (i : BitVec 32) : UInt8 := s.buf (i.toNat % INPUT_BUF)

/-- `input.buf[input.e++ % INPUT_BUF] = c`. -/
def put (s : Input) (c : UInt8) : Input :=
  { s with buf := Function.update s.buf (s.e.toNat % INPUT_BUF) c, e := s.e + 1 }

/-- The case of `C('U')`. -/
def killLine (s : Input) : Input :=
  if s.e ≠ s.w ∧ s.get (s.e - 1) ≠ newline then killLine { s with e := s.e - 1 } else s
termination_by (s.e - s.w).toNat
decreasing_by bv_omega

/-- The case of `C('H')` and `'\x7f'`. -/
def backspace (s : Input) : Input := if s.e ≠ s.w then { s with e := s.e - 1 } else s

/-- The case of `C('C')` with a foreground process, after `kill`. -/
def interrupt (s : Input) : Input :=
  let s := { s with e := s.r }.put newline
  { s with w := s.e }

/-- The default case: the character is stored, unless it is 0 or there is no room. -/
def type (s : Input) (c : UInt8) : Input :=
  if c ≠ 0 ∧ (s.e - s.r).toNat < INPUT_BUF then
    let c := if c = carriageReturn then newline else c
    let s := s.put c
    if c = newline ∨ c = C 'D' ∨ s.e = s.r + BitVec.ofNat 32 INPUT_BUF then { s with w := s.e } else s
  else s

/-- One character of `consoleintr`.  `fg` is the pid of the foreground process, if there is one.
`kill` of the first process prints a message, for which it takes `cons.lock`; `consoleintr` has it,
and `acquire` panics: this is `none`. -/
def consoleintr (s : Input) (c : UInt8) (fg : Option ℕ) : Option Input :=
  if c = C 'P' then some s
  else if c = C 'U' then some s.killLine
  else if c = C 'H' ∨ c = delete then some s.backspace
  else if c = C 'C' then
    match fg with
    | none => some s
    | some pid => if pid = 1 then none else some s.interrupt
  else some (s.type c)

end Input

/-- The variables of a call of `consoleread`: `target`, `n`, and what was stored to `dst`. -/
structure Reader where
  target : ℕ
  n : ℕ
  dst : List UInt8
  deriving DecidableEq, Repr

/-- How the loop of `consoleread` ends: it leaves the loop, or there is nothing to read. -/
inductive Loop where
  | done (dst : List UInt8)
  | empty (rd : Reader)
  deriving DecidableEq, Repr

/-- The loop of `consoleread`, up to the end or to where it would have to wait.  After `input.r--`
the index is what it was before `input.r++`. -/
def readLoop (s : Input) (target : ℕ) : ℕ → List UInt8 → Input × Loop
  | 0, dst => (s, .done dst)
  | n + 1, dst =>
    if s.r = s.w then (s, .empty ⟨target, n + 1, dst⟩)
    else
      let c := s.get s.r
      let s' := { s with r := s.r + 1 }
      if c = C 'D' then (if n + 1 < target then { s' with r := s'.r - 1 } else s', .done dst)
      else if c = newline then (s', .done (dst ++ [c]))
      else readLoop s' target n (dst ++ [c])

/-- What a call of `consoleread` has returned: the bytes, or -1 with what it had stored before. -/
inductive Result where
  | bytes (dst : List UInt8)
  | interrupted (dst : List UInt8)
  deriving DecidableEq, Repr

/-- The console and the processes that sleep in `consoleread`. -/
structure State where
  input : Input
  readers : ℕ → Option Reader
  /-- What the calls of `consoleread` have returned so far. -/
  out : List (ℕ × Result)
  panicked : Bool

/-- What can happen: a character arrives, with the pid of the foreground process; process `k` calls
`consoleread`, or is woken up in it.  `signal` says if the process was killed or has a signal
pending, at the time when it finds nothing to read. -/
inductive Event where
  | key (c : UInt8) (fg : Option ℕ)
  | read (k : ℕ) (n : ℤ) (signal : Bool)
  | wake (k : ℕ) (signal : Bool)
  deriving DecidableEq, Repr

namespace State

/-- `consoleread` from where it takes the lock. -/
def serve (s : State) (k : ℕ) (rd : Reader) (signal : Bool) : State :=
  match readLoop s.input rd.target rd.n rd.dst with
  | (input, .done dst) =>
    { s with input, readers := Function.update s.readers k none, out := s.out ++ [(k, .bytes dst)] }
  | (input, .empty rd') =>
    if signal then
      { s with input, readers := Function.update s.readers k none
               out := s.out ++ [(k, .interrupted rd'.dst)] }
    else { s with input, readers := Function.update s.readers k (some rd') }

/-- A step.  Nothing happens after a panic. -/
def step (s : State) (ev : Event) : Option State :=
  if s.panicked then none
  else match ev with
    | .key c fg =>
      match s.input.consoleintr c fg with
      | none => some { s with panicked := true }
      | some input => some { s with input }
    | .read k n signal =>
      if s.readers k = none then some (s.serve k ⟨n.toNat, n.toNat, []⟩ signal) else none
    | .wake k signal => (s.readers k).map fun rd => s.serve k rd signal

/-- The ring is empty, and nobody reads. -/
def init (buf : ℕ → UInt8) (r : BitVec 32) : State where
  input := ⟨buf, r, r, r⟩
  readers _ := none
  out := []
  panicked := false

end State

end Xv7.Console
