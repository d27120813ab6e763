import Mathlib

/-!
# The parser of the shell

`gettoken`, `peek` and the functions from `parsecmd` to `nulterminate`.  The input is a string without
its final NUL; a pointer into it is an index, and the byte at the index `es` of the end is the NUL.

The functions have fuel, since they call each other; `Stop.fuel` says that it has run out.  A write
beyond the end of `argv` is `Stop.overflow`.
-/

namespace Xv7.Sh

/-- `MAXARGS`. -/
abbrev MAXARGS : ℕ := 10

/-- The byte of a character. -/
abbrev byte (c : Char) : UInt8 := c.toUInt8

/-- `whitespace`. -/
abbrev whitespace : List UInt8 := [byte ' ', byte '\t', byte '\r', byte '\n', 11]

/-- `symbols`. -/
abbrev symbols : List UInt8 :=
  [byte '<', byte '|', byte '>', byte '&', byte ';', byte '(', byte ')']

/-- `O_RDONLY`. -/
abbrev O_RDONLY : ℕ := 0

/-- `O_WRONLY`. -/
abbrev O_WRONLY : ℕ := 1

/-- `O_CREATE`. -/
abbrev O_CREATE : ℕ := 0x200

/-- `struct cmd` and its variants, with `W` for a word. -/
inductive Cmd (W : Type) where
  /-- `argv` up to its null pointer. -/
  | exec (argv : List W)
  | redir (cmd : Cmd W) (file : W) (mode fd : ℕ)
  | pipe (left right : Cmd W)
  | list (left right : Cmd W)
  | back (cmd : Cmd W)
  deriving DecidableEq, Repr

/-- A word of the input: its start `q` and its end `eq`. -/
abbrev Ptr : Type := ℕ × ℕ

/-- The messages of `panic`. -/
inductive Panic where
  /-- "syntax". -/
  | badSyntax
  /-- "missing file for redirection". -/
  | missingFile
  /-- "parseblock". -/
  | parseblock
  /-- "syntax - missing )". -/
  | missingParen
  /-- "too many args". -/
  | tooManyArgs
  deriving DecidableEq, Repr

/-- Why the parser does not return. -/
inductive Stop where
  | panic (p : Panic)
  | overflow
  | fuel
  deriving DecidableEq, Repr

/-! ## Tokens -/

/-- `*s`. -/
def byteAt (buf : List UInt8) (s : ℕ) : UInt8 := buf.getD s 0

/-- `while (s < es && p(*s)) s++`. -/
def scan (p : UInt8 → Bool) (buf : List UInt8) (s : ℕ) : ℕ := s + ((buf.drop s).takeWhile p).length

/-- `strchr(whitespace, c)`. -/
def isWhite (c : UInt8) : Bool := whitespace.contains c

/-- `!strchr(whitespace, c) && !strchr(symbols, c)`. -/
def isWord (c : UInt8) : Bool := !whitespace.contains c && !symbols.contains c

/-- What `gettoken` returns, with `q`, `eq` and the new cursor. -/
structure Tok where
  ret : UInt8
  q : ℕ
  eq : ℕ
  s : ℕ
  deriving DecidableEq, Repr

/-- `gettoken`. -/
def gettoken (buf : List UInt8) (s : ℕ) : Tok :=
  let q := scan isWhite buf s
  let c := byteAt buf q
  let (ret, eq) :=
    if c = 0 then (0, q)
    else if c = byte '|' ∨ c = byte '(' ∨ c = byte ')' ∨ c = byte ';' ∨ c = byte '&' ∨ c = byte '<' then
      (c, q + 1)
    else if c = byte '>' then
      if byteAt buf (q + 1) = byte '>' then (byte '+', q + 2) else (c, q + 1)
    else (byte 'a', scan isWord buf q)
  ⟨ret, q, eq, scan isWhite buf eq⟩

/-- `peek`, with the new cursor. -/
def peek (buf : List UInt8) (s : ℕ) (toks : List UInt8) : Bool × ℕ :=
  let s := scan isWhite buf s
  (byteAt buf s ≠ 0 && toks.contains (byteAt buf s), s)

/-! ## Commands -/

/-- `redircmd`, as `parseredirs` calls it for a token. -/
def redircmd (tok : UInt8) (cmd : Cmd Ptr) (file : Ptr) : Cmd Ptr :=
  if tok = byte '<' then .redir cmd file O_RDONLY 0
  else if tok = byte '>' then .redir cmd file (O_WRONLY ||| O_CREATE) 1
  else if tok = byte '+' then .redir cmd file (O_WRONLY ||| O_CREATE) 1
  else cmd

/-- `parseredirs`. -/
def parseredirs (buf : List UInt8) : ℕ → Cmd Ptr → ℕ → Except Stop (Cmd Ptr × ℕ)
  | 0, _, _ => .error .fuel
  | n + 1, cmd, s =>
    let (more, s) := peek buf s [byte '<', byte '>']
    if more = false then .ok (cmd, s)
    else
      let tok := gettoken buf s
      let file := gettoken buf tok.s
      if file.ret ≠ byte 'a' then .error (.panic .missingFile)
      else parseredirs buf n (redircmd tok.ret cmd (file.q, file.eq)) file.s

/-- `cmd->argv[argc] = q`, where `ret` is the command with the redirections around it. -/
def Cmd.store {W : Type} (w : W) : Cmd W → Cmd W
  | .exec argv => .exec (argv ++ [w])
  | .redir cmd file mode fd => .redir (cmd.store w) file mode fd
  | cmd => cmd

/-- The null pointers at the end of `parseexec`. -/
def finish (argc : ℕ) (ret : Cmd Ptr) (s : ℕ) : Except Stop (Cmd Ptr × ℕ) :=
  if MAXARGS ≤ argc then .error .overflow else .ok (ret, s)

/-- The loop of `parseexec`. -/
def parseargs (buf : List UInt8) : ℕ → ℕ → Cmd Ptr → ℕ → Except Stop (Cmd Ptr × ℕ)
  | 0, _, _, _ => .error .fuel
  | n + 1, argc, ret, s =>
    let (stop, s) := peek buf s [byte '|', byte ')', byte '&', byte ';']
    if stop = true then finish argc ret s
    else
      let tok := gettoken buf s
      if tok.ret = 0 then finish argc ret tok.s
      else if tok.ret ≠ byte 'a' then .error (.panic .badSyntax)
      else if MAXARGS ≤ argc then .error .overflow
      else if MAXARGS ≤ argc + 1 then .error (.panic .tooManyArgs)
      else do
        let (ret, s) ← parseredirs buf (buf.length + 1) (ret.store (tok.q, tok.eq)) tok.s
        parseargs buf n (argc + 1) ret s

/-- The first loop of `parseline`. -/
def parseback (buf : List UInt8) : ℕ → Cmd Ptr → ℕ → Except Stop (Cmd Ptr × ℕ)
  | 0, _, _ => .error .fuel
  | n + 1, cmd, s =>
    let (more, s) := peek buf s [byte '&']
    if more = false then .ok (cmd, s)
    else parseback buf n (.back cmd) (gettoken buf s).s

mutual

/-- `parseline`. -/
def parseline (buf : List UInt8) : ℕ → ℕ → Except Stop (Cmd Ptr × ℕ)
  | 0, _ => .error .fuel
  | n + 1, s => do
    let (cmd, s) ← parsepipe buf n s
    let (cmd, s) ← parseback buf (buf.length + 1) cmd s
    let (more, s) := peek buf s [byte ';']
    if more = true then do
      let (right, s) ← parseline buf n (gettoken buf s).s
      return (.list cmd right, s)
    else return (cmd, s)

/-- `parsepipe`. -/
def parsepipe (buf : List UInt8) : ℕ → ℕ → Except Stop (Cmd Ptr × ℕ)
  | 0, _ => .error .fuel
  | n + 1, s => do
    let (cmd, s) ← parseexec buf n s
    let (more, s) := peek buf s [byte '|']
    if more = true then do
      let (right, s) ← parsepipe buf n (gettoken buf s).s
      return (.pipe cmd right, s)
    else return (cmd, s)

/-- `parseblock`. -/
def parseblock (buf : List UInt8) : ℕ → ℕ → Except Stop (Cmd Ptr × ℕ)
  | 0, _ => .error .fuel
  | n + 1, s => do
    let (more, s) := peek buf s [byte '(']
    if more = false then .error (.panic .parseblock)
    else do
      let (cmd, s) ← parseline buf n (gettoken buf s).s
      let (more, s) := peek buf s [byte ')']
      if more = false then .error (.panic .missingParen)
      else parseredirs buf (buf.length + 1) cmd (gettoken buf s).s

/-- `parseexec`. -/
def parseexec (buf : List UInt8) : ℕ → ℕ → Except Stop (Cmd Ptr × ℕ)
  | 0, _ => .error .fuel
  | n + 1, s => do
    let (block, s) := peek buf s [byte '(']
    if block = true then parseblock buf n s
    else do
      let (ret, s) ← parseredirs buf (buf.length + 1) (.exec []) s
      parseargs buf (buf.length + 1) 0 ret s

end

/-- `nulterminate`, on the memory of the input. -/
def nulterminate : Cmd Ptr → List UInt8 → List UInt8
  | .exec argv, mem => argv.foldl (fun mem w => mem.set w.2 0) mem
  | .redir cmd file _ _, mem => (nulterminate cmd mem).set file.2 0
  | .pipe left right, mem => nulterminate right (nulterminate left mem)
  | .list left right, mem => nulterminate right (nulterminate left mem)
  | .back cmd, mem => nulterminate cmd mem

/-- `parsecmd`: the command, and the memory of the input with its NUL. -/
def parsecmd (fuel : ℕ) (buf : List UInt8) : Except Stop (Cmd Ptr × List UInt8) := do
  let (cmd, s) ← parseline buf fuel 0
  let (_, s) := peek buf s []
  if s ≠ buf.length then .error (.panic .badSyntax)
  else return (cmd, nulterminate cmd (buf ++ [0]))

end Xv7.Sh
