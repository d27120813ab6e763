import Xv7.Sh.Correct

/-!
# Running redirections

`runcmd` for the tree of a command line that consists of words and redirections. `parseredirs` puts each
redirection around those that came before it, so `runcmd` opens the file of the last one first, and a
descriptor ends up with the file of the first redirection that names it. All files are opened at their
beginning, also those of `>>`.
-/

namespace Xv7.Sh

/-! ## Descriptors and files -/

/-- `NOFILE`. -/
abbrev NOFILE : ℕ := 16

/-- An open file: what it is, and the offset. -/
structure OpenFile where
  node : ℕ
  off : ℕ
  mode : ℕ
  deriving DecidableEq

/-- The descriptors of the process, and the contents of the files that exist. -/
structure World where
  fds : ℕ → Option OpenFile
  content : ℕ → Option (List UInt8)

/-- `close`. -/
def close (fd : ℕ) (w : World) : World := { w with fds := Function.update w.fds fd none }

/-- The descriptor that `open` returns. -/
def World.freeFd (w : World) : Option ℕ := (List.range NOFILE).find? fun fd => w.fds fd = none

/-- The file that a name stands for; several names may stand for one file. -/
abbrev Nodes := List UInt8 → ℕ

/-- `open`: a missing file is created if the mode says so; the file takes the lowest free descriptor, and
its offset is 0. -/
def openFile (node : Nodes) (file : List UInt8) (mode : ℕ) (w : World) : Option World :=
  let n := node file
  if w.content n = none ∧ mode &&& O_CREATE = 0 then none
  else
    match w.freeFd with
    | none => none
    | some fd => some
        { fds := Function.update w.fds fd (some ⟨n, 0, mode⟩)
          content := Function.update w.content n (some ((w.content n).getD [])) }

/-- The command writes to descriptor 1. -/
def writeOut (out : List UInt8) (w : World) : World :=
  match w.fds 1 with
  | none => w
  | some f =>
    let old := (w.content f.node).getD []
    { fds := Function.update w.fds 1 (some { f with off := f.off + out.length })
      content := Function.update w.content f.node
        (some (old.take f.off ++ out ++ old.drop (f.off + out.length))) }

/-! ## `runcmd` -/

/-- What `runcmd` comes to: a program with its arguments, a file that cannot be opened, or a command that
needs another process. -/
inductive Run where
  | exec (argv : List (List UInt8)) (w : World)
  | failed (file : List UInt8)
  | other (cmd : Cmd (List UInt8)) (w : World)

/-- `runcmd`, up to the first `fork` or `exec`. -/
def runcmd (node : Nodes) : Cmd (List UInt8) → World → Run
  | .exec argv, w => .exec argv w
  | .redir cmd file mode fd, w =>
    match openFile node file mode (close fd w) with
    | none => .failed file
    | some w => runcmd node cmd w
  | cmd, w => .other cmd w

/-! ## What redirections are for -/

/-- The descriptor of a redirection. -/
def Redir.fd (r : Redir) : ℕ := r.op.target.2

/-- The first redirection of a descriptor. -/
def firstFor (fd : ℕ) (rs : List Redir) : Option Redir := rs.find? fun r => r.fd = fd

/-- The last redirection of a descriptor. -/
def lastFor (fd : ℕ) (rs : List Redir) : Option Redir := firstFor fd rs.reverse

/-- The redirections take effect from left to right: each descriptor is connected to the file of its last
redirection, and if that is a `>>`, all output comes behind what was in the file before. -/
structure LeftToRight (node : Nodes) (rs : List Redir) (w w' : World) : Prop where
  connected : ∀ fd r, lastFor fd rs = some r → ∃ f, w'.fds fd = some f ∧ f.node = node r.file
  append : ∀ r, lastFor 1 rs = some r → r.op = .gtgt → ∀ out,
    (writeOut out w').content (node r.file) = some ((w.content (node r.file)).getD [] ++ out)

/-- The first and the last redirection of a descriptor name the same file, and the file of a `>>` that is
the last redirection of its descriptor is empty or missing. -/
structure Unambiguous (node : Nodes) (rs : List Redir) (w : World) : Prop where
  same : ∀ fd r r', firstFor fd rs = some r → lastFor fd rs = some r' → node r.file = node r'.file
  empty : ∀ r, lastFor 1 rs = some r → r.op = .gtgt → (w.content (node r.file)).getD [] = []

/-- The shell has its first three descriptors open. -/
def World.Shell (w : World) : Prop := ∀ fd < 3, w.fds fd ≠ none

/-! ## One redirection -/

variable {node : Nodes} {r : Redir} {rs : List Redir} {w w' : World}

/-- What `runcmd` does for a redirection. -/
def redirect (node : Nodes) (r : Redir) (w : World) : Option World :=
  openFile node r.file r.op.target.1 (close r.fd w)

lemma Redir.fd_lt (r : Redir) : r.fd < 2 := by
  unfold Redir.fd
  cases r.op <;> decide

/-- `open` returns the descriptor that was closed before. -/
lemma freeFd_close (hw : w.Shell) {fd : ℕ} (hfd : fd < 3) : (close fd w).freeFd = some fd := by
  unfold World.freeFd
  rw [List.find?_range_eq_some]
  refine ⟨by simp [close], List.mem_range.2 (hfd.trans (by decide)), fun k hk => ?_⟩
  have hopen := hw k (by omega)
  simp [close, Function.update_of_ne hk.ne, hopen]

/-- A redirection connects its descriptor to its file, and changes no contents. -/
lemma redirect_spec (hw : w.Shell) (h : redirect node r w = some w') :
    w'.fds = Function.update w.fds r.fd (some ⟨node r.file, 0, r.op.target.1⟩) ∧
      ∀ n, (w'.content n).getD [] = (w.content n).getD [] := by
  unfold redirect openFile at h
  rw [freeFd_close hw (r.fd_lt.trans (by decide))] at h
  dsimp only at h
  split_ifs at h
  obtain rfl := Option.some.inj h
  refine ⟨Function.update_idem _ _ _, fun n => ?_⟩
  by_cases hn : n = node r.file
  · subst hn
    simp [close]
  · simp [close, Function.update_of_ne hn]

lemma shell_redirect (hw : w.Shell) (h : redirect node r w = some w') : w'.Shell := by
  intro fd hfd
  rw [(redirect_spec hw h).1]
  by_cases heq : fd = r.fd
  · rw [heq, Function.update_self]
    exact Option.some_ne_none _
  · rw [Function.update_of_ne heq]
    exact hw fd hfd

/-! ## All redirections -/

/-- The redirections of a line, as they are run: the last one first. -/
def redirectAll (node : Nodes) : List Redir → World → Option World
  | [], w => some w
  | r :: rs, w => (redirectAll node rs w).bind (redirect node r)

/-- The tree of a line runs its redirections from right to left. -/
lemma runcmd_foldl_wrap (rs : List Redir) (c : Cmd (List UInt8)) {argv : List (List UInt8)}
    (h : runcmd node (rs.foldl Redir.wrap c) w = .exec argv w') :
    ∃ w1, redirectAll node rs w = some w1 ∧ runcmd node c w1 = .exec argv w' := by
  induction rs generalizing c with
  | nil => exact ⟨w, rfl, h⟩
  | cons r rs ih =>
    obtain ⟨w1, hrest, hrun⟩ := ih (Redir.wrap c r) h
    rw [Redir.wrap, runcmd] at hrun
    cases hopen : openFile node r.file r.op.target.1 (close r.op.target.2 w1) with
    | none =>
      rw [hopen] at hrun
      cases hrun
    | some w2 =>
      rw [hopen] at hrun
      refine ⟨w2, ?_, hrun⟩
      rw [redirectAll, hrest]
      exact hopen

/-- Each descriptor is connected to the file of its first redirection. -/
lemma redirectAll_spec (hw : w.Shell) (h : redirectAll node rs w = some w') :
    w'.Shell ∧ (∀ fd r, firstFor fd rs = some r → w'.fds fd = some ⟨node r.file, 0, r.op.target.1⟩) ∧
      ∀ n, (w'.content n).getD [] = (w.content n).getD [] := by
  induction rs generalizing w' with
  | nil =>
    obtain rfl := Option.some.inj h
    exact ⟨hw, nofun, fun _ => rfl⟩
  | cons r rs ih =>
    obtain ⟨w1, hrest, hr⟩ := Option.bind_eq_some_iff.1 h
    obtain ⟨hshell, hfirst, hcontent⟩ := ih hrest
    obtain ⟨hfds, hsame⟩ := redirect_spec hshell hr
    refine ⟨shell_redirect hshell hr, fun fd r' hr' => ?_, fun n => (hsame n).trans (hcontent n)⟩
    rw [hfds]
    rw [firstFor, List.find?_cons] at hr'
    by_cases hfd : r.fd = fd
    · rw [decide_eq_true hfd] at hr'
      obtain rfl := Option.some.inj hr'
      rw [hfd, Function.update_self]
    · rw [decide_eq_false hfd] at hr'
      rw [Function.update_of_ne (Ne.symm hfd)]
      exact hfirst fd r' hr'

/-- A descriptor with a last redirection has a first one. -/
lemma exists_firstFor {fd : ℕ} (h : lastFor fd rs = some r) :
    r.fd = fd ∧ ∃ r', firstFor fd rs = some r' ∧ r'.fd = fd := by
  have hfd : r.fd = fd := by simpa using List.find?_some h
  have hmem : r ∈ rs := List.mem_reverse.1 (List.mem_of_find?_eq_some h)
  refine ⟨hfd, ?_⟩
  cases hfirst : firstFor fd rs with
  | none => exact absurd (List.find?_eq_none.1 hfirst r hmem) (by simp [hfd])
  | some r' => exact ⟨r', rfl, by simpa using List.find?_some hfirst⟩

/-- Output at the beginning of a file comes behind its contents only if there are none. -/
lemma overwrite_eq_append_iff (old : List UInt8) :
    (∀ out, out ++ old.drop out.length = old ++ out) ↔ old = [] := by
  constructor
  · intro h
    have hlen := congrArg List.length (h [0])
    simp only [List.length_append, List.length_drop, List.length_singleton] at hlen
    exact List.length_eq_zero_iff.1 (by omega)
  · rintro rfl out
    rw [List.drop_nil, List.append_nil, List.nil_append]

lemma leftToRight_iff (hw : w.Shell) (h : redirectAll node rs w = some w') :
    LeftToRight node rs w w' ↔ Unambiguous node rs w := by
  obtain ⟨-, hfirst, hcontent⟩ := redirectAll_spec hw h
  have hout : ∀ r, firstFor 1 rs = some r → ∀ out, (writeOut out w').content (node r.file) =
      some (out ++ ((w.content (node r.file)).getD []).drop out.length) := by
    intro r hr out
    unfold writeOut
    rw [hfirst 1 r hr]
    simp [hcontent]
  constructor
  · intro hall
    have hsame : ∀ fd r r', firstFor fd rs = some r → lastFor fd rs = some r' →
        node r.file = node r'.file := by
      intro fd r r' hr hr'
      obtain ⟨f, hf, hnode⟩ := hall.connected fd r' hr'
      rw [hfirst fd r hr] at hf
      rw [← hnode, ← Option.some.inj hf]
    refine ⟨hsame, fun r hr hop => (overwrite_eq_append_iff _).1 fun out => ?_⟩
    obtain ⟨-, r', hr', -⟩ := exists_firstFor hr
    have happend := hall.append r hr hop out
    rw [← hsame 1 r' r hr' hr, hout r' hr' out] at happend
    rw [← hsame 1 r' r hr' hr]
    exact Option.some.inj happend
  · intro hunamb
    refine ⟨fun fd r hr => ?_, fun r hr hop out => ?_⟩
    · obtain ⟨-, r', hr', -⟩ := exists_firstFor hr
      exact ⟨_, hfirst fd r' hr', hunamb.same fd r' r hr' hr⟩
    · obtain ⟨-, r', hr', -⟩ := exists_firstFor hr
      have hempty := hunamb.empty r hr hop
      rw [← hunamb.same 1 r' r hr' hr] at hempty ⊢
      rw [hout r' hr' out, hempty, List.drop_nil, List.append_nil, List.nil_append]

/-! ## Lines of words and redirections -/

/-- A line of words and redirections has one tree. -/
lemma parsecmd_simple {input : List UInt8} (h0 : 0 ∉ input) {fuel : ℕ}
    (hfuel : 4 * input.length + 4 ≤ fuel) {args : List (List UInt8 × List Redir)}
    (hargs : args.length < MAXARGS) (hlex : lex input = redirTokens rs ++ argTokens args)
    {c : Cmd Ptr} {mem : List UInt8} (h : parsecmd fuel input = .ok (c, mem)) :
    c.map (cstr mem) = (rs ++ args.flatMap Prod.snd).foldl Redir.wrap (.exec (args.map Prod.fst)) := by
  have hderives : Derives .line (lex input)
      ((rs ++ args.flatMap Prod.snd).foldl Redir.wrap (.exec (args.map Prod.fst))) := by
    have hsimple := Derives.last 0 (.exec (.simple rs args hargs))
    rwa [List.replicate_zero, List.append_nil, ← hlex] at hsimple
  obtain ⟨c', hok, hrel⟩ := parsecmd_of_derives h0 hfuel hderives
  rw [hok] at h
  obtain ⟨rfl, rfl⟩ := Prod.mk.inj (Except.ok.inj h)
  exact map_cstr h0 hrel

/-- The redirections of a line that is parsed and whose files can be opened take effect from left to
right if and only if the first and the last redirection of each descriptor name the same file and a `>>`
that counts has nothing to append to. -/
theorem redirections_iff (node : Nodes) (input : List UInt8) (h0 : 0 ∉ input) (fuel : ℕ)
    (hfuel : 4 * input.length + 4 ≤ fuel) (rs : List Redir) (args : List (List UInt8 × List Redir))
    (hargs : args.length < MAXARGS) (hlex : lex input = redirTokens rs ++ argTokens args)
    (c : Cmd Ptr) (mem : List UInt8) (hparse : parsecmd fuel input = .ok (c, mem)) (w w' : World)
    (hw : w.Shell) (argv : List (List UInt8))
    (hrun : runcmd node (c.map (cstr mem)) w = .exec argv w') :
    LeftToRight node (rs ++ args.flatMap Prod.snd) w w' ↔
      Unambiguous node (rs ++ args.flatMap Prod.snd) w := by
  rw [parsecmd_simple h0 hfuel hargs hlex hparse] at hrun
  obtain ⟨w₁, hall, hexec⟩ := runcmd_foldl_wrap _ _ hrun
  rw [runcmd, Run.exec.injEq] at hexec
  exact hexec.2 ▸ leftToRight_iff hw hall

/-- Each file is known by the number of its first byte. -/
def byFirst : Nodes := fun file => (file.headD 0).toNat

/-- The shell, with the console as descriptors 0 to 2, and a file `f` with one byte in it. -/
def shell : World where
  fds := fun fd => if fd < 3 then some ⟨0, 0, 2⟩ else none
  content := fun n => if n = 102 then some [49] else none

/-- `a>g` connects descriptor 1 to `g`. -/
theorem redirections_single : LeftToRight byFirst [⟨.gt, ['g'].map byte⟩] shell
    ⟨Function.update (close 1 shell).fds 1 (some ⟨103, 0, O_WRONLY ||| O_CREATE⟩),
      Function.update shell.content 103 (some [])⟩ := by
  have hlex : lex (['a', '>', 'g'].map byte) =
      redirTokens [] ++ argTokens [(['a'].map byte, [⟨.gt, ['g'].map byte⟩])] := by decide +kernel
  have hiff := redirections_iff byFirst (['a', '>', 'g'].map byte) (by decide) 16 (by decide) [] _
    (by decide) hlex (.redir (.exec [(0, 1)]) (2, 3) (O_WRONLY ||| O_CREATE) 1) [97, 0, 103, 0]
    (by decide +kernel) shell _ (fun fd hfd => by simp [shell, hfd]) [['a'].map byte] rfl
  refine hiff.2 ⟨fun fd r r' hr hr' => ?_, fun r hr hop => ?_⟩
  · rw [Option.some.inj (hr.symm.trans hr')]
  · obtain rfl : ⟨.gt, ['g'].map byte⟩ = r := Option.some.inj hr
    cases hop

/-- `a>f>g` connects descriptor 1 to `f`; and after `a>>f` the output has replaced what was in `f`. -/
theorem redirections_wrong :
    (∃ w', runcmd byFirst (.redir (.redir (.exec [['a'].map byte]) (['f'].map byte) (O_WRONLY ||| O_CREATE) 1)
        (['g'].map byte) (O_WRONLY ||| O_CREATE) 1) shell = .exec [['a'].map byte] w' ∧
      w'.fds 1 = some ⟨102, 0, O_WRONLY ||| O_CREATE⟩) ∧
    (parsecmd 40 (['a', '>', 'f', '>', 'g'].map byte)).map (fun x => x.1.map (cstr x.2)) =
      .ok (.redir (.redir (.exec [['a'].map byte]) (['f'].map byte) (O_WRONLY ||| O_CREATE) 1)
        (['g'].map byte) (O_WRONLY ||| O_CREATE) 1) ∧
    (∃ w', runcmd byFirst (.redir (.exec [['a'].map byte]) (['f'].map byte) (O_WRONLY ||| O_CREATE) 1) shell =
        .exec [['a'].map byte] w' ∧ (writeOut [50] w').content 102 = some [50]) ∧
    (parsecmd 40 (['a', '>', '>', 'f'].map byte)).map (fun x => x.1.map (cstr x.2)) =
      .ok (.redir (.exec [['a'].map byte]) (['f'].map byte) (O_WRONLY ||| O_CREATE) 1) :=
  ⟨⟨_, rfl, rfl⟩, by decide +kernel, ⟨_, rfl, rfl⟩, by decide +kernel⟩

end Xv7.Sh
