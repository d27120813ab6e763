import Xv7.Sh.Parse

/-!
# The grammar of the shell

What the parser is for: the tokens of a string, and the command trees that the grammar

    line  ::= pipe '&'* [';' line]
    pipe  ::= exec ['|' pipe]
    exec  ::= '(' line ')' redir* | redir* (word redir*)*
    redir ::= ('<' | '>' | '>>') word

derives from a list of tokens.  The words of a tree are lists of bytes here, and pointers into the
input in the parser; `Cmd.Rel` relates the two.
-/

namespace Xv7.Sh

/-! ## Tokens of a string -/

/-- The redirections. -/
inductive Op where
  | lt
  | gt
  | gtgt
  deriving DecidableEq, Repr

/-- A token. -/
inductive Token where
  | word (w : List UInt8)
  | redir (op : Op)
  | bar
  | amp
  | semi
  | lpar
  | rpar
  deriving DecidableEq, Repr

/-- The tokens of a string, with words as maximal runs. -/
def lex : List UInt8 → List Token
  | [] => []
  | c :: cs =>
    if isWhite c = true then lex cs
    else if c = byte '|' then .bar :: lex cs
    else if c = byte '(' then .lpar :: lex cs
    else if c = byte ')' then .rpar :: lex cs
    else if c = byte ';' then .semi :: lex cs
    else if c = byte '&' then .amp :: lex cs
    else if c = byte '<' then .redir .lt :: lex cs
    else if c = byte '>' then
      if cs.head? = some (byte '>') then .redir .gtgt :: lex cs.tail else .redir .gt :: lex cs
    else .word (c :: cs.takeWhile isWord) :: lex (cs.dropWhile isWord)
termination_by l => l.length
decreasing_by
  all_goals simp only [List.length_cons, List.length_tail]
  all_goals first | omega | exact Nat.lt_succ_of_le (List.dropWhile_sublist _).length_le

/-! ## Derivations -/

/-- A redirection with its file. -/
structure Redir where
  op : Op
  file : List UInt8

/-- `redir`. -/
def Redir.tokens (r : Redir) : List Token := [.redir r.op, .word r.file]

/-- The mode and the descriptor of a redirection. -/
def Op.target : Op → ℕ × ℕ
  | .lt => (O_RDONLY, 0)
  | .gt => (O_WRONLY ||| O_CREATE, 1)
  | .gtgt => (O_WRONLY ||| O_CREATE, 1)

/-- A redirection around what came before. -/
def Redir.wrap (cmd : Cmd (List UInt8)) (r : Redir) : Cmd (List UInt8) :=
  .redir cmd r.file r.op.target.1 r.op.target.2

/-- `redir*`. -/
def redirTokens (rs : List Redir) : List Token := rs.flatMap Redir.tokens

/-- `(word redir*)*`. -/
def argTokens (args : List (List UInt8 × List Redir)) : List Token :=
  args.flatMap fun a => .word a.1 :: redirTokens a.2

/-- The nonterminals. -/
inductive NonTerminal where
  | line
  | pipe
  | exec

/-- The tree that a nonterminal derives from a list of tokens. -/
inductive Derives : NonTerminal → List Token → Cmd (List UInt8) → Prop
  | last {ts : List Token} {c : Cmd (List UInt8)} (n : ℕ) (h : Derives .pipe ts c) :
      Derives .line (ts ++ List.replicate n .amp) (Cmd.back^[n] c)
  | more {ts ts' : List Token} {c c' : Cmd (List UInt8)} (n : ℕ) (h : Derives .pipe ts c)
      (h' : Derives .line ts' c') :
      Derives .line (ts ++ List.replicate n .amp ++ .semi :: ts') (.list (Cmd.back^[n] c) c')
  | exec {ts : List Token} {c : Cmd (List UInt8)} (h : Derives .exec ts c) : Derives .pipe ts c
  | pipe {ts ts' : List Token} {c c' : Cmd (List UInt8)} (h : Derives .exec ts c)
      (h' : Derives .pipe ts' c') : Derives .pipe (ts ++ .bar :: ts') (.pipe c c')
  | block {ts : List Token} {c : Cmd (List UInt8)} (rs : List Redir) (h : Derives .line ts c) :
      Derives .exec (.lpar :: ts ++ .rpar :: redirTokens rs) (rs.foldl Redir.wrap c)
  | simple (rs : List Redir) (args : List (List UInt8 × List Redir)) (h : args.length < MAXARGS) :
      Derives .exec (redirTokens rs ++ argTokens args)
        ((rs ++ args.flatMap Prod.snd).foldl Redir.wrap (.exec (args.map Prod.fst)))

/-! ## Trees over different words -/

namespace Cmd

variable {V W : Type} {R : V → W → Prop}

/-- The words of a tree. -/
def words : Cmd W → List W
  | .exec argv => argv
  | .redir cmd file _ _ => file :: cmd.words
  | .pipe left right => left.words ++ right.words
  | .list left right => left.words ++ right.words
  | .back cmd => cmd.words

/-- The tree with other words. -/
def map (f : V → W) : Cmd V → Cmd W
  | .exec argv => .exec (argv.map f)
  | .redir cmd file mode fd => .redir (cmd.map f) (f file) mode fd
  | .pipe left right => .pipe (left.map f) (right.map f)
  | .list left right => .list (left.map f) (right.map f)
  | .back cmd => .back (cmd.map f)

/-- Two trees of one shape, with related words. -/
inductive Rel (R : V → W → Prop) : Cmd V → Cmd W → Prop
  | exec {vs : List V} {ws : List W} (h : List.Forall₂ R vs ws) : Rel R (.exec vs) (.exec ws)
  | redir {c : Cmd V} {t : Cmd W} {v : V} {w : W} {mode fd : ℕ} (h : Rel R c t) (hw : R v w) :
      Rel R (.redir c v mode fd) (.redir t w mode fd)
  | pipe {c c' : Cmd V} {t t' : Cmd W} (h : Rel R c t) (h' : Rel R c' t') :
      Rel R (.pipe c c') (.pipe t t')
  | list {c c' : Cmd V} {t t' : Cmd W} (h : Rel R c t) (h' : Rel R c' t') :
      Rel R (.list c c') (.list t t')
  | back {c : Cmd V} {t : Cmd W} (h : Rel R c t) : Rel R (.back c) (.back t)

lemma Rel.store {c : Cmd V} {t : Cmd W} {v : V} {w : W} (h : Rel R c t) (hw : R v w) :
    Rel R (c.store v) (t.store w) := by
  induction h with
  | exec h => exact .exec (List.rel_append h (.cons hw .nil))
  | redir _ hv ih => exact .redir ih hv
  | pipe h h' => exact .pipe h h'
  | list h h' => exact .list h h'
  | back h => exact .back h

lemma exists_mem_of_forall2 {vs : List V} {ws : List W} (h : List.Forall₂ R vs ws) :
    ∀ v ∈ vs, ∃ w ∈ ws, R v w := by
  induction h with
  | nil => exact fun _ hv => absurd hv List.not_mem_nil
  | cons hw _ ih =>
    intro v hv
    rcases List.mem_cons.1 hv with rfl | hv
    · exact ⟨_, List.mem_cons_self, hw⟩
    · obtain ⟨w, hmem, hw⟩ := ih v hv
      exact ⟨w, List.mem_cons_of_mem _ hmem, hw⟩

lemma Rel.exists_of_mem {c : Cmd V} {t : Cmd W} (h : Rel R c t) :
    ∀ v ∈ c.words, ∃ w ∈ t.words, R v w := by
  induction h with
  | exec h => exact exists_mem_of_forall2 h
  | redir _ hw ih =>
    intro v hv
    rcases List.mem_cons.1 hv with rfl | hv
    · exact ⟨_, List.mem_cons_self, hw⟩
    · obtain ⟨w, hmem, hw⟩ := ih v hv
      exact ⟨w, List.mem_cons_of_mem _ hmem, hw⟩
  | pipe _ _ ih ih' | list _ _ ih ih' =>
    intro v hv
    rcases List.mem_append.1 hv with hv | hv
    · obtain ⟨w, hmem, hw⟩ := ih v hv
      exact ⟨w, List.mem_append_left _ hmem, hw⟩
    · obtain ⟨w, hmem, hw⟩ := ih' v hv
      exact ⟨w, List.mem_append_right _ hmem, hw⟩
  | back _ ih => exact ih

/-- A function that follows the relation turns one tree into the other. -/
lemma Rel.map_eq {f : V → W} {c : Cmd V} {t : Cmd W} (h : Rel R c t)
    (hf : ∀ v ∈ c.words, ∀ w, R v w → f v = w) : c.map f = t := by
  induction h with
  | exec h =>
    rw [map]
    congr 1
    induction h with
    | nil => rfl
    | cons hw _ ih =>
      rw [List.map_cons, hf _ List.mem_cons_self _ hw,
        ih fun v hv => hf v (List.mem_cons_of_mem _ hv)]
  | redir _ hw ih =>
    rw [map, ih fun v hv => hf v (List.mem_cons_of_mem _ hv), hf _ List.mem_cons_self _ hw]
  | pipe _ _ ih ih' | list _ _ ih ih' =>
    rw [map, ih fun v hv => hf v (List.mem_append_left _ hv),
      ih' fun v hv => hf v (List.mem_append_right _ hv)]
  | back _ ih => rw [map, ih hf]

end Cmd

/-- An argument goes under the redirections that came before it. -/
lemma store_foldl_wrap (rs : List Redir) (w : List UInt8) (c : Cmd (List UInt8)) :
    (rs.foldl Redir.wrap c).store w = rs.foldl Redir.wrap (c.store w) := by
  induction rs generalizing c with
  | nil => rfl
  | cons r rs ih => exact ih (Redir.wrap c r)

end Xv7.Sh
