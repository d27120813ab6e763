import Xv7.Sh.Cursor

/-!
# The parser accepts exactly its grammar

Every function of the parser is described twice, in terms of the tokens that are left at its cursor.
With enough fuel it either panics or returns a tree that the grammar derives from the tokens it has
consumed (`Parsed`); and where the grammar derives a tree from tokens that are followed by what may
follow them, it returns that tree.
-/

namespace Xv7.Sh

/-! ## Results of the parser -/

/-- The function panics, or returns what `Q` says. -/
def Parsed (Q : Cmd Ptr → ℕ → Prop) : Except Stop (Cmd Ptr × ℕ) → Prop
  | .ok (c, s) => Q c s
  | .error e => ∃ p, e = .panic p

lemma Parsed.bind {Q Q' : Cmd Ptr → ℕ → Prop} {x : Except Stop (Cmd Ptr × ℕ)}
    {f : Cmd Ptr × ℕ → Except Stop (Cmd Ptr × ℕ)} (hx : Parsed Q x)
    (hf : ∀ c s, Q c s → Parsed Q' (f (c, s))) : Parsed Q' (x >>= f) := by
  match x with
  | .ok (c, s) => exact hf c s hx
  | .error e => exact hx

lemma Parsed.imp {Q Q' : Cmd Ptr → ℕ → Prop} {x : Except Stop (Cmd Ptr × ℕ)} (hx : Parsed Q x)
    (h : ∀ c s, Q c s → Q' c s) : Parsed Q' x := by
  match x with
  | .ok (c, s) => exact h c s hx
  | .error e => exact hx

/-- The function returns the tree `t`, with the tokens `ts` left. -/
def Returns (buf : List UInt8) (t : Cmd (List UInt8)) (ts : List Token)
    (x : Except Stop (Cmd Ptr × ℕ)) : Prop :=
  ∃ c s, x = .ok (c, s) ∧ c.Rel (Reads buf) t ∧ At buf s ts

lemma Returns.bind {buf : List UInt8} {t t' : Cmd (List UInt8)} {ts ts' : List Token}
    {x : Except Stop (Cmd Ptr × ℕ)} {f : Cmd Ptr × ℕ → Except Stop (Cmd Ptr × ℕ)}
    (hx : Returns buf t ts x)
    (hf : ∀ c s, c.Rel (Reads buf) t → At buf s ts → Returns buf t' ts' (f (c, s))) :
    Returns buf t' ts' (x >>= f) := by
  obtain ⟨c, s, rfl, hc, hs⟩ := hx
  exact hf c s hc hs

/-! ## The next token -/

section Next

variable {ts : List Token}

lemma starts_redir : starts [byte '<', byte '>'] ts = true ↔ ∃ op ts', ts = .redir op :: ts' := by
  rcases ts with _ | ⟨t, ts⟩
  · simp [starts]
  · rcases t with _ | (_ | _ | _) | _ | _ | _ | _ | _ <;> simp +decide [starts, Token.first]

/-- A symbol that stands alone is the start of one token only. -/
lemma starts_code {t : Token} (hword : ∀ w, t ≠ .word w) (hredir : ∀ op, t ≠ .redir op) :
    starts [t.code] ts = true ↔ ∃ ts', ts = t :: ts' := by
  rcases ts with _ | ⟨t', ts⟩
  · simp [starts]
  · rcases t with w | op | _ | _ | _ | _ | _
    · exact absurd rfl (hword w)
    · exact absurd rfl (hredir op)
    all_goals
      rcases t' with _ | (_ | _ | _) | _ | _ | _ | _ | _ <;>
        simp +decide [starts, Token.first, Token.code]

lemma starts_amp : starts [byte '&'] ts = true ↔ ∃ ts', ts = .amp :: ts' :=
  starts_code (t := .amp) (by simp) (by simp)

lemma starts_semi : starts [byte ';'] ts = true ↔ ∃ ts', ts = .semi :: ts' :=
  starts_code (t := .semi) (by simp) (by simp)

lemma starts_bar : starts [byte '|'] ts = true ↔ ∃ ts', ts = .bar :: ts' :=
  starts_code (t := .bar) (by simp) (by simp)

lemma starts_lpar : starts [byte '('] ts = true ↔ ∃ ts', ts = .lpar :: ts' :=
  starts_code (t := .lpar) (by simp) (by simp)

lemma starts_rpar : starts [byte ')'] ts = true ↔ ∃ ts', ts = .rpar :: ts' :=
  starts_code (t := .rpar) (by simp) (by simp)

lemma code_eq_word {t : Token} : t.code = byte 'a' ↔ ∃ w, t = .word w := by
  rcases t with _ | (_ | _ | _) | _ | _ | _ | _ | _ <;> simp +decide [Token.code]

lemma code_ne_zero (t : Token) : t.code ≠ 0 := by
  rcases t with _ | (_ | _ | _) | _ | _ | _ | _ | _ <;> exact of_decide_eq_true rfl

end Next

section Loops

variable {buf : List UInt8} {c : Cmd Ptr} {t : Cmd (List UInt8)} {s : ℕ} {ts ts' : List Token}

lemma rel_redircmd {op : Op} {file : Ptr} {w : List UInt8} (hc : c.Rel (Reads buf) t)
    (hw : Reads buf file w) :
    (redircmd (Token.redir op).code c file).Rel (Reads buf) (Redir.wrap t ⟨op, w⟩) := by
  cases op <;> exact .redir hc hw

/-- One round of `parseredirs`. -/
lemma parseredirs_redir (h0 : 0 ∉ buf) {n : ℕ} {op : Op} (h : At buf s (.redir op :: ts)) :
    ∃ s', At buf s' ts ∧ parseredirs buf (n + 1) c s =
      if (gettoken buf s').ret ≠ byte 'a' then .error (.panic .missingFile)
      else parseredirs buf n (redircmd (Token.redir op).code c
        ((gettoken buf s').q, (gettoken buf s').eq)) (gettoken buf s').s := by
  have hgot := h.skip.gettoken h0
  refine ⟨_, hgot.rest, ?_⟩
  rw [parseredirs, h.peek_eq h0 [byte '<', byte '>'] (by simp)]
  simp only [starts_redir.2 ⟨op, ts, rfl⟩, Bool.true_eq_false, if_false, hgot.ret]

lemma parseredirs_done (h0 : 0 ∉ buf) (n : ℕ) (h : At buf s ts)
    (hno : starts [byte '<', byte '>'] ts = false) :
    parseredirs buf (n + 1) c s = .ok (c, scan isWhite buf s) := by
  rw [parseredirs, h.peek_eq h0 [byte '<', byte '>'] (by simp)]
  simp only [hno, if_true]

lemma parseredirs_parsed (h0 : 0 ∉ buf) {n : ℕ} (hc : c.Rel (Reads buf) t) (h : At buf s ts)
    (hn : ts.length < n) :
    Parsed (fun c' s' => ∃ rs ts', ts = redirTokens rs ++ ts' ∧
      c'.Rel (Reads buf) (rs.foldl Redir.wrap t) ∧ At buf s' ts') (parseredirs buf n c s) := by
  induction n generalizing c t s ts with
  | zero => omega
  | succ n ih =>
    cases hmore : starts [byte '<', byte '>'] ts with
    | false =>
      rw [parseredirs_done h0 n h hmore]
      exact ⟨[], ts, rfl, hc, h.skip⟩
    | true =>
      obtain ⟨op, ts, rfl⟩ := starts_redir.1 hmore
      obtain ⟨s', hs', heq⟩ := parseredirs_redir (c := c) (n := n) h0 h
      rw [heq]
      split_ifs with hword
      · exact ⟨_, rfl⟩
      · -- the file of the redirection is a word
        rcases ts with _ | ⟨tok, ts⟩
        · exact absurd ((At.gettoken_nil hs').1.symm.trans (not_not.1 hword)) (by decide)
        have hgot := hs'.gettoken h0
        obtain ⟨w, rfl⟩ := code_eq_word.1 (hgot.ret.symm.trans (not_not.1 hword))
        have hlen : ts.length < n := by simp only [List.length_cons] at hn; omega
        refine (ih (rel_redircmd hc (hgot.reads w rfl)) hgot.rest hlen).imp ?_
        rintro c' s'' ⟨rs, ts', rfl, hc', hs''⟩
        exact ⟨⟨op, w⟩ :: rs, ts', rfl, hc', hs''⟩

lemma parseredirs_returns (h0 : 0 ∉ buf) {n : ℕ} (rs : List Redir) (hc : c.Rel (Reads buf) t)
    (h : At buf s (redirTokens rs ++ ts)) (hno : starts [byte '<', byte '>'] ts = false)
    (hn : (redirTokens rs ++ ts).length < n) :
    Returns buf (rs.foldl Redir.wrap t) ts (parseredirs buf n c s) := by
  induction rs generalizing c t s n with
  | nil =>
    obtain ⟨n, rfl⟩ := Nat.exists_eq_succ_of_ne_zero (Nat.ne_zero_of_lt hn)
    exact ⟨c, _, parseredirs_done h0 n h hno, hc, h.skip⟩
  | cons r rs ih =>
    obtain ⟨n, rfl⟩ := Nat.exists_eq_succ_of_ne_zero (Nat.ne_zero_of_lt hn)
    have hrs : redirTokens (r :: rs) ++ ts =
        .redir r.op :: .word r.file :: (redirTokens rs ++ ts) := rfl
    rw [hrs] at h hn
    obtain ⟨s', hs', heq⟩ := parseredirs_redir (c := c) (n := n) h0 h
    have hgot := hs'.gettoken h0
    rw [heq, if_neg (by rw [hgot.ret]; exact not_not.2 rfl)]
    refine ih (rel_redircmd hc (hgot.reads _ rfl)) hgot.rest ?_
    simp only [List.length_cons] at hn
    omega

/-! ## Arguments -/

/-- `parseexec` has seen the redirections `rs` and the words `ws`. -/
def seen (rs : List Redir) (ws : List (List UInt8)) : Cmd (List UInt8) :=
  rs.foldl Redir.wrap (.exec ws)

/-- A word of `parseexec`, and the redirections behind it. -/
lemma store_seen (rs rs' : List Redir) (ws : List (List UInt8)) (w : List UInt8) :
    rs'.foldl Redir.wrap ((seen rs ws).store w) = seen (rs ++ rs') (ws ++ [w]) := by
  rw [seen, store_foldl_wrap, seen, List.foldl_append]
  rfl

/-- The loop of `parseexec` ends before one of its symbols, or at the end. -/
lemma parseargs_done (h0 : 0 ∉ buf) {argc : ℕ} (n : ℕ) (hargc : argc < MAXARGS)
    (h : At buf s ts)
    (hstop : starts [byte '|', byte ')', byte '&', byte ';'] ts = true ∨ ts = []) :
    ∃ s', parseargs buf (n + 1) argc c s = .ok (c, s') ∧ At buf s' ts := by
  have hfin : ∀ s', finish argc c s' = .ok (c, s') := fun s' => if_neg (Nat.not_le.2 hargc)
  rw [parseargs, h.peek_eq h0 [byte '|', byte ')', byte '&', byte ';'] (by simp)]
  cases hs : starts [byte '|', byte ')', byte '&', byte ';'] ts with
  | true => exact ⟨_, hfin _, h.skip⟩
  | false =>
    obtain rfl : ts = [] := by simpa [hs] using hstop
    have hnil := h.skip.gettoken_nil
    refine ⟨_, ?_, hnil.2⟩
    simp only [Bool.false_eq_true, if_false, hnil.1, if_true, hfin]

/-- One round of the loop of `parseexec`. -/
lemma parseargs_next (h0 : 0 ∉ buf) {argc n : ℕ} {tok : Token} (hargc : argc < MAXARGS)
    (h : At buf s (tok :: ts))
    (hgo : starts [byte '|', byte ')', byte '&', byte ';'] (tok :: ts) = false) :
    ∃ got, Got buf tok ts got ∧ parseargs buf (n + 1) argc c s =
      if tok.code ≠ byte 'a' then .error (.panic .badSyntax)
      else if MAXARGS ≤ argc + 1 then .error (.panic .tooManyArgs)
      else parseredirs buf (buf.length + 1) (c.store (got.q, got.eq)) got.s >>=
        fun x => parseargs buf n (argc + 1) x.1 x.2 := by
  have hgot := h.skip.gettoken h0
  refine ⟨_, hgot, ?_⟩
  rw [parseargs, h.peek_eq h0 [byte '|', byte ')', byte '&', byte ';'] (by simp)]
  simp only [hgo, Bool.false_eq_true, if_false, hgot.ret, code_ne_zero, Nat.not_le.2 hargc]

lemma parseargs_parsed (h0 : 0 ∉ buf) {n : ℕ} {rs : List Redir} {ws : List (List UInt8)}
    (hws : ws.length < MAXARGS) (hc : c.Rel (Reads buf) (seen rs ws)) (h : At buf s ts)
    (hn : ts.length < n) :
    Parsed (fun c' s' => ∃ args ts', ts = argTokens args ++ ts' ∧
      ws.length + args.length < MAXARGS ∧
      c'.Rel (Reads buf) (seen (rs ++ args.flatMap Prod.snd) (ws ++ args.map Prod.fst)) ∧
      At buf s' ts') (parseargs buf n ws.length c s) := by
  induction n generalizing c rs ws s ts with
  | zero => omega
  | succ n ih =>
    by_cases hstop : starts [byte '|', byte ')', byte '&', byte ';'] ts = true ∨ ts = []
    · obtain ⟨s', heq, hs'⟩ := parseargs_done (c := c) h0 n hws h hstop
      rw [heq]
      exact ⟨[], ts, rfl, hws, by simpa using hc, hs'⟩
    · rw [not_or, Bool.not_eq_true] at hstop
      obtain ⟨tok, ts, rfl⟩ := List.exists_cons_of_ne_nil hstop.2
      obtain ⟨got, hgot, heq⟩ := parseargs_next (c := c) (n := n) h0 hws h hstop.1
      rw [heq]
      split_ifs with hword hmax
      · exact ⟨_, rfl⟩
      · exact ⟨_, rfl⟩
      · obtain ⟨w, rfl⟩ := code_eq_word.1 (not_not.1 hword)
        have hrel := hc.store (hgot.reads w rfl)
        have hfuel := Nat.lt_succ_of_le hgot.rest.length_le
        refine (parseredirs_parsed h0 hrel hgot.rest hfuel).bind ?_
        rintro c' s' ⟨rs', ts', rfl, hc', hs'⟩
        rw [store_seen] at hc'
        have hlen : ts'.length < n := by
          simp only [List.length_cons, List.length_append] at hn
          omega
        have hws' : (ws ++ [w]).length < MAXARGS := by
          rw [List.length_append, List.length_singleton]
          exact Nat.not_le.1 hmax
        have hrest := ih hws' hc' hs' hlen
        rw [List.length_append, List.length_singleton] at hrest
        refine hrest.imp ?_
        rintro c'' s'' ⟨args, ts'', rfl, hargs, hc'', hs''⟩
        refine ⟨(w, rs') :: args, ts'', ?_, ?_, ?_, hs''⟩
        · simp [argTokens]
        · rw [List.length_cons]
          omega
        · simpa using hc''

/-- An argument starts with a word. -/
lemma starts_argTokens {toks : List UInt8} (args : List (List UInt8 × List Redir))
    (h : starts toks ts = false) : starts toks (argTokens args ++ ts) = false := by
  cases args with
  | nil => exact h
  | cons a args => rfl

lemma parseargs_returns (h0 : 0 ∉ buf) {n : ℕ} {rs : List Redir} {ws : List (List UInt8)}
    (args : List (List UInt8 × List Redir)) (hargs : ws.length + args.length < MAXARGS)
    (hc : c.Rel (Reads buf) (seen rs ws)) (h : At buf s (argTokens args ++ ts))
    (hno : starts [byte '<', byte '>'] ts = false)
    (hstop : starts [byte '|', byte ')', byte '&', byte ';'] ts = true ∨ ts = [])
    (hn : (argTokens args ++ ts).length < n) :
    Returns buf (seen (rs ++ args.flatMap Prod.snd) (ws ++ args.map Prod.fst)) ts
      (parseargs buf n ws.length c s) := by
  induction args generalizing c rs ws s n with
  | nil =>
    obtain ⟨n, rfl⟩ := Nat.exists_eq_succ_of_ne_zero (Nat.ne_zero_of_lt hn)
    obtain ⟨s', heq, hs'⟩ := parseargs_done (c := c) h0 n hargs h hstop
    exact ⟨c, s', heq, by simpa using hc, hs'⟩
  | cons a args ih =>
    obtain ⟨n, rfl⟩ := Nat.exists_eq_succ_of_ne_zero (Nat.ne_zero_of_lt hn)
    have hsplit : argTokens (a :: args) ++ ts =
        .word a.1 :: (redirTokens a.2 ++ (argTokens args ++ ts)) := by
      simp [argTokens]
    rw [hsplit] at h hn
    rw [List.length_cons] at hargs
    have hws : ws.length < MAXARGS := by omega
    have hmax : ¬ MAXARGS ≤ ws.length + 1 := by omega
    have hcode : ¬ (Token.word a.1).code ≠ byte 'a' := not_not.2 rfl
    obtain ⟨got, hgot, heq⟩ := parseargs_next (c := c) (n := n) h0 hws h rfl
    rw [heq, if_neg hcode, if_neg hmax]
    have hfuel := Nat.lt_succ_of_le hgot.rest.length_le
    refine (parseredirs_returns h0 a.2 (hc.store (hgot.reads a.1 rfl)) hgot.rest
      (starts_argTokens args hno) hfuel).bind ?_
    intro c' s' hc' hs'
    rw [store_seen] at hc'
    have hlen : (argTokens args ++ ts).length < n := by
      simp only [List.length_cons, List.length_append] at hn ⊢
      omega
    have hargs' : (ws ++ [a.1]).length + args.length < MAXARGS := by
      rw [List.length_append, List.length_singleton]
      omega
    have hrest := ih hargs' hc' hs' hlen
    rw [List.length_append, List.length_singleton] at hrest
    simpa using hrest

/-! ## Background commands -/

lemma parseback_parsed (h0 : 0 ∉ buf) {n : ℕ} (hc : c.Rel (Reads buf) t) (h : At buf s ts)
    (hn : ts.length < n) :
    Parsed (fun c' s' => ∃ k ts', ts = List.replicate k .amp ++ ts' ∧
      c'.Rel (Reads buf) (Cmd.back^[k] t) ∧ At buf s' ts') (parseback buf n c s) := by
  induction n generalizing c t s ts with
  | zero => omega
  | succ n ih =>
    rw [parseback, h.peek_eq h0 [byte '&'] (by simp)]
    cases hmore : starts [byte '&'] ts with
    | false => exact ⟨0, ts, rfl, hc, h.skip⟩
    | true =>
      obtain ⟨ts, rfl⟩ := starts_amp.1 hmore
      have hgot := h.skip.gettoken h0
      refine (ih (.back hc) hgot.rest (Nat.lt_of_succ_lt_succ hn)).imp ?_
      rintro c' s' ⟨k, ts', rfl, hc', hs'⟩
      exact ⟨k + 1, ts', rfl, hc', hs'⟩

lemma parseback_returns (h0 : 0 ∉ buf) {n : ℕ} (k : ℕ) (hc : c.Rel (Reads buf) t)
    (h : At buf s (List.replicate k .amp ++ ts)) (hno : starts [byte '&'] ts = false)
    (hn : (List.replicate k Token.amp ++ ts).length < n) :
    Returns buf (Cmd.back^[k] t) ts (parseback buf n c s) := by
  induction k generalizing c t s n with
  | zero =>
    obtain ⟨n, rfl⟩ := Nat.exists_eq_succ_of_ne_zero (Nat.ne_zero_of_lt hn)
    rw [List.replicate_zero, List.nil_append] at h
    rw [parseback, h.peek_eq h0 [byte '&'] (by simp), hno]
    exact ⟨c, _, rfl, hc, h.skip⟩
  | succ k ih =>
    obtain ⟨n, rfl⟩ := Nat.exists_eq_succ_of_ne_zero (Nat.ne_zero_of_lt hn)
    rw [List.replicate_succ, List.cons_append] at h hn
    have hgot := h.skip.gettoken h0
    rw [parseback, h.peek_eq h0 [byte '&'] (by simp), starts_amp.2 ⟨_, rfl⟩]
    exact ih (.back hc) hgot.rest (Nat.lt_of_succ_lt_succ hn)

end Loops

/-! ## The recursive functions -/

/-- The function of a nonterminal. -/
def NonTerminal.parse (buf : List UInt8) : NonTerminal → ℕ → ℕ → Except Stop (Cmd Ptr × ℕ)
  | .line => parseline buf
  | .pipe => parsepipe buf
  | .exec => parseexec buf

/-- The fuel it needs for a number of tokens. -/
def NonTerminal.fuel : NonTerminal → ℕ → ℕ
  | .line, k => 4 * k + 4
  | .pipe, k => 4 * k + 3
  | .exec, k => 4 * k + 2

section Sound

variable {buf : List UInt8} {n s : ℕ} {ts : List Token}

/-- A tree that the nonterminal derives from the tokens before the new cursor. -/
def Derived (buf : List UInt8) (nt : NonTerminal) (ts : List Token) (c : Cmd Ptr) (s : ℕ) : Prop :=
  ∃ t ts₁ ts₂, ts = ts₁ ++ ts₂ ∧ Derives nt ts₁ t ∧ c.Rel (Reads buf) t ∧ At buf s ts₂

/-- With the fuel `n` the function of every nonterminal panics or derives its tree. -/
def Sound (buf : List UInt8) (n : ℕ) : Prop :=
  ∀ nt s ts, At buf s ts → nt.fuel ts.length ≤ n → Parsed (Derived buf nt ts) (nt.parse buf n s)

lemma parseline_sound (h0 : 0 ∉ buf) (hn : Sound buf n) (h : At buf s ts)
    (hfuel : 4 * ts.length + 4 ≤ n + 1) :
    Parsed (Derived buf .line ts) (parseline buf (n + 1) s) := by
  rw [parseline]
  refine (hn .pipe s ts h (Nat.le_of_succ_le_succ hfuel)).bind ?_
  rintro c s ⟨t, ts1, ts2, rfl, ht, hc, hs⟩
  refine (parseback_parsed h0 hc hs (Nat.lt_succ_of_le hs.length_le)).bind ?_
  rintro c s ⟨k, ts3, rfl, hc, hs⟩
  simp only [hs.peek_eq h0 [byte ';'] (by simp)]
  cases hmore : starts [byte ';'] ts3 with
  | false =>
    refine ⟨_, _, ts3, ?_, .last k ht, hc, hs.skip⟩
    rw [List.append_assoc]
  | true =>
    obtain ⟨ts3, rfl⟩ := starts_semi.1 hmore
    have hgot := hs.skip.gettoken h0
    have hlen : 4 * ts3.length + 4 ≤ n := by
      simp only [List.length_append, List.length_cons] at hfuel
      omega
    refine (hn .line _ _ hgot.rest hlen).bind ?_
    rintro c' s' ⟨t', ts4, ts5, rfl, ht', hc', hs'⟩
    refine ⟨_, _, ts5, ?_, .more k ht ht', .list hc hc', hs'⟩
    simp

lemma parsepipe_sound (h0 : 0 ∉ buf) (hn : Sound buf n) (h : At buf s ts)
    (hfuel : 4 * ts.length + 3 ≤ n + 1) :
    Parsed (Derived buf .pipe ts) (parsepipe buf (n + 1) s) := by
  rw [parsepipe]
  refine (hn .exec s ts h (Nat.le_of_succ_le_succ hfuel)).bind ?_
  rintro c s ⟨t, ts1, ts2, rfl, ht, hc, hs⟩
  simp only [hs.peek_eq h0 [byte '|'] (by simp)]
  cases hmore : starts [byte '|'] ts2 with
  | false => exact ⟨_, _, ts2, rfl, .exec ht, hc, hs.skip⟩
  | true =>
    obtain ⟨ts2, rfl⟩ := starts_bar.1 hmore
    have hgot := hs.skip.gettoken h0
    have hlen : 4 * ts2.length + 3 ≤ n := by
      simp only [List.length_append, List.length_cons] at hfuel
      omega
    refine (hn .pipe _ _ hgot.rest hlen).bind ?_
    rintro c' s' ⟨t', ts3, ts4, rfl, ht', hc', hs'⟩
    refine ⟨_, _, ts4, ?_, .pipe ht ht', .pipe hc hc', hs'⟩
    simp

lemma parseblock_sound (h0 : 0 ∉ buf) (hn : Sound buf n) (h : At buf s (.lpar :: ts))
    (hfuel : 4 * ts.length + 4 ≤ n) :
    Parsed (Derived buf .exec (.lpar :: ts)) (parseblock buf (n + 1) s) := by
  have hgot := h.skip.gettoken h0
  rw [parseblock]
  simp only [h.peek_eq h0 [byte '('] (by simp), starts_lpar.2 ⟨ts, rfl⟩, Bool.true_eq_false,
    if_false]
  refine (hn .line _ _ hgot.rest hfuel).bind ?_
  rintro c s ⟨t, ts1, ts2, rfl, ht, hc, hs⟩
  simp only [hs.peek_eq h0 [byte ')'] (by simp)]
  cases hmore : starts [byte ')'] ts2 with
  | false => exact ⟨_, rfl⟩
  | true =>
    obtain ⟨ts2, rfl⟩ := starts_rpar.1 hmore
    have hgot := hs.skip.gettoken h0
    refine (parseredirs_parsed h0 hc hgot.rest (Nat.lt_succ_of_le hgot.rest.length_le)).imp ?_
    rintro c' s' ⟨rs, ts3, rfl, hc', hs'⟩
    refine ⟨_, _, ts3, ?_, .block rs ht, hc', hs'⟩
    simp

lemma parseexec_sound (h0 : 0 ∉ buf) (hn : ∀ m, m + 1 = n → Sound buf m) (h : At buf s ts)
    (hfuel : 4 * ts.length + 2 ≤ n + 1) :
    Parsed (Derived buf .exec ts) (parseexec buf (n + 1) s) := by
  rw [parseexec]
  simp only [h.peek_eq h0 [byte '('] (by simp)]
  cases hblock : starts [byte '('] ts with
  | true =>
    obtain ⟨ts, rfl⟩ := starts_lpar.1 hblock
    rw [List.length_cons] at hfuel
    obtain ⟨m, rfl⟩ : ∃ m, n = m + 1 := ⟨n - 1, by omega⟩
    exact parseblock_sound h0 (hn m rfl) h.skip (by omega)
  | false =>
    refine (parseredirs_parsed h0 (.exec .nil) h.skip (Nat.lt_succ_of_le h.length_le)).bind ?_
    rintro c s ⟨rs, ts1, rfl, hc, hs⟩
    have hargs := parseargs_parsed h0 (by decide) hc hs
      (Nat.lt_succ_of_le hs.length_le)
    refine hargs.imp ?_
    rintro c' s' ⟨args, ts2, rfl, hmax, hc', hs'⟩
    refine ⟨_, _, ts2, ?_, .simple rs args (by simpa using hmax), hc', hs'⟩
    rw [List.append_assoc]

lemma sound (h0 : 0 ∉ buf) (n : ℕ) : Sound buf n := by
  induction n using Nat.strong_induction_on with
  | _ n ih =>
    intro nt s ts h hfuel
    obtain ⟨m, rfl⟩ : ∃ m, n = m + 1 := by
      cases nt <;> exact ⟨n - 1, by simp only [NonTerminal.fuel] at hfuel; omega⟩
    cases nt with
    | line => exact parseline_sound h0 (ih m (Nat.lt_succ_self m)) h hfuel
    | pipe => exact parsepipe_sound h0 (ih m (Nat.lt_succ_self m)) h hfuel
    | exec => exact parseexec_sound h0 (fun k hk => ih k (by omega)) h hfuel

end Sound

/-! ## Trees of the grammar are found -/

/-- The tokens that may follow a nonterminal. -/
def NonTerminal.follow : NonTerminal → List Token
  | .line => [.rpar]
  | .pipe => [.rpar, .amp, .semi]
  | .exec => [.rpar, .amp, .semi, .bar]

/-- The tokens behind a nonterminal start with one that may follow it. -/
def Follows (nt : NonTerminal) (ts : List Token) : Prop := ∀ t ∈ ts.head?, t ∈ nt.follow

section Complete

variable {buf : List UInt8} {n s : ℕ} {ts : List Token} {nt : NonTerminal}

lemma Follows.mono {nt' : NonTerminal} (h : Follows nt ts) (hsub : nt.follow ⊆ nt'.follow) :
    Follows nt' ts := fun t ht => hsub (h t ht)

lemma follows_cons {t : Token} (ht : t ∈ nt.follow) : Follows nt (t :: ts) := by
  rintro t' ⟨⟩
  exact ht

/-- Tokens that may follow do not start with another symbol. -/
lemma Follows.starts_eq_false {toks : List UInt8} (h : Follows nt ts)
    (hno : ∀ t ∈ nt.follow, starts toks [t] = false) : starts toks ts = false := by
  cases ts with
  | nil => rfl
  | cons t ts => exact hno t (h t rfl)

lemma Follows.stops (h : Follows .exec ts) :
    starts [byte '|', byte ')', byte '&', byte ';'] ts = true ∨ ts = [] := by
  cases ts with
  | nil => exact .inr rfl
  | cons t ts =>
    have ht := h t rfl
    simp only [NonTerminal.follow, List.mem_cons, List.not_mem_nil, or_false] at ht
    rcases ht with rfl | rfl | rfl | rfl <;> exact .inl (of_decide_eq_true rfl)

/-- With enough fuel the function of the nonterminal returns the tree. -/
def Complete (buf : List UInt8) (nt : NonTerminal) (ts : List Token) (t : Cmd (List UInt8)) : Prop :=
  ∀ n s ts', Follows nt ts' → At buf s (ts ++ ts') → nt.fuel (ts ++ ts').length ≤ n →
    Returns buf t ts' (nt.parse buf n s)

lemma follows_amps (k : ℕ) (h : Follows .pipe ts) :
    Follows .pipe (List.replicate k .amp ++ ts) := by
  cases k with
  | zero => exact h
  | succ k => exact follows_cons (by simp [NonTerminal.follow])

/-- `parseline` up to its semicolon. -/
lemma parseline_back (h0 : 0 ∉ buf) {t : Cmd (List UInt8)} {ts' : List Token} (k : ℕ)
    (ht : Complete buf .pipe ts t) (hfollow : Follows .pipe ts')
    (hamp : starts [byte '&'] ts' = false)
    (h : At buf s (ts ++ (List.replicate k .amp ++ ts')))
    (hfuel : 4 * (ts ++ (List.replicate k Token.amp ++ ts')).length + 3 ≤ n) :
    ∃ c s', c.Rel (Reads buf) (Cmd.back^[k] t) ∧ At buf s' ts' ∧ parseline buf (n + 1) s =
      if starts [byte ';'] ts' = true then
        parseline buf n (gettoken buf s').s >>= fun x => .ok (.list c x.1, x.2)
      else .ok (c, s') := by
  obtain ⟨c1, s1, heq1, hc1, hs1⟩ := ht n s _ (follows_amps k hfollow) h hfuel
  obtain ⟨c2, s2, heq2, hc2, hs2⟩ :=
    parseback_returns h0 k hc1 hs1 hamp (Nat.lt_succ_of_le hs1.length_le)
  refine ⟨c2, scan isWhite buf s2, hc2, hs2.skip, ?_⟩
  rw [parseline, show parsepipe buf n s = .ok (c1, s1) from heq1]
  show (parseback buf (buf.length + 1) c1 s1 >>= _) = _
  rw [heq2]
  simp only [bind, Except.bind, hs2.peek_eq h0 [byte ';'] (by simp)]
  rfl

lemma complete_last (h0 : 0 ∉ buf) {t : Cmd (List UInt8)} (k : ℕ) (ht : Complete buf .pipe ts t) :
    Complete buf .line (ts ++ List.replicate k .amp) (Cmd.back^[k] t) := by
  intro n s ts' hfollow h hfuel
  rw [List.append_assoc] at h hfuel
  obtain ⟨n, rfl⟩ : ∃ m, n = m + 1 := ⟨n - 1, by simp only [NonTerminal.fuel] at hfuel; omega⟩
  have hamp : starts [byte '&'] ts' = false := hfollow.starts_eq_false (by simp +decide)
  have hsemi : starts [byte ';'] ts' = false := hfollow.starts_eq_false (by simp +decide)
  obtain ⟨c, s', hc, hs, heq⟩ := parseline_back h0 k ht
    (hfollow.mono (by simp [NonTerminal.follow])) hamp h (Nat.le_of_succ_le_succ hfuel)
  exact ⟨c, s', heq.trans (by simp [hsemi]), hc, hs⟩

lemma complete_more (h0 : 0 ∉ buf) {t t' : Cmd (List UInt8)} {ts2 : List Token} (k : ℕ)
    (ht : Complete buf .pipe ts t) (ht' : Complete buf .line ts2 t') :
    Complete buf .line (ts ++ List.replicate k .amp ++ .semi :: ts2)
      (.list (Cmd.back^[k] t) t') := by
  intro n s ts' hfollow h hfuel
  rw [List.append_assoc, List.append_assoc, List.cons_append] at h hfuel
  obtain ⟨n, rfl⟩ : ∃ m, n = m + 1 := ⟨n - 1, by simp only [NonTerminal.fuel] at hfuel; omega⟩
  obtain ⟨c, s', hc, hs, heq⟩ := parseline_back h0 k ht
    (follows_cons (by simp [NonTerminal.follow])) rfl h (Nat.le_of_succ_le_succ hfuel)
  have hgot := hs.gettoken h0
  have hlen : 4 * (ts2 ++ ts').length + 4 ≤ n := by
    simp only [NonTerminal.fuel, List.length_append, List.length_cons] at hfuel ⊢
    omega
  rw [NonTerminal.parse, heq, if_pos (starts_semi.2 ⟨_, rfl⟩)]
  refine (ht' n _ ts' hfollow hgot.rest hlen).bind ?_
  intro c' s'' hc' hs'
  exact ⟨_, _, rfl, .list hc hc', hs'⟩

lemma complete_exec (h0 : 0 ∉ buf) {t : Cmd (List UInt8)} (ht : Complete buf .exec ts t) :
    Complete buf .pipe ts t := by
  intro n s ts' hfollow h hfuel
  obtain ⟨n, rfl⟩ : ∃ m, n = m + 1 := ⟨n - 1, by simp only [NonTerminal.fuel] at hfuel; omega⟩
  have hbar : starts [byte '|'] ts' = false := hfollow.starts_eq_false (by simp +decide)
  rw [NonTerminal.parse, parsepipe]
  refine (ht n s ts' (hfollow.mono (by simp [NonTerminal.follow])) h
    (Nat.le_of_succ_le_succ hfuel)).bind ?_
  intro c s' hc hs
  simp only [hs.peek_eq h0 [byte '|'] (by simp), hbar]
  exact ⟨_, _, rfl, hc, hs.skip⟩

lemma complete_pipe (h0 : 0 ∉ buf) {t t' : Cmd (List UInt8)} {ts2 : List Token}
    (ht : Complete buf .exec ts t) (ht' : Complete buf .pipe ts2 t') :
    Complete buf .pipe (ts ++ .bar :: ts2) (.pipe t t') := by
  intro n s ts' hfollow h hfuel
  rw [List.append_assoc, List.cons_append] at h hfuel
  obtain ⟨n, rfl⟩ : ∃ m, n = m + 1 := ⟨n - 1, by simp only [NonTerminal.fuel] at hfuel; omega⟩
  rw [NonTerminal.parse, parsepipe]
  refine (ht n s _ (follows_cons (by simp [NonTerminal.follow])) h
    (Nat.le_of_succ_le_succ hfuel)).bind ?_
  intro c s' hc hs
  have hgot := hs.skip.gettoken h0
  have hlen : 4 * (ts2 ++ ts').length + 3 ≤ n := by
    simp only [NonTerminal.fuel, List.length_append, List.length_cons] at hfuel ⊢
    omega
  simp only [hs.peek_eq h0 [byte '|'] (by simp), starts_bar.2 ⟨_, rfl⟩, if_true]
  refine (ht' n _ ts' hfollow hgot.rest hlen).bind ?_
  intro c' s'' hc' hs'
  exact ⟨_, _, rfl, .pipe hc hc', hs'⟩

lemma complete_block (h0 : 0 ∉ buf) {t : Cmd (List UInt8)} (rs : List Redir)
    (ht : Complete buf .line ts t) :
    Complete buf .exec (.lpar :: ts ++ .rpar :: redirTokens rs) (rs.foldl Redir.wrap t) := by
  intro n s ts' hfollow h hfuel
  have hredir : starts [byte '<', byte '>'] ts' = false :=
    hfollow.starts_eq_false (by simp +decide)
  rw [List.append_assoc, List.cons_append, List.cons_append] at h hfuel
  simp only [NonTerminal.fuel, List.length_cons] at hfuel
  obtain ⟨n, rfl⟩ : ∃ m, n = m + 2 := ⟨n - 2, by omega⟩
  have hlen : 4 * (ts ++ .rpar :: (redirTokens rs ++ ts')).length + 4 ≤ n := by omega
  have hgot := h.skip.skip.gettoken h0
  rw [NonTerminal.parse, parseexec]
  simp only [h.peek_eq h0 [byte '('] (by simp), starts_lpar.2 ⟨_, rfl⟩, if_true]
  rw [parseblock]
  simp only [h.skip.peek_eq h0 [byte '('] (by simp), starts_lpar.2 ⟨_, rfl⟩, Bool.true_eq_false,
    if_false]
  refine (ht n _ _ (follows_cons (by simp [NonTerminal.follow])) hgot.rest hlen).bind ?_
  intro c s' hc hs
  have hgot' := hs.skip.gettoken h0
  simp only [hs.peek_eq h0 [byte ')'] (by simp), starts_rpar.2 ⟨_, rfl⟩, Bool.true_eq_false,
    if_false]
  exact parseredirs_returns h0 rs hc hgot'.rest hredir (Nat.lt_succ_of_le hgot'.rest.length_le)

lemma complete_simple (h0 : 0 ∉ buf) (rs : List Redir) (args : List (List UInt8 × List Redir))
    (hargs : args.length < MAXARGS) :
    Complete buf .exec (redirTokens rs ++ argTokens args)
      ((rs ++ args.flatMap Prod.snd).foldl Redir.wrap (.exec (args.map Prod.fst))) := by
  intro n s ts' hfollow h hfuel
  obtain ⟨n, rfl⟩ : ∃ m, n = m + 1 := ⟨n - 1, by simp only [NonTerminal.fuel] at hfuel; omega⟩
  rw [List.append_assoc] at h
  have hredir : starts [byte '<', byte '>'] ts' = false :=
    hfollow.starts_eq_false (by simp +decide)
  have hlpar : starts [byte '('] (redirTokens rs ++ (argTokens args ++ ts')) = false := by
    cases rs with
    | nil => exact starts_argTokens args (hfollow.starts_eq_false (by simp +decide))
    | cons r rs => rcases r with ⟨_ | _ | _, _⟩ <;> rfl
  rw [NonTerminal.parse, parseexec]
  simp only [h.peek_eq h0 [byte '('] (by simp), hlpar, Bool.false_eq_true, if_false]
  refine (parseredirs_returns h0 rs (.exec .nil) h.skip (starts_argTokens args hredir)
    (Nat.lt_succ_of_le h.length_le)).bind ?_
  intro c s' hc hs
  exact parseargs_returns h0 args (by simpa using hargs) hc hs hredir
    hfollow.stops (Nat.lt_succ_of_le hs.length_le)

lemma complete (h0 : 0 ∉ buf) {t : Cmd (List UInt8)} (h : Derives nt ts t) :
    Complete buf nt ts t := by
  induction h with
  | last k _ ih => exact complete_last h0 k ih
  | more k _ _ ih ih' => exact complete_more h0 k ih ih'
  | exec _ ih => exact complete_exec h0 ih
  | pipe _ _ ih ih' => exact complete_pipe h0 ih ih'
  | block rs _ ih => exact complete_block h0 rs ih
  | simple rs args hargs => exact complete_simple h0 rs args hargs

end Complete

/-! ## The strings of the tree -/

/-- The string that a word points to. -/
def cstr (mem : List UInt8) (p : Ptr) : List UInt8 := (mem.drop p.1).takeWhile (· ≠ 0)

section Strings

variable {buf : List UInt8}

/-- A byte is zero after `nulterminate` where a word ends, and as before elsewhere. -/
lemma getElem?_nulterminate (c : Cmd Ptr) (mem : List UInt8) (i : ℕ) :
    (nulterminate c mem)[i]? =
      if i ∈ c.words.map Prod.snd then mem[i]?.map (fun _ => 0) else mem[i]? := by
  induction c generalizing mem with
  | exec argv =>
    rw [nulterminate, Cmd.words]
    induction argv generalizing mem with
    | nil => simp
    | cons w argv ih =>
      rw [List.foldl_cons, ih, List.getElem?_set']
      by_cases hi : w.2 = i <;> by_cases hmem : i ∈ argv.map Prod.snd <;>
        cases mem[i]? <;> simp_all [eq_comm]
  | redir c file mode fd ih =>
    rw [nulterminate, Cmd.words, List.getElem?_set', ih]
    by_cases hi : file.2 = i <;> by_cases hmem : i ∈ c.words.map Prod.snd <;>
      cases mem[i]? <;> simp_all [eq_comm]
  | pipe left right ih ih' | list left right ih ih' =>
    rw [nulterminate, Cmd.words, ih', ih, List.map_append]
    by_cases hi : i ∈ left.words.map Prod.snd <;> by_cases hmem : i ∈ right.words.map Prod.snd <;>
      cases mem[i]? <;> simp_all
  | back c ih => exact ih mem

/-- A word, and what stands behind it. -/
lemma Reads.split {p : Ptr} {w : List UInt8} (h : Reads buf p w) :
    ∃ r, buf.drop p.1 = w ++ r ∧ ∀ b ∈ r.head?, isWord b = false := by
  refine ⟨(buf.drop p.1).dropWhile isWord, ?_, ?_⟩
  · rw [h.run, List.takeWhile_append_dropWhile]
  · intro b hb
    have hhead := List.head?_dropWhile_not isWord (buf.drop p.1)
    rw [Option.mem_def.1 hb] at hhead
    simpa using hhead

lemma Reads.getElem? {p : Ptr} {w : List UInt8} (h : Reads buf p w) {i : ℕ} (hi : i < w.length) :
    buf[p.1 + i]? = w[i]? := by
  obtain ⟨r, hr, _⟩ := h.split
  rw [← List.getElem?_drop, hr, List.getElem?_append_left hi]

/-- No word ends inside another. -/
lemma Reads.end_not_inside {p p' : Ptr} {w w' : List UInt8} (h : Reads buf p w)
    (h' : Reads buf p' w') {i : ℕ} (hi : i < w.length) : p.1 + i ≠ p'.2 := by
  intro hend
  obtain ⟨r, hr, hnot⟩ := h'.split
  have hword : isWord w[i] = true := by
    have hmem : w[i] ∈ (buf.drop p.1).takeWhile isWord := h.run ▸ List.getElem_mem hi
    exact List.mem_takeWhile_imp hmem
  have hget : buf[p'.1 + w'.length]? = some w[i] := by
    rw [← h'.eq_end, ← hend, h.getElem? hi, List.getElem?_eq_getElem hi]
  rw [← List.getElem?_drop, hr, List.getElem?_append_right le_rfl, Nat.sub_self,
    ← List.head?_eq_getElem?] at hget
  rw [hnot _ hget] at hword
  cases hword

/-- The strings of the tree are its words. -/
lemma cstr_nulterminate (h0 : 0 ∉ buf) {c : Cmd Ptr} (hc : ∀ p ∈ c.words, ∃ w, Reads buf p w)
    {p : Ptr} {w : List UInt8} (hp : p ∈ c.words) (hw : Reads buf p w) :
    cstr (nulterminate c (buf ++ [0])) p = w := by
  obtain ⟨r, hr, _⟩ := hw.split
  have hlen : p.1 + w.length ≤ buf.length := by
    have hle := hw.le
    have hsum := congrArg List.length hr
    rw [List.length_drop, List.length_append] at hsum
    omega
  have hin : ∀ i < w.length, (nulterminate c (buf ++ [0]))[p.1 + i]? = w[i]? := by
    intro i hi
    have hno : p.1 + i ∉ c.words.map Prod.snd := by
      rintro hmem
      obtain ⟨p', hp', hend⟩ := List.mem_map.1 hmem
      obtain ⟨w', hw'⟩ := hc p' hp'
      exact hw.end_not_inside hw' hi hend.symm
    rw [getElem?_nulterminate, if_neg hno, List.getElem?_append_left (by omega), hw.getElem? hi]
  have hend : (nulterminate c (buf ++ [0]))[p.1 + w.length]? = some 0 := by
    have hmem : p.1 + w.length ∈ c.words.map Prod.snd := hw.eq_end ▸ List.mem_map_of_mem hp
    rw [getElem?_nulterminate, if_pos hmem, List.getElem?_eq_getElem (by simp; omega)]
    rfl
  have hsplit : (nulterminate c (buf ++ [0])).drop p.1 =
      w ++ (nulterminate c (buf ++ [0])).drop (p.1 + w.length) := by
    refine List.ext_getElem? fun i => ?_
    rw [List.getElem?_drop]
    rcases Nat.lt_or_ge i w.length with hi | hi
    · rw [hin i hi, List.getElem?_append_left hi]
    · rw [List.getElem?_append_right hi, List.getElem?_drop]
      congr 1
      omega
  have hnz : ∀ b ∈ w, decide (b ≠ 0) = true := by
    intro b hb
    have hmem : b ∈ buf := List.mem_of_mem_drop (hr ▸ List.mem_append_left r hb)
    exact decide_eq_true fun hz => h0 (hz ▸ hmem)
  obtain ⟨hlt, hzero⟩ := List.getElem?_eq_some_iff.1 hend
  rw [cstr, hsplit, List.takeWhile_append_of_pos hnz, List.drop_eq_getElem_cons hlt, hzero]
  simp

end Strings

/-! ## The command line -/

section Line

variable {buf : List UInt8} {n : ℕ}

/-- `parsecmd` has read the whole input iff no token is left. -/
lemma At.skip_eq_length {s : ℕ} {ts : List Token} (h : At buf s ts) :
    scan isWhite buf s = buf.length ↔ ts = [] := by
  have hskip := h.skip
  constructor
  · intro hend
    rw [← hskip.lex_eq, hend, List.drop_length, lex]
  · rintro rfl
    rcases drop_skip buf s with hd | ⟨c, l, hd, hc⟩
    · exact le_antisymm hskip.le (List.drop_eq_nil_iff.1 hd)
    · have hlex := hskip.lex_eq
      rw [hd, lex, if_neg (by simp [hc])] at hlex
      split_ifs at hlex

lemma parsecmd_of_line {c : Cmd Ptr} {s : ℕ} {ts : List Token}
    (hline : parseline buf n 0 = .ok (c, s)) (hs : At buf s ts) :
    parsecmd n buf =
      if ts ≠ [] then .error (.panic .badSyntax) else .ok (c, nulterminate c (buf ++ [0])) := by
  rw [parsecmd, hline]
  show (if scan isWhite buf s ≠ buf.length then _ else _) = _
  simp only [ne_eq, hs.skip_eq_length]
  rfl

/-- The tree of `parsecmd`, with its words as strings. -/
lemma map_cstr (h0 : 0 ∉ buf) {c : Cmd Ptr} {t : Cmd (List UInt8)} (hc : c.Rel (Reads buf) t) :
    c.map (cstr (nulterminate c (buf ++ [0]))) = t :=
  hc.map_eq fun _ hp _ hw =>
    cstr_nulterminate h0 (fun p hp => (hc.exists_of_mem p hp).imp fun _ h => h.2) hp hw

/-- There is enough fuel for an input. -/
lemma fuel_le (hfuel : 4 * buf.length + 4 ≤ n) : NonTerminal.line.fuel (lex buf).length ≤ n := by
  have hle := lex_length_le buf
  simp only [NonTerminal.fuel]
  omega

/-- What `parsecmd` returns is a tree of the grammar, with pointers to its words. -/
lemma derives_of_parsecmd (h0 : 0 ∉ buf) (hfuel : 4 * buf.length + 4 ≤ n) {c : Cmd Ptr}
    {mem : List UInt8} (hok : parsecmd n buf = .ok (c, mem)) :
    mem = nulterminate c (buf ++ [0]) ∧ ∃ t, Derives .line (lex buf) t ∧ c.Rel (Reads buf) t := by
  have hsound := sound h0 n .line 0 (lex buf) (at_zero buf) (fuel_le hfuel)
  match hline : parseline buf n 0 with
  | .error e =>
    rw [parsecmd, hline] at hok
    cases hok
  | .ok (c', s) =>
    rw [NonTerminal.parse, hline] at hsound
    obtain ⟨t, ts1, ts2, hts, ht, hrel, hs⟩ := hsound
    rw [parsecmd_of_line hline hs] at hok
    split_ifs at hok with hnil
    cases hok
    rw [not_not.1 hnil, List.append_nil] at hts
    exact ⟨rfl, t, hts ▸ ht, hrel⟩

/-- `parsecmd` returns a tree of the grammar. -/
lemma parsecmd_of_derives (h0 : 0 ∉ buf) (hfuel : 4 * buf.length + 4 ≤ n) {t : Cmd (List UInt8)}
    (ht : Derives .line (lex buf) t) :
    ∃ c, parsecmd n buf = .ok (c, nulterminate c (buf ++ [0])) ∧ c.Rel (Reads buf) t := by
  have hat : At buf 0 (lex buf ++ []) := by
    rw [List.append_nil]
    exact at_zero buf
  obtain ⟨c, s, hline, hrel, hs⟩ :=
    complete h0 ht n 0 [] (by rintro t ⟨⟩) hat (by rw [List.append_nil]; exact fuel_le hfuel)
  exact ⟨c, parsecmd_of_line hline hs, hrel⟩

/-- Where `parsecmd` returns no tree it panics. -/
lemma panic_of_parsecmd (h0 : 0 ∉ buf) (hfuel : 4 * buf.length + 4 ≤ n) {e : Stop}
    (he : parsecmd n buf = .error e) : ∃ p, e = .panic p := by
  have hsound := sound h0 n .line 0 (lex buf) (at_zero buf) (fuel_le hfuel)
  match hline : parseline buf n 0 with
  | .error e' =>
    rw [NonTerminal.parse, hline] at hsound
    rw [parsecmd, hline] at he
    cases he
    exact hsound
  | .ok (c', s) =>
    rw [NonTerminal.parse, hline] at hsound
    obtain ⟨_, _, ts2, _, _, _, hs⟩ := hsound
    rw [parsecmd_of_line hline hs] at he
    split_ifs at he
    cases he
    exact ⟨_, rfl⟩

/-- The parser returns a tree iff the grammar derives it from the tokens of the whole input; and where
it returns none it panics. -/
theorem parsecmd_accepts_iff (input : List UInt8) (h0 : 0 ∉ input) (fuel : ℕ)
    (hfuel : 4 * input.length + 4 ≤ fuel) :
    (∀ t, (∃ c mem, parsecmd fuel input = .ok (c, mem) ∧ c.map (cstr mem) = t) ↔
      Derives .line (lex input) t) ∧
    ∀ e, parsecmd fuel input = .error e → ∃ p, e = .panic p := by
  refine ⟨fun t => ⟨?_, ?_⟩, fun e he => panic_of_parsecmd h0 hfuel he⟩
  · rintro ⟨c, mem, hok, rfl⟩
    obtain ⟨rfl, t, ht, hrel⟩ := derives_of_parsecmd h0 hfuel hok
    rwa [map_cstr h0 hrel]
  · intro ht
    obtain ⟨c, hok, hrel⟩ := parsecmd_of_derives h0 hfuel ht
    exact ⟨c, _, hok, map_cstr h0 hrel⟩

/-- The command line `ls<a|wc&`. -/
abbrev piped : List UInt8 := ['l', 's', '<', 'a', '|', 'w', 'c', '&'].map byte

theorem parsecmd_accepts_iff_piped :
    (∀ t, (∃ c mem, parsecmd 40 piped = .ok (c, mem) ∧ c.map (cstr mem) = t) ↔
      Derives .line (lex piped) t) ∧
    ∀ e, parsecmd 40 piped = .error e → ∃ p, e = .panic p :=
  parsecmd_accepts_iff piped (by decide) 40 (by decide)

example : (parsecmd 40 piped).map (fun x => x.1.map (cstr x.2)) =
    .ok (.back (.pipe (.redir (.exec [['l', 's'].map byte]) (['a'].map byte) O_RDONLY 0)
      (.exec [['w', 'c'].map byte]))) := by
  decide +kernel

end Line

end Xv7.Sh
