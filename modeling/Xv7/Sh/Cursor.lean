import Xv7.Sh.Grammar

/-!
# The cursor of the parser

`At buf s ts` says that the tokens `ts` are left at the cursor `s`.  The parser looks at its input only
through `peek` and `gettoken`, and the two lemmas `At.peek_eq` and `At.gettoken` say what these do in
terms of the tokens that are left.
-/

namespace Xv7.Sh

/-! ## Scanning -/

section Scan

variable {p : UInt8 → Bool} {buf l : List UInt8} {s : ℕ} {c : UInt8}

lemma drop_scan (p : UInt8 → Bool) (buf : List UInt8) (s : ℕ) :
    buf.drop (scan p buf s) = (buf.drop s).dropWhile p := by
  have hsplit := List.takeWhile_append_dropWhile (p := p) (l := buf.drop s)
  rw [scan, ← List.drop_drop]
  nth_rewrite 2 [← hsplit]
  exact List.drop_left

lemma scan_le (p : UInt8 → Bool) (h : s ≤ buf.length) : scan p buf s ≤ buf.length := by
  have hle := (List.takeWhile_sublist p (l := buf.drop s)).length_le
  rw [List.length_drop] at hle
  rw [scan]
  omega

lemma byteAt_of_drop (h : buf.drop s = c :: l) : byteAt buf s = c := by
  have hget := congrArg (fun l => l.getD 0 0) h
  simpa [byteAt, List.getD_eq_getElem?_getD] using hget

lemma byteAt_of_drop_nil (h : buf.drop s = []) : byteAt buf s = 0 := by
  rw [byteAt, List.getD_eq_default]
  exact List.drop_eq_nil_iff.1 h

lemma byteAt_succ (h : buf.drop s = c :: l) : byteAt buf (s + 1) = l.head?.getD 0 := by
  have hdrop : buf.drop (s + 1) = l := by rw [← List.drop_drop, h]; rfl
  cases l with
  | nil => exact byteAt_of_drop_nil hdrop
  | cons d l => exact byteAt_of_drop hdrop

lemma drop_add_of_drop (n : ℕ) (h : buf.drop s = l) : buf.drop (s + n) = l.drop n := by
  rw [← List.drop_drop, h]

lemma lt_length_of_drop (h : buf.drop s = c :: l) : s < buf.length := by
  by_contra hge
  rw [List.drop_eq_nil_iff.2 (Nat.le_of_not_lt hge)] at h
  cases h

end Scan

/-! ## Lexing -/

lemma lex_length_le (l : List UInt8) : (lex l).length ≤ l.length := by
  fun_induction lex l with
  | case1 => exact le_rfl
  | case2 c cs _ ih => exact ih.trans (Nat.le_succ _)
  | case9 cs =>
    rename_i ih
    have htail := List.length_tail (l := cs)
    simp only [List.length_cons]
    omega
  | case11 c cs =>
    rename_i ih
    have hdrop := (List.dropWhile_sublist isWord (l := cs)).length_le
    simp only [List.length_cons]
    omega
  | _ => simpa only [List.length_cons, Nat.add_le_add_iff_right]

lemma lex_dropWhile_isWhite (l : List UInt8) : lex (l.dropWhile isWhite) = lex l := by
  induction l with
  | nil => rfl
  | cons c cs ih =>
    rw [List.dropWhile_cons]
    split
    next h => rw [ih, lex, if_pos h]
    next => rfl

/-! ## The tokens that are left -/

/-- The tokens `ts` are left at the cursor `s`. -/
structure At (buf : List UInt8) (s : ℕ) (ts : List Token) : Prop where
  le : s ≤ buf.length
  lex_eq : lex (buf.drop s) = ts

/-- The pointers of a word: a maximal run of word bytes. -/
structure Reads (buf : List UInt8) (p : Ptr) (w : List UInt8) : Prop where
  le : p.1 ≤ buf.length
  run : w = (buf.drop p.1).takeWhile isWord
  eq_end : p.2 = p.1 + w.length

/-- What `gettoken` returns for a token. -/
def Token.code : Token → UInt8
  | .word _ => byte 'a'
  | .redir .lt => byte '<'
  | .redir .gt => byte '>'
  | .redir .gtgt => byte '+'
  | .bar => byte '|'
  | .amp => byte '&'
  | .semi => byte ';'
  | .lpar => byte '('
  | .rpar => byte ')'

/-- The symbol that a token starts with. -/
def Token.first : Token → Option UInt8
  | .word _ => none
  | .redir .lt => some (byte '<')
  | .redir .gt => some (byte '>')
  | .redir .gtgt => some (byte '>')
  | .bar => some (byte '|')
  | .amp => some (byte '&')
  | .semi => some (byte ';')
  | .lpar => some (byte '(')
  | .rpar => some (byte ')')

/-- The next token starts with one of the symbols. -/
def starts (toks : List UInt8) (ts : List Token) : Bool :=
  (ts.head?.bind Token.first).any toks.contains

/-- What `gettoken` does where the token `t` is next, with `ts` after it. -/
structure Got (buf : List UInt8) (t : Token) (ts : List Token) (tok : Tok) : Prop where
  ret : tok.ret = t.code
  rest : At buf tok.s ts
  reads : ∀ w, t = .word w → Reads buf (tok.q, tok.eq) w

section At

variable {buf : List UInt8} {s : ℕ} {t : Token} {ts : List Token}

lemma at_zero (buf : List UInt8) : At buf 0 (lex buf) := ⟨Nat.zero_le _, rfl⟩

/-- There is enough fuel for a loop over the tokens. -/
lemma At.length_le (h : At buf s ts) : ts.length ≤ buf.length := by
  have hlen := lex_length_le (buf.drop s)
  rw [h.lex_eq, List.length_drop] at hlen
  omega

lemma At.skip (h : At buf s ts) : At buf (scan isWhite buf s) ts :=
  ⟨scan_le _ h.le, by rw [drop_scan, lex_dropWhile_isWhite, h.lex_eq]⟩

/-- Behind the whitespace stands the end or a byte that is not white. -/
lemma drop_skip (buf : List UInt8) (s : ℕ) :
    buf.drop (scan isWhite buf s) = [] ∨
      ∃ c l, buf.drop (scan isWhite buf s) = c :: l ∧ isWhite c = false := by
  rw [drop_scan]
  cases h : (buf.drop s).dropWhile isWhite with
  | nil => exact .inl rfl
  | cons c l =>
    refine .inr ⟨c, l, rfl, ?_⟩
    have hne : (buf.drop s).dropWhile isWhite ≠ [] := by simp [h]
    have hhead := List.head_dropWhile_not isWhite hne
    simpa [h] using hhead

/-- The end of a token, and the whitespace behind it. -/
lemma at_skip_of_drop {c : UInt8} {l : List UInt8} (n : ℕ) (hd : buf.drop s = c :: l)
    (hn : n ≤ l.length + 1) : At buf (scan isWhite buf (s + n)) (lex ((c :: l).drop n)) := by
  have hlen := congrArg List.length hd
  rw [List.length_drop, List.length_cons] at hlen
  exact At.skip ⟨by omega, by rw [drop_add_of_drop n hd]⟩

/-- The symbol of the first token is the first byte. -/
lemma lex_first {c : UInt8} (l : List UInt8) (hc : isWhite c = false) :
    (lex (c :: l)).head?.bind Token.first = if c ∈ symbols then some c else none := by
  rw [lex, if_neg (by simp [hc])]
  split_ifs <;> simp_all [Token.first]

lemma At.peek_eq (h0 : 0 ∉ buf) (toks : List UInt8) (h : At buf s ts)
    (htoks : ∀ c ∈ toks, c ∈ symbols) :
    peek buf s toks = (starts toks ts, scan isWhite buf s) := by
  have hlex := h.skip.lex_eq
  rcases drop_skip buf s with hd | ⟨c, l, hd, hc⟩
  · rw [hd, lex] at hlex
    simp [peek, byteAt_of_drop_nil hd, ← hlex, starts]
  · have hne : c ≠ 0 := by
      rintro rfl
      exact h0 (List.mem_of_mem_drop (hd ▸ List.mem_cons_self))
    rw [hd] at hlex
    have hfirst := lex_first l hc
    simp only [peek, byteAt_of_drop hd, starts, ← hlex, hfirst]
    by_cases hsym : c ∈ symbols
    · simp [hsym, hne]
    · have hno : c ∉ toks := fun hmem => hsym (htoks c hmem)
      simp [hsym, hno]

/-- At the end `gettoken` returns 0. -/
lemma At.gettoken_nil (h : At buf s []) :
    (gettoken buf s).ret = 0 ∧ At buf (gettoken buf s).s [] := by
  have hlex := h.skip.lex_eq
  rcases drop_skip buf s with hd | ⟨c, l, hd, hc⟩
  · have hskip := h.skip.skip
    simp only [gettoken, byteAt_of_drop_nil hd, if_true, true_and]
    exact hskip
  · rw [hd, lex, if_neg (by simp [hc])] at hlex
    split_ifs at hlex

section Symbol

variable {c : UInt8} {l : List UInt8}

/-- A token of one symbol. -/
lemma got_symbol (hd : buf.drop (scan isWhite buf s) = c :: l) (ht : ∀ w, t ≠ .word w)
    (hcode : t.code = c) (hne : c ≠ 0)
    (hc : c = byte '|' ∨ c = byte '(' ∨ c = byte ')' ∨ c = byte ';' ∨ c = byte '&' ∨ c = byte '<') :
    Got buf t (lex l) (gettoken buf s) := by
  have hrest := at_skip_of_drop 1 hd (Nat.succ_le_succ (Nat.zero_le _))
  have hget : gettoken buf s = ⟨c, scan isWhite buf s, scan isWhite buf s + 1,
      scan isWhite buf (scan isWhite buf s + 1)⟩ := by
    simp only [gettoken, byteAt_of_drop hd, if_neg hne, if_pos hc]
  rw [hget]
  exact ⟨hcode.symm, hrest, fun w hw => absurd hw (ht w)⟩

lemma got_gtgt (hd : buf.drop (scan isWhite buf s) = byte '>' :: l)
    (hl : l.head? = some (byte '>')) :
    Got buf (.redir .gtgt) (lex l.tail) (gettoken buf s) := by
  obtain ⟨l, rfl⟩ := List.head?_eq_some_iff.1 hl
  have hrest := at_skip_of_drop 2 hd (by simp)
  have hget : gettoken buf s = ⟨byte '+', scan isWhite buf s, scan isWhite buf s + 2,
      scan isWhite buf (scan isWhite buf s + 2)⟩ := by
    simp only [gettoken, byteAt_of_drop hd, byteAt_succ hd, List.head?_cons, Option.getD_some]
    rw [if_neg (by decide), if_neg (by decide), if_pos trivial, if_pos trivial]
  rw [hget]
  exact ⟨rfl, hrest, fun w hw => by cases hw⟩

lemma got_gt (hd : buf.drop (scan isWhite buf s) = byte '>' :: l)
    (hl : l.head? ≠ some (byte '>')) :
    Got buf (.redir .gt) (lex l) (gettoken buf s) := by
  have hrest := at_skip_of_drop 1 hd (Nat.succ_le_succ (Nat.zero_le _))
  have hnext : l.head?.getD 0 ≠ byte '>' := by
    cases l with
    | nil => decide
    | cons d l => simpa using hl
  have hget : gettoken buf s = ⟨byte '>', scan isWhite buf s, scan isWhite buf s + 1,
      scan isWhite buf (scan isWhite buf s + 1)⟩ := by
    simp only [gettoken, byteAt_of_drop hd, byteAt_succ hd, if_neg hnext]
    rw [if_neg (by decide), if_neg (by decide), if_pos trivial]
  rw [hget]
  exact ⟨rfl, hrest, fun w hw => by cases hw⟩

lemma got_word (hd : buf.drop (scan isWhite buf s) = c :: l) (hne : c ≠ 0)
    (hword : isWord c = true) :
    Got buf (.word (c :: l.takeWhile isWord)) (lex (l.dropWhile isWord)) (gettoken buf s) := by
  have hsym : c ∉ symbols := by
    intro hmem
    simp [isWord, hmem] at hword
  have hrun : (buf.drop (scan isWhite buf s)).takeWhile isWord = c :: l.takeWhile isWord := by
    rw [hd, List.takeWhile_cons_of_pos hword]
  have hle : scan isWhite buf s ≤ buf.length := (lt_length_of_drop hd).le
  have hget : gettoken buf s = ⟨byte 'a', scan isWhite buf s, scan isWord buf (scan isWhite buf s),
      scan isWhite buf (scan isWord buf (scan isWhite buf s))⟩ := by
    simp only [gettoken, byteAt_of_drop hd, if_neg hne]
    rw [if_neg, if_neg]
    · rintro rfl
      exact hsym (by decide)
    · rintro (rfl | rfl | rfl | rfl | rfl | rfl) <;> exact hsym (by decide)
  rw [hget]
  refine ⟨rfl, At.skip ⟨scan_le _ hle, ?_⟩, ?_⟩
  · rw [drop_scan, hd, List.dropWhile_cons_of_pos hword]
  · rintro w ⟨⟩
    exact ⟨hle, hrun.symm, congrArg (fun w => scan isWhite buf s + List.length w) hrun⟩

end Symbol

/-- A byte that starts no other token starts a word. -/
lemma isWord_of_not_mem {c : UInt8} (hc : isWhite c = false) (hsym : c ∉ symbols) :
    isWord c = true := by
  have hsym' : symbols.contains c = false := by simpa using hsym
  rw [isWord, show whitespace.contains c = false from hc, hsym']
  rfl

lemma At.gettoken (h0 : 0 ∉ buf) (h : At buf s (t :: ts)) : Got buf t ts (gettoken buf s) := by
  have hlex := h.skip.lex_eq
  rcases drop_skip buf s with hd | ⟨c, l, hd, hc⟩
  · rw [hd, lex] at hlex
    cases hlex
  have hne : c ≠ 0 := by
    rintro rfl
    exact h0 (List.mem_of_mem_drop (hd ▸ List.mem_cons_self))
  rw [hd, lex, if_neg (by simp [hc])] at hlex
  -- the cases of `lex`, in its order
  split_ifs at hlex with h1 h2 h3 h4 h5 h6 h7 h8 <;> obtain ⟨rfl, rfl⟩ := List.cons.inj hlex
  · exact got_symbol hd (by simp) h1.symm hne (by simp [h1])
  · exact got_symbol hd (by simp) h2.symm hne (by simp [h2])
  · exact got_symbol hd (by simp) h3.symm hne (by simp [h3])
  · exact got_symbol hd (by simp) h4.symm hne (by simp [h4])
  · exact got_symbol hd (by simp) h5.symm hne (by simp [h5])
  · exact got_symbol hd (by simp) h6.symm hne (by simp [h6])
  · exact got_gtgt (h7 ▸ hd) h8
  · exact got_gt (h7 ▸ hd) h8
  · refine got_word hd hne (isWord_of_not_mem hc ?_)
    simp [h1, h2, h3, h4, h5, h6, h7]

end At

end Xv7.Sh
