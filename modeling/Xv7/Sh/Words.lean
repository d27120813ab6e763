import Xv7.Sh.Correct

/-!
# The words of a command

All words of a command line stay in the one buffer that the line was read into, and `nulterminate` writes
a NUL behind each of them. No NUL ends up in another word, so the strings of the tree are the words that
`gettoken` has found; and the arguments of a command end with a null pointer.
-/

namespace Xv7.Sh

namespace Cmd

variable {V W : Type} {R : V → W → Prop}

/-- The arguments of the commands of a tree. -/
def argvs : Cmd W → List (List W)
  | .exec argv => [argv]
  | .redir cmd _ _ _ => cmd.argvs
  | .pipe left right => left.argvs ++ right.argvs
  | .list left right => left.argvs ++ right.argvs
  | .back cmd => cmd.argvs

lemma Rel.exists_length_eq {c : Cmd V} {t : Cmd W} (h : Rel R c t) :
    ∀ vs ∈ c.argvs, ∃ ws ∈ t.argvs, vs.length = ws.length := by
  induction h with
  | exec h =>
    intro vs hvs
    rw [List.mem_singleton.1 hvs]
    exact ⟨_, List.mem_singleton_self _, h.length_eq⟩
  | redir _ _ ih => exact ih
  | pipe _ _ ih ih' | list _ _ ih ih' =>
    intro vs hvs
    rcases List.mem_append.1 hvs with hvs | hvs
    · obtain ⟨ws, hws, hlen⟩ := ih vs hvs
      exact ⟨ws, List.mem_append_left _ hws, hlen⟩
    · obtain ⟨ws, hws, hlen⟩ := ih' vs hvs
      exact ⟨ws, List.mem_append_right _ hws, hlen⟩
  | back _ ih => exact ih

end Cmd

/-- `argv` of `struct execcmd`, which `memset` and the end of `parseexec` fill with null pointers behind
the arguments. -/
def argvArray (argv : List Ptr) : List (Option Ptr) :=
  argv.map some ++ List.replicate (MAXARGS - argv.length) none

/-! ## Trees of the grammar -/

lemma words_foldl_wrap (rs : List Redir) (c : Cmd (List UInt8)) {w : List UInt8}
    (hw : w ∈ (rs.foldl Redir.wrap c).words) : w ∈ c.words ∨ ∃ r ∈ rs, w = r.file := by
  induction rs generalizing c with
  | nil => exact .inl hw
  | cons r rs ih =>
    rcases ih _ hw with hw | ⟨r', hr', rfl⟩
    · rcases List.mem_cons.1 hw with rfl | hw
      · exact .inr ⟨r, List.mem_cons_self, rfl⟩
      · exact .inl hw
    · exact .inr ⟨r', List.mem_cons_of_mem _ hr', rfl⟩

lemma argvs_foldl_wrap (rs : List Redir) (c : Cmd (List UInt8)) :
    (rs.foldl Redir.wrap c).argvs = c.argvs := by
  induction rs generalizing c with
  | nil => rfl
  | cons r rs ih => exact ih (Redir.wrap c r)

lemma words_iterate_back (n : ℕ) (c : Cmd (List UInt8)) : (Cmd.back^[n] c).words = c.words := by
  induction n generalizing c with
  | zero => rfl
  | succ n ih => exact ih (.back c)

lemma argvs_iterate_back (n : ℕ) (c : Cmd (List UInt8)) : (Cmd.back^[n] c).argvs = c.argvs := by
  induction n generalizing c with
  | zero => rfl
  | succ n ih => exact ih (.back c)

lemma file_mem_redirTokens {rs : List Redir} {r : Redir} (hr : r ∈ rs) :
    Token.word r.file ∈ redirTokens rs :=
  List.mem_flatMap.2 ⟨r, hr, List.mem_cons_of_mem _ (List.mem_singleton_self _)⟩

/-- The words of a tree are words of the line. -/
lemma Derives.word_mem {nt : NonTerminal} {ts : List Token} {t : Cmd (List UInt8)}
    (h : Derives nt ts t) : ∀ w ∈ t.words, Token.word w ∈ ts := by
  induction h with
  | last n _ ih =>
    intro w hw
    rw [words_iterate_back] at hw
    exact List.mem_append_left _ (ih w hw)
  | more n _ _ ih ih' =>
    intro w hw
    rcases List.mem_append.1 hw with hw | hw
    · rw [words_iterate_back] at hw
      exact List.mem_append_left _ (List.mem_append_left _ (ih w hw))
    · exact List.mem_append_right _ (List.mem_cons_of_mem _ (ih' w hw))
  | exec _ ih => exact ih
  | pipe _ _ ih ih' =>
    intro w hw
    rcases List.mem_append.1 hw with hw | hw
    · exact List.mem_append_left _ (ih w hw)
    · exact List.mem_append_right _ (List.mem_cons_of_mem _ (ih' w hw))
  | block rs _ ih =>
    intro w hw
    rcases words_foldl_wrap rs _ hw with hw | ⟨r, hr, rfl⟩
    · exact List.mem_append_left _ (List.mem_cons_of_mem _ (ih w hw))
    · exact List.mem_append_right _ (List.mem_cons_of_mem _ (file_mem_redirTokens hr))
  | simple rs args _ =>
    intro w hw
    rcases words_foldl_wrap _ _ hw with hw | ⟨r, hr, rfl⟩
    · obtain ⟨a, ha, rfl⟩ := List.mem_map.1 hw
      exact List.mem_append_right _ (List.mem_flatMap.2 ⟨a, ha, List.mem_cons_self⟩)
    · rcases List.mem_append.1 hr with hr | hr
      · exact List.mem_append_left _ (file_mem_redirTokens hr)
      · obtain ⟨a, ha, hra⟩ := List.mem_flatMap.1 hr
        exact List.mem_append_right _
          (List.mem_flatMap.2 ⟨a, ha, List.mem_cons_of_mem _ (file_mem_redirTokens hra)⟩)

/-- A command has less than `MAXARGS` arguments. -/
lemma Derives.length_lt {nt : NonTerminal} {ts : List Token} {t : Cmd (List UInt8)}
    (h : Derives nt ts t) : ∀ argv ∈ t.argvs, argv.length < MAXARGS := by
  induction h with
  | last n _ ih =>
    rw [argvs_iterate_back]
    exact ih
  | more n _ _ ih ih' =>
    intro argv hargv
    rcases List.mem_append.1 hargv with hargv | hargv
    · rw [argvs_iterate_back] at hargv
      exact ih argv hargv
    · exact ih' argv hargv
  | exec _ ih => exact ih
  | pipe _ _ ih ih' => exact fun argv hargv => (List.mem_append.1 hargv).elim (ih argv) (ih' argv)
  | block rs _ ih =>
    rw [argvs_foldl_wrap]
    exact ih
  | simple rs args hargs =>
    intro argv hargv
    rw [argvs_foldl_wrap, Cmd.argvs, List.mem_singleton] at hargv
    rw [hargv, List.length_map]
    exact hargs

/-- A word has a byte. -/
lemma ne_nil_of_word_mem {l w : List UInt8} (h : Token.word w ∈ lex l) : w ≠ [] := by
  fun_induction lex l with
  | case1 => cases h
  | case2 c cs _ ih => exact ih h
  | case11 c cs =>
    rename_i ih
    rcases List.mem_cons.1 h with heq | h
    · cases heq
      exact List.cons_ne_nil _ _
    · exact ih h
  | _ =>
    rename_i ih
    exact ih ((List.mem_cons.1 h).resolve_left (by simp))

/-! ## The words that the tokenizer finds -/

/-- `gettoken` at the start of a word finds the word. -/
lemma Reads.gettoken {buf : List UInt8} (h0 : 0 ∉ buf) {p : Ptr} {w : List UInt8} (h : Reads buf p w)
    (hw : w ≠ []) : (gettoken buf p.1).ret = byte 'a' ∧ (gettoken buf p.1).q = p.1 ∧
      (gettoken buf p.1).eq = p.2 := by
  obtain ⟨r, hr, -⟩ := h.split
  obtain ⟨c, w, rfl⟩ := List.exists_cons_of_ne_nil hw
  have hword : isWord c = true := by
    have hmem : c ∈ (buf.drop p.1).takeWhile isWord := h.run ▸ List.mem_cons_self
    exact List.mem_takeWhile_imp hmem
  have hwhite : isWhite c = false := by
    unfold isWord at hword
    unfold isWhite
    simp only [Bool.and_eq_true, Bool.not_eq_true'] at hword
    exact hword.1
  have hsym : c ∉ symbols := by
    intro hmem
    simp [isWord, hmem] at hword
  have hne : c ≠ 0 := by
    rintro rfl
    have hmem : 0 ∈ buf.drop p.1 := by
      rw [hr]
      exact List.mem_cons_self
    exact h0 (List.mem_of_mem_drop hmem)
  have hq : scan isWhite buf p.1 = p.1 := by
    rw [scan, hr, List.cons_append, List.takeWhile_cons_of_neg (by simp [hwhite])]
    rfl
  have heq : scan isWord buf p.1 = p.2 := by
    rw [scan, ← h.run, h.eq_end]
  have hget : Sh.gettoken buf p.1 = ⟨byte 'a', p.1, p.2, scan isWhite buf p.2⟩ := by
    simp only [Sh.gettoken, hq, byteAt_of_drop hr, if_neg hne]
    rw [if_neg, if_neg]
    · rw [heq]
    · rintro rfl
      exact hsym (by decide)
    · rintro (rfl | rfl | rfl | rfl | rfl | rfl) <;> exact hsym (by decide)
  rw [hget]
  exact ⟨rfl, rfl, rfl⟩

/-- The bytes between the pointers of a word. -/
lemma Reads.take_eq {buf : List UInt8} {p : Ptr} {w : List UInt8} (h : Reads buf p w) :
    (buf.drop p.1).take (p.2 - p.1) = w := by
  obtain ⟨r, hr, -⟩ := h.split
  rw [h.eq_end, Nat.add_sub_cancel_left, hr, List.take_left]

/-- After `nulterminate` each word of the tree is, as a string, what `gettoken` has found between its two
pointers, and the arguments of each command end with a null pointer inside of the array. -/
theorem words_intact (input : List UInt8) (h0 : 0 ∉ input) (fuel : ℕ)
    (hfuel : 4 * input.length + 4 ≤ fuel) (c : Cmd Ptr) (mem : List UInt8)
    (h : parsecmd fuel input = .ok (c, mem)) :
    (∀ p ∈ c.words, ∃ s, (gettoken input s).ret = byte 'a' ∧ (gettoken input s).q = p.1 ∧
      (gettoken input s).eq = p.2 ∧ cstr mem p = (input.drop p.1).take (p.2 - p.1)) ∧
    ∀ argv ∈ c.argvs, (argvArray argv).length = MAXARGS ∧ (argvArray argv)[argv.length]? = some none := by
  obtain ⟨rfl, t, ht, hrel⟩ := derives_of_parsecmd h0 hfuel h
  constructor
  · intro p hp
    obtain ⟨w, hw, hreads⟩ := hrel.exists_of_mem p hp
    obtain ⟨hret, hq, heq⟩ := hreads.gettoken h0 (ne_nil_of_word_mem (ht.word_mem w hw))
    refine ⟨p.1, hret, hq, heq, ?_⟩
    rw [hreads.take_eq]
    exact cstr_nulterminate h0 (fun p hp => (hrel.exists_of_mem p hp).imp fun _ h => h.2) hp hreads
  · intro argv hargv
    obtain ⟨ws, hws, hlen⟩ := hrel.exists_length_eq argv hargv
    have hlt := ht.length_lt ws hws
    unfold argvArray
    rw [List.length_append, List.length_map, List.length_replicate,
      List.getElem?_append_right (List.length_map _).le, List.length_map, Nat.sub_self,
      List.getElem?_replicate, if_pos (by omega)]
    exact ⟨by omega, rfl⟩

/-- `a b>c` has three words. -/
theorem words_intact_three :
    parsecmd 24 (['a', ' ', 'b', '>', 'c'].map byte) =
        .ok (.redir (.exec [(0, 1), (2, 3)]) (4, 5) (O_WRONLY ||| O_CREATE) 1, [97, 0, 98, 0, 99, 0]) ∧
      ∀ p ∈ [(4, 5), (0, 1), (2, 3)],
        ∃ s, (gettoken (['a', ' ', 'b', '>', 'c'].map byte) s).ret = byte 'a' ∧
          (gettoken (['a', ' ', 'b', '>', 'c'].map byte) s).q = p.1 ∧
          (gettoken (['a', ' ', 'b', '>', 'c'].map byte) s).eq = p.2 ∧
          cstr [97, 0, 98, 0, 99, 0] p =
            ((['a', ' ', 'b', '>', 'c'].map byte).drop p.1).take (p.2 - p.1) := by
  have hrun : parsecmd 24 (['a', ' ', 'b', '>', 'c'].map byte) =
      .ok (.redir (.exec [(0, 1), (2, 3)]) (4, 5) (O_WRONLY ||| O_CREATE) 1,
        [97, 0, 98, 0, 99, 0]) := by decide +kernel
  exact ⟨hrun, (words_intact _ (by decide) 24 (by decide) _ _ hrun).1⟩

end Xv7.Sh
