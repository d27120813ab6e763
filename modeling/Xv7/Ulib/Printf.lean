import Mathlib.Tactic.Linarith
import Xv7.Ulib.Basic

/-!
# Formatting into a buffer

`snprintf` and `sprintf` of `ulib.c`. The two are copies of one formatter: they differ in the check before
each store, and in the loop that copies a string. Both write the bytes that `render` gives for the format
and its arguments, `snprintf` as many of them as there is room for.

The format and the string arguments are not in the buffer.
-/

namespace Xv7.Ulib

/-! ## The numbers -/

/-- The loop that writes decimal digits to `numbuf`, the last one first. -/
def decimalLoop (val : ℤ) (numbuf : List UInt8) : List UInt8 :=
  if 0 < val then
    decimalLoop (val.tdiv 10) (numbuf ++ [UInt8.ofNat ((byte '0').toNat + (val.tmod 10).toNat)])
  else numbuf
  termination_by val.toNat
  decreasing_by
    rw [Int.tdiv_eq_ediv_of_nonneg (by omega)]
    omega

/-- What is in `numbuf` for `%d`. The negation of the smallest number is that number, and its loop does
nothing. -/
def decimalBuf (val : BitVec 32) : List UInt8 :=
  let neg := val.toInt < 0
  let val := if neg then (-val).toInt else val.toInt
  let numbuf := if val = 0 then [byte '0'] else decimalLoop val []
  if neg then numbuf ++ [byte '-'] else numbuf

/-- The loop that writes hexadecimal digits to `numbuf`. -/
def hexLoop (val : ℕ) (numbuf : List UInt8) : List UInt8 :=
  if 0 < val then
    let digit := val &&& 0xF
    hexLoop (val >>> 4) (numbuf ++
      [UInt8.ofNat (if digit < 10 then (byte '0').toNat + digit else (byte 'a').toNat + (digit - 10))])
  else numbuf
  termination_by val
  decreasing_by
    rw [Nat.shiftRight_eq_div_pow]
    omega

/-- What is in `numbuf` for `%x`. -/
def hexBuf (val : BitVec 32) : List UInt8 :=
  if val.toNat = 0 then [byte '0'] else hexLoop val.toNat []

/-! ## The formatter -/

/-- An argument: what `va_arg` finds as an `int` or as a `char*`. -/
inductive Arg where
  | int (v : BitVec 32)
  | str (s : CString)

/-- The index, the buffer and the indices that were stored to. -/
structure Out where
  i : ℕ
  buf : Buffer
  stores : List ℕ

/-- `buf[i++] = c`. -/
def Out.put (c : UInt8) (o : Out) : Out :=
  ⟨o.i + 1, Function.update o.buf o.i c, o.stores ++ [o.i]⟩

/-- `buf[i] = '\0'`. -/
def Out.terminate (o : Out) : Out := ⟨o.i, Function.update o.buf o.i 0, o.stores ++ [o.i]⟩

/-- `if (i < size - 1) buf[i++] = c`. -/
def Out.putBounded (size : ℤ) (c : UInt8) (o : Out) : Out := if o.i < size - 1 then o.put c else o

/-- `while (*s) buf[i++] = *s++`. -/
def Out.copy : List UInt8 → Out → Out
  | [], o => o
  | c :: s, o => Out.copy s (o.put c)

/-- `while (*s && i < size - 1) buf[i++] = *s++`. -/
def Out.copyBounded (size : ℤ) : List UInt8 → Out → Out
  | [], o => o
  | c :: s, o => if o.i < size - 1 then Out.copyBounded size s (o.put c) else o

section Formatter

variable (put : UInt8 → Out → Out) (copy : List UInt8 → Out → Out)

/-- `for (k = j - 1; k >= 0; k--)`, over the bytes in `numbuf`. -/
def putReversed (numbuf : List UInt8) (o : Out) : Out := numbuf.reverse.foldl (fun o c => put c o) o

/-- The branches for the byte behind a `%`, with the arguments that are left. There is no result when the
argument is missing or of the wrong kind. -/
def formatDirective (d : UInt8) (args : List Arg) (o : Out) : Option (Out × List Arg) :=
  if d = byte 'd' then
    match args with
    | .int v :: args => some (putReversed put (decimalBuf v) o, args)
    | _ => none
  else if d = byte 'x' then
    match args with
    | .int v :: args => some (putReversed put (hexBuf v) o, args)
    | _ => none
  else if d = byte 's' then
    match args with
    | .str s :: args => some (copy s o, args)
    | _ => none
  else if d = byte 'c' then
    match args with
    | .int v :: args => some (put (UInt8.ofNat v.toNat) o, args)
    | _ => none
  else some (put d o, args)

/-- The loop of both functions over the format. -/
def format : List UInt8 → List Arg → Out → Option Out
  | [], _, o => some o
  | c :: fmt, args, o =>
    if c ≠ byte '%' then format fmt args (put c o)
    else
      match fmt with
      | [] => some o
      | d :: fmt => (formatDirective put copy d args o).bind fun x => format fmt x.2 x.1

end Formatter

/-- `snprintf`; it returns the index. -/
def snprintf (buf : Buffer) (size : ℤ) (fmt : CString) (args : List Arg) : Option Out :=
  (format (Out.putBounded size) (Out.copyBounded size) fmt args ⟨0, buf, []⟩).map Out.terminate

/-- `sprintf`; it returns the index. -/
def sprintf (buf : Buffer) (fmt : CString) (args : List Arg) : Option Out :=
  (format Out.put Out.copy fmt args ⟨0, buf, []⟩).map Out.terminate

/-! ## The bytes of a format -/

/-- The kinds of arguments. -/
inductive Kind where
  | int
  | str
  deriving DecidableEq

/-- The kind of an argument. -/
def Arg.kind : Arg → Kind
  | .int _ => .int
  | .str _ => .str

/-- The argument that a directive asks for. -/
def neededBy (d : UInt8) : List Kind :=
  if d = byte 'd' ∨ d = byte 'x' ∨ d = byte 'c' then [.int] else if d = byte 's' then [.str] else []

/-- The arguments that a format asks for. -/
def needed : List UInt8 → List Kind
  | [] => []
  | c :: fmt =>
    if c ≠ byte '%' then needed fmt
    else
      match fmt with
      | [] => []
      | d :: fmt => neededBy d ++ needed fmt

/-- The arguments match the format: there are enough of them, and of the right kinds. -/
def Matching (fmt : List UInt8) (args : List Arg) : Prop := needed fmt <+: args.map Arg.kind

/-- What a directive stands for, and the arguments that are left. -/
def directive (d : UInt8) (args : List Arg) : Option (List UInt8 × List Arg) :=
  if d = byte 'd' then
    match args with
    | .int v :: args => some ((decimalBuf v).reverse, args)
    | _ => none
  else if d = byte 'x' then
    match args with
    | .int v :: args => some ((hexBuf v).reverse, args)
    | _ => none
  else if d = byte 's' then
    match args with
    | .str s :: args => some (s, args)
    | _ => none
  else if d = byte 'c' then
    match args with
    | .int v :: args => some ([UInt8.ofNat v.toNat], args)
    | _ => none
  else some ([d], args)

/-- What a format and its arguments stand for. -/
def render : List UInt8 → List Arg → Option (List UInt8)
  | [], _ => some []
  | c :: fmt, args =>
    if c ≠ byte '%' then (render fmt args).map (c :: ·)
    else
      match fmt with
      | [] => some []
      | d :: fmt => (directive d args).bind fun x => (render fmt x.2).map (x.1 ++ ·)

/-- Store one byte after the other. -/
def putAll (put : UInt8 → Out → Out) (l : List UInt8) (o : Out) : Out := l.foldl (fun o c => put c o) o

section

variable {put : UInt8 → Out → Out} {copy : List UInt8 → Out → Out}

/-- The bytes of a directive and then those of the rest of the format. -/
lemma map_putAll_append (l : List UInt8) (r : Option (List UInt8)) (o : Out) :
    (r.map (l ++ ·)).map (putAll put · o) = r.map (putAll put · (putAll put l o)) := by
  cases r with
  | none => rfl
  | some r => exact congrArg some List.foldl_append

lemma formatDirective_eq (hcopy : ∀ s o, copy s o = putAll put s o) (d : UInt8) (args : List Arg) (o : Out) :
    formatDirective put copy d args o =
      (directive d args).map fun x => (putAll put x.1 o, x.2) := by
  unfold formatDirective directive
  split_ifs
  · rcases args with _ | ⟨_ | _, _⟩ <;> rfl
  · rcases args with _ | ⟨_ | _, _⟩ <;> rfl
  · rcases args with _ | ⟨_ | s, args⟩
    · rfl
    · rfl
    · exact congrArg (fun o => some (o, args)) (hcopy s o)
  · rcases args with _ | ⟨_ | _, _⟩ <;> rfl
  · rfl

lemma render_byte {c : UInt8} (hc : c ≠ byte '%') (fmt : List UInt8) (args : List Arg) :
    render (c :: fmt) args = (render fmt args).map ([c] ++ ·) := by
  cases fmt <;> simp [render, hc]

lemma render_directive (d : UInt8) (fmt : List UInt8) (args : List Arg) :
    render (byte '%' :: d :: fmt) args =
      (directive d args).bind fun x => (render fmt x.2).map (x.1 ++ ·) := by
  simp [render]

lemma needed_byte {c : UInt8} (hc : c ≠ byte '%') (fmt : List UInt8) : needed (c :: fmt) = needed fmt := by
  cases fmt <;> simp [needed, hc]

lemma needed_directive (d : UInt8) (fmt : List UInt8) :
    needed (byte '%' :: d :: fmt) = neededBy d ++ needed fmt := by
  simp [needed]

/-- Both functions write the bytes that the format stands for. -/
lemma format_eq (hcopy : ∀ s o, copy s o = putAll put s o) (fmt : List UInt8) (args : List Arg) (o : Out) :
    format put copy fmt args o = (render fmt args).map (putAll put · o) := by
  fun_induction format put copy fmt args o with
  | case1 => rfl
  | case2 c fmt args o hc ih =>
    rw [ih, render_byte hc, map_putAll_append]
    rfl
  | case3 c args o hc =>
    rw [not_not.mp hc]
    rfl
  | case4 c args o hc d fmt ih =>
    rw [not_not.mp hc, render_directive, formatDirective_eq hcopy]
    cases directive d args with
    | none => rfl
    | some x =>
      show format put copy fmt x.2 (putAll put x.1 o) = _
      rw [ih (putAll put x.1 o, x.2)]
      exact (map_putAll_append x.1 _ o).symm

end

/-- A directive takes the argument that it asks for. -/
lemma directive_of_prefix {d : UInt8} {args : List Arg} {l : List Kind}
    (h : neededBy d ++ l <+: args.map Arg.kind) :
    ∃ x, directive d args = some x ∧ l <+: x.2.map Arg.kind := by
  unfold neededBy at h
  unfold directive
  split_ifs at h with hint hstr
  · -- an integer
    rcases args with _ | ⟨v | s, args⟩
    · exact absurd (List.prefix_nil.mp h) (List.cons_ne_nil _ _)
    · have htail := (List.cons_prefix_cons.mp h).2
      rcases hint with rfl | rfl | rfl
      · exact ⟨_, if_pos rfl, htail⟩
      · exact ⟨_, rfl, htail⟩
      · exact ⟨_, rfl, htail⟩
    · exact absurd (List.cons_prefix_cons.mp h).1 nofun
  · subst hstr
    rcases args with _ | ⟨v | s, args⟩
    · exact absurd (List.prefix_nil.mp h) (List.cons_ne_nil _ _)
    · exact absurd (List.cons_prefix_cons.mp h).1 nofun
    · exact ⟨_, rfl, (List.cons_prefix_cons.mp h).2⟩
  · rw [not_or, not_or] at hint
    rw [if_neg hint.1, if_neg hint.2.1, if_neg hstr, if_neg hint.2.2]
    exact ⟨_, rfl, h⟩

/-- A format with matching arguments stands for some bytes. -/
lemma exists_render {fmt : List UInt8} {args : List Arg} (h : Matching fmt args) :
    ∃ l, render fmt args = some l := by
  fun_induction render fmt args with
  | case1 => exact ⟨[], rfl⟩
  | case2 c fmt args hc ih =>
    unfold Matching at h
    rw [needed_byte hc] at h
    obtain ⟨l, hl⟩ := ih h
    exact ⟨c :: l, by rw [hl]; rfl⟩
  | case3 => exact ⟨[], rfl⟩
  | case4 c args hc d fmt ih =>
    unfold Matching at h
    rw [not_not.mp hc, needed_directive] at h
    obtain ⟨x, hx, hrest⟩ := directive_of_prefix h
    obtain ⟨l, hl⟩ := ih x hrest
    exact ⟨x.1 ++ l, by rw [hx, Option.bind_some, hl]; rfl⟩

/-! ## The two ways to store -/

lemma copy_eq (s : List UInt8) (o : Out) : Out.copy s o = putAll Out.put s o := by
  induction s generalizing o with
  | nil => rfl
  | cons c s ih => exact ih _

/-- With the check, as many bytes are stored as there is room for. -/
lemma putAll_putBounded (size : ℤ) (l : List UInt8) (o : Out) :
    putAll (Out.putBounded size) l o = putAll Out.put (l.take (size - 1 - o.i).toNat) o := by
  induction l generalizing o with
  | nil => rw [List.take_nil]; rfl
  | cons c l ih =>
    show putAll (Out.putBounded size) l (o.putBounded size c) = _
    rw [ih]
    unfold Out.putBounded
    by_cases hlt : (o.i : ℤ) < size - 1
    · rw [if_pos hlt, show (size - 1 - o.i).toNat = (size - 1 - (o.put c).i).toNat + 1 by
        simp only [Out.put]; omega, List.take_succ_cons]
      rfl
    · rw [if_neg hlt, show (size - 1 - o.i).toNat = 0 by omega, List.take_zero, List.take_zero]

lemma copyBounded_eq (size : ℤ) (s : List UInt8) (o : Out) :
    Out.copyBounded size s o = putAll (Out.putBounded size) s o := by
  rw [putAll_putBounded]
  induction s generalizing o with
  | nil => rw [List.take_nil]; rfl
  | cons c s ih =>
    rw [Out.copyBounded]
    by_cases hlt : (o.i : ℤ) < size - 1
    · rw [if_pos hlt, ih, show (size - 1 - o.i).toNat = (size - 1 - (o.put c).i).toNat + 1 by
        simp only [Out.put]; omega, List.take_succ_cons]
      rfl
    · rw [if_neg hlt, show (size - 1 - o.i).toNat = 0 by omega, List.take_zero]
      rfl

/-- What is in the buffer after some bytes were stored. -/
structure Stored (l : List UInt8) (o p : Out) : Prop where
  i : p.i = o.i + l.length
  stores : p.stores = o.stores ++ List.range' o.i l.length
  byte : ∀ k (hk : k < l.length), p.buf (o.i + k) = l.get ⟨k, hk⟩
  before : ∀ a < o.i, p.buf a = o.buf a
  behind : ∀ a, o.i + l.length ≤ a → p.buf a = o.buf a

lemma stored_putAll (l : List UInt8) (o : Out) : Stored l o (putAll Out.put l o) := by
  induction l generalizing o with
  | nil => exact ⟨rfl, (List.append_nil _).symm, nofun, fun _ _ => rfl, fun _ _ => rfl⟩
  | cons c l ih =>
    have h := ih (o.put c)
    have hi : (o.put c).i = o.i + 1 := rfl
    constructor
    · exact h.i.trans (by rw [hi, List.length_cons]; omega)
    · refine h.stores.trans ?_
      rw [hi, List.length_cons, List.range'_succ]
      exact List.append_assoc _ _ _
    · intro k hk
      cases k with
      | zero => exact (h.before o.i (by omega)).trans (Function.update_self _ _ _)
      | succ k =>
        have hbyte := h.byte k (Nat.lt_of_succ_lt_succ hk)
        rwa [hi, add_right_comm] at hbyte
    · intro a ha
      exact (h.before a (by omega)).trans (Function.update_of_ne ha.ne _ _)
    · intro a ha
      rw [List.length_cons] at ha
      exact (h.behind a (by omega)).trans (Function.update_of_ne (by omega) _ _)

/-! ## The theorem -/

/-- The bytes before the NUL. -/
def Out.string (o : Out) : List UInt8 := (List.range o.i).map o.buf

lemma sprintf_eq {fmt : CString} {args : List Arg} {l : List UInt8} (buf : Buffer)
    (h : render fmt args = some l) :
    sprintf buf fmt args = some (putAll Out.put l ⟨0, buf, []⟩).terminate := by
  unfold sprintf
  rw [format_eq copy_eq, h]
  rfl

lemma snprintf_eq {fmt : CString} {args : List Arg} {l : List UInt8} (buf : Buffer) (size : ℤ)
    (h : render fmt args = some l) : snprintf buf size fmt args =
      some (putAll Out.put (l.take (size - 1).toNat) ⟨0, buf, []⟩).terminate := by
  unfold snprintf
  rw [format_eq (copyBounded_eq size), h, Option.map_some, Option.map_some, putAll_putBounded]
  norm_num

/-- The string of some bytes that were stored, and the buffer behind its NUL. -/
lemma string_putAll (l : List UInt8) (buf : Buffer) :
    (putAll Out.put l ⟨0, buf, []⟩).terminate.string = l ∧
      (putAll Out.put l ⟨0, buf, []⟩).terminate.i = l.length ∧
      (putAll Out.put l ⟨0, buf, []⟩).terminate.buf l.length = 0 ∧
      (putAll Out.put l ⟨0, buf, []⟩).terminate.stores = List.range' 0 (l.length + 1) ∧
      ∀ a, l.length < a → (putAll Out.put l ⟨0, buf, []⟩).terminate.buf a = buf a := by
  have h := stored_putAll l ⟨0, buf, []⟩
  have hi := h.i
  rw [Nat.zero_add] at hi
  refine ⟨?_, hi, ?_, ?_, fun a ha => ?_⟩
  · refine List.ext_getElem (by simp [Out.string, Out.terminate, hi]) fun n h1 h2 => ?_
    have hbyte := h.byte n h2
    rw [Nat.zero_add] at hbyte
    simp only [Out.string, Out.terminate, List.getElem_map, List.getElem_range]
    rw [Function.update_of_ne (by omega), hbyte]
    rfl
  · simp only [Out.terminate, hi, Function.update_self]
  · simp only [Out.terminate, hi, h.stores]
    rw [List.range'_concat]
    simp
  · simp only [Out.terminate, hi]
    rw [Function.update_of_ne ha.ne']
    exact h.behind a (by simp only; omega)

/-- `snprintf` is `sprintf`, cut to the size: the same bytes as far as there is room, one NUL, nothing
stored outside of the buffer or twice, and the number of bytes returned. -/
theorem snprintf_truncates (fmt : CString) (args : List Arg) (size : ℤ) (buf buf' : Buffer)
    (hargs : Matching fmt args) (hsize : 1 ≤ size) :
    ∃ o p, sprintf buf' fmt args = some o ∧ snprintf buf size fmt args = some p ∧
      p.string = o.string.take (size - 1).toNat ∧ (p.i : ℤ) = min (size - 1) o.string.length ∧
      p.buf p.i = 0 ∧ (∀ a ∈ p.stores, (a : ℤ) < size) ∧
      (∀ a, p.i < a → p.buf a = buf a) ∧ p.stores = List.range' 0 (p.i + 1) := by
  obtain ⟨l, hl⟩ := exists_render hargs
  obtain ⟨hstring, -⟩ := string_putAll l buf'
  obtain ⟨hstring', hi, hnul, hstores, hrest⟩ := string_putAll (l.take (size - 1).toNat) buf
  refine ⟨_, _, sprintf_eq buf' hl, snprintf_eq buf size hl, ?_, ?_, ?_, ?_, ?_, ?_⟩
  · rw [hstring, hstring']
  · rw [hi, hstring, List.length_take]
    omega
  · rw [hi]
    exact hnul
  · intro a ha
    rw [hstores, List.mem_range'_1, List.length_take] at ha
    omega
  · rw [hi]
    exact hrest
  · rw [hi]
    exact hstores

/-- `snprintf(buf, 5, "%d %s", -42, "ab")`: there is room for `-42` and the space. -/
theorem snprintf_truncates_five :
    ∃ o p, sprintf (fun _ => 0) ⟨[37, 100, 32, 37, 115], by decide⟩
        [.int (-42), .str ⟨[97, 98], by decide⟩] = some o ∧
      snprintf (fun _ => 0) 5 ⟨[37, 100, 32, 37, 115], by decide⟩
        [.int (-42), .str ⟨[97, 98], by decide⟩] = some p ∧
      p.string = o.string.take 4 ∧ (p.i : ℤ) = min (5 - 1) (o.string.length : ℤ) := by
  obtain ⟨o, p, ho, hp, hstring, hi, -⟩ := snprintf_truncates ⟨[37, 100, 32, 37, 115], by decide⟩
    [.int (-42), .str ⟨[97, 98], by decide⟩] 5 (fun _ => 0) (fun _ => 0)
    (show needed _ <+: _ by decide) (by decide)
  exact ⟨o, p, ho, hp, hstring, hi⟩

end Xv7.Ulib
