import Mathlib.Data.List.TakeWhile
import Xv7.Ulib.Integers

/-!
# Numbers from strings

`strtonum` of `printf.c`, and `strtol` of `bsd/strtol.c`, which it calls with the base 10.  A pointer is
given by the bytes from it on, to the end of the memory that can be read; reading behind them is a fault.

`strtol` skips whatever is not a printing character, the NUL at the end of the string included, and it
answers a number that is out of range with the nearest one that is not.
-/

namespace Xv7.Ulib

abbrev LONG_MAX : ℤ := 2147483647

abbrev LONG_MIN : ℤ := -2147483647 - 1

/-! ## The functions -/

/-- `c <= ' ' || c >= 0x7f`. -/
def isSkipped (c : UInt8) : Bool := c ≤ byte ' ' || 0x7f ≤ c

/-- The first loop of `strtol`: the character it ends with, and the pointer behind it. -/
def skipLoop : List UInt8 → Option (UInt8 × List UInt8)
  | [] => none
  | c :: s => if isSkipped c then skipLoop s else some (c, s)

/-- `c = *s++`, where `*s` is a `char`. -/
def nextChar : List UInt8 → Option (ℤ × List UInt8)
  | [] => none
  | c :: s => some (c.toBitVec.toInt, s)

/-- The sign: `neg`, the character behind the sign, and the pointer behind that. -/
def readSign (c : UInt8) (s : List UInt8) : Option (Bool × ℤ × List UInt8) :=
  if c = byte '-' then (nextChar s).map fun r => (true, r)
  else if c = byte '+' then (nextChar s).map fun r => (false, r)
  else some (false, c.toNat, s)

/-- The base, which may be given by the first characters. -/
def readBase (base c : ℤ) (s : List UInt8) : Option (ℤ × ℤ × List UInt8) :=
  if (base = 0 ∨ base = 16) ∧ c = (byte '0').toNat then
    match s with
    | [] => none
    | x :: s' =>
      if x = byte 'x' ∨ x = byte 'X' then (nextChar s').map fun r => (16, r)
      else some (if base = 0 then 8 else base, c, s)
  else some (if base = 0 then 10 else base, c, s)

/-- `cutoff` and `cutlim`. -/
def limits (neg : Bool) (base : ℤ) : ℤ × ℤ :=
  let cutoff := if neg then LONG_MIN else LONG_MAX
  let cutlim := cutoff.tmod base
  let cutoff := cutoff.tdiv base
  if neg then if cutlim > 0 then (cutoff + 1, -(cutlim - base)) else (cutoff, -cutlim)
  else (cutoff, cutlim)

/-- The value of a digit or a letter. -/
def digitValue (c : ℤ) : Option ℤ :=
  if (byte '0').toNat ≤ c ∧ c ≤ (byte '9').toNat then some (c - (byte '0').toNat)
  else if (byte 'A').toNat ≤ c ∧ c ≤ (byte 'Z').toNat then some (c - ((byte 'A').toNat - 10))
  else if (byte 'a').toNat ≤ c ∧ c ≤ (byte 'z').toNat then some (c - ((byte 'a').toNat - 10))
  else none

/-- `acc` and `any`. -/
structure Acc where
  acc : ℤ
  any : ℤ
  deriving DecidableEq

/-- What a digit does to `acc` and `any`. -/
def Acc.push (neg : Bool) (base : ℤ) (a : Acc) (c : ℤ) : Acc :=
  let (cutoff, cutlim) := limits neg base
  if a.any < 0 then a
  else if neg then
    if a.acc < cutoff ∨ a.acc = cutoff ∧ c > cutlim then ⟨LONG_MIN, -1⟩ else ⟨a.acc * base - c, 1⟩
  else
    if a.acc > cutoff ∨ a.acc = cutoff ∧ c > cutlim then ⟨LONG_MAX, -1⟩ else ⟨a.acc * base + c, 1⟩

/-- The second loop of `strtol`, at a character that has been read. -/
def digitLoop (neg : Bool) (base : ℤ) (s : List UInt8) (c : ℤ) (a : Acc) : Option (Acc × List UInt8) :=
  match digitValue c with
  | none => some (a, s)
  | some d =>
    if d ≥ base then some (a, s)
    else
      match s with
      | [] => none
      | c' :: s' => digitLoop neg base s' c'.toNat (a.push neg base d)

/-- What `strtol` returns, where `*endptr` points, and how many bytes it has read, from `nptr` on. -/
structure Strtol where
  val : ℤ
  endptr : ℕ
  reads : ℕ
  deriving DecidableEq

/-- `strtol`. -/
def strtol (nptr : List UInt8) (base : ℤ) : Option Strtol := do
  let (c, s) ← skipLoop nptr
  let (neg, c, s) ← readSign c s
  let (base, c, s) ← readBase base c s
  let (a, s) ← digitLoop neg base s c ⟨0, 0⟩
  let reads := nptr.length - s.length
  -- `*endptr = (char*)(any ? s - 1 : nptr)`
  return ⟨a.acc, if a.any ≠ 0 then reads - 1 else 0, reads⟩

/-- What `strtonum` stores to `*errstr`. -/
inductive NumError where
  | invalid
  | tooSmall
  | tooLarge
  deriving DecidableEq

def NumError.text : NumError → String
  | .invalid => "invalid!"
  | .tooSmall => "too small!"
  | .tooLarge => "too large!"

/-- What `strtonum` returns and stores to `*errstr`, and how many bytes it has read, from `numstr` on. -/
structure Strtonum where
  val : ℤ
  errstr : Option NumError
  reads : ℕ
  deriving DecidableEq

/-- `strtonum`. -/
def strtonum (numstr : List UInt8) (minval maxval : ℤ) : Option Strtonum := do
  let r ← strtol numstr 10
  if r.endptr = 0 then return ⟨0, some .invalid, r.reads⟩
  let c ← numstr[r.endptr]?
  let reads := max r.reads (r.endptr + 1)
  return if c ≠ 0 then ⟨0, some .invalid, reads⟩
    else if r.val < minval then ⟨minval, some .tooSmall, reads⟩
    else if r.val > maxval then ⟨maxval, some .tooLarge, reads⟩
    else ⟨r.val, none, reads⟩

/-! ## What it is for -/

/-- The number that a string of digits stands for. -/
def natValue (ds : List UInt8) : ℕ := ds.foldl (fun n c => 10 * n + (c.toNat - (byte '0').toNat)) 0

/-- An optional sign and digits, at least one, that stand for the number. -/
def Numeral (l : List UInt8) (v : ℤ) : Prop :=
  skipSign l ≠ [] ∧ (∀ c ∈ skipSign l, isDigit c = true) ∧
    v = if l.head? = some (byte '-') then -(natValue (skipSign l) : ℤ) else natValue (skipSign l)

/-- Blanks and a numeral. -/
def IsNumber (blank : UInt8 → Bool) (s : List UInt8) (v : ℤ) : Prop :=
  ∃ bs l, s = bs ++ l ∧ (∀ c ∈ bs, blank c = true) ∧ Numeral l v

/-- `isspace`. -/
def isspace (c : UInt8) : Bool :=
  [byte ' ', byte '\t', byte '\n', 11, 12, byte '\r'].contains c

/-- `strtonum` reads the string, which other bytes follow in the memory, no further than its NUL, reports
no error if and only if the string is a number in the range, and then returns the number. -/
def Validates (blank : UInt8 → Bool) (s after : List UInt8) (minval maxval : ℤ) : Prop :=
  ∃ r, strtonum (s ++ 0 :: after) minval maxval = some r ∧ r.reads ≤ s.length + 1 ∧
    (r.errstr = none ↔ ∃ v, IsNumber blank s v ∧ minval ≤ v ∧ v ≤ maxval) ∧
    ∀ v, IsNumber blank s v → minval ≤ v → v ≤ maxval → r.val = v

/-! ## The digits -/

variable {neg : Bool} {a : Acc} {c x : UInt8} {z : ℤ} {v d : ℕ} {s t ds bs tail : List UInt8}

/-- The largest number with the sign, without it. -/
def largest (neg : Bool) : ℕ := if neg then 2147483648 else 2147483647

/-- A number with the sign. -/
def signed (neg : Bool) (v : ℕ) : ℤ := if neg then -(v : ℤ) else v

/-- `acc` and `any` stand for the number. -/
def Acc.Tracks (neg : Bool) (a : Acc) (v : ℕ) : Prop :=
  (v ≤ largest neg ∧ a.acc = signed neg v ∧ 0 ≤ a.any) ∨
    (largest neg < v ∧ a.acc = signed neg (largest neg) ∧ a.any < 0)

lemma Acc.Tracks.push (h : a.Tracks neg v) (hd : d < 10) :
    (a.push neg 10 d).Tracks neg (10 * v + d) ∧ (a.push neg 10 d).any ≠ 0 := by
  cases neg
  · have hl : limits false 10 = (214748364, 7) := by decide
    simp only [Acc.Tracks, Acc.push, largest, signed, hl] at h ⊢
    grind
  · have hl : limits true 10 = (-214748364, 8) := by decide
    simp only [Acc.Tracks, Acc.push, largest, signed, hl] at h ⊢
    grind

/-- `acc` and `any` after some digits. -/
def Acc.pushAll (neg : Bool) (a : Acc) (ds : List UInt8) : Acc :=
  ds.foldl (fun a c => a.push neg 10 ((c.toNat - (byte '0').toNat : ℕ) : ℤ)) a

/-- `c` is the character, taken as a `char` or as an `unsigned char`. -/
def IsChar (z : ℤ) (c : UInt8) : Prop := z = c.toNat ∨ z = c.toBitVec.toInt

lemma isDigit_iff_toNat : isDigit c = true ↔ 48 ≤ c.toNat ∧ c.toNat ≤ 57 := by
  rw [isDigit, Bool.and_eq_true, decide_eq_true_iff, decide_eq_true_iff, UInt8.le_iff_toNat_le,
    UInt8.le_iff_toNat_le]
  rfl

lemma isSkipped_iff_toNat : isSkipped c = true ↔ c.toNat ≤ 32 ∨ 127 ≤ c.toNat := by
  rw [isSkipped, Bool.or_eq_true, decide_eq_true_iff, decide_eq_true_iff, UInt8.le_iff_toNat_le,
    UInt8.le_iff_toNat_le]
  rfl

lemma digitValue_eq (z : ℤ) : digitValue z =
    if 48 ≤ z ∧ z ≤ 57 then some (z - 48)
    else if 65 ≤ z ∧ z ≤ 90 then some (z - 55)
    else if 97 ≤ z ∧ z ≤ 122 then some (z - 87) else none := rfl

lemma IsChar.cases (hz : IsChar z c) : z = c.toNat ∨ 128 ≤ c.toNat ∧ z < 0 := by
  have hlt := c.toNat_lt
  have hval := BitVec.toInt_eq_toNat_cond c.toBitVec
  rw [UInt8.toNat_toBitVec] at hval
  rcases hz with hz | hz
  · exact .inl hz
  · split_ifs at hval <;> omega

lemma digitLoop_digit (hz : IsChar z c) (hc : isDigit c = true) :
    digitLoop neg 10 (x :: s) z a =
      digitLoop neg 10 s x.toNat (a.push neg 10 ((c.toNat - (byte '0').toNat : ℕ) : ℤ)) := by
  rw [isDigit_iff_toNat] at hc
  have hz := hz.cases
  have h0 : (byte '0').toNat = 48 := rfl
  have hval : digitValue z = some ((c.toNat - (byte '0').toNat : ℕ) : ℤ) := by
    rw [digitValue_eq, if_pos (by omega), Option.some.injEq]
    omega
  rw [digitLoop, hval]
  exact if_neg (by omega)

lemma digitLoop_stop (hz : IsChar z c) (hc : isDigit c = false) : digitLoop neg 10 s z a = some (a, s) := by
  have hc : ¬ (48 ≤ c.toNat ∧ c.toNat ≤ 57) := by rw [← isDigit_iff_toNat, hc]; simp
  have hz := hz.cases
  have hval : ∀ d, digitValue z = some d → 10 ≤ d := by
    intro d hd
    rw [digitValue_eq, if_neg (by omega)] at hd
    split_ifs at hd <;> simp only [Option.some.injEq] at hd <;> omega
  unfold digitLoop
  cases hd : digitValue z with
  | none => rfl
  | some d => exact if_pos (hval d hd)

/-- The loop over digits and a character that is none; the first one has been read. -/
lemma digitLoop_run (hds : ∀ c ∈ ds, isDigit c = true) (hx : isDigit x = false) (hz : IsChar z c)
    (heq : c :: s = ds ++ x :: tail) : digitLoop neg 10 s z a = some (a.pushAll neg ds, tail) := by
  induction ds generalizing c s z a with
  | nil =>
    obtain ⟨rfl, rfl⟩ := List.cons.inj heq
    exact digitLoop_stop hz hx
  | cons d ds ih =>
    rw [List.cons_append, List.cons.injEq] at heq
    obtain ⟨rfl, rfl⟩ := heq
    have hc := hds c (List.mem_cons_self ..)
    have hds' : ∀ d ∈ ds, isDigit d = true := fun d hd => hds d (List.mem_cons_of_mem c hd)
    cases hs : ds ++ x :: tail with
    | nil => simp at hs
    | cons d' s' =>
      rw [digitLoop_digit hz hc, ih hds' (.inl rfl) hs.symm]
      rfl

lemma Acc.Tracks.pushAll (h : a.Tracks neg v) (hds : ∀ c ∈ ds, isDigit c = true) :
    (a.pushAll neg ds).Tracks neg (ds.foldl (fun n c => 10 * n + (c.toNat - (byte '0').toNat)) v) ∧
      (ds ≠ [] → (a.pushAll neg ds).any ≠ 0) := by
  induction ds generalizing a v with
  | nil => exact ⟨h, fun h => absurd rfl h⟩
  | cons c ds ih =>
    have hc := isDigit_iff_toNat.mp (hds c (List.mem_cons_self ..))
    have h0 : (byte '0').toNat = 48 := rfl
    have hstep := h.push (d := c.toNat - (byte '0').toNat) (by omega)
    obtain ⟨htracks, hany⟩ := ih hstep.1 fun d hd => hds d (List.mem_cons_of_mem c hd)
    refine ⟨htracks, fun _ => ?_⟩
    cases ds with
    | nil => exact hstep.2
    | cons d ds => exact hany (List.cons_ne_nil d ds)

/-- The nearest number in the range of `long`. -/
def clamp (v : ℤ) : ℤ := max LONG_MIN (min LONG_MAX v)

lemma Acc.Tracks.acc_eq (h : a.Tracks neg v) : a.acc = clamp (signed neg v) := by
  simp only [Acc.Tracks, largest, signed, clamp, LONG_MIN, LONG_MAX] at h ⊢
  cases neg <;> simp only [if_true, if_false, Bool.false_eq_true] at h ⊢ <;> omega

/-! ## strtol -/

lemma skipLoop_append (hbs : ∀ c ∈ bs, isSkipped c = true) : skipLoop (bs ++ t) = skipLoop t := by
  induction bs with
  | nil => rfl
  | cons c bs ih =>
    rw [List.cons_append, skipLoop, if_pos (hbs c (List.mem_cons_self ..))]
    exact ih fun d hd => hbs d (List.mem_cons_of_mem c hd)

/-- The sign is read, and then the first character behind it. -/
lemma readSign_eq (h : skipSign (c :: t) = x :: s) :
    ∃ z, readSign c t = some (decide (c = byte '-'), z, s) ∧ IsChar z x := by
  unfold readSign
  by_cases hminus : c = byte '-'
  · rw [skipSign, if_pos (.inl hminus)] at h
    rw [if_pos hminus, h, decide_eq_true hminus]
    exact ⟨_, rfl, .inr rfl⟩
  by_cases hplus : c = byte '+'
  · rw [skipSign, if_pos (.inr hplus)] at h
    rw [if_neg hminus, if_pos hplus, h, decide_eq_false hminus]
    exact ⟨_, rfl, .inr rfl⟩
  · rw [skipSign, if_neg (not_or.mpr ⟨hminus, hplus⟩), List.cons.injEq] at h
    obtain ⟨rfl, rfl⟩ := h
    rw [if_neg hminus, if_neg hplus, decide_eq_false hminus]
    exact ⟨_, rfl, .inl rfl⟩

lemma readBase_ten : readBase 10 z s = some (10, z, s) := by
  unfold readBase
  rw [if_neg (by omega)]
  rfl

/-- `strtol` at a string that begins with characters to skip; then comes one that is not, maybe a sign,
digits, and a character that is no digit. -/
lemma strtol_eq {numstr : List UInt8} (hnum : numstr = bs ++ c :: t) (hbs : ∀ c ∈ bs, isSkipped c = true)
    (hc : isSkipped c = false) (hsplit : skipSign (c :: t) = ds ++ x :: tail)
    (hds : ∀ c ∈ ds, isDigit c = true) (hx : isDigit x = false) :
    strtol numstr 10 = some ⟨clamp (signed (decide (c = byte '-')) (natValue ds)),
      if ds ≠ [] then numstr.length - tail.length - 1 else 0, numstr.length - tail.length⟩ := by
  have hskip : skipLoop numstr = some (c, t) := by
    rw [hnum, skipLoop_append hbs, skipLoop, hc]
    rfl
  obtain ⟨x', s, hhead⟩ : ∃ x' s, ds ++ x :: tail = x' :: s :=
    List.exists_cons_of_ne_nil (by simp)
  obtain ⟨z, hsign, hz⟩ := readSign_eq (hsplit.trans hhead)
  have hstart : (⟨0, 0⟩ : Acc).Tracks (decide (c = byte '-')) 0 := by
    refine .inl ⟨Nat.zero_le _, ?_, le_rfl⟩
    simp [signed]
  obtain ⟨htracks, hany⟩ := hstart.pushAll hds
  simp only [strtol, hskip, hsign, readBase_ten, digitLoop_run hds hx hz hhead.symm, Option.bind_eq_bind,
    Option.bind_some, htracks.acc_eq, natValue]
  congr 2
  by_cases hnil : ds = []
  · simp [hnil, Acc.pushAll]
  · rw [if_pos (hany hnil), if_pos hnil]

lemma length_of_skipLoop (h : skipLoop t = some (c, s)) : s.length < t.length := by
  induction t with
  | nil => cases h
  | cons d t ih =>
    rw [skipLoop] at h
    split_ifs at h
    · exact (ih h).trans (Nat.lt_succ_self _)
    · obtain ⟨-, rfl⟩ := Prod.mk.inj (Option.some.inj h)
      exact Nat.lt_succ_self _

lemma length_of_readSign (h : readSign c t = some (neg, z, s)) : s.length ≤ t.length := by
  unfold readSign at h
  cases t <;> split_ifs at h <;> simp_all [nextChar]

lemma length_of_digitLoop {base : ℤ} {a' : Acc} (h : digitLoop neg base t z a = some (a', s)) :
    s.length ≤ t.length := by
  fun_induction digitLoop neg base t z a with
  | case1 => simp_all
  | case2 => simp_all
  | case3 => cases h
  | case4 a z d hd hlt c t ih => exact (ih h).trans (Nat.le_succ _)

lemma reads_of_strtol {numstr : List UInt8} {r : Strtol} (h : strtol numstr 10 = some r) :
    ∃ c t, skipLoop numstr = some (c, t) ∧ numstr.length - t.length ≤ r.reads := by
  cases hskip : skipLoop numstr with
  | none => simp [strtol, hskip] at h
  | some ct =>
    obtain ⟨c, t⟩ := ct
    refine ⟨c, t, rfl, ?_⟩
    cases hsign : readSign c t with
    | none => simp [strtol, hskip, hsign] at h
    | some nzs =>
      obtain ⟨neg, z, s⟩ := nzs
      cases hloop : digitLoop neg 10 s z ⟨0, 0⟩ with
      | none => simp [strtol, hskip, hsign, readBase_ten, hloop] at h
      | some as =>
        obtain ⟨a, s'⟩ := as
        simp only [strtol, hskip, hsign, readBase_ten, hloop, Option.bind_eq_bind, Option.bind_some,
          Option.pure_def, Option.some.injEq] at h
        have hs := length_of_readSign hsign
        have hs' := length_of_digitLoop hloop
        rw [← h]
        show _ ≤ numstr.length - s'.length
        omega

/-! ## strtonum -/

/-- What `strtonum` answers for a value that `strtol` returns. -/
def answer (minval maxval val : ℤ) (reads : ℕ) : Strtonum :=
  if val < minval then ⟨minval, some .tooSmall, reads⟩
  else if val > maxval then ⟨maxval, some .tooLarge, reads⟩
  else ⟨val, none, reads⟩

variable {minval maxval : ℤ} {after l : List UInt8} {blank : UInt8 → Bool}

lemma strtonum_eq {numstr : List UInt8} {r : Strtol} (hr : strtol numstr 10 = some r) :
    strtonum numstr minval maxval =
      if r.endptr = 0 then some ⟨0, some .invalid, r.reads⟩
      else (numstr[r.endptr]?).map fun c =>
        if c ≠ 0 then ⟨0, some .invalid, max r.reads (r.endptr + 1)⟩
        else answer minval maxval r.val (max r.reads (r.endptr + 1)) := by
  simp only [strtonum, hr, Option.bind_eq_bind, Option.bind_some]
  by_cases h0 : r.endptr = 0
  · rw [if_pos h0, if_pos h0]
    rfl
  · rw [if_neg h0, if_neg h0]
    cases numstr[r.endptr]? <;> rfl

/-- A string without anything to stop at is read to its NUL, and on. -/
lemma lt_reads_of_forall (hs : ∀ c ∈ s, isSkipped c = true) {r : Strtonum}
    (h : strtonum (s ++ 0 :: after) minval maxval = some r) : s.length + 1 < r.reads := by
  cases hr : strtol (s ++ 0 :: after) 10 with
  | none => simp [strtonum, hr] at h
  | some r' =>
    obtain ⟨c, t, hskip, hreads⟩ := reads_of_strtol hr
    rw [skipLoop_append hs, skipLoop, if_pos (by decide)] at hskip
    have ht := length_of_skipLoop hskip
    have hle : r'.reads ≤ r.reads := by
      rw [strtonum_eq hr] at h
      unfold answer at h
      grind
    rw [List.length_append, List.length_cons] at hreads
    omega

lemma skipSign_cons (c : UInt8) (t : List UInt8) :
    skipSign (c :: t) = if c = byte '-' ∨ c = byte '+' then t else c :: t := rfl

lemma skipSign_append (c : UInt8) (t u : List UInt8) : skipSign (c :: t ++ u) = skipSign (c :: t) ++ u := by
  rw [List.cons_append, skipSign_cons, skipSign_cons]
  split_ifs <;> rfl

lemma exists_append_skipSign (l : List UInt8) : ∃ sign, l = sign ++ skipSign l := by
  cases l with
  | nil => exact ⟨[], rfl⟩
  | cons c t =>
    rw [skipSign_cons]
    split_ifs
    · exact ⟨[c], rfl⟩
    · exact ⟨[], rfl⟩

/-- What stops the digits of a string is a character of the string, or its NUL. -/
lemma strtonum_split (hs : s = bs ++ c :: t) (hbs : ∀ c ∈ bs, isSkipped c = true)
    (hc : isSkipped c = false) (hsplit : skipSign (c :: t) ++ 0 :: after = ds ++ x :: tail)
    (hds : ∀ c ∈ ds, isDigit c = true) (hx : isDigit x = false) :
    strtonum (s ++ 0 :: after) minval maxval = some (
      if ds = [] ∨ x ≠ 0 then ⟨0, some .invalid, (s ++ 0 :: after).length - tail.length⟩
      else answer minval maxval (clamp (signed (decide (c = byte '-')) (natValue ds)))
        ((s ++ 0 :: after).length - tail.length)) := by
  rw [← skipSign_append] at hsplit
  have hnum : s ++ 0 :: after = bs ++ c :: (t ++ 0 :: after) := by rw [hs]; simp
  obtain ⟨sign, hsign⟩ := exists_append_skipSign (c :: t ++ 0 :: after)
  have hpre : s ++ 0 :: after = (bs ++ sign ++ ds) ++ x :: tail := by
    rw [hnum, ← List.cons_append, hsign, hsplit]
    simp
  have hlen : (s ++ 0 :: after).length - tail.length = (bs ++ sign ++ ds).length + 1 := by
    rw [hpre, List.length_append, List.length_cons]
    omega
  rw [strtonum_eq (strtol_eq hnum hbs hc hsplit hds hx), hlen, Nat.add_sub_cancel]
  by_cases hnil : ds = []
  · simp [hnil]
  · have hpos : (bs ++ sign ++ ds).length ≠ 0 := by
      have := List.length_pos_of_ne_nil hnil
      rw [List.length_append]
      omega
    have hend : (s ++ 0 :: after)[(bs ++ sign ++ ds).length]? = some x := by
      rw [hpre, List.getElem?_append_right le_rfl, Nat.sub_self]
      rfl
    simp only [ne_eq, hnil, not_false_eq_true, if_true, hpos, if_false, hend, Option.map_some, false_or,
      max_self]

/-- The digits that a string begins with. -/
lemma exists_digits (l : List UInt8) : ∃ ds more, l = ds ++ more ∧ (∀ c ∈ ds, isDigit c = true) ∧
    (more = [] ∨ ∃ x tail, more = x :: tail ∧ isDigit x = false) := by
  induction l with
  | nil => exact ⟨[], [], rfl, by simp, .inl rfl⟩
  | cons c l ih =>
    cases hc : isDigit c with
    | false => exact ⟨[], c :: l, rfl, by simp, .inr ⟨c, l, rfl, hc⟩⟩
    | true =>
      obtain ⟨ds, more, rfl, hds, hmore⟩ := ih
      exact ⟨c :: ds, more, rfl, List.forall_mem_cons.mpr ⟨hc, hds⟩, hmore⟩

lemma numeral_cons (v : ℤ) : Numeral (c :: t) v ↔ skipSign (c :: t) ≠ [] ∧
    (∀ d ∈ skipSign (c :: t), isDigit d = true) ∧
      v = signed (decide (c = byte '-')) (natValue (skipSign (c :: t))) := by
  simp [Numeral, signed]

/-- `strtonum` answers by the value of the numeral, or rejects the string when there is none. -/
lemma strtonum_cases (minval maxval : ℤ) (after : List UInt8) (h0 : 0 ∉ s) (hs : s = bs ++ c :: t)
    (hbs : ∀ c ∈ bs, isSkipped c = true) (hc : isSkipped c = false) :
    (∃ v, Numeral (c :: t) v ∧ strtonum (s ++ 0 :: after) minval maxval =
      some (answer minval maxval (clamp v) (s.length + 1))) ∨
    ((∀ v, ¬ Numeral (c :: t) v) ∧ ∃ reads ≤ s.length + 1,
      strtonum (s ++ 0 :: after) minval maxval = some ⟨0, some .invalid, reads⟩) := by
  have hlen : (s ++ 0 :: after).length - after.length = s.length + 1 := by
    rw [List.length_append, List.length_cons]
    omega
  obtain ⟨ds, more, hbody, hds, rfl | ⟨x, tail, rfl, hx⟩⟩ := exists_digits (skipSign (c :: t))
  · -- the NUL stops the digits
    rw [List.append_nil] at hbody
    rw [strtonum_split hs hbs hc (by rw [hbody]) hds (by decide), hlen]
    by_cases hnil : ds = []
    · refine .inr ⟨fun v hv => ?_, s.length + 1, le_rfl, by rw [if_pos (.inl hnil)]⟩
      exact ((numeral_cons v).mp hv).1 (hbody.trans hnil)
    · refine .inl ⟨_, (numeral_cons _).mpr ⟨hbody ▸ hnil, hbody ▸ hds, rfl⟩, ?_⟩
      rw [if_neg (by simp [hnil]), hbody]
  · have hmem : x ∈ skipSign (c :: t) := by rw [hbody]; simp
    have hx0 : x ≠ 0 := by
      rintro rfl
      obtain ⟨sign, hsign⟩ := exists_append_skipSign (c :: t)
      exact h0 (hs ▸ List.mem_append_right bs (hsign ▸ List.mem_append_right sign hmem))
    refine .inr ⟨fun v hv => ?_, (s ++ 0 :: after).length - (tail ++ 0 :: after).length, ?_, ?_⟩
    · have := ((numeral_cons v).mp hv).2.1 x hmem
      rw [hx] at this
      exact Bool.noConfusion this
    · simp only [List.length_append, List.length_cons]
      omega
    · have hsplit : skipSign (c :: t) ++ 0 :: after = ds ++ x :: (tail ++ 0 :: after) := by
        rw [hbody, List.append_assoc, List.cons_append]
      rw [strtonum_split hs hbs hc hsplit hds hx, if_pos (.inr hx0)]

/-- A numeral does not begin with a character that `strtol` skips. -/
lemma Numeral.exists_cons {v : ℤ} (h : Numeral l v) : ∃ c t, l = c :: t ∧ isSkipped c = false := by
  cases l with
  | nil => exact absurd rfl h.1
  | cons c t =>
    refine ⟨c, t, rfl, ?_⟩
    obtain ⟨-, hdigits, -⟩ := h
    rw [skipSign_cons] at hdigits
    split_ifs at hdigits with hsign
    · rcases hsign with rfl | rfl <;> decide
    · have hc := isDigit_iff_toNat.mp (hdigits c (List.mem_cons_self ..))
      rw [Bool.eq_false_iff, ne_eq, isSkipped_iff_toNat]
      omega

/-- The blanks before a number are what `strtol` skips. -/
lemma isNumber_iff (hblank : ∀ c, blank c = true → isSkipped c = true) (hs : s = bs ++ c :: t)
    (hbs : ∀ c ∈ bs, isSkipped c = true) (hc : isSkipped c = false) (v : ℤ) :
    IsNumber blank s v ↔ (∀ c ∈ bs, blank c = true) ∧ Numeral (c :: t) v := by
  constructor
  · rintro ⟨bs', l, hs', hbs', hl⟩
    obtain ⟨c', t', rfl, hc'⟩ := hl.exists_cons
    have htake : bs = bs' := by
      have h := congrArg (List.takeWhile isSkipped) (hs.symm.trans hs')
      rwa [List.takeWhile_append_of_pos hbs, List.takeWhile_append_of_pos fun c h => hblank c (hbs' c h),
        List.takeWhile_cons_of_neg (by simp [hc]), List.takeWhile_cons_of_neg (by simp [hc']),
        List.append_nil, List.append_nil] at h
    subst htake
    rw [hs, List.append_cancel_left_eq] at hs'
    exact ⟨hbs', hs' ▸ hl⟩
  · rintro ⟨hb, hl⟩
    exact ⟨bs, c :: t, hs, hb, hl⟩

lemma clamp_cases (hmin : LONG_MIN ≤ minval) (hle : minval ≤ maxval) (hmax : maxval ≤ LONG_MAX) (v : ℤ) :
    minval ≤ clamp v ∧ clamp v ≤ maxval ↔
      (minval ≤ v ∧ v ≤ maxval) ∨ (LONG_MAX < v ∧ maxval = LONG_MAX) ∨ (v < LONG_MIN ∧ minval = LONG_MIN) := by
  simp only [clamp, LONG_MIN, LONG_MAX] at *
  omega

lemma answer_errstr {reads : ℕ} {val : ℤ} :
    (answer minval maxval val reads).errstr = none ↔ minval ≤ val ∧ val ≤ maxval := by
  unfold answer
  split_ifs <;> simp <;> omega

lemma answer_reads {reads : ℕ} {val : ℤ} : (answer minval maxval val reads).reads = reads := by
  unfold answer
  split_ifs <;> rfl

lemma answer_val {reads : ℕ} {val : ℤ} (hmin : minval ≤ val) (hmax : val ≤ maxval) :
    (answer minval maxval val reads).val = val := by
  rw [answer, if_neg (by omega), if_neg (by omega)]

lemma Numeral.unique {v v' : ℤ} (h : Numeral l v) (h' : Numeral l v') : v = v' := h.2.2.trans h'.2.2.symm

lemma isSkipped_of_isspace (h : isspace c = true) : isSkipped c = true := by
  simp only [isspace, List.contains_eq_mem, List.mem_cons, List.not_mem_nil, or_false,
    decide_eq_true_iff] at h
  rcases h with rfl | rfl | rfl | rfl | rfl | rfl <;> decide

/-- A string in which `strtol` finds something that it does not skip. -/
lemma exists_eq_append_cons (h : ∃ c ∈ s, isSkipped c = false) :
    ∃ c t, s.dropWhile isSkipped = c :: t ∧ isSkipped c = false := by
  cases hd : s.dropWhile isSkipped with
  | nil =>
    obtain ⟨c, hmem, hc⟩ := h
    have := List.dropWhile_eq_nil_iff.mp hd c hmem
    rw [hc] at this
    exact Bool.noConfusion this
  | cons c t =>
    have hhead := List.head_dropWhile_not isSkipped (l := s) (by simp [hd])
    simp only [hd, List.head_cons] at hhead
    exact ⟨c, t, rfl, hhead⟩

/-- `strtonum` validates a string exactly if there is something that it does not skip and if, when that is
a numeral, it skips nothing but blanks before a number that is in the range, and does not take a number
beyond the range of `long` for the end of the range. -/
theorem validates_iff (hblank : ∀ c, blank c = true → isspace c = true) (s : CString)
    (after : List UInt8) (hmin : LONG_MIN ≤ minval) (hle : minval ≤ maxval) (hmax : maxval ≤ LONG_MAX) :
    Validates blank s after minval maxval ↔
      (∃ c ∈ s.1, isSkipped c = false) ∧ ∀ v, Numeral (s.1.dropWhile isSkipped) v →
        (minval ≤ v → v ≤ maxval → ∀ c ∈ s.1.takeWhile isSkipped, blank c = true) ∧
        ¬ (LONG_MAX < v ∧ maxval = LONG_MAX) ∧ ¬ (v < LONG_MIN ∧ minval = LONG_MIN) := by
  by_cases hex : ∃ c ∈ s.1, isSkipped c = false
  swap
  · have hall : ∀ c ∈ s.1, isSkipped c = true := by simpa using hex
    refine iff_of_false ?_ fun h => hex h.1
    rintro ⟨r, hr, hreads, -⟩
    exact absurd (lt_reads_of_forall hall hr) (by omega)
  obtain ⟨c, t, hdrop, hc⟩ := exists_eq_append_cons hex
  have hs : s.1 = s.1.takeWhile isSkipped ++ c :: t := by
    rw [← hdrop, List.takeWhile_append_dropWhile]
  have hbs : ∀ c ∈ s.1.takeWhile isSkipped, isSkipped c = true := fun c h => List.mem_takeWhile_imp h
  have hnum : ∀ v, IsNumber blank s.1 v ↔
      (∀ c ∈ s.1.takeWhile isSkipped, blank c = true) ∧ Numeral (c :: t) v :=
    isNumber_iff (fun c h => isSkipped_of_isspace (hblank c h)) hs hbs hc
  rw [and_iff_right hex, hdrop]
  simp only [Validates, hnum]
  obtain ⟨v, hv, hrun⟩ | ⟨hno, reads, hreads, hrun⟩ := strtonum_cases minval maxval after s.2 hs hbs hc
  · simp only [hrun, Option.some.injEq, exists_eq_left', answer_errstr, answer_reads, le_refl, true_and,
      clamp_cases hmin hle hmax]
    constructor
    · rintro ⟨herr, -⟩ v' hv'
      obtain rfl := hv.unique hv'
      refine ⟨fun hlo hhi => ?_, fun hhigh => ?_, fun hlow => ?_⟩
      · obtain ⟨_, ⟨hb, -⟩, -⟩ := herr.mp (.inl ⟨hlo, hhi⟩)
        exact hb
      · obtain ⟨v', ⟨-, hv'⟩, -, hhi⟩ := herr.mp (.inr (.inl hhigh))
        obtain rfl := hv.unique hv'
        omega
      · obtain ⟨v', ⟨-, hv'⟩, hlo, -⟩ := herr.mp (.inr (.inr hlow))
        obtain rfl := hv.unique hv'
        omega
    · intro h
      obtain ⟨hb, hhigh, hlow⟩ := h v hv
      refine ⟨⟨fun hcases => ?_, ?_⟩, ?_⟩
      · obtain ⟨hlo, hhi⟩ := (hcases.resolve_right (not_or.mpr ⟨hhigh, hlow⟩))
        exact ⟨v, ⟨hb hlo hhi, hv⟩, hlo, hhi⟩
      · rintro ⟨v', ⟨-, hv'⟩, hrange⟩
        obtain rfl := hv.unique hv'
        exact .inl hrange
      · rintro v' ⟨-, hv'⟩ hlo hhi
        obtain rfl := hv.unique hv'
        have hclamp : clamp v = v := by simp only [clamp, LONG_MIN, LONG_MAX] at *; omega
        rw [hclamp, answer_val hlo hhi]
  · simp [hrun, hno, hreads]

/-- `" -7"`, in the range from -9 to 9. -/
theorem validates_iff_seven :
    LONG_MIN ≤ -9 ∧ Validates isspace [byte ' ', byte '-', byte '7'] [] (-9) 9 := by
  refine ⟨by decide, (validates_iff (fun _ h => h) ⟨_, by decide⟩ [] (by decide) (by decide)
    (by decide)).mpr ⟨⟨byte '7', by decide, by decide⟩, fun v hv => ?_⟩⟩
  have hv : v = -7 := hv.2.2
  have htake : [byte ' ', byte '-', byte '7'].takeWhile isSkipped = [byte ' '] := by decide
  subst hv
  refine ⟨fun _ _ => ?_, by decide, by decide⟩
  rw [htake]
  exact List.forall_mem_singleton.mpr (by decide)

/-- The empty string, with the string `"5"` behind it in the memory; `"99999999999"`, in the range up to
`LONG_MAX`; and a `"5"` behind a control character. -/
theorem not_validates :
    ¬ Validates isspace [] [byte '5', 0] 0 9 ∧
    ¬ Validates isspace (List.replicate 11 (byte '9')) [] 1 LONG_MAX ∧
    ¬ Validates isspace [1, byte '5'] [] 0 9 := by
  have hskip : ∀ c, isspace c = true → isSkipped c = true := fun _ h => isSkipped_of_isspace h
  refine ⟨?_, ?_, ?_⟩
  · rintro ⟨r, hr, hreads, -⟩
    have hrun : strtonum [0, byte '5', 0] 0 9 = some ⟨5, none, 3⟩ := by decide
    obtain rfl := Option.some.inj (hrun.symm.trans hr)
    exact absurd hreads (by decide)
  · rintro ⟨r, hr, -, herr, -⟩
    have hrun : strtonum (List.replicate 11 (byte '9') ++ [0]) 1 LONG_MAX = some ⟨LONG_MAX, none, 12⟩ := by
      decide
    obtain rfl := Option.some.inj (hrun.symm.trans hr)
    obtain ⟨v, hv, -, hle⟩ := herr.mp rfl
    have hval := ((isNumber_iff hskip (List.nil_append _).symm (by simp) (by decide) v).mp hv).2.2.2
    rw [hval] at hle
    exact absurd hle (by decide)
  · rintro ⟨r, hr, -, herr, -⟩
    have hrun : strtonum [1, byte '5', 0] 0 9 = some ⟨5, none, 3⟩ := by decide
    obtain rfl := Option.some.inj (hrun.symm.trans hr)
    obtain ⟨v, hv, -⟩ := herr.mp rfl
    have hblank := ((isNumber_iff hskip (List.singleton_append).symm
      (List.forall_mem_singleton.mpr (by decide)) (by decide) v).mp hv).1
    exact absurd (hblank 1 (by simp)) (by decide)

end Xv7.Ulib
