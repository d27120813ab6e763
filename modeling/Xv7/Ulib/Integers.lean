import Mathlib.Data.Nat.Digits.Lemmas
import Xv7.Ulib.Printf

/-!
# Decimal numbers, written and read

Integers are written by `printint` of the kernel's console, by `printint` of the user library, and by
`snprintf` and `sprintf`; `scanf` reads them. The two `printint`s give the decimal numeral of every
integer. `snprintf` and `sprintf` do, except for the smallest one, and `scanf` reads back the numbers that
are not negative, because `atoi` is called on the sign.
-/

namespace Xv7.Ulib

/-! ## The writers -/

/-- The `do` loop of both `printint`s, which are called with the bases 10 and 16. -/
def printLoop (digits : List UInt8) (base x : ℕ) (buf : List UInt8) : List UInt8 :=
  if 1 < base ∧ x / base ≠ 0 then
    printLoop digits base (x / base) (buf ++ [digits.getD (x % base) 0])
  else buf ++ [digits.getD (x % base) 0]
  termination_by x
  decreasing_by
    refine Nat.div_lt_self (Nat.pos_of_ne_zero ?_) (by omega)
    rintro rfl
    simp_all

/-- What is in the buffer of a `printint` with the given digits. -/
def printintBuf (digits : List UInt8) (xx : BitVec 32) (base : ℕ) (sign : Bool) : List UInt8 :=
  let neg := sign && decide (xx.toInt < 0)
  let x := if neg then (-xx).toNat else xx.toNat
  let buf := printLoop digits base x []
  if neg then buf ++ [byte '-'] else buf

/-- `digits` of `console.c`. -/
def lowerDigits : List UInt8 := "0123456789abcdef".toList.map byte

/-- `digits` of `printf.c`. -/
def upperDigits : List UInt8 := "0123456789ABCDEF".toList.map byte

/-- `printint` of `console.c`: the bytes for `consputc`. -/
def consolePrintint (xx : BitVec 32) (base : ℕ) (sign : Bool) : List UInt8 :=
  (printintBuf lowerDigits xx base sign).reverse

/-- `printint` of `printf.c`: the bytes for `putc`. -/
def printint (xx : BitVec 32) (base : ℕ) (sgn : Bool) : List UInt8 :=
  (printintBuf upperDigits xx base sgn).reverse

/-! ## The reader -/

/-- The loop of `gets`, which may read `n` more bytes. -/
def getsLoop : ℕ → List UInt8 → List UInt8
  | 0, _ => []
  | _ + 1, [] => []
  | n + 1, c :: l => c :: if c = byte '\n' ∨ c = byte '\r' then [] else getsLoop n l

/-- `gets`: the bytes it puts before the NUL. -/
def gets (max : ℕ) (stream : List UInt8) : List UInt8 := getsLoop (max - 1) stream

/-- `'0' <= c && c <= '9'`. -/
def isDigit (c : UInt8) : Bool := byte '0' ≤ c && c ≤ byte '9'

/-- The blanks that `scanf` skips. -/
def isSpace (c : UInt8) : Bool := [byte ' ', byte '\t', byte '\n', byte '\r'].contains c

/-- `atoi`. -/
def atoi (s : List UInt8) : BitVec 32 :=
  (s.takeWhile isDigit).foldl
    (fun n c => n * 10 + BitVec.ofNat 32 c.toNat - BitVec.ofNat 32 (byte '0').toNat) 0

/-- What `scanf` stores to an argument. -/
inductive Assigned where
  | str (s : List UInt8)
  | int (v : BitVec 32)
  deriving DecidableEq

/-- What `scanf` stored so far, and `items_assigned`. -/
structure Scanned where
  dests : List Assigned
  items : ℕ
  deriving DecidableEq

/-- `*input == '-'` or `*input == '+'`: the token without its sign. -/
def skipSign (token : List UInt8) : List UInt8 :=
  match token with
  | [] => []
  | c :: rest => if c = byte '-' ∨ c = byte '+' then rest else token

/-- The loop of `scanf` over its format. -/
def scanLoop : List UInt8 → List UInt8 → Scanned → Scanned
  | [], _, r => r
  | f :: fmt, input, r =>
    if f = byte ' ' ∨ f = byte '\t' ∨ f = byte '\n' then scanLoop fmt (input.dropWhile isSpace) r
    else if f ≠ byte '%' then
      match input with
      | [] => r
      | c :: rest => if c = f then scanLoop fmt rest r else r
    else
      match fmt with
      | [] => r
      | d :: fmt =>
        let token := input.dropWhile isSpace
        if d = byte 's' then
          let word := token.takeWhile (! isSpace ·)
          scanLoop fmt (token.drop word.length)
            ⟨r.dests ++ [.str word], if word.length > 0 then r.items + 1 else r.items⟩
        else if d = byte 'd' then
          -- the sign is skipped in the input, but `atoi` gets the token with it
          let number := skipSign token
          if number.head?.any isDigit then
            scanLoop fmt (number.dropWhile isDigit) ⟨r.dests ++ [.int (atoi token)], r.items + 1⟩
          else r
        else r

/-- `scanf`: what it stores to its arguments, and what it returns. -/
def scanf (fmt : CString) (stream : List UInt8) : Scanned :=
  scanLoop fmt ((gets 500 stream).takeWhile (· ≠ 0)) ⟨[], 0⟩

/-! ## Numerals -/

/-- A decimal digit. -/
def digit (d : ℕ) : UInt8 := UInt8.ofNat ((byte '0').toNat + d)

/-- The digits of a number, the last one first; zero has one. -/
def digitsOf (n : ℕ) : List ℕ := if n = 0 then [0] else Nat.digits 10 n

/-- The decimal numeral of an integer. -/
def numeral (v : ℤ) : List UInt8 :=
  (if v < 0 then [byte '-'] else []) ++ ((digitsOf v.natAbs).map digit).reverse

lemma digitsOf_succ {n : ℕ} (h : n / 10 ≠ 0) : digitsOf n = n % 10 :: digitsOf (n / 10) := by
  unfold digitsOf
  rw [if_neg (by omega), if_neg h, Nat.digits_def' (by omega) (by omega)]

lemma digitsOf_lt {n : ℕ} (h : n / 10 = 0) : digitsOf n = [n % 10] := by
  have hn : n < 10 := by omega
  unfold digitsOf
  split_ifs with h0
  · rw [h0]
  · rw [Nat.digits_of_lt 10 n h0 hn, Nat.mod_eq_of_lt hn]

lemma lt_ten_of_mem {n d : ℕ} (hd : d ∈ digitsOf n) : d < 10 := by
  unfold digitsOf at hd
  split_ifs at hd with h
  · rw [List.mem_singleton.mp hd]
    decide
  · exact Nat.digits_lt_base (by decide) hd

/-- A number of 32 bits has at most ten digits. -/
lemma length_digitsOf_le {n : ℕ} (h : n < 2 ^ 32) : (digitsOf n).length ≤ 10 := by
  unfold digitsOf
  split_ifs
  · decide
  · exact (Nat.digits_length_le_iff (by decide) n).mpr (by omega)

lemma digitsOf_ne_nil (n : ℕ) : digitsOf n ≠ [] := by
  unfold digitsOf
  split_ifs with h
  · exact List.cons_ne_nil _ _
  · exact Nat.digits_ne_nil_iff_ne_zero.mpr h

/-! ## What the writers write -/

lemma getD_lowerDigits {d : ℕ} (h : d < 10) : lowerDigits.getD d 0 = digit d := by
  interval_cases d <;> decide

lemma getD_upperDigits {d : ℕ} (h : d < 10) : upperDigits.getD d 0 = digit d := by
  interval_cases d <;> decide

lemma printLoop_eq {digits : List UInt8} (hdigits : ∀ d < 10, digits.getD d 0 = digit d) (x : ℕ)
    (buf : List UInt8) : printLoop digits 10 x buf = buf ++ (digitsOf x).map digit := by
  induction x using Nat.strong_induction_on generalizing buf with
  | _ x ih =>
    rw [printLoop, hdigits _ (Nat.mod_lt x (by decide))]
    by_cases hx : x / 10 = 0
    · rw [if_neg (fun h => h.2 hx), digitsOf_lt hx]
      rfl
    · rw [if_pos ⟨by decide, hx⟩, ih (x / 10) (by omega), digitsOf_succ hx, List.append_assoc]
      rfl

lemma decimalLoop_eq (x : ℕ) (numbuf : List UInt8) :
    decimalLoop x numbuf = numbuf ++ (Nat.digits 10 x).map digit := by
  induction x using Nat.strong_induction_on generalizing numbuf with
  | _ x ih =>
    rw [decimalLoop]
    by_cases hx : x = 0
    · subst hx
      simp
    · have htdiv : (x : ℤ).tdiv 10 = (x / 10 : ℕ) := by
        rw [Int.tdiv_eq_ediv_of_nonneg (by omega)]
        rfl
      have htmod : ((x : ℤ).tmod 10).toNat = x % 10 := by
        rw [Int.tmod_eq_emod_of_nonneg (by omega)]
        omega
      rw [if_pos (by omega), htdiv, htmod, ih (x / 10) (by omega),
        Nat.digits_def' (by decide) (Nat.pos_of_ne_zero hx), List.map_cons, List.append_assoc]
      rfl

variable {v : BitVec 32}

/-- The absolute value of a negative number, as an unsigned one. -/
lemma toNat_neg_eq (h : v.toInt < 0) : (-v).toNat = v.toInt.natAbs := by
  have hv := BitVec.toInt_eq_toNat_cond v
  have hlt := v.isLt
  rw [BitVec.toNat_neg]
  split_ifs at hv
  · omega
  · omega

lemma toNat_eq_natAbs (h : ¬ v.toInt < 0) : v.toNat = v.toInt.natAbs := by
  have hv := BitVec.toInt_eq_toNat_cond v
  have hlt := v.isLt
  split_ifs at hv
  · omega
  · omega

lemma printintBuf_eq {digits : List UInt8} (hdigits : ∀ d < 10, digits.getD d 0 = digit d)
    (v : BitVec 32) : printintBuf digits v 10 true = (digitsOf v.toInt.natAbs).map digit ++
      if v.toInt < 0 then [byte '-'] else [] := by
  unfold printintBuf
  simp only [Bool.true_and, decide_eq_true_eq]
  by_cases hneg : v.toInt < 0
  · rw [if_pos hneg, if_pos hneg, if_pos hneg, printLoop_eq hdigits, toNat_neg_eq hneg, List.nil_append]
  · rw [if_neg hneg, if_neg hneg, if_neg hneg, printLoop_eq hdigits, toNat_eq_natAbs hneg, List.nil_append,
      List.append_nil]

/-- Both `printint`s write the numeral. -/
lemma reverse_printintBuf {digits : List UInt8} (hdigits : ∀ d < 10, digits.getD d 0 = digit d)
    (v : BitVec 32) : (printintBuf digits v 10 true).reverse = numeral v.toInt := by
  rw [printintBuf_eq hdigits, List.reverse_append]
  unfold numeral
  split_ifs <;> rfl

lemma natAbs_toInt_lt (v : BitVec 32) : v.toInt.natAbs < 2 ^ 32 := by
  have h1 := BitVec.toInt_lt (x := v)
  have h2 := BitVec.le_toInt (x := v)
  norm_num at h1 h2 ⊢
  omega

/-- The numeral with its sign fits into the 16 bytes of `buf`. -/
lemma length_printintBuf_le {digits : List UInt8} (hdigits : ∀ d < 10, digits.getD d 0 = digit d)
    (v : BitVec 32) : (printintBuf digits v 10 true).length ≤ 16 := by
  have hlen := length_digitsOf_le (natAbs_toInt_lt v)
  rw [printintBuf_eq hdigits, List.length_append, List.length_map]
  split_ifs <;> simp <;> omega

/-- `numbuf` holds the numeral, unless the number is the smallest one. -/
lemma decimalBuf_eq (h : v ≠ BitVec.intMin 32) : decimalBuf v = (digitsOf v.toInt.natAbs).map digit ++
    if v.toInt < 0 then [byte '-'] else [] := by
  have habs : (if v.toInt < 0 then (-v).toInt else v.toInt) = v.toInt.natAbs := by
    split_ifs with hneg
    · rw [BitVec.toInt_neg_of_ne_intMin h]
      omega
    · omega
  unfold decimalBuf
  simp only [habs]
  have hbuf : (if (v.toInt.natAbs : ℤ) = 0 then [byte '0'] else decimalLoop v.toInt.natAbs []) =
      (digitsOf v.toInt.natAbs).map digit := by
    unfold digitsOf
    by_cases h0 : v.toInt.natAbs = 0
    · rw [if_pos (by omega), if_pos h0]
      rfl
    · rw [if_neg (by omega), if_neg h0, decimalLoop_eq]
      rfl
  rw [hbuf]
  split_ifs
  · rfl
  · exact (List.append_nil _).symm

/-- The smallest number has a sign and no digits. -/
lemma decimalBuf_intMin : decimalBuf (BitVec.intMin 32) = [byte '-'] := by
  have hneg : (-BitVec.intMin 32).toInt = -2147483648 := by decide
  have hmin : (BitVec.intMin 32).toInt = -2147483648 := by decide
  unfold decimalBuf
  simp only [hneg, hmin]
  rw [decimalLoop]
  rfl

lemma length_decimalBuf_le (v : BitVec 32) : (decimalBuf v).length ≤ 16 := by
  by_cases h : v = BitVec.intMin 32
  · rw [h, decimalBuf_intMin]
    decide
  · have hlen := length_digitsOf_le (natAbs_toInt_lt v)
    rw [decimalBuf_eq h, List.length_append, List.length_map]
    split_ifs <;> simp <;> omega

lemma reverse_decimalBuf (h : v ≠ BitVec.intMin 32) : (decimalBuf v).reverse = numeral v.toInt := by
  rw [decimalBuf_eq h, List.reverse_append]
  unfold numeral
  split_ifs <;> rfl

/-! ## What the reader reads -/

/-- The format `%d`. -/
def percentD : CString := ⟨[byte '%', byte 'd'], by decide⟩

lemma render_percentD (v : BitVec 32) : render percentD [.int v] = some (decimalBuf v).reverse := by
  simp [percentD, render, directive]

lemma digit_props {d : ℕ} (h : d < 10) : isDigit (digit d) = true ∧ isSpace (digit d) = false ∧
    digit d ≠ 0 ∧ digit d ≠ byte '\n' ∧ digit d ≠ byte '\r' ∧ digit d ≠ byte '-' ∧ digit d ≠ byte '+' ∧
    (digit d).toNat = (byte '0').toNat + d := by
  interval_cases d <;> decide

lemma gets_append {l : List UInt8} (hl : ∀ c ∈ l, c ≠ byte '\n' ∧ c ≠ byte '\r') {n : ℕ}
    (hn : l.length ≤ n) (tail : List UInt8) :
    getsLoop n (l ++ tail) = l ++ getsLoop (n - l.length) tail := by
  induction l generalizing n with
  | nil => rfl
  | cons c l ih =>
    rw [List.length_cons] at hn
    obtain ⟨n, rfl⟩ := Nat.exists_eq_add_of_le' (show 1 ≤ n by omega)
    have hc := hl c List.mem_cons_self
    rw [List.cons_append, getsLoop, if_neg (not_or.mpr hc), ih (fun c h => hl c (List.mem_cons_of_mem _ h))
      (by omega), List.length_cons, Nat.add_sub_add_right]
    rfl

/-- What is left in the buffer of `scanf` begins as the input does. -/
lemma head_gets {n : ℕ} {tail : List UInt8} {c : UInt8}
    (h : ((getsLoop n tail).takeWhile (· ≠ 0)).head? = some c) : tail.head? = some c := by
  cases n with
  | zero => cases h
  | succ n =>
    cases tail with
    | nil => cases h
    | cons b l =>
      rw [getsLoop, List.takeWhile_cons] at h
      by_cases hb : decide (b ≠ 0) = true
      · rw [if_pos hb] at h
        exact h
      · rw [if_neg hb] at h
        cases h

/-- The value of a list of digits. -/
lemma foldr_digits {l : List ℕ} (hl : ∀ d ∈ l, d < 10) :
    (l.map digit).foldr (fun c n => n * 10 + BitVec.ofNat 32 c.toNat - BitVec.ofNat 32 (byte '0').toNat) 0 =
      BitVec.ofNat 32 (Nat.ofDigits 10 l) := by
  induction l with
  | nil => rfl
  | cons d l ih =>
    have hd := (digit_props (hl d List.mem_cons_self)).2.2.2.2.2.2.2
    rw [List.map_cons, List.foldr_cons, ih fun d h => hl d (List.mem_cons_of_mem _ h), hd,
      Nat.ofDigits_cons, BitVec.ofNat_add, BitVec.ofNat_add, BitVec.ofNat_mul]
    rw [BitVec.add_comm (BitVec.ofNat 32 (byte '0').toNat), ← BitVec.add_assoc, BitVec.add_sub_cancel,
      BitVec.add_comm, BitVec.mul_comm]
    rfl

lemma ofDigits_digitsOf (n : ℕ) : Nat.ofDigits 10 (digitsOf n) = n := by
  unfold digitsOf
  split_ifs with h
  · rw [h]
    rfl
  · exact Nat.ofDigits_digits 10 n

/-- `atoi` reads a numeral without a sign. -/
lemma atoi_digits (n : ℕ) {tail : List UInt8} (htail : ∀ c, tail.head? = some c → isDigit c = false) :
    atoi (((digitsOf n).map digit).reverse ++ tail) = BitVec.ofNat 32 n := by
  have hall : ∀ c ∈ ((digitsOf n).map digit).reverse, isDigit c = true := by
    intro c hc
    obtain ⟨d, hd, rfl⟩ := List.mem_map.mp (List.mem_reverse.mp hc)
    exact (digit_props (lt_ten_of_mem hd)).1
  have hnone : tail.takeWhile isDigit = [] := by
    cases tail with
    | nil => rfl
    | cons c l =>
      rw [List.takeWhile_cons, htail c rfl]
      rfl
  unfold atoi
  rw [List.takeWhile_append_of_pos hall, hnone, List.append_nil, List.foldl_reverse,
    foldr_digits fun d hd => lt_ten_of_mem hd, ofDigits_digitsOf]

/-- `scanf("%d")` on a token that begins with no blank and, behind its sign, with a digit. -/
lemma scanLoop_percentD {token : List UInt8} {c : UInt8} (hc : token.head? = some c)
    (hspace : isSpace c = false) (hdigit : (skipSign token).head?.any isDigit = true) :
    scanLoop percentD token ⟨[], 0⟩ = ⟨[.int (atoi token)], 1⟩ := by
  have hdrop : token.dropWhile isSpace = token := by
    cases token with
    | nil => cases hc
    | cons b l =>
      obtain rfl : b = c := Option.some.inj hc
      rw [List.dropWhile_cons, hspace]
      rfl
  show scanLoop [byte '%', byte 'd'] token ⟨[], 0⟩ = _
  rw [scanLoop.eq_def]
  simp only [hdrop, hdigit]
  rfl

lemma numeral_nonneg {v : ℤ} (h : 0 ≤ v) : numeral v = ((digitsOf v.natAbs).map digit).reverse := by
  unfold numeral
  rw [if_neg (by omega), List.nil_append]

lemma numeral_neg {v : ℤ} (h : v < 0) :
    numeral v = byte '-' :: ((digitsOf v.natAbs).map digit).reverse := by
  unfold numeral
  rw [if_pos h]
  rfl

lemma mem_numeral {v : ℤ} {c : UInt8} (hc : c ∈ numeral v) :
    c ≠ 0 ∧ c ≠ byte '\n' ∧ c ≠ byte '\r' := by
  unfold numeral at hc
  rcases List.mem_append.mp hc with hc | hc
  · split_ifs at hc
    · rw [List.mem_singleton.mp hc]
      decide
    · cases hc
  · obtain ⟨d, hd, rfl⟩ := List.mem_map.mp (List.mem_reverse.mp hc)
    obtain ⟨-, -, h0, hn, hr, -⟩ := digit_props (lt_ten_of_mem hd)
    exact ⟨h0, hn, hr⟩

lemma length_numeral_le (v : BitVec 32) : (numeral v.toInt).length ≤ 11 := by
  have hlen := length_digitsOf_le (natAbs_toInt_lt v)
  unfold numeral
  rw [List.length_append, List.length_reverse, List.length_map]
  split_ifs <;> simp <;> omega

/-- The first digit of a number. -/
lemma exists_first_digit (n : ℕ) : ∃ d l, d < 10 ∧ ((digitsOf n).map digit).reverse = digit d :: l := by
  cases hr : (digitsOf n).reverse with
  | nil => exact absurd (List.reverse_eq_nil_iff.mp hr) (digitsOf_ne_nil n)
  | cons d l =>
    refine ⟨d, l.map digit, lt_ten_of_mem (List.mem_reverse.mp (hr ▸ List.mem_cons_self)), ?_⟩
    rw [← List.map_reverse, hr]
    rfl

/-- The input of `scanf` is the numeral, and behind it no digit. -/
lemma scanf_numeral (v : BitVec 32) {tail : List UInt8}
    (htail : ∀ c, tail.head? = some c → isDigit c = false) :
    ∃ rest, (∀ c, rest.head? = some c → isDigit c = false) ∧
      scanf percentD (numeral v.toInt ++ tail) = scanLoop percentD (numeral v.toInt ++ rest) ⟨[], 0⟩ := by
  have hlen := length_numeral_le v
  refine ⟨(getsLoop (499 - (numeral v.toInt).length) tail).takeWhile (· ≠ 0),
    fun c hc => htail c (head_gets hc), ?_⟩
  unfold scanf gets
  rw [gets_append (fun c hc => (mem_numeral hc).2) (by omega), List.takeWhile_append_of_pos]
  intro c hc
  simpa using (mem_numeral hc).1

/-- A number that is not negative is read back. -/
lemma scanf_nonneg (h : 0 ≤ v.toInt) {tail : List UInt8}
    (htail : ∀ c, tail.head? = some c → isDigit c = false) :
    scanf percentD (numeral v.toInt ++ tail) = ⟨[.int v], 1⟩ := by
  obtain ⟨rest, hrest, hscan⟩ := scanf_numeral v htail
  obtain ⟨d, l, hd, hfirst⟩ := exists_first_digit v.toInt.natAbs
  obtain ⟨hdigit, hspace, -, -, -, hminus, hplus, -⟩ := digit_props hd
  have hatoi := atoi_digits v.toInt.natAbs hrest
  rw [← toNat_eq_natAbs (not_lt.mpr h), BitVec.ofNat_toNat, BitVec.setWidth_eq,
    toNat_eq_natAbs (not_lt.mpr h)] at hatoi
  rw [hscan, numeral_nonneg h]
  rw [scanLoop_percentD (c := digit d) (by rw [hfirst]; rfl) hspace, hatoi]
  rw [hfirst, List.cons_append, skipSign, if_neg (not_or.mpr ⟨hminus, hplus⟩)]
  exact hdigit

/-- A negative number is read as zero. -/
lemma scanf_neg (h : v.toInt < 0) {tail : List UInt8}
    (htail : ∀ c, tail.head? = some c → isDigit c = false) :
    scanf percentD (numeral v.toInt ++ tail) = ⟨[.int 0], 1⟩ := by
  obtain ⟨rest, -, hscan⟩ := scanf_numeral v htail
  obtain ⟨d, l, hd, hfirst⟩ := exists_first_digit v.toInt.natAbs
  rw [hscan, numeral_neg h]
  rw [scanLoop_percentD (c := byte '-') rfl (by decide)]
  · rfl
  · rw [hfirst, List.cons_append, skipSign, if_pos (.inl rfl)]
    exact (digit_props hd).1

/-! ## When they agree -/

/-- All writers give the numeral of a number without overrunning their buffers of 16 bytes, and the
reader gives the number back, whatever comes behind the numeral (but no digit). -/
structure Agree (v : BitVec 32) : Prop where
  console : consolePrintint v 10 true = numeral v.toInt
  library : printint v 10 true = numeral v.toInt
  snprintf : ∀ buf (size : ℤ), (numeral v.toInt).length < size →
    ∃ o, snprintf buf size percentD [.int v] = some o ∧ o.string = numeral v.toInt
  sprintf : ∀ buf, ∃ o, sprintf buf percentD [.int v] = some o ∧ o.string = numeral v.toInt
  fits : (printintBuf lowerDigits v 10 true).length ≤ 16 ∧
    (printintBuf upperDigits v 10 true).length ≤ 16 ∧ (decimalBuf v).length ≤ 16
  scanf : ∀ tail : List UInt8, (∀ c, tail.head? = some c → isDigit c = false) →
    (scanf percentD (numeral v.toInt ++ tail)).dests = [.int v]

/-- A negative number is not read back. -/
lemma Agree.nonneg {v : BitVec 32} (h : Agree v) : 0 ≤ v.toInt := by
  by_contra hneg
  have hend : ∀ c : UInt8, ([] : List UInt8).head? = some c → isDigit c = false := fun c hc => by cases hc
  have hread := h.scanf [] hend
  rw [scanf_neg (not_le.mp hneg) hend] at hread
  have hv : 0 = v := by simpa using hread
  exact hneg (hv ▸ by decide)

/-- The writers and the reader agree on a number if and only if it is not negative. -/
theorem agree_iff (v : BitVec 32) : Agree v ↔ 0 ≤ v.toInt := by
  constructor
  · exact Agree.nonneg
  · intro h
    have hmin : v ≠ BitVec.intMin 32 := by
      rintro rfl
      exact absurd h (by decide)
    have hrender := render_percentD v
    rw [reverse_decimalBuf hmin] at hrender
    refine ⟨reverse_printintBuf (fun _ => getD_lowerDigits) v, reverse_printintBuf (fun _ => getD_upperDigits) v,
      fun buf size hsize => ⟨_, snprintf_eq buf size hrender, ?_⟩,
      fun buf => ⟨_, sprintf_eq buf hrender, (string_putAll _ buf).1⟩,
      ⟨length_printintBuf_le (fun _ => getD_lowerDigits) v, length_printintBuf_le (fun _ => getD_upperDigits) v,
        length_decimalBuf_le v⟩, fun tail htail => by rw [scanf_nonneg h htail]⟩
    rw [(string_putAll _ buf).1, List.take_of_length_le (by omega)]

/-- The numeral of -1 is read as 0; and the smallest number is written as a sign by `sprintf`, and with its
digits by `printint`. -/
theorem agree_negative : (scanf percentD [byte '-', byte '1', byte '\n']).dests = [.int 0] ∧
    (∃ o, sprintf (fun _ => 0) percentD [.int (BitVec.intMin 32)] = some o ∧ o.string = [byte '-']) ∧
    consolePrintint (BitVec.intMin 32) 10 true = "-2147483648".toList.map byte ∧ ¬ Agree (-1) := by
  refine ⟨by decide, ⟨_, sprintf_eq _ (render_percentD _), ?_⟩, ?_, ?_⟩
  · rw [(string_putAll _ _).1, decimalBuf_intMin]
    rfl
  · rw [consolePrintint, reverse_printintBuf fun _ => getD_lowerDigits]
    simp [numeral, digitsOf]
    decide
  · exact fun h => absurd h.nonneg (by decide)

end Xv7.Ulib
