import Xv7.Lib.Calendar

/-!
# Calendar time and Unix time

The kernel turns the date of the real-time clock into seconds since 1970 (`unix_converttime` in
`kernel/time.c`, with `cmostime` in `lapic.c`), and the user library turns seconds into a date (`ctime` in
`ulib/time.c`). The two count years and months with loops of their own.

Both agree with the ticking calendar up to 2038-01-19 03:14:07, the last second that fits into an `int`.
-/

namespace Xv7.Time

open Calendar

/-! ## The kernel -/

/-- `leapyear`, which `ctime` has written out. -/
def leapyear (year : ℤ) : Bool :=
  year.tmod 4 == 0 && (year.tmod 100 != 0 || year.tmod 400 == 0)

/-- `mdays`, of both files. -/
def mdays : List ℤ := [31, 28, 31, 30, 31, 30, 31, 31, 30, 31, 30, 31]

/-- The days that both files count for a year. -/
def yearDays (year : ℤ) : ℤ := if leapyear year then 366 else 365

/-- The first loop of `unix_converttime`. -/
def yearsDays (year : ℤ) : ℤ :=
  (List.range (year - 1970).toNat).foldl
    (fun days (i : ℕ) => days + yearDays (1970 + i)) 0

/-- The second loop of `unix_converttime`. -/
def monthsDays (year month days : ℤ) : ℤ :=
  (List.range (month - 1).toNat).foldl
    (fun days (i : ℕ) =>
      let days := days + mdays.getD i 0
      if i + 1 = 2 ∧ leapyear year then days + 1 else days) days

/-- `unix_converttime`: each sum is formed with 64 bits and stored in an `int`. -/
def unixConverttime (r : DateTime) : BitVec 32 :=
  let days := BitVec.ofInt 32 (monthsDays r.year r.month (yearsDays r.year))
  let days := days + (BitVec.ofInt 32 r.day - 1)
  let seconds := (days.signExtend 64 * 86400).setWidth 32
  let seconds := (seconds.signExtend 64 + (BitVec.ofInt 32 r.hour).setWidth 64 * 3600).setWidth 32
  let seconds := (seconds.signExtend 64 + (BitVec.ofInt 32 r.minute).setWidth 64 * 60).setWidth 32
  seconds + BitVec.ofInt 32 r.second

/-- `CONV` of `cmostime`. -/
def conv (x : ℤ) : ℤ := x / 16 * 10 + x % 16

/-- `cmostime`, with the status register B and the registers, once two reads of them agree. -/
def cmostime (sb : ℕ) (t : DateTime) : DateTime :=
  let t := if sb &&& 4 = 0 then
      ⟨conv t.year, conv t.month, conv t.day, conv t.hour, conv t.minute, conv t.second⟩
    else t
  { t with year := t.year + 2000 }

/-- `unix_uptime`. -/
def unixUptime (sb : ℕ) (t : DateTime) : BitVec 32 := unixConverttime (cmostime sb t)

/-! ## The user library -/

/-- The first loop of `ctime`: the year, and the days that are left. -/
def yearLoop (year t : ℤ) : ℤ × ℤ :=
  if yearDays year ≤ t then yearLoop (year + 1) (t - yearDays year) else (year, t)
  termination_by t.toNat
  decreasing_by
    have hpos : 0 < yearDays year := by
      unfold yearDays
      split_ifs <;> decide
    omega

/-- The second loop of `ctime`, with the entries of `mdays` that are left: the month, counted from 0, and
the days that are left. Behind the last entry there is no value. -/
def monthLoop (year : ℤ) : List ℤ → ℤ → ℤ → Option (ℤ × ℤ)
  | [], _, _ => none
  | d :: mdays, month, t =>
    let days := if month = 1 ∧ leapyear year then d + 1 else d
    if days ≤ t then monthLoop year mdays (month + 1) (t - days) else some (month, t)

/-- The fields that `ctime` computes. -/
def ctime (t : ℤ) : Option DateTime :=
  let sec := t.tmod 60
  let t := t.tdiv 60
  let min := t.tmod 60
  let t := t.tdiv 60
  let hour := t.tmod 24
  let t := t.tdiv 24
  let (year, t) := yearLoop 1970 t
  match monthLoop year mdays 0 t with
  | none => none
  | some (month, t) => some ⟨year, month + 1, t + 1, hour, min, sec⟩

/-! ## The kernel counts as the calendar does -/

lemma leapyear_eq {year : ℤ} (h : 0 ≤ year) : leapyear year = true ↔ IsLeap year := by
  unfold leapyear IsLeap
  rw [Int.tmod_eq_emod_of_nonneg h, Int.tmod_eq_emod_of_nonneg h, Int.tmod_eq_emod_of_nonneg h]
  simp only [Bool.and_eq_true, Bool.or_eq_true, beq_iff_eq, bne_iff_ne]
  omega

lemma yearDays_eq {year : ℤ} (h : 0 ≤ year) : yearDays year = daysInYear year := by
  unfold yearDays daysInYear
  simp only [leapyear_eq h]

lemma yearsDays_eq {year : ℤ} (h : 1970 ≤ year) : yearsDays year = yearStart year := by
  obtain ⟨n, rfl⟩ := Int.le.dest h
  unfold yearsDays
  rw [show (1970 + (n : ℤ) - 1970).toNat = n by omega]
  clear h
  induction n with
  | zero => rfl
  | succ n ih =>
    rw [List.range_succ, List.foldl_append, List.foldl_cons, List.foldl_nil, ih, Nat.cast_succ, ← add_assoc, yearStart_succ,
      yearDays_eq (by omega)]

/-- An entry of `mdays`, with the day that February has in a leap year. -/
lemma mdays_eq {year : ℤ} (hyear : 0 ≤ year) {i : ℕ} (hi : i < 12) :
    mdays.getD i 0 + (if i = 1 ∧ leapyear year = true then 1 else 0) = daysInMonth year (i + 1) := by
  unfold daysInMonth
  simp only [leapyear_eq hyear]
  interval_cases i <;> simp [mdays]
  split_ifs <;> rfl

lemma monthsDays_eq {year month : ℤ} (hyear : 0 ≤ year) (h1 : 1 ≤ month) (h2 : month ≤ 12) (days : ℤ) :
    monthsDays year month days = days + monthStart year month := by
  obtain ⟨n, rfl⟩ := Int.le.dest h1
  unfold monthsDays
  rw [show (1 + (n : ℤ) - 1).toNat = n by omega]
  clear h1
  induction n with
  | zero => simp [monthStart_one]
  | succ n ih =>
    have hentry := mdays_eq hyear (i := n) (by omega)
    have hsucc := monthStart_succ year (show 1 ≤ 1 + (n : ℤ) by omega) (by omega)
    rw [List.range_succ, List.foldl_append, List.foldl_cons, List.foldl_nil, ih (by omega), Nat.cast_succ, ← add_assoc, hsucc,
      add_comm 1 (n : ℤ), ← hentry]
    simp only [show n + 1 = 2 ↔ n = 1 by omega]
    split_ifs with hfeb
    · omega
    · omega

lemma setWidth_signExtend (x : BitVec 32) : (x.signExtend 64).setWidth 32 = x := by
  refine BitVec.eq_of_getLsbD_eq fun i hi => ?_
  rw [BitVec.getLsbD_setWidth, BitVec.getLsbD_signExtend, if_pos hi]
  simp [hi, show i < 64 by omega]

/-- What is stored in an `int` does not depend on the 64 bits it was formed with. -/
lemma setWidth_signExtend_add (x y : BitVec 32) (c : BitVec 64) :
    (x.signExtend 64 + y.setWidth 64 * c).setWidth 32 = x + y * c.setWidth 32 := by
  rw [BitVec.setWidth_add _ _ (by decide), BitVec.setWidth_mul _ _ (by decide), setWidth_signExtend,
    BitVec.setWidth_setWidth_of_le _ (by decide), BitVec.setWidth_eq]

lemma setWidth_signExtend_mul (x : BitVec 32) (c : BitVec 64) :
    (x.signExtend 64 * c).setWidth 32 = x * c.setWidth 32 := by
  rw [BitVec.setWidth_mul _ _ (by decide), setWidth_signExtend]

/-- `unix_converttime` is the number of the date, with 32 bits. -/
lemma unixConverttime_eq {d : DateTime} (h : d.Valid) (hyear : 1970 ≤ d.year) :
    unixConverttime d = BitVec.ofInt 32 d.stamp := by
  unfold unixConverttime
  simp only [setWidth_signExtend_add, setWidth_signExtend_mul, yearsDays_eq hyear,
    monthsDays_eq (show 0 ≤ d.year by omega) h.month.1 h.month.2]
  unfold DateTime.stamp DateTime.dayNumber
  have hone : BitVec.ofInt 32 d.day - 1 = BitVec.ofInt 32 (d.day - 1) := by
    rw [BitVec.sub_eq_add_neg, sub_eq_add_neg, BitVec.ofInt_add]
    rfl
  rw [hone]
  simp only [BitVec.ofInt_add, BitVec.ofInt_mul]
  rfl

/-- The last second that fits into an `int`. -/
def lastSecond : DateTime := ⟨2038, 1, 19, 3, 14, 7⟩

lemma valid_lastSecond : lastSecond.Valid :=
  ⟨by decide, by decide, by decide, by decide, by decide⟩

lemma stamp_lastSecond : lastSecond.stamp = 2 ^ 31 - 1 := by decide

lemma stamp_lt_iff {d : DateTime} (h : d.Valid) : d.stamp < 2 ^ 31 ↔ ¬ lastSecond.Earlier d := by
  rw [← DateTime.stamp_lt_stamp_iff valid_lastSecond h, stamp_lastSecond]
  omega

lemma toInt_unixConverttime {d : DateTime} (h : d.Valid) (hyear : 1970 ≤ d.year)
    (hlast : ¬ lastSecond.Earlier d) : (unixConverttime d).toInt = d.stamp := by
  have hlt := (stamp_lt_iff h).mpr hlast
  have hnonneg := h.stamp_nonneg hyear
  rw [unixConverttime_eq h hyear, BitVec.toInt_ofInt, Int.bmod_def]
  omega

/-! ## The library counts back -/

lemma yearLoop_spec {year t : ℤ} (hyear : 0 ≤ year) (ht : 0 ≤ t) :
    year ≤ (yearLoop year t).1 ∧ 0 ≤ (yearLoop year t).2 ∧
      (yearLoop year t).2 < daysInYear (yearLoop year t).1 ∧
      yearStart (yearLoop year t).1 + (yearLoop year t).2 = yearStart year + t := by
  fun_induction yearLoop year t with
  | case1 year t hle ih =>
    have hdays := yearDays_eq hyear
    have hsucc := yearStart_succ year
    have hpos := daysInYear_pos year
    obtain ⟨h1, h2, h3, h4⟩ := ih (by omega) (by omega)
    exact ⟨by omega, h2, h3, by omega⟩
  | case2 year t hlt =>
    have hdays := yearDays_eq hyear
    exact ⟨le_rfl, ht, hdays ▸ not_le.mp hlt, rfl⟩

lemma monthLoop_spec {year t : ℤ} (hyear : 0 ≤ year) (n : ℕ) {i : ℕ} (hn : i + n = 12) (ht : 0 ≤ t)
    (hlt : t < daysInYear year - monthStart year (i + 1)) :
    ∃ month t', monthLoop year (mdays.drop i) i t = some (month, t') ∧ 0 ≤ month ∧ month ≤ 11 ∧
      0 ≤ t' ∧ t' < daysInMonth year (month + 1) ∧
      monthStart year (month + 1) + t' = monthStart year (i + 1) + t := by
  induction n generalizing i t with
  | zero =>
    obtain rfl : i = 12 := hn
    have hend := monthStart_thirteen year
    norm_num at hlt
    omega
  | succ n ih =>
    have hi : i < 12 := by omega
    have hlen : i < mdays.length := hi
    have hentry := mdays_eq hyear hi
    have hsucc := monthStart_succ year (show 1 ≤ (i : ℤ) + 1 by omega) (by omega)
    rw [List.drop_eq_getElem_cons hlen, monthLoop]
    have hdays : (if (i : ℤ) = 1 ∧ leapyear year = true then mdays[i] + 1 else mdays[i]) =
        daysInMonth year (i + 1) := by
      rw [← hentry, List.getD_eq_getElem?_getD, List.getElem?_eq_getElem hlen, Option.getD_some]
      simp only [show (i : ℤ) = 1 ↔ i = 1 by omega]
      split_ifs
      · rfl
      · exact (add_zero _).symm
    simp only [hdays]
    by_cases hle : daysInMonth year (i + 1) ≤ t
    · rw [if_pos hle]
      obtain ⟨month, t', hrun, h1, h2, h3, h4, h5⟩ :=
        ih (i := i + 1) (t := t - daysInMonth year (i + 1)) (by omega) (by omega)
          (by push_cast; omega)
      refine ⟨month, t', ?_, h1, h2, h3, h4, ?_⟩
      · exact_mod_cast hrun
      · push_cast at h5
        omega
    · rw [if_neg hle]
      exact ⟨i, t, rfl, by omega, by omega, ht, by omega, rfl⟩

/-- `ctime` finds the date with the given number. -/
lemma ctime_spec {t : ℤ} (ht : 0 ≤ t) :
    ∃ d, ctime t = some d ∧ d.Valid ∧ 1970 ≤ d.year ∧ d.stamp = t := by
  have hdays : 0 ≤ t / 60 / 60 / 24 := by omega
  obtain ⟨hy, hr0, hr1, hyear⟩ := yearLoop_spec (show (0 : ℤ) ≤ 1970 by decide) hdays
  set y := (yearLoop 1970 (t / 60 / 60 / 24)).1
  set r := (yearLoop 1970 (t / 60 / 60 / 24)).2
  have hfirst : monthStart y 1 = 0 := monthStart_one y
  obtain ⟨month, day, hrun, hm0, hm1, hd0, hd1, hmonth⟩ :=
    monthLoop_spec (show 0 ≤ y by omega) (t := r) 12 (i := 0) rfl hr0
      (by norm_num [hfirst]; exact hr1)
  rw [List.drop_zero, Nat.cast_zero] at hrun
  norm_num [hfirst] at hmonth
  refine ⟨⟨y, month + 1, day + 1, t / 60 / 60 % 24, t / 60 % 60, t % 60⟩, ?_,
    ⟨by simp only; omega, by simp only; omega, by simp only; omega, by simp only; omega,
      by simp only; omega⟩, hy, ?_⟩
  · unfold ctime
    dsimp only
    rw [Int.tdiv_eq_ediv_of_nonneg ht, Int.tdiv_eq_ediv_of_nonneg (show 0 ≤ t / 60 by omega),
      Int.tdiv_eq_ediv_of_nonneg (show 0 ≤ t / 60 / 60 by omega), Int.tmod_eq_emod_of_nonneg ht,
      Int.tmod_eq_emod_of_nonneg (show 0 ≤ t / 60 by omega),
      Int.tmod_eq_emod_of_nonneg (show 0 ≤ t / 60 / 60 by omega), hrun]
  · simp only [DateTime.stamp, DateTime.dayNumber]
    have hzero : yearStart 1970 = 0 := rfl
    omega

lemma ctime_stamp {d : DateTime} (h : d.Valid) (hyear : 1970 ≤ d.year) : ctime d.stamp = some d := by
  obtain ⟨e, he, hvalid, -, hstamp⟩ := ctime_spec (h.stamp_nonneg hyear)
  rw [he, DateTime.stamp_injective hvalid h hstamp]

/-- `ctime` and `unix_converttime` are inverse to each other, up to the last second of an `int`. -/
theorem ctime_inverse :
    (∀ t : ℤ, 0 ≤ t → t < 2 ^ 31 → ∃ d, ctime t = some d ∧ d.Valid ∧ (unixConverttime d).toInt = t) ∧
    ∀ d : DateTime, d.Valid → 1970 ≤ d.year → ¬ lastSecond.Earlier d →
      ctime (unixConverttime d).toInt = some d := by
  constructor
  · intro t ht hlt
    obtain ⟨d, hd, hvalid, hyear, rfl⟩ := ctime_spec ht
    exact ⟨d, hd, hvalid, toInt_unixConverttime hvalid hyear ((stamp_lt_iff hvalid).mp hlt)⟩
  · intro d hvalid hyear hlast
    rw [toInt_unixConverttime hvalid hyear hlast]
    exact ctime_stamp hvalid hyear

/-- 2000-02-29 12:34:56, to the second and back. -/
theorem ctime_inverse_leapDay : ctime 951827696 = some ⟨2000, 2, 29, 12, 34, 56⟩ ∧
    ∃ d, ctime 951827696 = some d ∧ d.Valid ∧ (unixConverttime d).toInt = 951827696 := by
  have hvalid : (⟨2000, 2, 29, 12, 34, 56⟩ : DateTime).Valid :=
    ⟨by decide, by decide, by decide, by decide, by decide⟩
  refine ⟨?_, ctime_inverse.1 951827696 (by decide) (by decide)⟩
  exact ctime_inverse.2 ⟨2000, 2, 29, 12, 34, 56⟩ hvalid (by decide) (by decide)

/-! ## The clock of the machine -/

/-- A two-digit number as the clock has it. -/
def bcd (x : ℤ) : ℤ := x / 10 * 16 + x % 10

lemma conv_bcd (x : ℤ) : conv (bcd x) = x := by
  unfold conv bcd
  omega

/-- The registers of the clock at a date of this century. -/
def registers (d : DateTime) : DateTime :=
  ⟨bcd (d.year - 2000), bcd d.month, bcd d.day, bcd d.hour, bcd d.minute, bcd d.second⟩

lemma cmostime_registers {sb : ℕ} (hsb : sb &&& 4 = 0) (d : DateTime) :
    cmostime sb (registers d) = d := by
  simp only [cmostime, registers, hsb, if_true, conv_bcd, sub_add_cancel]

/-- The time that the kernel reads from the clock is the number of the second, and `ctime` gives back
the date that the clock has. -/
theorem unixUptime_registers {sb : ℕ} {d : DateTime} (hsb : sb &&& 4 = 0) (h : d.Valid)
    (hyear : 2000 ≤ d.year) (hlast : ¬ lastSecond.Earlier d) :
    (unixUptime sb (registers d)).toInt = d.stamp ∧
      ctime (unixUptime sb (registers d)).toInt = some d := by
  have hint : (unixUptime sb (registers d)).toInt = d.stamp := by
    rw [unixUptime, cmostime_registers hsb, toInt_unixConverttime h (by omega) hlast]
  exact ⟨hint, hint ▸ ctime_stamp h (by omega)⟩

theorem unixUptime_registers_leapDay : ctime (unixUptime 2
    ⟨0, 2, 41, 18, 52, 86⟩).toInt = some ⟨2000, 2, 29, 12, 34, 56⟩ :=
  (unixUptime_registers (d := ⟨2000, 2, 29, 12, 34, 56⟩) (show 2 &&& 4 = 0 from rfl)
    ⟨by decide, by decide, by decide, by decide, by decide⟩ (by decide) (by decide)).2

/-- `unix_converttime` gives the number of ticks from 1970-01-01 00:00:00 to the date. -/
def Exact (d : DateTime) : Prop := ∃ n : ℕ, clock n = d ∧ (unixConverttime d).toInt = n

lemma exact_of_not_earlier {d : DateTime} (h : d.Valid) (hyear : 1970 ≤ d.year)
    (hlast : ¬ lastSecond.Earlier d) : Exact d := by
  obtain ⟨n, hn⟩ := Int.eq_ofNat_of_zero_le (h.stamp_nonneg hyear)
  refine ⟨n, (clock_eq_iff h n).mpr hn, ?_⟩
  rw [toInt_unixConverttime h hyear hlast]
  exact hn

/-- A later date has a number that is not an `int`. -/
lemma not_earlier_of_exact {d : DateTime} (h : d.Valid) (hexact : Exact d) : ¬ lastSecond.Earlier d := by
  obtain ⟨n, hn, hint⟩ := hexact
  rw [← stamp_lt_iff h, (clock_eq_iff h n).mp hn, ← hint]
  have hlt := BitVec.toInt_lt (x := unixConverttime d)
  norm_num at hlt ⊢
  exact hlt

/-- For the dates that the clock can report, the conversion is exact and monotone if and only if the
later date is not behind the last second of an `int`. -/
theorem unixConverttime_monotone_iff (d e : DateTime) (hd : d.Valid) (he : e.Valid)
    (hyd : 2000 ≤ d.year ∧ d.year ≤ 2099) (hye : 2000 ≤ e.year ∧ e.year ≤ 2099) (h : d.Earlier e) :
    ((unixConverttime d).toInt < (unixConverttime e).toInt ∧ Exact d ∧ Exact e) ↔
      ¬ lastSecond.Earlier e := by
  refine ⟨fun hall => not_earlier_of_exact he hall.2.2, fun hlast => ?_⟩
  have hlt := h.stamp_lt hd he
  have hlast' : ¬ lastSecond.Earlier d := by
    rw [← stamp_lt_iff hd]
    exact hlt.trans ((stamp_lt_iff he).mpr hlast)
  refine ⟨?_, exact_of_not_earlier hd (by omega) hlast', exact_of_not_earlier he (by omega) hlast⟩
  rwa [toInt_unixConverttime hd (by omega) hlast', toInt_unixConverttime he (by omega) hlast]

theorem unixConverttime_monotone_yearEnd :
    (unixConverttime ⟨2024, 12, 31, 23, 59, 59⟩).toInt < (unixConverttime ⟨2025, 1, 1, 0, 0, 0⟩).toInt ∧
      Exact ⟨2024, 12, 31, 23, 59, 59⟩ ∧ Exact ⟨2025, 1, 1, 0, 0, 0⟩ :=
  (unixConverttime_monotone_iff ⟨2024, 12, 31, 23, 59, 59⟩ ⟨2025, 1, 1, 0, 0, 0⟩
    ⟨by decide, by decide, by decide, by decide, by decide⟩
    ⟨by decide, by decide, by decide, by decide, by decide⟩ (by decide) (by decide) (by decide)).mpr
    (by decide)

/-- One second later the time is negative. -/
theorem unixConverttime_2038 : lastSecond.Earlier ⟨2038, 1, 19, 3, 14, 8⟩ ∧
    (unixConverttime lastSecond).toInt = 2147483647 ∧
    (unixConverttime ⟨2038, 1, 19, 3, 14, 8⟩).toInt = -2147483648 := by
  refine ⟨by decide, by decide +kernel, by decide +kernel⟩

end Xv7.Time
