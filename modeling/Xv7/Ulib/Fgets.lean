import Mathlib.Data.List.Infix
import Mathlib.Data.List.TakeWhile
import Mathlib.Logic.Function.Iterate
import Mathlib.Tactic.Linarith
import Xv7.Ulib.Basic

/-!
# Reading lines

`fgets` of `files.c`. It reads byte by byte, so it does not matter in which pieces `read` delivers the
stream; the stream is given by a reader that hands out one byte after the other and then reports the end
of the file for ever. The buffer is the memory from `buf` on, beyond its `size` bytes too, and holds
whatever was there before the call.

The index is incremented twice in a turn that goes on, so the bytes land at the even positions.
-/

namespace Xv7.Ulib

/-- The newline. -/
abbrev nl : UInt8 := 10

variable {ρ : Type} (read : ρ → Option UInt8 × ρ)

/-- The reader delivers these bytes and then the end of the file. -/
def Delivers : ρ → List UInt8 → Prop
  | r, [] => ∀ n, (read ((fun r => (read r).2)^[n] r)).1 = none
  | r, c :: l => (read r).1 = some c ∧ Delivers (read r).2 l

/-! ## The function -/

/-- The state of `fgets`: the index, the buffer, the indices it stored to, and the stream. -/
structure Fgets (ρ : Type) where
  i : ℕ
  buf : Buffer
  stores : List ℕ
  rest : ρ

/-- `buf[i] = c`. -/
def Fgets.store (s : Fgets ρ) (c : UInt8) : Fgets ρ :=
  { s with buf := Function.update s.buf s.i c, stores := s.stores ++ [s.i] }

/-- The loop of `fgets`. -/
def fgetsLoop (size : ℤ) (s : Fgets ρ) : Fgets ρ :=
  if s.i < size - 1 then
    match read s.rest with
    | (none, r) => { s with rest := r }
    | (some c, r) =>
      -- `buf[i++] = c`
      let t := { s.store c with i := s.i + 1, rest := r }
      if c = nl then t else fgetsLoop size { t with i := t.i + 1 }
  else s
  termination_by (size - s.i).toNat
  decreasing_by omega

/-- `fgets`: the state at its end; it returns null if the index is 0. -/
def fgets (size : ℤ) (buf : Buffer) (r : ρ) : Fgets ρ :=
  (fgetsLoop read size ⟨0, buf, [], r⟩).store 0

/-- The string in the buffer, which has a NUL at the index. -/
def Fgets.string (s : Fgets ρ) : List UInt8 := ((List.range s.i).map s.buf).takeWhile (· ≠ 0)

/-- Call `fgets` until it returns null, at most `n` times: the strings, and the indices stored to. Between
the calls the buffer may be used for anything else, `bufs` gives its contents before each of them. -/
def readLines (size : ℤ) : ℕ → (ℕ → Buffer) → ρ → Option (List (List UInt8) × List ℕ)
  | 0, _, _ => none
  | n + 1, bufs, r =>
    let s := fgets read size (bufs 0) r
    if s.i = 0 then some ([], s.stores)
    else (readLines size n (fun k => bufs (k + 1)) s.rest).map fun x =>
      (s.string :: x.1, s.stores ++ x.2)

/-! ## What it is for -/

/-- The strings are the stream, cut after newlines and where the buffer is full. -/
structure Split (size : ℤ) (stream : List UInt8) (strings : List (List UInt8)) : Prop where
  flatten : strings.flatten = stream
  length_le : ∀ s ∈ strings, (s.length : ℤ) ≤ size - 1
  newline : ∀ s ∈ strings, nl ∉ s.dropLast
  full : ∀ a s b, strings = a ++ s :: b → (s.length : ℤ) < size - 1 →
    s.getLast? = some nl ∨ (a ++ [s]).flatten = stream

/-- Calling `fgets` until it returns null writes only to the buffer and, when the stream has no NUL in
it, splits the stream, whatever was in the buffer before each call. -/
def SplitsStream (size : ℤ) (r : ρ) (stream : List UInt8) : Prop :=
  ∀ bufs : ℕ → Buffer, ∃ n strings stores, readLines read size n bufs r = some (strings, stores) ∧
    (∀ i ∈ stores, (i : ℤ) < size) ∧ (0 ∉ stream → Split size stream strings)

/-- Somewhere in the stream there are `n` bytes without a newline. -/
def HasRun (n : ℕ) (stream : List UInt8) : Prop := ∃ b, b <:+: stream ∧ b.length = n ∧ nl ∉ b

/-! ## One call -/

variable {read} {size : ℤ} {s : Fgets ρ} {r : ρ} {c : UInt8} {l : List UInt8}

lemma Delivers.read_nil (h : Delivers read r []) : ∃ r', read r = (none, r') ∧ Delivers read r' [] := by
  refine ⟨(read r).2, Prod.ext (h 0) rfl, fun n => ?_⟩
  exact h (n + 1)

lemma Delivers.read_cons (h : Delivers read r (c :: l)) : ∃ r', read r = (some c, r') ∧ Delivers read r' l :=
  ⟨(read r).2, Prod.ext h.1 rfl, h.2⟩

/-- A turn at the end of the stream. -/
lemma fgetsLoop_nil (hi : s.i < size - 1) (h : Delivers read s.rest []) :
    ∃ r, fgetsLoop read size s = { s with rest := r } ∧ Delivers read r [] := by
  obtain ⟨r, hr, hend⟩ := h.read_nil
  refine ⟨r, ?_, hend⟩
  rw [fgetsLoop.eq_1, if_pos hi, hr]

/-- A turn that reads a byte. -/
lemma fgetsLoop_cons (size : ℤ) (hi : s.i < size - 1) (h : Delivers read s.rest (c :: l)) :
    ∃ r, Delivers read r l ∧ fgetsLoop read size s =
      if c = nl then { s.store c with i := s.i + 1, rest := r }
      else fgetsLoop read size { s.store c with i := s.i + 2, rest := r } := by
  obtain ⟨r, hr, hrest⟩ := h.read_cons
  refine ⟨r, hrest, ?_⟩
  rw [fgetsLoop.eq_1, if_pos hi, hr]

lemma fgetsLoop_end (hi : ¬ s.i < size - 1) : fgetsLoop read size s = s := by
  rw [fgetsLoop.eq_1, if_neg hi]

/-- The bytes that a call reads when it may read `n`: up to a newline. -/
def takeLine : ℕ → List UInt8 → List UInt8
  | 0, _ => []
  | _ + 1, [] => []
  | n + 1, c :: l => if c = nl then [c] else c :: takeLine n l

lemma length_takeLine_le (n : ℕ) (l : List UInt8) : (takeLine n l).length ≤ n := by
  fun_induction takeLine n l with
  | case1 => exact Nat.zero_le _
  | case2 => exact Nat.zero_le _
  | case3 => exact Nat.succ_le_succ (Nat.zero_le _)
  | case4 n c l hc ih => exact Nat.succ_le_succ ih

/-- A call stops after so many bytes, at the end of the stream, or after a newline. -/
lemma takeLine_cases (n : ℕ) (l : List UInt8) :
    (nl ∉ takeLine n l ∧ (takeLine n l).length = n ∧ takeLine n l <+: l) ∨
    (nl ∉ takeLine n l ∧ (takeLine n l).length < n ∧ takeLine n l = l) ∨
    ∃ a, nl ∉ a ∧ a.length < n ∧ takeLine n l = a ++ [nl] ∧ takeLine n l <+: l := by
  fun_induction takeLine n l with
  | case1 => exact .inl ⟨List.not_mem_nil, rfl, List.nil_prefix⟩
  | case2 => exact .inr (.inl ⟨List.not_mem_nil, Nat.succ_pos _, rfl⟩)
  | case3 n l =>
    exact .inr (.inr ⟨[], List.not_mem_nil, Nat.succ_pos _, rfl, l, rfl⟩)
  | case4 n c l hc ih =>
    have hcons : ∀ {a : List UInt8}, nl ∉ a → nl ∉ c :: a := fun ha h =>
      (List.mem_cons.mp h).elim (fun h => hc h.symm) ha
    rcases ih with ⟨hnl, hlen, hpre⟩ | ⟨hnl, hlen, hall⟩ | ⟨a, hnl, hlen, ha, hpre⟩
    · exact .inl ⟨hcons hnl, congrArg (· + 1) hlen, List.cons_prefix_cons.mpr ⟨rfl, hpre⟩⟩
    · exact .inr (.inl ⟨hcons hnl, Nat.succ_lt_succ hlen, congrArg (c :: ·) hall⟩)
    · refine .inr (.inr ⟨c :: a, hcons hnl, Nat.succ_lt_succ hlen, ?_, List.cons_prefix_cons.mpr ⟨rfl, hpre⟩⟩)
      rw [ha]
      rfl

lemma takeLine_isInit (n : ℕ) (l : List UInt8) : takeLine n l <+: l := by
  rcases takeLine_cases n l with ⟨-, -, h⟩ | ⟨-, -, h⟩ | ⟨a, -, -, -, h⟩
  · exact h
  · rw [h]
  · exact h

lemma takeLine_eq_nil_iff {n : ℕ} (hn : 0 < n) : takeLine n l = [] ↔ l = [] := by
  obtain ⟨n, rfl⟩ := Nat.exists_eq_succ_of_ne_zero hn.ne'
  cases l with
  | nil => exact iff_of_true rfl rfl
  | cons c l =>
    refine iff_of_false ?_ (List.cons_ne_nil _ _)
    unfold takeLine
    by_cases hc : c = nl
    · rw [if_pos hc]
      exact List.cons_ne_nil _ _
    · rw [if_neg hc]
      exact List.cons_ne_nil _ _

/-- What the loop does from a turn at an even index: where it stops, what it leaves of the stream, and that
it writes only from the index on. -/
lemma fgetsLoop_spec (size : ℤ) {n k : ℕ} (hn : (size / 2).toNat = k + n) (hi : s.i = 2 * k)
    (h : Delivers read s.rest l) :
    (fgetsLoop read size s).i + (if nl ∈ takeLine n l then 1 else 0) =
        s.i + 2 * (takeLine n l).length ∧
      Delivers read (fgetsLoop read size s).rest (l.drop (takeLine n l).length) ∧
      (∀ a ∈ (fgetsLoop read size s).stores, a ∈ s.stores ∨ (a : ℤ) < size - 1) ∧
      ∀ a < s.i, (fgetsLoop read size s).buf a = s.buf a := by
  induction n generalizing k s l with
  | zero =>
    rw [fgetsLoop_end (by omega)]
    exact ⟨rfl, h, fun a ha => .inl ha, fun a _ => rfl⟩
  | succ n ih =>
    have hlt : (s.i : ℤ) < size - 1 := by omega
    cases l with
    | nil =>
      obtain ⟨r, hr, hend⟩ := fgetsLoop_nil hlt h
      rw [hr]
      exact ⟨rfl, hend, fun a ha => .inl ha, fun a _ => rfl⟩
    | cons c l =>
      obtain ⟨r, hrest, hr⟩ := fgetsLoop_cons size hlt h
      rw [hr, takeLine]
      have hstores : ∀ a ∈ (s.store c).stores, a ∈ s.stores ∨ (a : ℤ) < size - 1 := by
        intro a ha
        refine (List.mem_append.mp ha).imp_right fun ha => ?_
        rw [List.mem_singleton.mp ha]
        exact hlt
      have hbuf : ∀ a < s.i, (s.store c).buf a = s.buf a := fun a ha =>
        Function.update_of_ne ha.ne _ _
      by_cases hc : c = nl
      · rw [if_pos hc, if_pos hc, if_pos (List.mem_singleton.mpr hc.symm)]
        exact ⟨rfl, hrest, hstores, hbuf⟩
      · rw [if_neg hc, if_neg hc]
        obtain ⟨hindex, hrest', hstores', hbuf'⟩ :=
          ih (k := k + 1) (s := { s.store c with i := s.i + 2, rest := r }) (by omega) (by simp only; omega)
            hrest
        refine ⟨?_, hrest', fun a ha => ?_, fun a ha => ?_⟩
        · have hmem : (nl ∈ c :: takeLine n l) = (nl ∈ takeLine n l) := by
            rw [List.mem_cons, eq_iff_iff]
            exact or_iff_right fun h => hc h.symm
          rw [List.length_cons]
          simp only [hmem] at hindex ⊢
          omega
        · rcases hstores' a ha with ha | ha
          · exact hstores a ha
          · exact .inr ha
        · rw [hbuf' a (show a < s.i + 2 by omega)]
          exact hbuf a ha

/-- What a call does that may read `h` bytes. -/
structure CallSpec (read : ρ → Option UInt8 × ρ) (size : ℤ) (l : List UInt8) (s : Fgets ρ) : Prop where
  null : s.i = 0 ↔ l = []
  rest : Delivers read s.rest (l.drop (takeLine (size / 2).toNat l).length)
  inside : (∀ a ∈ s.stores, (a : ℤ) < size) ↔
    ¬ (2 ∣ size ∧ nl ∉ takeLine (size / 2).toNat l ∧ (takeLine (size / 2).toNat l).length = (size / 2).toNat)

lemma fgets_spec (hsize : 2 ≤ size) (buf : Buffer) (h : Delivers read r l) :
    CallSpec read size l (fgets read size buf r) := by
  obtain ⟨hindex, hrest, hstores, -⟩ := fgetsLoop_spec size (s := ⟨0, buf, [], r⟩)
    (n := (size / 2).toNat) (k := 0) (by omega) rfl h
  have hle := length_takeLine_le (size / 2).toNat l
  have hnil := takeLine_eq_nil_iff (n := (size / 2).toNat) (l := l) (by omega)
  have hi : (fgets read size buf r).i = (fgetsLoop read size ⟨0, buf, [], r⟩).i := rfl
  rw [← List.length_eq_zero_iff] at hnil
  simp only [Nat.zero_add] at hindex
  refine ⟨?_, hrest, ?_⟩
  · rw [hi, ← hnil]
    split_ifs at hindex with hmem
    · have := List.length_pos_of_mem hmem
      omega
    · omega
  · -- only the NUL can be stored outside
    have hlast : (∀ a ∈ (fgets read size buf r).stores, (a : ℤ) < size) ↔
        ((fgetsLoop read size ⟨0, buf, [], r⟩).i : ℤ) < size := by
      constructor
      · intro hall
        exact hall _ (List.mem_append_right _ (List.mem_singleton_self _))
      · intro hlt a ha
        rcases List.mem_append.mp ha with ha | ha
        · have := (hstores a ha).resolve_left List.not_mem_nil
          omega
        · rw [List.mem_singleton.mp ha]
          exact hlt
    rw [hlast]
    split_ifs at hindex with hmem
    · refine iff_of_true ?_ fun hbad => hbad.2.1 hmem
      have := List.length_pos_of_mem hmem
      omega
    · rw [and_iff_right hmem]
      omega

/-- The string of a call that starts at a newline. -/
lemma string_newline (hsize : 2 ≤ size) (buf : Buffer) (h : Delivers read r (nl :: l)) :
    (fgets read size buf r).string = [nl] := by
  obtain ⟨r', -, hr⟩ := fgetsLoop_cons size (s := ⟨0, buf, [], r⟩) (by simp only; omega) h
  rw [if_pos rfl] at hr
  have hstring : (fgets read size buf r).string = [nl].takeWhile (· ≠ 0) := by
    simp [fgets, hr, Fgets.string, Fgets.store, List.range_succ]
  exact hstring

/-- The string of a call that starts at another byte: the second byte is left from before. -/
lemma string_gap (hsize : 3 ≤ size) {buf : Buffer} (h : Delivers read r (c :: l)) (hc : c ≠ nl)
    (h0 : c ≠ 0) (hx : buf 1 ≠ 0) : ∃ t, (fgets read size buf r).string = c :: buf 1 :: t := by
  obtain ⟨r', hrest, hr⟩ := fgetsLoop_cons size (s := ⟨0, buf, [], r⟩) (by simp only; omega) h
  rw [if_neg hc] at hr
  obtain ⟨hindex, -, -, hbuf⟩ := fgetsLoop_spec size
    (s := { (⟨0, buf, [], r⟩ : Fgets ρ).store c with i := 2, rest := r' })
    (n := (size / 2).toNat - 1) (k := 1) (by omega) rfl hrest
  set t := fgetsLoop read size { (⟨0, buf, [], r⟩ : Fgets ρ).store c with i := 2, rest := r' }
  have hfgets : fgets read size buf r = t.store 0 := by
    unfold fgets
    rw [hr]
  have hi : 2 ≤ t.i := by
    simp only at hindex
    split_ifs at hindex with hmem
    · have := List.length_pos_of_mem hmem
      omega
    · omega
  obtain ⟨k, hk⟩ := Nat.exists_eq_add_of_le hi
  have hbuf0 : (t.store 0).buf 0 = c := by
    rw [show (t.store 0).buf 0 = t.buf 0 from Function.update_of_ne (by omega) _ _, hbuf 0 (by simp)]
    simp [Fgets.store]
  have hbuf1 : (t.store 0).buf 1 = buf 1 := by
    rw [show (t.store 0).buf 1 = t.buf 1 from Function.update_of_ne (by omega) _ _, hbuf 1 (by simp)]
    simp [Fgets.store]
  refine ⟨((List.range' 2 k).map (t.store 0).buf).takeWhile (· ≠ 0), ?_⟩
  have hrange : List.range (t.store 0).i = 0 :: 1 :: List.range' 2 k := by
    rw [show (t.store 0).i = 2 + k from hk, List.range_eq_range', Nat.add_comm, List.range'_succ,
      List.range'_succ]
  rw [hfgets, Fgets.string, hrange]
  simp [hbuf0, hbuf1, h0, hx]

/-! ## All calls -/

lemma infix_append_cons {α : Type} {a x z : List α} {y : α} (h : a <:+: x ++ y :: z) (hy : y ∉ a) :
    a <:+: x ∨ a <:+: z := by
  obtain ⟨p, q, h⟩ := h
  rw [List.append_assoc] at h
  rcases List.append_eq_append_iff.mp h with ⟨d, rfl, hd⟩ | ⟨d, rfl, hd⟩
  · rcases List.append_eq_append_iff.mp hd with ⟨e, rfl, -⟩ | ⟨e, rfl, he⟩
    · exact .inl ⟨p, e, by rw [List.append_assoc]⟩
    · cases e with
      | nil => exact .inl ⟨p, [], by simp⟩
      | cons w e =>
        rw [List.cons_append, List.cons.injEq] at he
        exact absurd (he.1 ▸ List.mem_append_right _ List.mem_cons_self) hy
  · cases d with
    | nil =>
      cases a with
      | nil => exact .inl List.nil_infix
      | cons w a =>
        rw [List.nil_append, List.cons_append, List.cons.injEq] at hd
        exact absurd (hd.1 ▸ List.mem_cons_self) hy
    | cons w d =>
      rw [List.cons_append, List.cons.injEq] at hd
      exact .inr ⟨d, q, by rw [hd.2, List.append_assoc]⟩

/-- A run of bytes is read by one call, or lies behind what the call reads. -/
lemma hasRun_iff {n : ℕ} : HasRun n l ↔
    (nl ∉ takeLine n l ∧ (takeLine n l).length = n) ∨ HasRun n (l.drop (takeLine n l).length) := by
  constructor
  · rintro ⟨b, hb, hlen, hnl⟩
    rcases takeLine_cases n l with ⟨hline, hfull, -⟩ | ⟨-, hshort, hall⟩ | ⟨a, ha, halen, hline, hpre⟩
    · exact .inl ⟨hline, hfull⟩
    · have hle := hb.length_le
      rw [hall] at hshort
      omega
    · right
      obtain ⟨t, ht⟩ := hpre
      have hdrop : (takeLine n l ++ t).drop (takeLine n l).length = t := List.drop_left
      rw [ht] at hdrop
      rw [hdrop]
      rw [← ht, hline, List.append_assoc] at hb
      rcases infix_append_cons hb hnl with hb | hb
      · have hle := hb.length_le
        omega
      · exact ⟨b, hb, hlen, hnl⟩
  · rintro (⟨hline, hfull⟩ | ⟨b, hb, hlen, hnl⟩)
    · exact ⟨_, (takeLine_isInit n l).isInfix, hfull, hline⟩
    · exact ⟨b, hb.trans (List.drop_suffix _ _).isInfix, hlen, hnl⟩

/-- The calls come to an end. -/
lemma exists_readLines (hsize : 2 ≤ size) (n : ℕ) (bufs : ℕ → Buffer) (hn : l.length < n)
    (h : Delivers read r l) : ∃ x, readLines read size n bufs r = some x := by
  induction n generalizing bufs r l with
  | zero => omega
  | succ n ih =>
    have hcall := fgets_spec hsize (bufs 0) h
    rw [readLines]
    by_cases hnull : (fgets read size (bufs 0) r).i = 0
    · exact ⟨_, if_pos hnull⟩
    · have hpos : 0 < (takeLine (size / 2).toNat l).length := by
        rw [List.length_pos_iff, ne_eq, takeLine_eq_nil_iff (by omega)]
        exact fun hl => hnull (hcall.null.mpr hl)
      have hlen : l ≠ [] := fun hl => hnull (hcall.null.mpr hl)
      obtain ⟨x, hx⟩ := ih (fun k => bufs (k + 1))
        (by rw [List.length_drop]; have := List.length_pos_iff.mpr hlen; omega) hcall.rest
      exact ⟨_, (if_neg hnull).trans (congrArg _ hx)⟩

/-- The calls write outside of the buffer if and only if one of them fills a buffer of even size. -/
lemma inside_iff (hsize : 2 ≤ size) {n : ℕ} {bufs : ℕ → Buffer} {strings : List (List UInt8)}
    {stores : List ℕ} (h : Delivers read r l) (hrun : readLines read size n bufs r = some (strings, stores)) :
    (∀ i ∈ stores, (i : ℤ) < size) ↔ ¬ (2 ∣ size ∧ HasRun (size / 2).toNat l) := by
  induction n generalizing bufs r l strings stores with
  | zero => cases hrun
  | succ n ih =>
    have hcall := fgets_spec hsize (bufs 0) h
    have hruns := hasRun_iff (n := (size / 2).toNat) (l := l)
    rw [readLines] at hrun
    by_cases hnull : (fgets read size (bufs 0) r).i = 0
    · rw [if_pos hnull, Option.some.injEq, Prod.mk.injEq] at hrun
      obtain ⟨-, rfl⟩ := hrun
      obtain rfl := hcall.null.mp hnull
      have hno : ¬ HasRun (size / 2).toNat [] := by
        rintro ⟨b, hb, hlen, -⟩
        rw [List.eq_nil_of_infix_nil hb, List.length_nil] at hlen
        omega
      rw [hcall.inside, hruns]
      simp [hno]
    · rw [if_neg hnull, Option.map_eq_some_iff] at hrun
      obtain ⟨⟨strings', stores'⟩, hrest, heq⟩ := hrun
      obtain ⟨-, rfl⟩ := Prod.mk.inj heq
      rw [hruns, List.forall_mem_append, hcall.inside, ih hcall.rest hrest]
      tauto

/-- A call that starts at a newline leaves the rest of the stream. -/
lemma drop_newline (hsize : 2 ≤ size) :
    (nl :: l).drop (takeLine (size / 2).toNat (nl :: l)).length = l := by
  obtain ⟨k, hk⟩ : ∃ k, (size / 2).toNat = k + 1 := ⟨(size / 2).toNat - 1, by omega⟩
  rw [hk, takeLine, if_pos rfl]
  rfl

/-- The calls after one that starts at a newline. -/
lemma readLines_newline (hsize : 2 ≤ size) {n : ℕ} {bufs : ℕ → Buffer} {strings : List (List UInt8)}
    {stores : List ℕ} (h : Delivers read r (nl :: l))
    (hrun : readLines read size (n + 1) bufs r = some (strings, stores)) :
    ∃ r' strings' stores', Delivers read r' l ∧ strings = [nl] :: strings' ∧
      readLines read size n (fun k => bufs (k + 1)) r' = some (strings', stores') := by
  have hcall := fgets_spec hsize (bufs 0) h
  have hnull : (fgets read size (bufs 0) r).i ≠ 0 := fun h0 =>
    absurd (hcall.null.mp h0) (List.cons_ne_nil _ _)
  have hrest := hcall.rest
  rw [drop_newline hsize] at hrest
  rw [readLines, if_neg hnull, Option.map_eq_some_iff] at hrun
  obtain ⟨⟨strings', stores'⟩, hrun', heq⟩ := hrun
  refine ⟨_, strings', stores', hrest, ?_, hrun'⟩
  rw [← (Prod.mk.inj heq).1, string_newline hsize (bufs 0) h]

/-- A stream of newlines comes back line by line. -/
lemma strings_newlines (hsize : 2 ≤ size) {n : ℕ} {bufs : ℕ → Buffer} {strings : List (List UInt8)}
    {stores : List ℕ} (h : Delivers read r l) (hl : ∀ c ∈ l, c = nl)
    (hrun : readLines read size n bufs r = some (strings, stores)) :
    strings = List.replicate l.length [nl] := by
  induction n generalizing bufs r l strings stores with
  | zero => cases hrun
  | succ n ih =>
    cases l with
    | nil =>
      rw [readLines, if_pos ((fgets_spec hsize (bufs 0) h).null.mpr rfl), Option.some.injEq,
        Prod.mk.injEq] at hrun
      exact hrun.1.symm
    | cons c l =>
      obtain rfl := hl c List.mem_cons_self
      obtain ⟨r', strings', stores', hrest, rfl, hrun'⟩ := readLines_newline hsize h hrun
      rw [ih hrest (fun c hc => hl c (List.mem_cons_of_mem _ hc)) hrun', List.length_cons,
        List.replicate_succ]

/-- The first byte that is not a newline is followed by a byte that was in the buffer. -/
lemma strings_gap (hsize : 3 ≤ size) {n k : ℕ} {bufs : ℕ → Buffer} {strings : List (List UInt8)}
    {stores : List ℕ} {x : UInt8} (h : Delivers read r (List.replicate k nl ++ c :: l)) (hc : c ≠ nl)
    (h0 : c ≠ 0) (hx : x ≠ 0) (hbufs : ∀ k, bufs k 1 = x)
    (hrun : readLines read size n bufs r = some (strings, stores)) :
    ∃ t, strings.flatten = List.replicate k nl ++ c :: x :: t := by
  induction n generalizing bufs r k strings stores with
  | zero => cases hrun
  | succ n ih =>
    cases k with
    | zero =>
      have hcall := fgets_spec (show 2 ≤ size by omega) (bufs 0) h
      have hnull : (fgets read size (bufs 0) r).i ≠ 0 := fun h0 =>
        absurd (hcall.null.mp h0) (List.cons_ne_nil _ _)
      rw [readLines, if_neg hnull, Option.map_eq_some_iff] at hrun
      obtain ⟨⟨strings', stores'⟩, -, heq⟩ := hrun
      obtain ⟨t, ht⟩ := string_gap hsize h hc h0 ((hbufs 0).symm ▸ hx)
      refine ⟨t ++ strings'.flatten, ?_⟩
      rw [← (Prod.mk.inj heq).1, List.flatten_cons, ht, hbufs 0]
      rfl
    | succ k =>
      obtain ⟨r', strings', stores', hrest, rfl, hrun'⟩ := readLines_newline (by omega) h hrun
      obtain ⟨t, ht⟩ := ih hrest (fun k => hbufs (k + 1)) hrun'
      exact ⟨t, congrArg (nl :: ·) ht⟩

/-! ## When the stream comes back -/

lemma split_newlines (hsize : 2 ≤ size) (hl : ∀ c ∈ l, c = nl) :
    Split size l (List.replicate l.length [nl]) where
  flatten := by
    rw [List.eq_replicate_of_mem hl]
    simp
  length_le := by
    intro s hs
    rw [List.eq_of_mem_replicate hs, List.length_singleton]
    omega
  newline := by
    intro s hs
    rw [List.eq_of_mem_replicate hs]
    exact List.not_mem_nil
  full := by
    intro a s b heq _
    have hs : s ∈ List.replicate l.length [nl] := heq ▸ List.mem_append_right a List.mem_cons_self
    exact .inl (congrArg List.getLast? (List.eq_of_mem_replicate hs))

lemma exists_byte (c : UInt8) : ∃ x : UInt8, x ≠ 0 ∧ x ≠ c := by
  by_cases hc : c = 1
  · exact ⟨2, by decide, hc ▸ by decide⟩
  · exact ⟨1, by decide, Ne.symm hc⟩

/-- A stream without NULs in which not every byte is a newline does not come back. -/
lemma not_splitsStream (hsize : 2 ≤ size) (h : Delivers read r l) (h0 : 0 ∉ l) (hl : ¬ ∀ c ∈ l, c = nl) :
    ¬ SplitsStream read size r l := by
  -- the first byte that is not a newline
  obtain ⟨k, c, l, rfl, hc⟩ : ∃ k c l', l = List.replicate k nl ++ c :: l' ∧ c ≠ nl := by
    refine ⟨(l.takeWhile (· = nl)).length, ?_⟩
    have hsplit := List.takeWhile_append_dropWhile (p := fun c => decide (c = nl)) (l := l)
    have htake : l.takeWhile (· = nl) = List.replicate (l.takeWhile (· = nl)).length nl :=
      List.eq_replicate_of_mem fun c hc => by simpa using List.mem_takeWhile_imp hc
    cases hdrop : l.dropWhile (· = nl) with
    | nil =>
      refine absurd (fun c hc => ?_) hl
      rw [hdrop, List.append_nil] at hsplit
      rw [← hsplit] at hc
      simpa using List.mem_takeWhile_imp hc
    | cons c l' =>
      refine ⟨c, l', ?_, ?_⟩
      · rw [← htake, ← hdrop, hsplit]
      · have := List.head_dropWhile_not (fun c => decide (c = nl)) (l := l) (by rw [hdrop]; simp)
        simpa [hdrop] using this
  have hc0 : c ≠ 0 := fun hc0 => h0 (hc0 ▸ List.mem_append_right _ List.mem_cons_self)
  obtain ⟨x, hx0, hx⟩ := exists_byte (l.headD 0)
  intro hsplits
  obtain ⟨n, strings, stores, hrun, hin, hsplit⟩ := hsplits fun _ _ => x
  rcases hsize.eq_or_lt with rfl | hsize
  · refine (inside_iff le_rfl h hrun).mp hin ⟨dvd_rfl, [c], ?_, rfl, ?_⟩
    · exact ⟨List.replicate k nl, l, by simp⟩
    · exact fun hmem => hc (List.mem_singleton.mp hmem).symm
  · obtain ⟨t, ht⟩ := strings_gap hsize h hc hc0 hx0 (fun _ => rfl) hrun
    rw [(hsplit h0).flatten, List.append_cancel_left_eq, List.cons.injEq] at ht
    exact hx (by rw [ht.2]; rfl)

/-- A stream is split without a change if and only if it consists of newlines. With a NUL in the stream
only the stores are left to be checked: they are inside the buffer unless its size is even and the
stream fills it. -/
theorem splitsStream_iff (read : ρ → Option UInt8 × ρ) (size : ℤ) (r : ρ) (stream : List UInt8)
    (hsize : 2 ≤ size) (h : Delivers read r stream) : SplitsStream read size r stream ↔
      (∀ c ∈ stream, c = nl) ∨ 0 ∈ stream ∧ ¬ (2 ∣ size ∧ HasRun (size / 2).toNat stream) := by
  have hends := fun bufs => exists_readLines hsize (stream.length + 1) bufs (Nat.lt_succ_self _) h
  constructor
  · intro hsplits
    by_cases h0 : 0 ∈ stream
    · obtain ⟨n, strings, stores, hrun, hin, -⟩ := hsplits fun _ _ => 0
      exact .inr ⟨h0, (inside_iff hsize h hrun).mp hin⟩
    · exact .inl (by_contra fun hl => not_splitsStream hsize h h0 hl hsplits)
  · intro hcase bufs
    obtain ⟨⟨strings, stores⟩, hrun⟩ := hends bufs
    refine ⟨_, strings, stores, hrun, ?_⟩
    rcases hcase with hl | ⟨h0, hin⟩
    · refine ⟨(inside_iff hsize h hrun).mpr ?_, fun _ => ?_⟩
      · rintro ⟨-, b, hb, hlen, hnl⟩
        obtain ⟨c, hc⟩ := List.exists_mem_of_length_pos (l := b) (by omega)
        exact hnl (hl c (hb.subset hc) ▸ hc)
      · rw [strings_newlines hsize h hl hrun]
        exact split_newlines hsize hl
    · exact ⟨(inside_iff hsize h hrun).mpr hin, fun h => absurd h0 h⟩

/-- A reader of a list. -/
def readList : List UInt8 → Option UInt8 × List UInt8
  | [] => (none, [])
  | c :: l => (some c, l)

lemma delivers_readList (l : List UInt8) : Delivers readList l l := by
  induction l with
  | nil =>
    intro n
    have hnil : (fun r => (readList r).2)^[n] [] = [] := Function.iterate_fixed rfl n
    rw [hnil]
    rfl
  | cons c l ih => exact ⟨rfl, ih⟩

theorem splitsStream_newline : SplitsStream readList 8 [nl, nl] [nl, nl] :=
  (splitsStream_iff readList 8 [nl, nl] [nl, nl] (by decide) (delivers_readList _)).mpr (.inl (by simp))

/-- `ab` with a buffer of two bytes: two strings of which the second byte was in the buffer before, and a
store behind the buffer. -/
theorem readLines_ab : readLines readList 2 3 (fun _ _ => 120) [97, 98] =
      some ([[97, 120], [98, 120]], [0, 2, 0, 2, 0]) ∧
    ¬ SplitsStream readList 2 [97, 98] [97, 98] := by
  have hread : ∀ c l, readList (c :: l) = (some c, l) := fun _ _ => rfl
  have hend : readList [] = (none, []) := rfl
  have ha : (97 : UInt8) ≠ nl := by decide
  have hb : (98 : UInt8) ≠ nl := by decide
  constructor
  · simp [readLines, fgets, fgetsLoop, hread, hend, ha, hb, Fgets.store, Fgets.string, List.range_succ]
  · exact not_splitsStream le_rfl (delivers_readList _) (by decide) (by decide)

end Xv7.Ulib
