import Mathlib.Tactic.IntervalCases
import Xv7.Lib.Loop

/-!
# The scan of the MP configuration table

`mp.c`: the firmware leaves a floating pointer structure somewhere in low memory, which points to a
table of entries of different sizes. `mpinit` walks over the entries. The memory is given by virtual
addresses, and the table is an object of the program: a pointer into it does not wrap around.
-/

namespace Xv7.Mp

/-- The memory. -/
abbrev Memory := ℕ → UInt8

/-- `NCPU`. -/
abbrev NCPU : ℕ := 8

/-- `P2V`, of a 32-bit address. -/
def P2V (a : ℕ) : ℕ := (a + 0x80000000) % 2 ^ 32

variable (m : Memory)

/-- `sum`: the last byte of the sum of `len` bytes. -/
def sum (addr len : ℕ) : UInt8 :=
  UInt8.ofNat ((List.range len).foldl (fun sum i => sum + (m (addr + i)).toNat) 0)

/-- `memcmp(p, s, 4) == 0`. -/
def sameBytes (p : ℕ) (s : List UInt8) : Bool :=
  (List.range s.length).map (fun i => m (p + i)) == s

/-- A little-endian field of two bytes. -/
def ushort (a : ℕ) : ℕ := (m a).toNat + 256 * (m (a + 1)).toNat

/-- A little-endian field of four bytes. -/
def uint (a : ℕ) : ℕ := ushort m a + 65536 * ushort m (a + 2)

/-! ## Where the table is -/

/-- `sizeof(struct mp)`. -/
abbrev MPSIZE : ℕ := 16

/-- `sizeof(struct mpconf)`. -/
abbrev MPCONFSIZE : ℕ := 44

/-- `mpsearch1`. -/
def mpsearch1 (a len : ℕ) : Option ℕ :=
  ((List.range (len / MPSIZE)).map fun i => P2V a + MPSIZE * i).find? fun p =>
    -- "_MP_"
    sameBytes m p [0x5f, 0x4d, 0x50, 0x5f] && sum m p MPSIZE == 0

/-- `mpsearch`. -/
def mpsearch : Option ℕ :=
  let bda := P2V 0x400
  let p := ushort m (bda + 0x0E) * 16
  let found :=
    if p ≠ 0 then mpsearch1 m p 1024
    -- `p - 1024` is computed with 32 bits
    else mpsearch1 m ((ushort m (bda + 0x13) * 1024 + (2 ^ 32 - 1024)) % 2 ^ 32) 1024
  found <|> mpsearch1 m 0xF0000 0x10000

/-- `mp->physaddr`. -/
def physaddr (mp : ℕ) : ℕ := uint m (mp + 4)

/-- `mp->imcrp`. -/
def imcrp (mp : ℕ) : UInt8 := m (mp + 12)

/-- `conf->length`. -/
def length (conf : ℕ) : ℕ := ushort m (conf + 4)

/-- `conf->version`. -/
def version (conf : ℕ) : UInt8 := m (conf + 6)

/-- `mpconfig`: the floating pointer structure and the table. -/
def mpconfig : Option (ℕ × ℕ) :=
  match mpsearch m with
  | none => none
  | some mp =>
    if physaddr m mp = 0 then none
    else
      let conf := P2V (physaddr m mp)
      -- "PCMP"
      if sameBytes m conf [0x50, 0x43, 0x4d, 0x50] = false then none
      else if version m conf ≠ 1 ∧ version m conf ≠ 4 then none
      else if sum m conf (length m conf) ≠ 0 then none
      else some (mp, conf)

/-! ## The entries -/

/-- The kernel's variables, the cursor and `ismp`. -/
structure Scan where
  p : ℕ
  ncpu : ℕ
  apicid : ℕ → UInt8
  ioapicid : UInt8
  ismp : Bool

/-- One turn of the loop of `mpinit`, for a table that ends at `e`. -/
def scanStep (e : ℕ) (s : Scan) : Option Scan :=
  if s.p < e then
    some <| match (m s.p).toNat with
      -- `MPPROC`
      | 0 =>
        if s.ncpu < NCPU then
          { s with
            apicid := fun i => if i = s.ncpu then m (s.p + 1) else s.apicid i
            ncpu := s.ncpu + 1
            p := s.p + 20 }
        else { s with p := s.p + 20 }
      -- `MPIOAPIC`
      | 2 => { s with ioapicid := m (s.p + 1), p := s.p + 8 }
      -- `MPBUS`, `MPIOINTR` and `MPLINTR`
      | 1 | 3 | 4 => { s with p := s.p + 8 }
      -- the `break` leaves the `switch`, not the loop
      | _ => { s with ismp := false }
  else none

/-- The state before the loop. -/
def scanStart (conf : ℕ) : Scan := ⟨conf + MPCONFSIZE, 0, fun _ => 0, 0, true⟩

/-- How `mpinit` ends. -/
inductive Outcome where
  | panic (message : String)
  | ready (s : Scan) (imcr : Bool)

/-- `panic("Expect to run on an SMP")`. -/
abbrev Outcome.notSmp : Outcome := .panic "Expect to run on an SMP"

/-- `panic("Didn't find a suitable machine")`. -/
abbrev Outcome.unsuitable : Outcome := .panic "Didn't find a suitable machine"

/-- `mpinit`, with at most `n` turns of its loop. -/
def mpinit (n : ℕ) : Option Outcome :=
  match mpconfig m with
  | none => some .notSmp
  | some (mp, conf) =>
    match Loop.turns (scanStep m (conf + length m conf)) n (scanStart conf) with
    | none => none
    | some s => some (if s.ismp then .ready s (imcrp m mp != 0) else .unsuitable)

/-! ## Tables of known entries -/

/-- The size of an entry of a type that the kernel knows. -/
def entrySize (type : UInt8) : ℕ := if type = 0 then 20 else 8

/-- From `p` on there are only entries of the types that the kernel knows, up to the end `e`. -/
inductive Known (e : ℕ) : ℕ → Prop where
  | done {p : ℕ} (hp : e ≤ p) : Known e p
  | entry {p : ℕ} (hp : p < e) (htype : m p ≤ 4) (hrest : Known e (p + entrySize (m p))) : Known e p

variable {m} {e : ℕ} {s t : Scan}

/-- What a turn does at an entry of a known type. -/
lemma scanStep_known (hp : s.p < e) (htype : m s.p ≤ 4) :
    ∃ t, scanStep m e s = some t ∧ t.p = s.p + entrySize (m s.p) ∧ t.ismp = s.ismp ∧
      (s.ncpu ≤ NCPU → t.ncpu ≤ NCPU) := by
  have hle : (m s.p).toNat ≤ 4 := htype
  have hzero : m s.p = 0 ↔ (m s.p).toNat = 0 := by
    rw [← UInt8.toNat_inj]
    rfl
  unfold scanStep entrySize
  rw [if_pos hp]
  simp only [hzero]
  generalize (m s.p).toNat = type at hle
  interval_cases type
  · rw [if_pos rfl]
    by_cases hn : s.ncpu < NCPU
    · rw [if_pos hn]
      exact ⟨_, rfl, rfl, rfl, fun _ => hn⟩
    · rw [if_neg hn]
      exact ⟨_, rfl, rfl, rfl, id⟩
  all_goals exact ⟨_, rfl, rfl, rfl, id⟩

/-- At an entry of another type the cursor stays where it is. -/
lemma scanStep_unknown (hp : s.p < e) (htype : ¬ m s.p ≤ 4) :
    scanStep m e s = some { s with ismp := false } := by
  have hlt : 4 < (m s.p).toNat := not_le.mp htype
  unfold scanStep
  rw [if_pos hp]
  split <;> first | rfl | omega

lemma scanStep_eq_none_iff : scanStep m e s = none ↔ e ≤ s.p := by
  unfold scanStep
  split_ifs with hp
  · simpa using hp
  · simpa using hp

/-- Known entries are passed one after the other, and none is left where the scan stops. -/
lemma exists_turns_of_known (h : Known m e s.p) (hismp : s.ismp = true) (hncpu : s.ncpu ≤ NCPU) :
    ∃ n t, Loop.turns (scanStep m e) n s = some t ∧ e ≤ t.p ∧ t.ismp = true ∧ t.ncpu ≤ NCPU := by
  have hrun := Loop.exists_turns (scanStep m e)
    (fun s => Known m e s.p ∧ s.ismp = true ∧ s.ncpu ≤ NCPU) (fun s => e - s.p) ?_ ⟨h, hismp, hncpu⟩
  · obtain ⟨n, t, hn, hend, -, ht⟩ := hrun
    exact ⟨n, t, hn, scanStep_eq_none_iff.mp hend, ht⟩
  · rintro s t ⟨hknown, hismp, hncpu⟩ hs
    cases hknown with
    | done hp =>
      rw [scanStep_eq_none_iff.mpr hp] at hs
      cases hs
    | entry hp htype hrest =>
      obtain ⟨t', ht', hcursor, hsame, hbound⟩ := scanStep_known hp htype
      obtain rfl : t' = t := Option.some.inj (ht'.symm.trans hs)
      refine ⟨⟨hcursor ▸ hrest, hsame.trans hismp, hbound hncpu⟩, ?_⟩
      have hsize : 0 < entrySize (m s.p) := by
        unfold entrySize
        split_ifs <;> omega
      omega

/-- A scan that comes to an entry of another type goes on for ever. -/
lemma turns_of_not_known (h : ¬ Known m e s.p) (n : ℕ) : Loop.turns (scanStep m e) n s = none := by
  refine Loop.turns_eq_none (fun s => ¬ Known m e s.p) (fun s h => ?_) n h
  have hp : s.p < e := not_le.mp fun hp => h (.done hp)
  by_cases htype : m s.p ≤ 4
  · obtain ⟨t, ht, hcursor, -⟩ := scanStep_known hp htype
    refine ⟨t, ht, fun hrest => h (.entry hp htype ?_)⟩
    exact hcursor ▸ hrest
  · exact ⟨_, scanStep_unknown hp htype, h⟩

/-! ## When the scan ends -/

/-- `mpinit` ends: all entries are consumed and there are at most `NCPU` processors, or it panics because
the machine is not suitable. -/
def ScanEnds (m : Memory) (conf : ℕ) : Prop :=
  ∃ n o, mpinit m n = some o ∧ (o = .unsuitable ∨
    ∃ s imcr, o = .ready s imcr ∧ conf + length m conf ≤ s.p ∧ s.ncpu ≤ NCPU)

/-- The scan of an accepted table ends if and only if all the entries that it comes to have a known type. -/
theorem scanEnds_iff (m : Memory) (mp conf : ℕ) (h : mpconfig m = some (mp, conf)) :
    ScanEnds m conf ↔ Known m (conf + length m conf) (conf + MPCONFSIZE) := by
  constructor
  · rintro ⟨n, o, ho, -⟩
    by_contra hknown
    have hturns := turns_of_not_known (s := scanStart conf) hknown n
    simp [mpinit, h, hturns] at ho
  · intro hknown
    obtain ⟨n, s, hs, hend, hismp, hncpu⟩ :=
      exists_turns_of_known (s := scanStart conf) hknown rfl (Nat.zero_le _)
    refine ⟨n, .ready s (imcrp m mp != 0), ?_, .inr ⟨s, _, rfl, hend, hncpu⟩⟩
    simp [mpinit, h, hs, hismp]

/-! ## Two tables -/

/-- A memory with the floating pointer structure in the EBDA, at 0x9fc00, and a table at 0x1000. -/
def memory (table : List UInt8) : Memory := fun a =>
  if a = P2V 0x40E then 0xc0
  else if a = P2V 0x40F then 0x9f
  else if P2V 0x9fc00 ≤ a then
    [0x5f, 0x4d, 0x50, 0x5f, 0x00, 0x10, 0x00, 0x00, 0x01, 0x04, 0x90].getD (a - P2V 0x9fc00) 0
  else table.getD (a - P2V 0x1000) 0

/-- A header, with the length of the table and its checksum. -/
def header (length checksum : UInt8) : List UInt8 :=
  [0x50, 0x43, 0x4d, 0x50, length, 0, 4, checksum] ++ List.replicate 36 0

/-- A processor and an I/O APIC. -/
def oneCpu : Memory :=
  memory (header 72 0x7a ++ (0 :: 1 :: List.replicate 18 0) ++ (2 :: 7 :: List.replicate 6 0))

theorem scanEnds_oneCpu : ScanEnds oneCpu (P2V 0x1000) := by
  refine (scanEnds_iff oneCpu (P2V 0x9fc00) (P2V 0x1000) (by decide +kernel)).mpr ?_
  refine .entry (by decide) (by decide) (.entry (by decide) (by decide) (.done (by decide)))

/-- One entry of type 5. -/
def unknownEntry : Memory := memory (header 45 0x9a ++ [5])

/-- The table is accepted, and the scan stays at its entry. -/
theorem mpinit_unknownEntry : mpconfig unknownEntry = some (P2V 0x9fc00, P2V 0x1000) ∧
    ∀ n, mpinit unknownEntry n = none := by
  have hconfig : mpconfig unknownEntry = some (P2V 0x9fc00, P2V 0x1000) := by decide +kernel
  refine ⟨hconfig, fun n => ?_⟩
  have hknown : ¬ Known unknownEntry (P2V 0x1000 + length unknownEntry (P2V 0x1000))
      (P2V 0x1000 + MPCONFSIZE) := by
    intro h
    cases h with
    | done hp => exact absurd hp (by decide)
    | entry hp htype hrest => exact absurd htype (by decide)
  have hturns := turns_of_not_known (s := scanStart (P2V 0x1000)) hknown n
  simp [mpinit, hconfig, hturns]

end Xv7.Mp
